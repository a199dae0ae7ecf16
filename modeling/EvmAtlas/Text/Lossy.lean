import EvmAtlas.Text.HexInput

/-!
# Bytes as text

The content of a file is bytes, and not all bytes are text. A byte that begins no character reads
as U+FFFD.
-/

namespace EvmAtlas.Bytes

/-- The characters of bytes, where the first of them may still belong to the character before. -/
def charsFrom : Nat → List UInt8 → List Char
  | _, [] => []
  | inner + 1, _ :: rest => charsFrom inner rest
  | 0, byte :: rest =>
      match HexInput.leading? (byte :: rest) with
      | some char => char :: charsFrom (char.utf8Size - 1) rest
      | none => Char.ofNat 0xfffd :: charsFrom 0 rest

/-- The text of bytes. -/
def asText (bytes : Bytes) : String :=
  String.ofList (charsFrom 0 bytes.toList)

end EvmAtlas.Bytes
