import EvmAtlas.Fault
import EvmAtlas.Text.Blank

/-!
# Hexadecimal input

Code and call data are given as hexadecimal digits that people have copied from
elsewhere: white space may stand anywhere, and a prefix is dropped. What is left has to be
whole bytes. An input is a byte string, which need not be text.
-/

namespace EvmAtlas.HexInput

/-- The character that bytes begin with, if they begin with one. -/
def leading? (bytes : List UInt8) : Option Char :=
  (bytes.take 4).toByteArray.utf8DecodeChar? 0

/-- Bytes without their white space, where the first of them may still belong to a blank. -/
def joinFrom : Nat → List UInt8 → List UInt8
  | _, [] => []
  | blank + 1, _ :: rest => joinFrom blank rest
  | 0, byte :: rest =>
      match (leading? (byte :: rest)).filter isBlank with
      | some char => joinFrom (char.utf8Size - 1) rest
      | none => byte :: joinFrom 0 rest

/-- Bytes without a beginning, if they begin with it. -/
def dropLead (lead bytes : List UInt8) : List UInt8 :=
  if lead.isPrefixOf bytes then bytes.drop lead.length else bytes

/-- The digits of an input: neither white space nor prefixes. -/
def body (input : List UInt8) : List UInt8 :=
  dropLead [0x30, 0x58] (dropLead [0x30, 0x78] (joinFrom 0 input))

/-- A byte as the code point of the same number. -/
def codePoint (byte : UInt8) : Char :=
  Char.ofNat byte.toNat

/-- A byte as a code point: the code, and the character if it can be shown. -/
def codePointText (byte : UInt8) : String :=
  let code := "U+" ++ String.ofList ((Hex.padded 4 byte.toNat).toList.map Char.toUpper)
  if isPrintable (codePoint byte) then code ++ " '" ++ (codePoint byte).toString ++ "'" else code

/-- The first byte that is no digit. -/
def firstBad? (bytes : List UInt8) : Option UInt8 :=
  bytes.find? fun byte => (Hex.value? (codePoint byte)).isNone

/-- The bytes that an input spells. -/
def readBytes (input : Bytes) : Except Fault Bytes :=
  let digits := body input.toList
  if digits.length % 2 = 1 then
    .error (.ofText ("hex string has odd length: " ++ toString digits.length))
  else
    match firstBad? digits with
    | some byte =>
        .error (.met (.during "decode hex")
          (.message ("encoding/hex: invalid byte: " ++ codePointText byte)))
    | none => .ok (Bytes.ofList ((Hex.toBytes? (digits.map codePoint)).getD []))

def read (input : String) : Except Fault Bytes :=
  readBytes input.toUTF8

end EvmAtlas.HexInput
