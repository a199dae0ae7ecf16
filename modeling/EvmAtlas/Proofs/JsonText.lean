import Mathlib.Logic.Function.Basic
import EvmAtlas.Json.Printer
import EvmAtlas.Json.Reader

/-!
# Written values are read back

`Json.Simple` are the values of strings and objects without escapes, up to a depth of
nesting. Both ways to write such a value give a text that the reader takes for this very
value. What the reader does with a text is put together from what it does with its parts:
`Reader.Takes` is one part, and `Json.Reads` a part that is a value.
-/

namespace EvmAtlas.Json

/-- A character that stands for itself inside a string. -/
def IsPlain (char : Char) : Prop :=
  char ≠ '"' ∧ char ≠ '\\' ∧ 0x20 ≤ char.toNat

instance : DecidablePred IsPlain := fun char =>
  inferInstanceAs (Decidable (char ≠ '"' ∧ char ≠ '\\' ∧ 0x20 ≤ char.toNat))

/-- Characters that stand for themselves inside a string. -/
def Plain (raw : List Char) : Prop :=
  ∀ char ∈ raw, IsPlain char

instance : DecidablePred Plain := fun raw =>
  List.decidableBAll IsPlain raw

theorem unescapeRounds_plain {raw : List Char} (plain : Plain raw) {rounds : Nat}
    (enough : raw.length ≤ rounds) : unescapeRounds rounds raw = raw := by
  induction raw generalizing rounds with
  | nil =>
      cases rounds with
      | zero => rfl
      | succ rounds => rfl
  | cons char rest ih =>
      cases rounds with
      | zero => cases enough
      | succ rounds =>
          obtain ⟨⟨-, noSlash, -⟩, tailPlain⟩ := List.forall_mem_cons.mp plain
          have tail := ih tailPlain (Nat.le_of_succ_le_succ enough)
          simp [unescapeRounds, noSlash, tail]

theorem unescape_plain {raw : List Char} (plain : Plain raw) : unescape raw = raw :=
  unescapeRounds_plain plain (Nat.le_refl _)

/-- Values of plain strings and of objects with plain keys, nested to some depth. -/
inductive Simple : Nat → Json → Prop
  | string {depth : Nat} {raw : List Char} (plain : Plain raw) : Simple depth (.string raw)
  | object {depth : Nat} {members : List (List Char × Json)}
      (keys : ∀ entry ∈ members, Plain entry.1)
      (values : ∀ entry ∈ members, Simple depth entry.2) : Simple (depth + 1) (.object members)

section Members

variable {depth : Nat}

/-- A member with a plain name and a simple value. -/
inductive SimpleMember (depth : Nat) : String × Json → Prop
  | mk {name : String} {value : Json} (plain : Plain name.toList)
      (simple : Simple depth value) : SimpleMember depth (name, value)

theorem simple_members {entries : List (String × Json)}
    (simple : ∀ entry ∈ entries, SimpleMember depth entry) :
    Simple (depth + 1) (.members entries) := by
  apply Simple.object
  · simp only [List.forall_mem_map]
    intro entry member
    cases simple entry member with
    | mk plain _ => exact plain
  · simp only [List.forall_mem_map]
    intro entry member
    cases simple entry member with
    | mk _ simple => exact simple

theorem simple_optional {entry : String × Json} (simple : SimpleMember depth entry)
    (absent : Prop) [Decidable absent] :
    ∀ other ∈ if absent then [] else [entry], SimpleMember depth other := by
  intro other member
  split at member
  · cases member
  · rw [List.mem_singleton.mp member]
    exact simple

end Members

namespace Reader

/-- A reader takes a text and goes on as another one. -/
def Takes (reader : Reader) (text : List Char) (next : Reader) : Prop :=
  reader.run text = some next

namespace Takes

variable {reader middle next : Reader} {char : Char} {text rest : List Char}

theorem nil : Takes reader [] reader :=
  rfl

theorem cons (step : reader.step char = some middle) (taken : Takes middle rest next) :
    Takes reader (char :: rest) next := by
  rw [Takes, run, step]
  exact taken

theorem append (first : Takes reader text middle) (second : Takes middle rest next) :
    Takes reader (text ++ rest) next := by
  induction text generalizing reader with
  | nil =>
      cases first
      exact second
  | cons char tail ih =>
      rw [Takes, run] at first
      cases step : reader.step char with
      | none =>
          rw [step] at first
          cases first
      | some after =>
          rw [step] at first
          exact cons step (ih first)

end Takes

/-- White space. -/
def Blank (text : List Char) : Prop :=
  ∀ char ∈ text, isSpace char = true

theorem takes_blank {reader : Reader}
    (skips : ∀ char, isSpace char = true → reader.step char = some reader) {text : List Char}
    (blank : Blank text) : Takes reader text reader := by
  induction text with
  | nil => exact .nil
  | cons char rest ih =>
      obtain ⟨first, later⟩ := List.forall_mem_cons.mp blank
      exact .cons (skips char first) (ih later)

theorem takes_plain {raw : List Char} (plain : Plain raw) (opened : List Opened)
    (text : List Char) (isKey : Bool) :
    Takes ⟨opened, .string text .none isKey⟩ raw
      ⟨opened, .string (raw.reverse ++ text) .none isKey⟩ := by
  induction raw generalizing text with
  | nil => exact .nil
  | cons char rest ih =>
      obtain ⟨⟨noQuote, noSlash, printable⟩, tailPlain⟩ := List.forall_mem_cons.mp plain
      rw [List.reverse_cons, List.append_assoc]
      refine .cons ?_ (ih tailPlain _)
      simp only [step, inString, noQuote, noSlash, Nat.not_lt.mpr printable, if_false]
      rfl

theorem takes_key {key : List Char} (plain : Plain key) (done : List (List Char × Json))
    (opened : List Opened) {mode : Mode} (atKey : mode = .firstKey ∨ mode = .key) :
    Takes ⟨.object done :: opened, mode⟩ (quoted key) ⟨.member done key :: opened, .colon⟩ := by
  have opening : step ⟨.object done :: opened, mode⟩ '"' =
      some ⟨.object done :: opened, .string [] .none true⟩ := by
    cases atKey with
    | inl first => rw [first]; rfl
    | inr later => rw [later]; rfl
  refine .cons opening ((takes_plain plain _ [] true).append (.cons ?_ .nil))
  simp [step, inString]

end Reader

open Reader

/-- A text that the reader takes for a value, wherever there is room for its nesting. -/
def Reads (depth : Nat) (value : Json) (text : List Char) : Prop :=
  ∀ opened : List Opened, opened.length + depth ≤ depthLimit →
    Takes ⟨opened, .value⟩ text (complete value opened)

theorem Reads.read? {depth : Nat} {value : Json} {text : List Char}
    (reads : Reads depth value text) (shallow : depth ≤ depthLimit) :
    Json.read? text = some value := by
  have taken := reads [] (by simpa using shallow)
  rw [Json.read?, start, taken]
  rfl

/-- A text of one member, with white space after the colon. -/
inductive MemberText (depth : Nat) : List Char × Json → List Char → Prop
  | mk {key gap text : List Char} {value : Json} (plain : Plain key) (blank : Blank gap)
      (reads : Reads depth value text) :
      MemberText depth (key, value) (quoted key ++ ':' :: (gap ++ text))

/-- A text of some members and the closing brace, with white space after the commas and
before the brace. -/
inductive MembersText (depth : Nat) : List (List Char × Json) → List Char → Prop
  | last {entry : List Char × Json} {text gap : List Char}
      (member : MemberText depth entry text) (blank : Blank gap) :
      MembersText depth [entry] (text ++ (gap ++ ['\x7d']))
  | more {entry : List Char × Json} {rest : List (List Char × Json)} {text gap tail : List Char}
      (member : MemberText depth entry text) (blank : Blank gap)
      (others : MembersText depth rest tail) :
      MembersText depth (entry :: rest) (text ++ ',' :: (gap ++ tail))

section Object

variable {depth : Nat} {opened : List Opened} {text : List Char}

theorem MemberText.takes {entry : List Char × Json} (written : MemberText depth entry text)
    (room : opened.length + (depth + 1) ≤ depthLimit) (done : List (List Char × Json))
    {mode : Mode} (atKey : mode = .firstKey ∨ mode = .key) :
    Takes ⟨.object done :: opened, mode⟩ text ⟨.object (entry :: done) :: opened, .after⟩ := by
  cases written with
  | @mk key gap text value plain blank reads =>
      have inner : (Opened.member done key :: opened).length + depth ≤ depthLimit := by
        rw [List.length_cons]
        omega
      refine (takes_key plain done opened atKey).append (.cons rfl ?_)
      refine (takes_blank ?_ blank).append (reads (.member done key :: opened) inner)
      intro char space
      simp [step, beginValue, space]

theorem MembersText.takes {members : List (List Char × Json)}
    (written : MembersText depth members text)
    (room : opened.length + (depth + 1) ≤ depthLimit) (done : List (List Char × Json))
    {mode : Mode} (atKey : mode = .firstKey ∨ mode = .key) :
    Takes ⟨.object done :: opened, mode⟩ text
      (complete (.object (done.reverse ++ members)) opened) := by
  -- Only before the first key could the object have ended, so the mode changes on the way.
  induction written generalizing done mode with
  | @last entry text gap member blank =>
      refine (member.takes room done atKey).append ?_
      refine (takes_blank ?_ blank).append (.cons ?_ .nil)
      · intro char space
        simp [step, afterValue, space]
      · simp [step, afterValue, isSpace]
  | @more entry rest text gap tail member blank others ih =>
      refine (member.takes room done atKey).append (.cons rfl ?_)
      refine (takes_blank ?_ blank).append ?_
      · intro char space
        simp [step, space]
      · have taken := ih (entry :: done) (.inr rfl)
        rwa [List.reverse_cons, List.append_assoc] at taken

theorem reads_string {raw : List Char} (plain : Plain raw) :
    Reads depth (.string raw) (quoted raw) := by
  intro opened _
  refine .cons rfl ((takes_plain plain opened [] false).append (.cons ?_ .nil))
  simp [step, inString]

theorem step_openObject (room : opened.length < depthLimit) :
    step ⟨opened, .value⟩ '\x7b' = some ⟨.object [] :: opened, .firstKey⟩ :=
  if_pos room

theorem reads_object_nil : Reads (depth + 1) (.object []) ['\x7b', '\x7d'] := by
  intro opened room
  exact .cons (step_openObject (by omega)) (.cons rfl .nil)

theorem MembersText.reads {members : List (List Char × Json)} {gap : List Char}
    (written : MembersText depth members text) (blank : Blank gap) :
    Reads (depth + 1) (.object members) ('\x7b' :: (gap ++ text)) := by
  intro opened room
  refine .cons (step_openObject (by omega)) ((takes_blank ?_ blank).append ?_)
  · intro char space
    simp [step, space]
  · exact written.takes room [] (.inl rfl)

end Object

theorem blank_nil : Blank [] :=
  nofun

theorem blank_space : Blank [' '] := by
  intro char member
  rw [List.mem_singleton.mp member]
  rfl

theorem blank_newLine (level : Nat) : Blank (newLine level) := by
  intro char member
  cases List.mem_cons.mp member with
  | inl first => rw [first]; rfl
  | inr later => rw [List.eq_of_mem_replicate later]; rfl

section Members

variable {depth : Nat} {members : List (List Char × Json)}
  (keys : ∀ entry ∈ members, Plain entry.1)

include keys

theorem membersText_compact (nonempty : members ≠ [])
    (values : ∀ entry ∈ members, Reads depth entry.2 entry.2.compact) :
    MembersText depth members (compactMembers members) := by
  induction members with
  | nil => exact absurd rfl nonempty
  | cons entry rest ih =>
      obtain ⟨key, value⟩ := entry
      obtain ⟨plain, keys⟩ := List.forall_mem_cons.mp keys
      obtain ⟨reads, values⟩ := List.forall_mem_cons.mp values
      have member : MemberText depth (key, value) (quoted key ++ ':' :: ([] ++ value.compact)) :=
        .mk plain blank_nil reads
      cases rest with
      | nil =>
          have written := MembersText.last member blank_nil
          simpa [compactMembers] using written
      | cons second others =>
          have written := MembersText.more member blank_nil (ih keys (by simp) values)
          simpa [compactMembers] using written

theorem membersText_indented (nonempty : members ≠ []) (level : Nat)
    (values : ∀ entry ∈ members, Reads depth entry.2 (entry.2.indented (level + 1))) :
    MembersText depth members (indentedMembers level members) := by
  induction members with
  | nil => exact absurd rfl nonempty
  | cons entry rest ih =>
      obtain ⟨key, value⟩ := entry
      obtain ⟨plain, keys⟩ := List.forall_mem_cons.mp keys
      obtain ⟨reads, values⟩ := List.forall_mem_cons.mp values
      have member : MemberText depth (key, value)
          (quoted key ++ ':' :: ([' '] ++ value.indented (level + 1))) :=
        .mk plain blank_space reads
      cases rest with
      | nil =>
          have written := MembersText.last member (blank_newLine level)
          simpa [indentedMembers] using written
      | cons second others =>
          have written := MembersText.more member (blank_newLine (level + 1))
            (ih keys (by simp) values)
          simpa [indentedMembers] using written

end Members

namespace Simple

variable {depth : Nat} {value : Json}

theorem reads_compact (simple : Simple depth value) : Reads depth value value.compact := by
  induction simple with
  | string plain =>
      rw [compact]
      exact reads_string plain
  | @object depth members keys values ih =>
      rw [compact]
      cases members with
      | nil => exact reads_object_nil
      | cons first rest => exact (membersText_compact keys (by simp) ih).reads blank_nil

theorem reads_indented (simple : Simple depth value) (level : Nat) :
    Reads depth value (value.indented level) := by
  induction simple generalizing level with
  | string plain =>
      rw [indented]
      exact reads_string plain
  | @object depth members keys values ih =>
      cases members with
      | nil =>
          rw [indented]
          exact reads_object_nil
      | cons first rest =>
          rw [indented]
          · exact (membersText_indented keys (by simp) level fun entry member =>
              ih entry member (level + 1)).reads (blank_newLine (level + 1))
          · simp

theorem read?_compactText (simple : Simple depth value) (shallow : depth ≤ depthLimit) :
    Json.read? value.compactText.toList = some value := by
  rw [compactText, String.toList_ofList]
  exact simple.reads_compact.read? shallow

theorem read?_indentedText (simple : Simple depth value) (shallow : depth ≤ depthLimit) :
    Json.read? value.indentedText.toList = some value := by
  rw [indentedText, String.toList_ofList]
  exact (simple.reads_indented 0).read? shallow

end Simple

end EvmAtlas.Json
