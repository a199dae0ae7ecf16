import Mathlib.Data.Prod.Basic
import EvmAtlas.Proofs.Emission
import EvmAtlas.Proofs.SavedSets

/-!
# A drawing declares the graph

The text of a drawing is read back line by line. `Declares` says what a line declares, without
regard to how it came about. The line of an event declares this event, by `declares_line`, and
nothing else, by `Declares.unique`. The labels hold no quote and no line break, since all that is
written into them is plain, and different positions have different names. So the lines of a drawing
declare what the program announces, which by `Program.Canonical` is closed and free of repetitions.
-/

namespace EvmAtlas

def lines (text : String) : List (List Char) :=
  text.toList.splitOn '\n'

/-- A name that needs no quotes. -/
def IsName (name : List Char) : Prop :=
  name ≠ [] ∧ ∀ char ∈ name, char.isAlphanum = true

/-- The text of a label with some lines, which are aligned to the left. -/
def labelText (pieces : List (List Char)) : List Char :=
  pieces.flatMap (· ++ ['\\', 'l'])

/-- What a line of a drawing declares: a node by its name, or an edge by the names at its ends. -/
inductive Declares : List Char → List Char × Option (List Char) → Prop where
  | node {name : List Char} {pieces : List (List Char)} (named : IsName name)
      (plain : ∀ piece ∈ pieces, Json.Plain piece) :
      Declares ('\t' :: (name ++ (" [label=\"".toList ++ (labelText pieces ++ "\"];".toList))))
        (name, none)
  | edge {source target : List Char} (named : IsName source) (alsoNamed : IsName target) :
      Declares ('\t' :: (source ++ (" -> ".toList ++ (target ++ ";".toList))))
        (source, some target)

/-- The name of the node of a block. -/
def nodeName (pc : UInt64) : List Char :=
  'b' :: Nat.toDigits 10 pc.toNat

/-- The names of what an event announces. -/
def GraphEvent.names (event : GraphEvent) : List Char × Option (List Char) :=
  event.subject.map nodeName (Option.map nodeName)

/-! ## What is written into a line -/

theorem isName_nodeName (pc : UInt64) : IsName (nodeName pc) := by
  refine ⟨List.cons_ne_nil _ _, ?_⟩
  intro char member
  rcases List.mem_cons.mp member with rfl | member
  · rfl
  · have digit := Nat.isDigit_of_mem_toDigits (by decide) (by decide) member
    simp [Char.isAlphanum, digit]

theorem nodeName_injective : Function.Injective nodeName := by
  intro pc other same
  have digits := congrArg (Nat.ofDigitChars 10 · 0) (List.cons.inj same).2
  simp only [Nat.ofDigitChars_ten_toDigits] at digits
  exact UInt64.toNat.inj digits

namespace Json

theorem plain_append {left right : List Char} (plain : Plain left) (also : Plain right) :
    Plain (left ++ right) := by
  intro char member
  exact (List.mem_append.mp member).elim (plain char) (also char)

theorem plain_decimal (number : Nat) : Plain (toString number).toList := by
  have digits : ∀ code < 58, 48 ≤ code → IsPlain (Char.ofNat code) := by decide
  intro char member
  rw [Nat.toString_eq_ofList_toDigits, String.toList_ofList] at member
  obtain ⟨low, high⟩ := Char.isDigit_iff_toNat.mp
    (Nat.isDigit_of_mem_toDigits (by decide) (by decide) member)
  have plain := digits char.toNat (Nat.lt_succ_of_le high) low
  rwa [Char.ofNat_toNat] at plain

theorem plain_name (opcode : Opcode) : Plain opcode.name.toList := by
  cases opcode with
  | unary operation | binary operation | ternary operation | reading operation
  | copy operation | unsupported operation => cases operation <;> decide
  | push index | dup index | swap index | log index =>
      simp only [Opcode.name, String.toList_append]
      exact plain_append (by decide) (plain_decimal _)
  | _ => decide

theorem plain_byteName (byte : UInt8) : Plain (Opcode.byteName byte).toList := by
  unfold Opcode.byteName
  split
  · exact plain_name _
  · simp only [byteText, Hex.ofNat, String.toList_append, String.toList_ofList]
    exact plain_append (plain_append (by decide)
      (Hex.spells_toDigits byte.toNat).isDigits.plain) (by decide)

theorem plain_intercalate {gap : List Char} (plain : Plain gap) {parts : List (List Char)}
    (plains : ∀ part ∈ parts, Plain part) : Plain (gap.intercalate parts) := by
  induction parts with
  | nil => simp [Plain]
  | cons first rest ih =>
      obtain ⟨head, tail⟩ := List.forall_mem_cons.mp plains
      cases rest with
      | nil => simpa using head
      | cons second rest =>
          rw [List.intercalate_cons_cons]
          exact plain_append (plain_append head plain) (ih tail)

theorem plain_positionsText (positions : List UInt64) : Plain (positionsText positions).toList := by
  simp only [positionsText, String.toList_append, String.toList_intercalate, List.map_map]
  refine plain_append (plain_append (by decide) (plain_intercalate (by decide) ?_)) (by decide)
  intro part member
  obtain ⟨position, -, rfl⟩ := List.mem_map.mp member
  exact plain_decimal position.toNat

theorem plain_text (instruction : Instruction) : Plain instruction.text.toList := by
  obtain ⟨pc, action⟩ := instruction
  cases action with
  | plain opcode => exact plain_name opcode
  | invalid byte => exact plain_byteName byte
  | push index literal =>
      simp only [Instruction.text, Word.text, Hex.ofNat, String.toList_append,
        String.toList_ofList]
      exact plain_append (plain_append (plain_name _) (by decide))
        (Hex.spells_toDigits literal.toNat).isDigits.plain
  | jump found =>
      simp only [Instruction.text, String.toList_append]
      exact plain_append (by decide) (plain_positionsText found)
  | branch found next =>
      simp only [Instruction.text, String.toList_append]
      exact plain_append (plain_append (plain_append (by decide) (plain_positionsText found))
        (by decide)) (plain_decimal next.toNat)
  | fall next =>
      simp only [Instruction.text, String.toList_append]
      exact plain_append (by decide) (plain_decimal next.toNat)

end Json

/-- The lines of the label of a block. -/
def Block.pieces (block : Block) : List (List Char) :=
  (block.instructions.map fun instruction =>
    (Hex.padded 4 instruction.pc.toNat ++ ": " ++ instruction.text).toList) ++
    [("gas: " ++ toString block.staticGas.toNat).toList]

theorem Block.plain_pieces (block : Block) : ∀ piece ∈ block.pieces, Json.Plain piece := by
  intro piece member
  rcases List.mem_append.mp member with member | member
  · obtain ⟨instruction, -, rfl⟩ := List.mem_map.mp member
    simp only [String.toList_append]
    refine Json.plain_append (Json.plain_append ?_ (by decide)) (Json.plain_text instruction)
    have digits := (Hex.isDigits_padded 4 instruction.pc.toNat).plain
    exact fun char inside => digits char (.tail _ (.tail _ inside))
  · rw [List.mem_singleton.mp member, String.toList_append]
    exact Json.plain_append (by decide) (Json.plain_decimal _)

def GraphEvent.line : GraphEvent → List Char
  | .node pc block =>
      '\t' :: (nodeName pc ++
        (" [label=\"".toList ++ (labelText block.pieces ++ "\"];".toList)))
  | .edge source target =>
      '\t' :: (nodeName source ++ (" -> ".toList ++ (nodeName target ++ ";".toList)))

theorem GraphEvent.toList_dotLine (event : GraphEvent) :
    event.dotLine.toList = event.line ++ ['\n'] := by
  cases event with
  | node pc block =>
      simp [dotLine, line, nodeName, labelText, Block.pieces, Instruction.dotLine,
        String.toList_join, List.flatMap_map]
  | edge source target => simp [dotLine, line, nodeName]

theorem GraphEvent.declares_line (event : GraphEvent) : Declares event.line event.names := by
  cases event with
  | node pc block => exact .node (isName_nodeName pc) block.plain_pieces
  | edge source target => exact .edge (isName_nodeName source) (isName_nodeName target)

/-! ## What a line declares -/

/-- What does not go on with a letter or a digit. -/
def Stops (rest : List Char) : Prop :=
  rest.head?.any Char.isAlphanum = false

theorem stops_label (rest : List Char) : Stops (" [label=\"".toList ++ rest) :=
  rfl

theorem stops_arrow (rest : List Char) : Stops (" -> ".toList ++ rest) :=
  rfl

theorem stops_semicolon : Stops ";".toList :=
  rfl

theorem IsName.append_inj {name other rest more : List Char} (named : IsName name)
    (alsoNamed : IsName other) (stops : Stops rest) (halts : Stops more)
    (same : name ++ rest = other ++ more) : name = other ∧ rest = more := by
  obtain ⟨-, letters⟩ := named
  obtain ⟨-, others⟩ := alsoNamed
  induction name generalizing other with
  | nil =>
      cases other with
      | nil => exact ⟨rfl, same⟩
      | cons first =>
          rw [List.nil_append] at same
          simp [Stops, same, others first (.head _)] at stops
  | cons letter name ih =>
      cases other with
      | nil =>
          rw [List.nil_append] at same
          simp [Stops, ← same, letters letter (.head _)] at halts
      | cons first other =>
          obtain ⟨rfl, tails⟩ := List.cons.inj same
          obtain ⟨-, letters⟩ := List.forall_mem_cons.mp letters
          obtain ⟨-, others⟩ := List.forall_mem_cons.mp others
          obtain ⟨rfl, rests⟩ := ih tails letters others
          exact ⟨rfl, rests⟩

theorem Declares.unique {line : List Char} {subject other : List Char × Option (List Char)}
    (declares : Declares line subject) (also : Declares line other) : subject = other := by
  generalize same : line = again at also
  cases declares with
  | node named _ =>
      cases also with
      | node alsoNamed _ =>
          have tails := (List.cons.inj same).2
          obtain ⟨rfl, -⟩ := named.append_inj alsoNamed (stops_label _) (stops_label _) tails
          rfl
      | edge alsoNamed _ =>
          have tails := (List.cons.inj same).2
          obtain ⟨-, rests⟩ := named.append_inj alsoNamed (stops_label _) (stops_arrow _) tails
          simp at rests
  | edge named targetNamed =>
      cases also with
      | node alsoNamed _ =>
          have tails := (List.cons.inj same).2
          obtain ⟨-, rests⟩ := named.append_inj alsoNamed (stops_arrow _) (stops_label _) tails
          simp at rests
      | edge alsoNamed alsoTarget =>
          have tails := (List.cons.inj same).2
          obtain ⟨rfl, rests⟩ := named.append_inj alsoNamed (stops_arrow _) (stops_arrow _) tails
          have targets := List.append_cancel_left rests
          obtain ⟨rfl, -⟩ :=
            targetNamed.append_inj alsoTarget stops_semicolon stops_semicolon targets
          rfl

theorem Declares.noBreak {line : List Char} {subject : List Char × Option (List Char)}
    (declares : Declares line subject) : '\n' ∉ line := by
  have letters {name : List Char} (named : IsName name) : '\n' ∉ name := by
    intro member
    exact absurd (named.2 _ member) (by decide)
  cases declares with
  | @node _ pieces named plain =>
      have label : '\n' ∉ labelText pieces := by
        intro member
        obtain ⟨piece, inside, member⟩ := List.mem_flatMap.mp member
        rcases List.mem_append.mp member with member | member
        · exact absurd (plain piece inside _ member) (by decide)
        · simp at member
      simp [letters named, label]
  | edge named alsoNamed => simp [letters named, letters alsoNamed]

/-! ## The lines of a drawing -/

/-- The lines before those of the events. -/
def Drawing.openingLines : List (List Char) :=
  ["digraph program \x7b".toList, "\tnode [shape=box fontname=monospace];".toList]

/-- The line after those of the events. -/
def Drawing.closingLine : List Char :=
  "\x7d".toList

theorem Drawing.toList_opening : opening.toList = openingLines.flatMap (· ++ ['\n']) := by
  simp [opening, openingLines]

theorem Drawing.toList_closing : closing.toList = [closingLine].flatMap (· ++ ['\n']) := by
  simp [closing, closingLine]

/-- A line before those of the events declares neither a node nor an edge. -/
theorem Drawing.not_declares_opening :
    ∀ line ∈ openingLines, ∀ subject, ¬ Declares line subject := by
  have named : IsName "node".toList := ⟨by decide, by simp⟩
  have stops : Stops " [shape=box fontname=monospace];".toList := rfl
  intro line member subject declares
  generalize same : line = again at declares
  rcases List.mem_cons.mp member with rfl | member
  · cases declares with
    | node => simp at same
    | edge => simp at same
  · have parts : line = '\t' :: ("node".toList ++ " [shape=box fontname=monospace];".toList) := by
      rw [List.mem_singleton.mp member]
      simp
    rw [parts] at same
    cases declares with
    | node alsoNamed _ =>
        obtain ⟨-, rests⟩ := named.append_inj alsoNamed stops (stops_label _) (List.cons.inj same).2
        simp at rests
    | edge alsoNamed _ =>
        obtain ⟨-, rests⟩ := named.append_inj alsoNamed stops (stops_arrow _) (List.cons.inj same).2
        simp at rests

/-- What follows the last line break of a text is one more line. -/
theorem lines_of_toList {text : String} {parts : List (List Char)}
    (text_eq : text.toList = parts.flatMap (· ++ ['\n'])) (unbroken : ∀ part ∈ parts, '\n' ∉ part) :
    lines text = parts ++ [[]] := by
  have joined (parts : List (List Char)) :
      ['\n'].intercalate (parts ++ [[]]) = parts.flatMap (· ++ ['\n']) := by
    induction parts with
    | nil => rfl
    | cons first rest ih =>
        rw [List.flatMap_cons, ← ih]
        cases rest with
        | nil => simp
        | cons second rest => simp [List.intercalate_cons_cons]
  rw [lines, text_eq, ← joined]
  refine List.splitOn_intercalate '\n' ?_ (by simp)
  intro part member
  rcases List.mem_append.mp member with member | last
  · exact unbroken part member
  · simp [List.mem_singleton.mp last]

theorem Drawing.offer_add (events : List GraphEvent) (drawing : Drawing) :
    ∃ drawn, Program.offer add events drawing = (.ok (), drawn) ∧
      drawn.nodes.toList = drawing.nodes.toList ++
        (events.filter fun event => event.subject.2.isNone).flatMap (·.line ++ ['\n']) ∧
      drawn.edges.toList = drawing.edges.toList ++
        (events.filter fun event => event.subject.2.isSome).flatMap (·.line ++ ['\n']) := by
  induction events generalizing drawing with
  | nil => exact ⟨drawing, rfl, by simp, by simp⟩
  | cons event rest ih =>
      obtain ⟨drawn, offered, nodes_eq, edges_eq⟩ := ih (add event drawing).2
      have text_eq := event.toList_dotLine
      cases event with
      | node pc block =>
          refine ⟨drawn, offered, ?_, ?_⟩
          · simp [nodes_eq, add, text_eq, GraphEvent.subject]
          · simp [edges_eq, add, GraphEvent.subject]
      | edge source target =>
          refine ⟨drawn, offered, ?_, ?_⟩
          · simp [nodes_eq, add, GraphEvent.subject]
          · simp [edges_eq, add, text_eq, GraphEvent.subject]

theorem Drawing.not_declares_closing :
    ∀ line ∈ [closingLine, []], ∀ subject, ¬ Declares line subject := by
  intro line member subject declares
  generalize same : line = again at declares
  rcases List.mem_cons.mp member with rfl | member
  · cases declares with
    | node => simp [closingLine] at same
    | edge => simp [closingLine] at same
  · rw [List.mem_singleton.mp member] at same
    cases declares with
    | node => cases same
    | edge => cases same

namespace Program

/-- The events without an end of an edge come before the others. -/
theorem filter_events (program : Program) :
    (program.events.filter fun event => event.subject.2.isNone) ++
      (program.events.filter fun event => event.subject.2.isSome) = program.events := by
  have nodes : ∀ event ∈ program.positions.filterMap fun pc =>
      (program.block? pc).map (GraphEvent.node pc), ∃ pc, event.subject = (pc, none) := by
    intro event member
    obtain ⟨pc, -, made⟩ := List.mem_filterMap.mp member
    obtain ⟨block, -, rfl⟩ := Option.map_eq_some_iff.mp made
    exact ⟨pc, rfl⟩
  have edges : ∀ event ∈ program.positions.flatMap fun pc =>
      (program.successors pc).map (GraphEvent.edge pc),
      ∃ pc target, event.subject = (pc, some target) := by
    intro event member
    obtain ⟨pc, -, made⟩ := List.mem_flatMap.mp member
    obtain ⟨target, -, rfl⟩ := List.mem_map.mp made
    exact ⟨pc, target, rfl⟩
  rw [events, List.filter_append, List.filter_append, List.filter_eq_self.mpr,
    List.filter_eq_nil_iff.mpr, List.filter_eq_nil_iff.mpr, List.filter_eq_self.mpr,
    List.append_nil, List.nil_append]
  all_goals intro event member
  · obtain ⟨pc, target, subject_eq⟩ := edges event member
    simp [subject_eq]
  · obtain ⟨pc, subject_eq⟩ := nodes event member
    simp [subject_eq]
  · obtain ⟨pc, target, subject_eq⟩ := edges event member
    simp [subject_eq]
  · obtain ⟨pc, subject_eq⟩ := nodes event member
    simp [subject_eq]

theorem toList_dot (program : Program) :
    program.dot.toList =
      (Drawing.openingLines ++ (program.events.map GraphEvent.line ++
        [Drawing.closingLine])).flatMap (· ++ ['\n']) := by
  obtain ⟨drawn, offered, nodes_eq, edges_eq⟩ := Drawing.offer_add program.events {}
  have emitted : program.emit Drawing.add {} = (.ok (), drawn) :=
    (emit_eq_offer Drawing.add program {}).trans offered
  have drawn_eq : program.dot = drawn.text := congrArg (fun result => result.2.text) emitted
  have events_eq : drawn.nodes.toList ++ drawn.edges.toList =
      (program.events.map GraphEvent.line).flatMap (· ++ ['\n']) := by
    rw [nodes_eq, edges_eq, List.flatMap_map]
    conv_rhs => rw [← filter_events program, List.flatMap_append]
    rfl
  rw [drawn_eq, Drawing.text, String.toList_append, String.toList_append, String.toList_append,
    List.flatMap_append, List.flatMap_append, ← events_eq, Drawing.toList_opening,
    Drawing.toList_closing, List.append_assoc, List.append_assoc, List.append_assoc]

theorem lines_dot (program : Program) :
    lines program.dot = Drawing.openingLines ++
      (program.events.map GraphEvent.line ++ [Drawing.closingLine, []]) := by
  rw [lines_of_toList program.toList_dot]
  · simp only [List.append_assoc, List.singleton_append]
  · intro part member
    rcases List.mem_append.mp member with member | member
    · have unbroken : ∀ part ∈ Drawing.openingLines, '\n' ∉ part := by
        simp [Drawing.openingLines]
      exact unbroken part member
    · rcases List.mem_append.mp member with member | member
      · obtain ⟨event, -, rfl⟩ := List.mem_map.mp member
        exact event.declares_line.noBreak
      · rw [List.mem_singleton.mp member]
        simp [Drawing.closingLine]

end Program

/-- A text whose lines declare the nodes and edges of a program, each of them once. -/
structure Draws (text : String) (program : Program) : Prop where
  declared_iff : ∀ subject, (∃ line ∈ lines text, Declares line subject) ↔
    ∃ event ∈ program.events, event.names = subject
  once : (lines text).Pairwise fun line other =>
    ∀ subject, Declares line subject → ¬ Declares other subject
  /-- The nodes at the ends of an edge are declared. -/
  joined : ∀ line ∈ lines text, ∀ source target, Declares line (source, some target) →
    (∃ node ∈ lines text, Declares node (source, none)) ∧
      ∃ node ∈ lines text, Declares node (target, none)

namespace Program

variable {program : Program}

theorem declared_iff_dot (program : Program) (subject : List Char × Option (List Char)) :
    (∃ line ∈ lines program.dot, Declares line subject) ↔
      ∃ event ∈ program.events, event.names = subject := by
  rw [lines_dot]
  constructor
  · rintro ⟨line, member, declares⟩
    rcases List.mem_append.mp member with member | member
    · exact absurd declares (Drawing.not_declares_opening line member subject)
    · rcases List.mem_append.mp member with member | member
      · obtain ⟨event, inside, rfl⟩ := List.mem_map.mp member
        exact ⟨event, inside, event.declares_line.unique declares⟩
      · exact absurd declares (Drawing.not_declares_closing line member subject)
  · rintro ⟨event, inside, rfl⟩
    refine ⟨event.line, ?_, event.declares_line⟩
    exact List.mem_append_right _ (List.mem_append_left _ (List.mem_map_of_mem inside))

/-- A program that announces nothing twice is drawn without repetitions. -/
theorem once_dot (distinct : (program.events.map GraphEvent.subject).Nodup) :
    (lines program.dot).Pairwise fun line other =>
      ∀ subject, Declares line subject → ¬ Declares other subject := by
  have apart : program.events.Pairwise fun event other =>
      ∀ subject, Declares event.line subject → ¬ Declares other.line subject := by
    refine (List.pairwise_map.mp distinct).imp ?_
    intro event other differ subject declares also
    have same : event.names = other.names :=
      (event.declares_line.unique declares).trans (also.unique other.declares_line)
    exact differ (nodeName_injective.prodMap (Option.map_injective nodeName_injective) same)
  rw [lines_dot, List.pairwise_append, List.pairwise_append, List.pairwise_map]
  refine ⟨?_, ⟨apart, ?_, ?_⟩, ?_⟩
  · apply List.pairwise_of_forall_mem_list
    intro line member _ _ subject declares
    exact absurd declares (Drawing.not_declares_opening line member subject)
  · apply List.pairwise_of_forall_mem_list
    intro line member _ _ subject declares
    exact absurd declares (Drawing.not_declares_closing line member subject)
  · intro _ _ line member subject _
    exact Drawing.not_declares_closing line member subject
  · intro line member _ _ subject declares
    exact absurd declares (Drawing.not_declares_opening line member subject)

theorem Canonical.draws (canonical : program.Canonical) : Draws program.dot program where
  declared_iff := program.declared_iff_dot
  once := once_dot canonical.once
  joined := by
    intro line member source target declares
    obtain ⟨event, announced, names_eq⟩ :=
      (program.declared_iff_dot _).mp ⟨line, member, declares⟩
    cases event with
    | node => cases names_eq
    | edge first last =>
        cases names_eq
        obtain ⟨⟨block, fromBlock⟩, ⟨other, toBlock⟩⟩ := canonical.joined _ _ announced
        constructor
        · exact (program.declared_iff_dot _).mpr ⟨_, fromBlock, rfl⟩
        · exact (program.declared_iff_dot _).mpr ⟨_, toBlock, rfl⟩

end Program

/-- A recovered program is handed over in one order: its blocks ascending, and then for each of them
an edge to each of its successors, all of which are blocks. Any consumer is given the beginning of
this sequence. One that accepts everything is given all of it; one that refuses an event is given
no more, and its fault is the result. So the drawing of the program declares every node and every
edge once, and its edges join nodes that it declares. -/
theorem emission_canonical {bytes : Bytes} {config : RecoveryConfig} {program : Program}
    (recovered : recover bytes config = .ok program) :
    program.Canonical ∧
    (∀ (σ : Type) (consume : GraphEvent → σ → Except Fault Unit × σ) (state : σ),
      ∃ calls, program.emit (Program.logged consume) ([], state) =
          ((program.emit consume state).1, calls, (program.emit consume state).2) ∧
        calls <+: program.events ∧
        (∀ final, Program.Accepts consume program.events state final →
          calls = program.events ∧ program.emit consume state = (.ok (), final)) ∧
        ∀ count event earlier fault final, program.events[count]? = some event →
          Program.Accepts consume (program.events.take count) state earlier →
          consume event earlier = (.error fault, final) →
          calls = program.events.take (count + 1) ∧
            program.emit consume state = (.error fault, final)) ∧
    Draws program.dot program := by
  have canonical := Program.canonical_of_recover recovered
  refine ⟨canonical, ?_, canonical.draws⟩
  intro σ consume state
  obtain ⟨calls, emitted, handed⟩ := program.emit_handed consume state
  refine ⟨calls, emitted, ((handed _ _).mpr ⟨rfl, rfl⟩).starts, ?_, ?_⟩
  · intro final accepts
    obtain ⟨same, result⟩ := (handed _ _).mp (.whole accepts)
    exact ⟨same.symm, result.symm⟩
  · intro count event earlier fault final next accepts refuses
    obtain ⟨same, result⟩ := (handed _ _).mp (.refused count next accepts refuses)
    exact ⟨same.symm, result.symm⟩

/-- The branching code has three blocks and two edges. A consumer with room for three calls is given
a fourth one and refuses it. -/
theorem branchingCode_emission :
    ∃ program, recover branchingCode {} = .ok program ∧
      program.events.map GraphEvent.text =
        ["block 0 3", "block 5 1", "block 6 2", "edge 0 5", "edge 0 6"] ∧
      (∃ calls, program.emit (Program.logged fun _ count => (.ok (), count + 1)) ([], 0) =
        (.ok (), calls, 5) ∧ calls = program.events) ∧
      (∃ calls kept, program.emit (Program.logged (Program.record (some 3))) ([], []) =
          (.error (.ofText "rejected edge 0 5"), calls, kept) ∧
        calls.map GraphEvent.text = ["block 0 3", "block 5 1", "block 6 2", "edge 0 5"]) ∧
      Draws program.dot program := by
  have recovers : (recover branchingCode {}).toOption.any (fun program =>
      program.events.map GraphEvent.text ==
        ["block 0 3", "block 5 1", "block 6 2", "edge 0 5", "edge 0 6"]) = true := by
    decide +kernel
  obtain ⟨program, recovered, listed⟩ := exists_ok recovers
  rw [beq_iff_eq] at listed
  obtain ⟨-, handed, draws⟩ := emission_canonical recovered
  refine ⟨program, recovered, listed, ?_, ?_, draws⟩
  all_goals
    simp only [List.map_eq_cons_iff, List.map_eq_nil_iff] at listed
    obtain ⟨first, _, events_eq, one, second, _, rfl, two, third, _, rfl, three, fourth, _, rfl,
      four, fifth, _, rfl, -, rfl⟩ := listed
  · obtain ⟨calls, emitted, -, whole, -⟩ := handed Nat (fun _ count => (.ok (), count + 1)) 0
    obtain ⟨calls_eq, result_eq⟩ := whole 5 (by
      rw [events_eq]
      exact .another rfl (.another rfl (.another rfl (.another rfl (.another rfl (.nothing 5))))))
    rw [result_eq] at emitted
    exact ⟨calls, emitted, calls_eq⟩
  · obtain ⟨calls, emitted, -, -, refused⟩ := handed (List String) (Program.record (some 3)) []
    obtain ⟨calls_eq, result_eq⟩ := refused 3 fourth _ _ _ (by rw [events_eq]; rfl)
      (by rw [events_eq]; exact .another rfl (.another rfl (.another rfl (.nothing _)))) rfl
    rw [result_eq, calls_eq, events_eq, four] at emitted
    refine ⟨_, _, emitted, ?_⟩
    simp [one, two, three, four]

end EvmAtlas
