import EvmAtlas.Flow.Program
import EvmAtlas.Text.Decimal

/-!
# Graph output

A recovered program is handed to a consumer: first every block in the order of positions,
then every edge of every block. The consumer may refuse an event, which ends the sequence.
`Drawing` is the consumer that writes the graph as a drawing program reads it.
-/

namespace EvmAtlas

/-- One step of the description of a program. -/
inductive GraphEvent where
  | node (pc : UInt64) (block : Block)
  | edge (source target : UInt64)
  deriving DecidableEq, Repr

/-- The text of an event: a block with its number of instructions, or an edge. -/
def GraphEvent.text : GraphEvent → String
  | .node pc block =>
      "block " ++ toString pc.toNat ++ " " ++ toString block.instructions.length
  | .edge source target =>
      "edge " ++ toString source.toNat ++ " " ++ toString target.toNat

namespace Program

/-- Hand items over one after the other until one of them is refused. -/
def offer {α σ : Type} (consume : α → σ → Except Fault Unit × σ) :
    List α → σ → Except Fault Unit × σ
  | [], state => (.ok (), state)
  | item :: rest, state =>
      match consume item state with
      | (.ok (), next) => offer consume rest next
      | (.error fault, next) => (.error fault, next)

/-- Hand a program to a consumer until it refuses an event: the blocks, then the edges of each
block. -/
def emit {σ : Type} (consume : GraphEvent → σ → Except Fault Unit × σ) (program : Program)
    (state : σ) : Except Fault Unit × σ :=
  let blocks := program.blocks.toList
  match offer (fun entry => consume (.node entry.1 entry.2)) blocks state with
  | (.ok (), next) =>
      offer (fun entry =>
        offer (fun target => consume (.edge entry.1 target)) entry.2.successors) blocks next
  | (.error fault, next) => (.error fault, next)

/-- A consumer that accepts a limited number of events and keeps their texts, last first.
-/
def record (limit : Option Nat) (event : GraphEvent) (calls : List String) :
    Except Fault Unit × List String :=
  if limit.any (· ≤ calls.length) then
    (.error (.ofText ("rejected " ++ event.text)), calls)
  else (.ok (), event.text :: calls)

end Program

/-- One instruction as a line of a node. -/
def Instruction.dotLine (instruction : Instruction) : String :=
  Hex.padded 4 instruction.pc.toNat ++ ": " ++ instruction.text ++ "\\l"

/-- An event as a line of the drawing. -/
def GraphEvent.dotLine : GraphEvent → String
  | .node pc block =>
      "\tb" ++ toString pc.toNat ++ " [label=\""
        ++ String.join (block.instructions.map Instruction.dotLine)
        ++ "gas: " ++ toString block.staticGas.toNat ++ "\\l\"];\n"
  | .edge source target =>
      "\tb" ++ toString source.toNat ++ " -> b" ++ toString target.toNat ++ ";\n"

/-- A drawing in progress. -/
structure Drawing where
  nodes : String := ""
  edges : String := ""

namespace Drawing

/-- Add a line to a drawing. Every event is accepted. -/
def add (event : GraphEvent) (drawing : Drawing) : Except Fault Unit × Drawing :=
  match event with
  | .node _ _ => (.ok (), { drawing with nodes := drawing.nodes ++ event.dotLine })
  | .edge _ _ => (.ok (), { drawing with edges := drawing.edges ++ event.dotLine })

/-- How every drawing begins. -/
def opening : String :=
  "digraph program \x7b\n\tnode [shape=box fontname=monospace];\n"

/-- How every drawing ends. -/
def closing : String :=
  "\x7d\n"

def text (drawing : Drawing) : String :=
  opening ++ drawing.nodes ++ drawing.edges ++ closing

end Drawing

/-- The graph of a program as a drawing program reads it. -/
def Program.dot (program : Program) : String :=
  (program.emit Drawing.add {}).2.text

end EvmAtlas
