import EvmAtlas.Fault

/-!
# Revisit policy

What a recovery does when it reaches a block again with a stack that is new there, and
how many such stacks it tells apart.
-/

namespace EvmAtlas

/-- What to do with a new stack at a known block. -/
inductive RevisitPolicy where
  /-- Analyse the block again, first with the stack itself and, once there are too many
  of them, with the join of the stacks of its height. -/
  | merge
  /-- Analyse every block once, with the first stack that reaches it. -/
  | skip
  deriving DecidableEq, Repr

namespace RevisitPolicy

def name : RevisitPolicy → String
  | .merge => "merge"
  | .skip => "skip"

def ofName (text : String) : Except Fault RevisitPolicy :=
  if text = "merge" then .ok .merge
  else if text = "skip" then .ok .skip
  else .error (.ofText
    ("unknown revisit policy " ++ Quoted.ofString text ++ ", want merge or skip"))

def number : RevisitPolicy → Nat
  | .merge => 0
  | .skip => 1

def ofNumber? (number : Int) : Option RevisitPolicy :=
  if number = 0 then some .merge else if number = 1 then some .skip else none

/-- The name of the policy with a given number, or a description of the number. -/
def numberText (number : Int) : String :=
  match ofNumber? number with
  | some policy => policy.name
  | none => "RevisitPolicy(" ++ toString number ++ ")"

/-- The name under which the policy with a given number is written to a file. -/
def numberName (number : Int) : Except Fault String :=
  match ofNumber? number with
  | some policy => .ok policy.name
  | none => .error (.ofText ("unknown revisit policy " ++ toString number))

end RevisitPolicy

/-- How a recovery treats revisits. -/
structure RecoveryConfig where
  revisit : RevisitPolicy := .merge
  /-- How many stacks are told apart at one block under the merge policy. -/
  maxContexts : Int := 8
  deriving DecidableEq, Repr

end EvmAtlas
