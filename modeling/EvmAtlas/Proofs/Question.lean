import Mathlib.Logic.Function.Basic
import EvmAtlas.Chain.Records

/-!
# Questions

A chain has five kinds of data, and every layer treats them alike: what it does with a nonce
it also does with a storage slot. `Question` names what can be asked, each question with its
own type of answers, and `Chain.ask` asks it. A write is then the answer to one question.
-/

namespace EvmAtlas

variable {σ : Type}

/-- What can be asked of a chain. -/
inductive Question where
  | block
  | nonce (address : Address)
  | balance (address : Address)
  | code (address : Address)
  | storage (address : Address) (slot : Word)
  deriving DecidableEq, Repr

/-- The type of the answers to a question. -/
abbrev Question.Answer : Question → Type
  | .block => BlockInfo
  | .nonce _ => UInt64
  | .balance _ => Option Word
  | .code _ => Bytes
  | .storage _ _ => Word

/-- An answer to every question. -/
abbrev View := (question : Question) → question.Answer

namespace Chain

def ask (chain : Chain σ) : (question : Question) → Access σ question.Answer
  | .block => chain.block
  | .nonce address => chain.nonce address
  | .balance address => chain.balance address
  | .code address => chain.code address
  | .storage address slot => chain.storage address slot

/-- A chain from its answers and its writes, if it accepts any. -/
def ofAsk (ask : (question : Question) → Access σ question.Answer)
    (writer : Option (ChainWriter σ)) : Chain σ where
  block := ask .block
  nonce address := ask (.nonce address)
  balance address := ask (.balance address)
  code address := ask (.code address)
  storage address slot := ask (.storage address slot)
  writer := writer

theorem ask_ofAsk (ask : (question : Question) → Access σ question.Answer)
    (writer : Option (ChainWriter σ)) (question : Question) :
    (ofAsk ask writer).ask question = ask question := by
  cases question with
  | block | nonce | balance | code | storage => rfl

/-- The state of a chain after some questions. -/
def afterAsking (chain : Chain σ) (questions : List Question) (state : σ) : σ :=
  questions.foldl (fun state question => (chain.ask question state).2) state

end Chain

namespace Write

def question : Write → Question
  | .nonce address _ => .nonce address
  | .balance address _ => .balance address
  | .code address _ => .code address
  | .storage address slot _ => .storage address slot

/-- The answer that a write gives to its question. -/
def answer : (write : Write) → write.question.Answer
  | .nonce _ value => value
  | .balance _ value => some value
  | .code _ value => value
  | .storage _ _ value => value

end Write

theorem ChainWriter.perform_ofPerform (perform : Write → Access σ Unit) (write : Write) :
    (ofPerform perform).perform write = perform write := by
  cases write with
  | nonce | balance | code | storage => rfl

def View.write (view : View) (write : Write) : View :=
  Function.update view write.question write.answer

end EvmAtlas
