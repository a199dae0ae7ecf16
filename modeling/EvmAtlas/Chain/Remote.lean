import EvmAtlas.Chain.Basic
import EvmAtlas.Chain.Slot
import EvmAtlas.Json.Quantity

/-!
# Remote chains

A remote chain is read from a node, one request a question, always as it was at one block.
The node is a table of replies; every request made to it is kept. A reply that says `fail`
is an error of the node. Connecting to a node, and waiting for it, are left out.
-/

namespace EvmAtlas

structure NodeRequest where
  method : String
  params : List Json

/-- A node, the block at which it is read, and the requests made, last first. -/
structure Remote where
  /-- The reply to each method; the first one counts. -/
  replies : List (String × Json)
  number : UInt64 := 0
  requests : List NodeRequest := []

/-- A member of an object; the last of its name counts. -/
def Json.lastMember? (members : List (List Char × Json)) (name : String) : Option Json :=
  (members.reverse.find? fun entry => Json.unescape entry.1 == name.toList).map Prod.snd

namespace Remote

/-- The text of the error that a node replies with. An error without a message is known by
its code. -/
def errorText (details : List (List Char × Json)) : String :=
  let message :=
    match Json.lastMember? details "message" with
    | some (.string raw) => String.ofList (Json.unescape raw)
    | _ => ""
  let code :=
    match Json.lastMember? details "code" with
    | some (.number text) => String.ofList text
    | _ => "0"
  if message.isEmpty then "json-rpc error " ++ code else message

/-- The error in a reply that says `fail`. -/
def failure? : Json → Option String
  | .object members =>
      match Json.lastMember? members "fail" with
      | some (.object details) => some (errorText details)
      | _ => none
  | _ => none

/-- The reply to a method, or the node's error. -/
def reply (remote : Remote) (method : String) : Except Fault Json :=
  match remote.replies.find? fun entry => entry.1 == method with
  | none => .error (.ofText "method missing")
  | some (_, value) =>
      match failure? value with
      | some text => .error (.ofText text)
      | none => .ok value

def request (remote : Remote) (method : String) (params : List Json) :
    Except Fault Json × Remote :=
  (remote.reply method,
    { remote with requests := ⟨method, params⟩ :: remote.requests })

/-- What a reply says, if it is of the right form. -/
def understand {α : Type} (read : Json → Option α) (reply : Except Fault Json) :
    Except Fault α :=
  reply.bind fun value =>
    match read value with
    | some answer => .ok answer
    | none => .error (.ofCause .malformedJson)

/-- A remote chain read at the node's latest block, for which the node is asked. -/
def atLatest (replies : List (String × Json)) : Except Fault Remote :=
  let (reply, remote) := Remote.request { replies } "eth_blockNumber" []
  match understand Json.toUInt64? reply with
  | .ok number => .ok { remote with number }
  | .error fault => .error (fault.within (.during "fetching block number"))

/-- The header of a block while it is read: the names of the members read so far, and
what the chain takes from them. -/
structure Header where
  present : List String := []
  block : BlockInfo := {}

namespace Header

/-- A member of a header. A null counts as absent. -/
def member {α : Type} (name : String) (read : Json → Option α)
    (store : BlockInfo → Option α → BlockInfo) : String × Json.FieldReader Header :=
  (name, fun header value =>
    (Json.toOption? read value).map fun answer =>
      { present :=
          if answer.isSome then name :: header.present
          else header.present.filter (· != name)
        block := store header.block answer })

/-- A member of a header that is only checked. -/
def checked {α : Type} (name : String) (read : Json → Option α) :
    String × Json.FieldReader Header :=
  member name read fun block _ => block

/-- A string of a fixed number of digits in which escapes are resolved. -/
def digits? (width : Nat) : Json → Option Nat
  | .string raw => Hex.fixed? width (Json.unescape raw)
  | _ => none

def fields : List (String × Json.FieldReader Header) :=
  [checked "parentHash" Json.toHash?, checked "sha3Uncles" Json.toHash?,
    member "miner" Json.toAddress? fun block coinbase =>
      { block with coinbase := coinbase.getD 0 },
    checked "stateRoot" Json.toHash?, checked "transactionsRoot" Json.toHash?,
    checked "receiptsRoot" Json.toHash?, checked "logsBloom" (digits? 512),
    member "difficulty" Json.toWord? fun block difficulty => { block with difficulty },
    member "number" Json.toWord? fun block number =>
      { block with number := (number.getD 0).low64 },
    member "gasLimit" Json.toUInt64? fun block gasLimit =>
      { block with gasLimit := gasLimit.getD 0 },
    checked "gasUsed" Json.toUInt64?,
    member "timestamp" Json.toUInt64? fun block timestamp =>
      { block with timestamp := timestamp.getD 0 },
    checked "extraData" Json.toBytes?, checked "mixHash" Json.toHash?,
    checked "nonce" (digits? 16), checked "baseFeePerGas" Json.toWord?,
    checked "withdrawalsRoot" Json.toHash?, checked "blobGasUsed" Json.toUInt64?,
    checked "excessBlobGas" Json.toUInt64?, checked "parentBeaconBlockRoot" Json.toHash?]

/-- The members that every header has, in the order in which they are missed. -/
def required : List String :=
  ["parentHash", "sha3Uncles", "stateRoot", "transactionsRoot", "receiptsRoot", "logsBloom",
    "difficulty", "number", "gasLimit", "gasUsed", "timestamp", "extraData"]

def complete (header : Header) : Except Fault BlockInfo :=
  match required.find? fun name => !header.present.contains name with
  | some name => .error (.ofText ("missing required field '" ++ name ++ "' for Header"))
  | none => .ok header.block

def read : Json → Except Fault BlockInfo
  | .null => .error (.ofText "not found")
  | .object members =>
      match members.foldlM (Json.readMember fields) ({} : Header) with
      | some header => header.complete
      | none => .error (.ofCause .malformedJson)
  | _ => .error (.ofCause .malformedJson)

end Header

variable {σ : Type}

/-- Ask the node, read its reply, and say on failure what was being fetched. -/
def ask {α : Type} (slot : Slot σ Remote) (method : String) (params : Remote → List Json)
    (read : Except Fault Json → Except Fault α) (subject : Remote → String) : Access σ α :=
  fun state =>
    let remote := slot.get state
    let (reply, after) := remote.request method (params remote)
    match read reply with
    | .ok answer => (.ok answer, slot.set after state)
    | .error fault =>
        (.error (fault.within (.during ("fetching " ++ subject remote))),
          slot.set after state)

/-- The block at which a remote chain is read, as a parameter. -/
def blockParam (remote : Remote) : Json :=
  .quantity remote.number.toNat

/-- The parameters of a question about an account. -/
def accountParams (address : Address) (remote : Remote) : List Json :=
  [.fixed 40 address.toNat, remote.blockParam]

def chain (slot : Slot σ Remote) : Chain σ where
  block := ask slot "eth_getBlockByNumber" (fun remote => [remote.blockParam, .bool false])
    (·.bind Header.read) fun remote => "header " ++ toString remote.number.toNat
  nonce address := ask slot "eth_getTransactionCount" (accountParams address)
    (understand Json.toUInt64?) fun _ => "nonce of " ++ address.text
  balance address := ask slot "eth_getBalance" (accountParams address)
    (understand fun value => value.toWord?.map some) fun _ => "balance of " ++ address.text
  code address := ask slot "eth_getCode" (accountParams address)
    (understand Json.toBytes?) fun _ => "code of " ++ address.text
  storage address key :=
    ask slot "eth_getStorageAt"
      (fun remote => [.fixed 40 address.toNat, .fixed 64 key.toNat, remote.blockParam])
      (understand fun value => value.toBytes?.map Word.ofBytes)
      fun _ => "slot " ++ key.fullText ++ " of " ++ address.text
  writer := none

end Remote

end EvmAtlas
