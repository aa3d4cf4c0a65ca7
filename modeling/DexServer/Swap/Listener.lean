import DexServer.Daos.Association

/-!
# The block listeners (`swap/ethereum/listener.go`, `swap/bitcoin/listener.go`)

`processBlocks` runs in a goroutine: it asks the client for the next block, hands its transactions
to the handler one by one, saves the number of the block and goes on with the next. When the handler
returns an error the block is processed again.

Both listeners are machines here. A step ends where another goroutine may come in between: after the
client has answered, after a transaction has been handled, after the number has been saved. A panic
ends the whole server.
-/

namespace Dex

open Lib

/-- An answer of the client: `none` is a block that does not exist. -/
abbrev Answer (β : Type) := Except String (Option β)

/-- Where a listener stands, in a block `β` with transactions `τ`. -/
inductive Position (β τ : Type)
  /-- it has not been started, or has been stopped -/
  | stopped
  /-- at the beginning of the loop -/
  | idle
  /-- in `processBlock`, with what is left of the block -/
  | processing (block : β) (rest : List τ)
  deriving DecidableEq, Repr

/-! ## Ethereum -/

namespace Ethereum

/-- A transaction of a block; one without receiver creates a contract. -/
structure BlockTransaction where
  hash : Hash
  value : Int
  receiver : Option Address
  deriving DecidableEq, Repr

structure Block where
  number : Nat
  transactions : List BlockTransaction
  deriving DecidableEq, Repr

structure Listener where
  enabled : Bool
  /-- is `TransactionHandler` set? -/
  hasHandler : Bool
  networkID : String
  confirmedBlockNumber : Nat
  /-- the variable of `processBlocks` -/
  blockNumber : Nat
  position : Position Block BlockTransaction
  deriving DecidableEq, Repr

namespace Listener

/-- `Start`; `id` is the answer to `NetworkID`. -/
def start (l : Listener) (id : Except String String) : M Listener := do
  let blockNumber ← getBlockToProcess .ethereum
  let id ← checked id
  checked (require (id = l.networkID)
    ("Invalid network ID (have=" ++ id ++ ", want=" ++ l.networkID ++ ")"))
  pure { l with blockNumber, position := .idle }

/-- The block whose existence confirms the next one. -/
def blockNumberAhead (l : Listener) : Nat := (l.blockNumber + l.confirmedBlockNumber) % 2 ^ 64

/-- The transaction handed over. -/
def handed (eth : Eth) (t : BlockTransaction) : Option Transaction :=
  t.receiver.map fun a => ⟨eth.hashHex t.hash, t.value, eth.hex a⟩

/-- The transaction that is handed over next. -/
def next (l : Listener) (eth : Eth) : Option Transaction :=
  match l.position with
  | .processing _ (t :: _) => handed eth t
  | _ => none

/-- A step of `processBlocks`; `ahead` and `block` are the answers to its two requests. The error of
the second one is dropped, and a missing block is dereferenced when its error is logged. -/
def step (handler : Transaction → M Unit) (ahead block : Answer Block) (l : Listener) :
    M Listener :=
  match l.position with
  | .stopped => pure l
  | .idle =>
    if l.enabled = false then pure { l with position := .stopped }
    else
      match ahead with
      | .error _ | .ok none => pure l
      | .ok (some b) =>
        if b.number = 0 then pure l
        else if l.hasHandler = false then pure l
        else
          match block with
          | .ok (some b) => pure { l with position := .processing b b.transactions }
          | .error _ | .ok none => Prog.throw (.panic "nil pointer dereference")
  | .processing b [] => do
    let _ ← attempted (saveLastProcessedBlock .ethereum l.blockNumber)
    pure { l with
      blockNumber := (b.number + 1) % 2 ^ 64
      position := .idle }
  | .processing b (t :: rest) => do
    let env ← Prog.ask
    match handed env.eth t with
    | none => pure { l with position := .processing b rest }
    | some t =>
      match ← attempted (handler t) with
      | .error _ => pure { l with position := .idle }
      | .ok () => pure { l with position := .processing b rest }

end Listener

end Ethereum

/-! ## Bitcoin -/

namespace Bitcoin

/-- The classes of scripts that are told apart. -/
inductive ScriptClass
  | pubKey | pubKeyHash | other
  deriving DecidableEq, Repr

/-- An output with what `txscript.ExtractPkScriptAddrs` makes of its script. -/
structure Output where
  value : Int
  script : Except String (ScriptClass × List String)

structure BlockTransaction where
  hash : String
  outputs : List Output

structure Block where
  transactions : List BlockTransaction

/-- The outputs of a block, in order, each with the hash of its transaction and its index. -/
def Block.outputs (b : Block) : List (String × Nat × Output) :=
  b.transactions.flatMap fun t => t.outputs.zipIdx.map fun (o, i) => (t.hash, i, o)

structure Listener where
  hasHandler : Bool
  confirmedBlockNumber : Nat
  blockNumber : Nat
  position : Position Block (String × Nat × Output)

namespace Listener

/-- `Start`; `genesis` is whether the first block is the expected one, `blockCount` the answer to
`GetBlockCount`. -/
def start (l : Listener) (genesis : Except String Bool) (blockCount : Except String Nat) :
    M Listener := do
  let isGenesis ← checked genesis
  checked (require isGenesis "Invalid genesis hash")
  let blockNumber ← getBlockToProcess .bitcoin
  if blockNumber = 0 then
    let blockNumber ← checked blockCount
    pure { l with blockNumber, position := .idle }
  else pure { l with blockNumber, position := .idle }

def blockNumberAhead (l : Listener) : Nat := (l.blockNumber + l.confirmedBlockNumber) % 2 ^ 64

/-- The transaction handed over: only outputs to one address, of two classes. -/
def handed : String × Nat × Output → Option Transaction
  | (hash, index, o) =>
    match o.script with
    | .ok (.pubKey, [a]) | .ok (.pubKeyHash, [a]) => some ⟨hash, index, o.value, a⟩
    | _ => none

/-- The transaction that is handed over next. -/
def next (l : Listener) : Option Transaction :=
  match l.position with
  | .processing _ (o :: _) => handed o
  | _ => none

/-- A step of `processBlocks`; `ahead` is the answer to its request. The block that was asked for to
confirm is itself processed. A handler that is not set is called. -/
def step (handler : Transaction → M Unit) (ahead : Answer Block) (l : Listener) : M Listener :=
  match l.position with
  | .stopped => pure l
  | .idle =>
    match ahead with
    | .error _ | .ok none => pure l
    | .ok (some b) => pure { l with position := .processing b b.outputs }
  | .processing _ [] => do
    let _ ← attempted (saveLastProcessedBlock .bitcoin l.blockNumber)
    pure { l with
      blockNumber := (l.blockNumber + 1) % 2 ^ 64
      position := .idle }
  | .processing b (o :: rest) => do
    match handed o with
    | none => pure { l with position := .processing b rest }
    | some t =>
      if l.hasHandler = false then Prog.throw (.panic "nil pointer dereference")
      else
        match ← attempted (handler t) with
        | .error _ => pure { l with position := .idle }
        | .ok () => pure { l with position := .processing b rest }

end Listener

end Bitcoin

end Dex
