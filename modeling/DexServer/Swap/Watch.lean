import DexServer.Endpoints.Deposit
import DexServer.Swap.Listener

/-!
# The listeners and the chains they watch

`Ethereum.Watch` is the ethereum listener next to everything else the server does: its client may
answer anything, the server may end at any time and start again. `Ethereum.Observed` is the same
with a chain that grows, of which the client tells. `Bitcoin.Observed` is the bitcoin listener with
its chain. `Listeners` are the two loops in one server, where the handlers are attached while they
run.

Each keeps what the listener has handled, which the code does not: the transactions the handler has
returned nil for, the blocks that were completed, the number of the block that is being processed.
-/

namespace Dex

open Lib

/-! ## Ethereum -/

namespace Ethereum

/-- The block that has been processed to its end. -/
def Listener.completed (l : Listener) : Option Block :=
  match l.position with
  | .processing b [] => some b
  | _ => none

structure Watch where
  world : World
  listener : Listener
  /-- the transactions of the block for which the handler has returned nil -/
  accepted : List Transaction
  /-- the blocks whose processing has completed, with these transactions -/
  completed : List (Block × List Transaction)

inductive WatchOp
  /-- a step of the listener, with the answers of its client -/
  | listen (ahead block : Answer Block)
  /-- what the rest of the server does, which does not write the last ethereum block -/
  | other (w : World)
  /-- `SetDelegate`; the handler is not set when the server has just started -/
  | delegate (set : Bool)
  /-- the server ends -/
  | crash
  /-- `Start` -/
  | start (id : Except String String)

/-- The transactions accepted after a step: none when the next block is asked for. -/
def Watch.accepts (handler : Transaction → M Unit) (env : Env) (σ : Watch) : List Transaction :=
  match σ.listener.position with
  | .idle => []
  | _ =>
    match σ.listener.next env.eth with
    | none => σ.accepted
    | some t =>
      match (handler t env σ.world).1 with
      | .ok () => σ.accepted ++ [t]
      | .error _ => σ.accepted

/-- A panic ends the server. -/
def WatchOp.step (handler : Transaction → M Unit) (env : Env) (σ : Watch) : WatchOp → Watch
  | listen ahead block =>
    match σ.listener.step handler ahead block env σ.world with
    | (.ok l, w) =>
      { world := w
        listener := l
        accepted := σ.accepts handler env
        completed := σ.completed ++ (l.completed.map (·, σ.accepts handler env)).toList }
    | (.error _, w) => { σ with world := w, listener := { σ.listener with position := .stopped } }
  | other w => { σ with world := { w with config :=
      { w.config with ethereumLastBlock := σ.world.config.ethereumLastBlock } } }
  | delegate set => { σ with listener := { σ.listener with hasHandler := set } }
  | crash => { σ with listener := { σ.listener with position := .stopped } }
  | start id =>
    match σ.listener.position with
    | .stopped =>
      match σ.listener.start id env σ.world with
      | (.ok l, w) => { σ with world := w, listener := l }
      | (.error _, w) => { σ with world := w }
    | _ => σ

/-! ### The chain -/

/-- The number `getBlock` asks for; `none` is the latest block. -/
def requested (blockNumber : Nat) : Option Int :=
  if 0 < blockNumber then some (BitVec.ofNat 64 blockNumber).toInt else none

/-- The transactions of the blocks, from number 0 on. -/
abbrev Blocks := List (List BlockTransaction)

/-- The block with that number, if it exists. -/
def blockAt (blocks : Blocks) (n : Nat) : Option Block := blocks[n]?.map fun ts => ⟨n, ts⟩

/-- `BlockByNumber`. -/
def blockByNumber (blocks : Blocks) : Option Int → Option Block
  | none => blockAt blocks (blocks.length - 1)
  | some i => if i < 0 then none else blockAt blocks i.toNat

/-- `getBlock`, when the client answers. -/
def getBlock (blocks : Blocks) (fails : Bool) (blockNumber : Nat) : Answer Block :=
  if fails then .error "Error getting block from geth"
    else .ok (blockByNumber blocks (requested blockNumber))

structure Observed extends Watch where
  blocks : Blocks

inductive ObserveOp
  /-- the chain grows -/
  | grow (blocks : Blocks)
  /-- a step of the listener; the client fails or not, and the chain grows between the two
  requests -/
  | listen (aheadFails : Bool) (grown : Blocks) (blockFails : Bool)
  /-- as in `WatchOp` -/
  | other (w : World)
  | delegate (set : Bool)
  | crash
  | start (id : Except String String)

def ObserveOp.step (handler : Transaction → M Unit) (env : Env) (σ : Observed) :
    ObserveOp → Observed
  | grow blocks => { σ with blocks := σ.blocks ++ blocks }
  | listen aheadFails grown blockFails =>
    let blocks := σ.blocks ++ grown
    let ahead := getBlock σ.blocks aheadFails σ.listener.blockNumberAhead
    let block := getBlock blocks blockFails σ.listener.blockNumber
    ⟨(WatchOp.listen ahead block).step handler env σ.toWatch, blocks⟩
  | other w => { σ with toWatch := (WatchOp.other w).step handler env σ.toWatch }
  | delegate set => { σ with toWatch := (WatchOp.delegate set).step handler env σ.toWatch }
  | crash => { σ with toWatch := WatchOp.crash.step handler env σ.toWatch }
  | start id => { σ with toWatch := (WatchOp.start id).step handler env σ.toWatch }

end Ethereum

/-! ## Bitcoin -/

namespace Bitcoin

/-- `getBlock`, which asks for a signed number. -/
def getBlock (blocks : List Block) (fails : Bool) (blockNumber : Nat) : Answer Block :=
  if fails then .error "Error getting block hash from bitcoin-core"
  else
    let blockHeight := (BitVec.ofNat 64 blockNumber).toInt
    .ok (if blockHeight < 0 then none else blocks[blockHeight.toNat]?)

structure Observed where
  world : World
  listener : Listener
  blocks : List Block
  /-- the number of the block that is being processed -/
  number : Nat

inductive ObserveOp
  | grow (blocks : List Block)
  | listen (fails : Bool)
  | other (w : World)
  | delegate (set : Bool)
  | crash
  | start (genesis : Except String Bool) (blockCount : Except String Nat)

/-- A step that begins with a block notes its number. -/
def ObserveOp.step (handler : Transaction → M Unit) (env : Env) (σ : Observed) :
    ObserveOp → Observed
  | grow blocks => { σ with blocks := σ.blocks ++ blocks }
  | listen fails =>
    let ahead := getBlock σ.blocks fails σ.listener.blockNumberAhead
    match σ.listener.step handler ahead env σ.world with
    | (.ok l, w) =>
      { σ with
        world := w
        listener := l
        number := match σ.listener.position with
          | .idle => σ.listener.blockNumberAhead
          | _ => σ.number }
    | (.error _, w) => { σ with world := w, listener := { σ.listener with position := .stopped } }
  | other w => { σ with world := w }
  | delegate set => { σ with listener := { σ.listener with hasHandler := set } }
  | crash => { σ with listener := { σ.listener with position := .stopped } }
  | start genesis blockCount =>
    match σ.listener.position with
    | .stopped =>
      match σ.listener.start genesis blockCount env σ.world with
      | (.ok l, w) => { σ with world := w, listener := l }
      | (.error _, w) => { σ with world := w }
    | _ => σ

end Bitcoin

/-! ## Both listeners -/

structure Listeners where
  world : World
  ethereum : Ethereum.Listener
  bitcoin : Bitcoin.Listener

inductive ListenersOp
  /-- a step of the ethereum loop, with the answers to its two requests -/
  | ethereum (ahead block : Answer Ethereum.Block)
  /-- a step of the bitcoin loop, with the answer to its request -/
  | bitcoin (ahead : Answer Bitcoin.Block)
  /-- `Start` of the ethereum listener -/
  | startEthereum (id : Except String String)
  /-- `Start` of the bitcoin listener -/
  | startBitcoin (genesis : Except String Bool) (blockCount : Except String Nat)
  /-- `SetDelegate` sets the handlers one after the other -/
  | attachEthereum
  | attachBitcoin
  /-- `Stop` of the ethereum listener -/
  | stop
  /-- what the rest of the server does -/
  | other (w : World)
  /-- the server ends -/
  | crash

namespace Listeners

/-- The server starts: no loop is running. -/
def init (w : World) (e : Ethereum.Listener) (b : Bitcoin.Listener) : Listeners where
  world := w
  ethereum := { e with position := .stopped }
  bitcoin := { b with position := .stopped }

/-- The server has ended: what remains is stored. -/
def ended (σ : Listeners) (w : World) : Listeners where
  world := w
  ethereum := { σ.ethereum with hasHandler := false, position := .stopped }
  bitcoin := { σ.bitcoin with hasHandler := false, position := .stopped }

end Listeners

/-- A panic of a loop or of a handler ends the server. -/
def ListenersOp.step (onEthereum : Ethereum.Transaction → M Unit)
    (onBitcoin : Bitcoin.Transaction → M Unit) (env : Env) (σ : Listeners) : ListenersOp → Listeners
  | ethereum ahead block =>
    if (σ.ethereum.next env.eth).isSome ∧ σ.ethereum.hasHandler = false then σ.ended σ.world
    else
      match σ.ethereum.step onEthereum ahead block env σ.world with
      | (.ok l, w) => { σ with world := w, ethereum := l }
      | (.error _, w) => σ.ended w
  | bitcoin ahead =>
    match σ.bitcoin.step onBitcoin ahead env σ.world with
    | (.ok l, w) => { σ with world := w, bitcoin := l }
    | (.error _, w) => σ.ended w
  | startEthereum id =>
    match σ.ethereum.position with
    | .stopped =>
      match σ.ethereum.start id env σ.world with
      | (.ok l, w) => { σ with world := w, ethereum := l }
      | (.error _, w) => { σ with world := w }
    | _ => σ
  | startBitcoin genesis blockCount =>
    match σ.bitcoin.position with
    | .stopped =>
      match σ.bitcoin.start genesis blockCount env σ.world with
      | (.ok l, w) => { σ with world := w, bitcoin := l }
      | (.error _, w) => { σ with world := w }
    | _ => σ
  | attachEthereum => { σ with ethereum := { σ.ethereum with hasHandler := true } }
  | attachBitcoin => { σ with bitcoin := { σ.bitcoin with hasHandler := true } }
  | stop => { σ with ethereum := { σ.ethereum with enabled := false } }
  | other w => { σ with world := w }
  | crash => σ.ended σ.world

end Dex
