import DexServer.Swap.Configurator
import DexServer.Swap.Listener

/-!
# The swap engine (`swap/main.go`)

The two listeners queue deposits, `poolTransactionsQueue` takes the entries from the queue and
starts a goroutine of the configurator for each. `Swap` is all of them with the state of the server,
`SwapOp` the steps they take next to each other. Messages are acknowledged when they are delivered,
so an entry is taken once; the server may end at any time, and start again.

An entry does not name the output of a bitcoin transaction, nor a transfer of tokens its entry.
`Swap` therefore keeps which deposit each of them is for.
-/

namespace Dex

open Lib

/-- A payment on another chain: an ethereum transaction, or an output of a bitcoin transaction. -/
structure Deposit where
  chain : Chain
  hash : String
  output : Nat
  deriving DecidableEq, Repr

def Ethereum.Transaction.deposit (t : Ethereum.Transaction) : Deposit := ⟨.ethereum, t.hash, 0⟩

def Bitcoin.Transaction.deposit (t : Bitcoin.Transaction) : Deposit :=
  ⟨.bitcoin, t.hash, t.txOutIndex⟩

/-- A goroutine of `ConfigureAccount`. -/
structure Worker where
  deposit : Deposit
  entry : DepositTransaction
  stage : Stage
  deriving DecidableEq, Repr

structure Swap where
  world : World
  ethereum : Ethereum.Listener
  bitcoin : Bitcoin.Listener
  workers : List Worker
  /-- the deposits of the entries in the queue -/
  awaiting : List Deposit
  /-- every entry that has been queued, with its deposit -/
  queued : List (Deposit × DepositTransaction)
  /-- the deposits of the transfers of tokens -/
  paid : List Deposit

/-- The endpoint and the configurator. -/
structure SwapEngine where
  endpoint : DepositEndpoint
  configurator : AccountConfigurator

inductive SwapOp
  /-- a step of the ethereum listener, with the answers of its client -/
  | ethereum (ahead block : Answer Ethereum.Block)
  /-- a step of the bitcoin listener -/
  | bitcoin (ahead : Answer Bitcoin.Block)
  /-- the `i`-th entry of the queue is taken -/
  | consume (i : Nat)
  /-- the `i`-th goroutine of the configurator takes its next step -/
  | work (i : Nat)
  /-- requests of users change the associations -/
  | associate (c : Associations)
  /-- the server ends -/
  | crash
  /-- the ethereum listener is started -/
  | startEthereum (id : Except String String)
  /-- the bitcoin listener is started -/
  | startBitcoin (genesis : Except String Bool) (blockCount : Except String Nat)

namespace Swap

/-- The server ends: what is not in the store or in the queue is lost. -/
def crash (σ : Swap) : Swap :=
  { σ with
    ethereum := { σ.ethereum with position := .stopped }
    bitcoin := { σ.bitcoin with position := .stopped }
    workers := [] }

/-- The entries queued on the way to `w` are for the deposit `d`. -/
def record (σ : Swap) (d : Option Deposit) (w : World) : Swap :=
  let entries := w.depositQueue.drop σ.world.depositQueue.length
  match d with
  | some d => { σ with
      world := w
      awaiting := σ.awaiting ++ entries.map fun _ => d
      queued := σ.queued ++ entries.map fun t => (d, t) }
  | none => { σ with world := w }

/-- The tokens sent on the way to `w` are for the deposit `d`. -/
def pay (σ : Swap) (d : Deposit) (w : World) : Swap :=
  { σ with
    world := w
    paid := σ.paid ++ (w.transfers.drop σ.world.transfers.length).map fun _ => d }

end Swap

namespace SwapOp

open Swap

/-- A panic in a goroutine ends the server. -/
def step (engine : SwapEngine) (env : Env) (σ : Swap) : SwapOp → Swap
  | ethereum ahead block =>
    let d := (σ.ethereum.next env.eth).map (·.deposit)
    match σ.ethereum.step engine.endpoint.onNewEthereumTransaction ahead block env σ.world with
    | (.ok l, w) => { σ.record d w with ethereum := l }
    | (.error _, w) => (σ.record d w).crash
  | bitcoin ahead =>
    let d := σ.bitcoin.next.map (·.deposit)
    match σ.bitcoin.step engine.endpoint.onNewBitcoinTransaction ahead env σ.world with
    | (.ok l, w) => { σ.record d w with bitcoin := l }
    | (.error _, w) => (σ.record d w).crash
  | consume i =>
    match σ.world.depositQueue[i]?, σ.awaiting[i]? with
    | some t, some d => { σ with
        world := { σ.world with depositQueue := σ.world.depositQueue.eraseIdx i }
        awaiting := σ.awaiting.eraseIdx i
        workers := σ.workers ++ [⟨d, t, .creatingAccount⟩] }
    | _, _ => σ
  | work i =>
    match σ.workers[i]? with
    | some wk =>
      match engine.configurator.work engine.endpoint wk.entry wk.stage env σ.world with
      | (.ok stage, w) => { σ.pay wk.deposit w with workers := σ.workers.set i { wk with stage } }
      | (.error _, w) => (σ.pay wk.deposit w).crash
    | none => σ
  | associate c => { σ with world := { σ.world with associations := c } }
  | crash => σ.crash
  | startEthereum id =>
    match σ.ethereum.position with
    | .stopped =>
      match σ.ethereum.start id env σ.world with
      | (.ok l, w) => { σ with world := w, ethereum := l }
      | (.error _, w) => { σ with world := w }
    | _ => σ
  | startBitcoin genesis blockCount =>
    match σ.bitcoin.position with
    | .stopped =>
      match σ.bitcoin.start genesis blockCount env σ.world with
      | (.ok l, w) => { σ with world := w, bitcoin := l }
      | (.error _, w) => { σ with world := w }
    | _ => σ

end SwapOp

end Dex
