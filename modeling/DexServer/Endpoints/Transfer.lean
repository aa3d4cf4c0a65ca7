import DexServer.Endpoints.Deposit

/-!
# The events of a transfer (`processTokenTransaction` in `endpoints/deposit.go`)

Before it sends tokens, `processTokenTransaction` starts a goroutine that receives the events of the
token, appends each to `logs` and then sends on a channel without buffer. The function itself
receives from that channel once, after `Transfer` has returned, and then looks at `logs`. The events
are those of all transfers of the token.

`Collector` is the two goroutines next to the events that come in.
-/

namespace Dex

open Lib

/-- Where `processTokenTransaction` stands. -/
inductive Caller
  /-- in `Transfer` -/
  | transferring
  /-- at `<-done` -/
  | waiting
  /-- before `len(logs)` -/
  | released
  /-- it has looked at `logs` -/
  | looked (logs : List TransferEvent)
  deriving DecidableEq, Repr

structure Collector where
  /-- the events that have come in -/
  stream : List TransferEvent
  logs : List TransferEvent
  /-- does the goroutine stand at `done <- true`? -/
  sending : Bool
  caller : Caller
  deriving DecidableEq, Repr

/-- The goroutine has been started. -/
def Collector.started : Collector := ⟨[], [], false, .transferring⟩

inductive CollectOp
  /-- an event comes in -/
  | arrive (event : TransferEvent)
  /-- `event := <-events; logs = append(logs, event)` -/
  | collect
  /-- `Transfer` returns -/
  | transferred
  /-- `done <- true` meets `<-done` -/
  | meet
  | look
  deriving DecidableEq, Repr

def CollectOp.step (c : Collector) : CollectOp → Collector
  | arrive event => { c with stream := c.stream ++ [event] }
  | collect =>
    if c.sending then c
    else
      match c.stream[c.logs.length]? with
      | none => c
      | some event => { c with logs := c.logs ++ [event], sending := true }
  | transferred =>
    match c.caller with
    | .transferring => { c with caller := .waiting }
    | _ => c
  | meet =>
    match c.caller with
    | .waiting => if c.sending then { c with sending := false, caller := .released } else c
    | _ => c
  | look =>
    match c.caller with
    | .released => { c with caller := .looked c.logs }
    | _ => c

/-! ## The function, cut at the transfer -/

/-- The status that is stored for an association. -/
def World.depositStatus (w : World) (a : AddressAssociationRecord) : Option DepositStatus :=
  (w.associations.getByAddress a.chain a.address).map (·.status)

namespace DepositEndpoint

/-- `processTokenTransaction` before the transfer. -/
def prepareTransfer (e : DepositEndpoint) (a : AddressAssociationRecord) (quoteAmount : Int) :
    M Int := do
  call fun _ _ w => (.ok (), w)
  let tokenAmount ← e.depositService.getBaseTokenAmount a.pairName quoteAmount
  call fun _ _ w => (.ok (), w)
  pure tokenAmount

/-- `token.Transfer`. -/
def transfer (a : AddressAssociationRecord) (tokenAmount : Int) : M Unit := call fun _ _ w =>
  (.ok (), { w with transfers := w.transfers ++
    [⟨a.baseTokenAddress, a.associatedAddress, tokenAmount⟩] })

/-- `OnSubmitTransaction` of a CreateOffer before the transfer. -/
def prepareOffer (e : DepositEndpoint) (chain : Chain) (destination : Address)
    (t : AssociationTransaction) : M (AddressAssociationRecord × Int) := do
  let a ← deref (← getAssociationByChainAssociatedAddress chain destination)
  let transaction ← orFailed a (checked (e.encode t))
  orFailed a (saveDepositTransaction chain a.address transaction)
  let amount ← index t.params 0
  let quoteAmount ← orFailed a (checked (required (setString amount)
    ("Could not convert to token amount: " ++ amount)))
  let tokenAmount ← orFailed a (e.prepareTransfer a quoteAmount)
  pure (a, tokenAmount)

end DepositEndpoint

end Dex
