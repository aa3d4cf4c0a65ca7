import DexServer.Daos.Trade
import DexServer.Rabbitmq.Operator
import DexServer.Types.TradeJson

/-!
# Executing a batch (`operator/txqueue.go`)

What the node and the exchange contract answer is a `Verdict`. The function waits for the
transaction to be mined; nothing it does depends on what happens meanwhile, and its last message
may be taken at any later time, so it is one step.
-/

namespace Dex

open Lib

/-- The answers for one batch; `none` is an error. -/
structure Verdict where
  /-- `Exchange.CallBatchTrades`: the gas limit; a failed estimate is no error there -/
  gasLimit : Option Nat
  /-- `GetPendingNonceAt` -/
  nonce : Option Nat
  /-- `Exchange.ExecuteBatchTrades`: the hash of the transaction -/
  tx : Option Hash
  /-- `WaitMined`: does the receipt say that the transaction was reverted? -/
  reverted : Option Bool
  deriving DecidableEq, Repr

/-- `TradeService.UpdatePendingTrade`. -/
def updatePendingTrade (t : Trade) (txh : Hash) : M Trade :=
  findAndModifyTrade { t with status := .PENDING, txHash := txh }

/-- The loop over the trades of a batch: a trade whose update fails becomes `nil`. -/
def updatePendingTrades (txh : Hash) : List Trade → M (List (Option Trade))
  | [] => pure []
  | t :: trades => do
    let updated ← Prog.attempt (updatePendingTrade t txh)
    let rest ← updatePendingTrades txh trades
    pure (updated.toOption :: rest)

namespace TxQueue

/-- `HandleTradeInvalid`: an error of the broker is logged, as in the next three. -/
def handleTradeInvalid (m : Matches) : M Unit := do
  let _ ← Prog.attempt (publishTradeInvalidMessage m)

/-- `HandleTxError`. -/
def handleTxError (m : Matches) (trades : List (Option Trade)) : M Unit := do
  let _ ← Prog.attempt (publishTxErrorMessage m trades "Transaction error")

/-- `HandleError`. -/
def handleError (m : Matches) : M Unit := do
  let _ ← Prog.attempt (publishErrorMessage m "Server error")

/-- What follows the sending of the transaction. -/
def awaitMined (v : Verdict) (m : Matches) (trades : List (Option Trade)) : M Unit := do
  match v.reverted with
  | none => Prog.throw .io
  | some true => do
    handleTxError m trades
    Prog.throw (.msg "Reverted Transaction")
  -- `HandleTxSuccess`
  | some false => publishTradeSuccessMessage m trades

/-- `ExecuteTrade`. -/
def executeTrade (v : Verdict) (m : Matches) : M Unit := do
  match v.gasLimit with
  | none => do
    handleTradeInvalid m
    Prog.throw .io
  | some gasLimit =>
    if gasLimit < 140000 then
      handleTradeInvalid m
      Prog.throw (.msg "Invalid Trade")
    else match v.nonce, v.tx with
      | some _, some tx => do
        let trades ← updatePendingTrades tx m.trades
        match ← Prog.attempt (publishTradeSentMessage m trades) with
        | .error _ => Prog.throw (.msg "Could not update")
        | .ok () => awaitMined v m trades
      | _, _ => do
        handleError m
        Prog.throw .io

/-- The consumer of a transaction queue: a batch that is not valid is dropped. -/
def consume (exchangeAddress : Address) (v : Verdict) (m : Matches) : M Unit := do
  let env ← Prog.ask
  let m ← checked (m.validate exchangeAddress env.eth)
  executeTrade v m

/-- `ConsumeQueuedTrades`, given the body of a message. A body that is not decoded is logged, and
neither acknowledged nor refused. A nil pointer is dereferenced by the check. -/
def consumeQueuedTrades (exchangeAddress : Address) (v : Verdict) (body : Json) : M Unit := do
  let env ← Prog.ask
  match RawMatches.unmarshalJSON env.codec body with
  | .error (.panic s) => Prog.throw (.panic s)
  | .error _ => pure ()
  | .ok m =>
    match m.matches? with
    | some m => consume exchangeAddress v m
    | none => Prog.throw (.panic "nil pointer dereference")

end TxQueue

end Dex
