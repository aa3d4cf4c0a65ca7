import DexServer.Daos.Order
import DexServer.Daos.Trade
import DexServer.Rabbitmq.Operator

/-!
# The operator (`operator/operator.go`, `operator/utils.go`)

It distributes the batches over the transaction queues of its wallets. When every queue holds more
than ten batches (or there is none), a batch is dropped.

It also listens to the errors of the exchange contract. `NewOperator` sets no `Broker`: its messages
go through the channel that the transaction queues share, if one of them has opened it.
-/

namespace Dex

open Lib

structure Operator where
  /-- the number of operator wallets, each with a transaction queue -/
  txQueues : Nat

/-- `TxQueue.Length`: when the call fails the count is 0. -/
def txQueueLength (txq : Nat) : M Nat := do
  let n ← Prog.attempt <| call fun _ _ w => (.ok (w.txQueue.countP (·.1 = txq)), w)
  pure (n.toOption.getD 0)

/-- The loop of `GetShortestQueue`; `none` is the queue without a name it starts with. -/
def shortestQueue (shortest : Option Nat) (min : Nat) : List Nat → M (Option Nat × Nat)
  | [] => pure (shortest, min)
  | txq :: txqs => do
    let ln ← txQueueLength txq
    if ln < min then shortestQueue (some txq) ln txqs else shortestQueue shortest min txqs

/-- `PublishPendingTrades`. -/
def publishPendingTrades (txq : Nat) (m : Matches) : M Unit := call fun _ _ w =>
  (.ok (), { w with txQueue := w.txQueue ++ [(txq, m)] })

/-- An error of the exchange contract. -/
structure ErrorEvent where
  makerOrderHash : Hash
  takerOrderHash : Hash
  errorId : Byte
  deriving DecidableEq, Repr

def getErrorType : Nat → String
  | 1 => "Signature invalid"
  | 2 => "Maker signature invalid"
  | 3 => "Taker signature invalid"
  | 4 => "Orders should have opposite side"
  | 5 => "Pricepoints do no match"
  | 6 => "Trades already completed or cancelled"
  | 7 => "Trade amount is too large"
  | 8 => "Rounding error is too large"
  | _ => "Unknown error"

namespace Operator

/-- `GetShortestQueue`. -/
def getShortestQueue (op : Operator) : M (Option Nat × Nat) :=
  shortestQueue none 1000 (List.range op.txQueues)

/-- `QueueTrade`, which `HandleTrades` calls for a batch of the queue `trades`. -/
def queueTrade (op : Operator) (m : Matches) : M Unit := do
  match ← op.getShortestQueue with
  | (some txq, len) =>
    if len > 10 then Prog.throw (.msg "Transaction queue is full") else publishPendingTrades txq m
  | (none, _) => Prog.throw (.msg "Transaction queue is full")

/-- `PublishPendingTrades` on what the loop returns: the queue it starts with has no broker. -/
def publishOn (m : Matches) : Option Nat → M Unit
  | some txq => publishPendingTrades txq m
  | none => Prog.throw (.panic "nil pointer dereference")

/-- `QueueTrade` for an operator with the queues `txqs`: the matches go to whatever queue the loop
returns, if it is not full. -/
def queueTradeOn (txqs : List Nat) (m : Matches) : M Unit := do
  let (txq, len) ← shortestQueue none 1000 txqs
  if len > 10 then Prog.throw (.msg "Transaction queue is full") else publishOn m txq

/-- `HandleTxError`, where `opened` says if there is a channel `OPERATOR_PUB`: without it
`GetChannel` follows the nil `Broker`. The type `PublishTxErrorMessage` gives to the message is
TRADE_ERROR. -/
def handleTxError (opened : Bool) (m : SentMatches) (id : Nat) : M Unit :=
  if opened then do
    let _ ← Prog.attempt <| publishTxMessage
      { m with messageType := .TRADE_ERROR, errorType := getErrorType id }
  else Prog.throw (.panic "nil pointer dereference")

/-- An event of `HandleEvents`: what cannot be fetched is `nil`. -/
def handleEvent (opened : Bool) (e : ErrorEvent) : M Unit := do
  let trades ← Prog.attempt (getTradesByTakerOrderHash e.takerOrderHash)
  let takerOrder ← Prog.attempt (getByHash e.takerOrderHash)
  let makerOrder ← Prog.attempt (getByHash e.makerOrderHash)
  handleTxError opened
    { makerOrders := [makerOrder.toOption.join]
      takerOrder := takerOrder.toOption.join
      trades := (trades.toOption.getD []).map some }
    e.errorId.toNat

end Operator

end Dex
