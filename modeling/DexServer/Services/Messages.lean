import DexServer.Daos.Trade
import DexServer.Rabbitmq.Orders
import DexServer.Services.Validator

/-!
# Engine responses and operator messages (`services/order.go`)

`handleEngineOrderMatched` checks the balance of every maker again: the trades with makers that
pass are stored and handed to the operator, the others are given to the engine to invalidate. The
three handlers of a failed batch are one: they mark its trades, and no order is touched.

The messages to the order sockets are kept (`World.ws`); the updates of the orderbook and trade
channels are not modelled, they only read.
-/

namespace Dex

open Lib

/-- `SendOrderMessage`. -/
def sendOrderMessage (e : WsEvent) : M Unit := Prog.modify fun w => { w with ws := w.ws ++ [e] }

/-- A pointer is followed. -/
def deref {α : Type} : Option α → M α
  | some a => pure a
  | none => .throw (.panic "nil pointer dereference")

namespace Services

/-! ## Engine responses -/

/-- `handleEngineOrderAdded`. -/
def handleEngineOrderAdded (res : EngineResponse) : M Unit := do
  let o ← deref res.order
  sendOrderMessage (.order .ORDER_ADDED o.userAddress o)

/-- The loop of `handleEngineOrderMatched`: the valid and the invalid matches. -/
def checkMakers (s : Services) (m : Matches) (valid invalid : Matches) : Nat → List Trade →
    M (Matches × Matches)
  | _, [] => pure (valid, invalid)
  | i, t :: trades => do
    let mo ← index m.makerOrders i
    match ← attempted (s.validateBalance mo) with
    | .error _ => checkMakers s m valid (invalid.appendMatch mo t) (i + 1) trades
    | .ok () => checkMakers s m (valid.appendMatch mo t) invalid (i + 1) trades

/-- The trades as the clients see them: those stored have their creation time set. -/
def stamped (stored created : List Trade) (t : Trade) : Trade :=
  ((stored.zip created).lookup t).getD t

/-- The second half of `handleEngineOrderMatched`: the valid matches. -/
def storeMatches (o : Order) (m valid : Matches) : M Unit := do
  if valid.trades.isEmpty then pure ()
  else
    match ← Prog.attempt (createTrades valid.trades) with
    | .error _ => sendOrderMessage (.error o.userAddress)
    | .ok created =>
      match ← Prog.attempt (publishTrades { valid with trades := created }) with
      | .error _ => sendOrderMessage (.error o.userAddress)
      | .ok () => sendOrderMessage (.matched .ORDER_MATCHED o.userAddress
          { m.sent with
            trades := m.trades.map fun t => some (stamped valid.trades created t) })

/-- `handleEngineOrderMatched`. -/
def handleEngineOrderMatched (s : Services) (res : EngineResponse) : M Unit := do
  let o ← deref res.order
  let m ← deref res.matches?
  let (valid, invalid) ← s.checkMakers m ⟨[], o, []⟩ ⟨[], o, []⟩ 0 m.trades
  if invalid.trades.isEmpty then pure ()
  else
    let _ ← Prog.attempt (publishInvalidateMakerOrdersMessage invalid)
  storeMatches o m valid

/-- `handleOrderCancelled`. -/
def handleOrderCancelled (res : EngineResponse) : M Unit := do
  let o ← deref res.order
  sendOrderMessage (.order .ORDER_CANCELLED o.userAddress o)

/-- Send a message to the owner of each order. -/
def sendOrders (event : OrderEvent) : List Order → M Unit
  | [] => pure ()
  | o :: orders => do
    sendOrderMessage (.order event o.userAddress o)
    sendOrders event orders

/-- `handleOrdersInvalidated`. -/
def handleOrdersInvalidated (res : EngineResponse) : M Unit := do
  let orders ← deref res.invalidatedOrders
  sendOrders .ORDER_INVALIDATED orders

/-- `HandleEngineResponse`. A response without a status, or INVALIDATED, is only printed. -/
def handleEngineResponse (s : Services) (res : EngineResponse) : M Unit :=
  match res.status with
  | .ORDER_ADDED => handleEngineOrderAdded res
  | .ORDER_FILLED | .ORDER_PARTIALLY_FILLED => s.handleEngineOrderMatched res
  | .ORDER_CANCELLED => handleOrderCancelled res
  | .TRADES_CANCELLED => handleOrdersInvalidated res
  | .none | .INVALIDATED => pure ()

/-! ## Operator messages -/

/-- `trades[0].Taker`. -/
def firstTaker (trades : List (Option Trade)) : M Address := do
  let t ← deref (← index trades 0)
  pure t.taker

/-- Send what `payload` makes of it to the owner of each maker order. -/
def sendMakers (payload : Order → WsEvent) : List (Option Order) → M Unit
  | [] => pure ()
  | o :: orders => do
    let o ← deref o
    sendOrderMessage (payload o)
    sendMakers payload orders

/-- `handleOperatorTradeTxPending`. -/
def handleOperatorTradeTxPending (msg : OperatorMessage) : M Unit := do
  let taker ← firstTaker msg.trades
  sendOrderMessage (.matched .ORDER_PENDING taker msg.toSentMatches)
  sendMakers (fun o => .matched .ORDER_PENDING o.userAddress msg.toSentMatches) msg.makerOrders

/-- The hashes of the trades. -/
def hashes : List (Option Trade) → M (List Hash)
  | [] => pure []
  | t :: trades => do
    let t ← deref t
    let hs ← hashes trades
    pure (t.hash :: hs)

/-- The messages to the makers of a settled batch, the `i`-th about `NthMatch(i)`. -/
def sendSettled (msg : OperatorMessage) : Nat → List Trade → M Unit
  | _, [] => pure ()
  | i, _ :: trades => do
    let mo ← index msg.makerOrders i
    let t ← index msg.trades i
    let o ← deref mo
    sendOrderMessage (.matched .ORDER_SUCCESS o.userAddress
      { msg.toSentMatches with makerOrders := [mo], trades := [t] })
    sendSettled msg (i + 1) trades

/-- `handleOperatorTradeTxSuccess`. -/
def handleOperatorTradeTxSuccess (msg : OperatorMessage) : M Unit := do
  let hs ← hashes msg.trades
  if hs.isEmpty then pure ()
  else
    let trades ← updateTradeStatuses .SUCCESS hs
    let taker ← firstTaker (trades.map some)
    sendOrderMessage (.matched .ORDER_SUCCESS taker msg.toSentMatches)
    sendSettled msg 0 trades

/-- The loop of the handlers of a failed batch: every trade is marked, an error is logged. -/
def markFailed : List (Option Trade) → M (List (Option Trade))
  | [] => pure []
  | t :: trades => do
    let t ← deref t
    let _ ← Prog.attempt (updateTradeStatus t.hash .ERROR)
    let rest ← markFailed trades
    pure (some { t with status := .ERROR } :: rest)

/-- The body of the three handlers of a failed batch. -/
def handleFailedBatch (msg : OperatorMessage) : M Unit := do
  let trades ← markFailed msg.trades
  let taker ← firstTaker trades
  sendOrderMessage (.matched .ORDER_ERROR taker { msg.toSentMatches with trades := trades })
  sendMakers (fun o => .order .ORDER_ERROR o.userAddress o) msg.makerOrders

/-- `handleOperatorTradeTxError`. -/
def handleOperatorTradeTxError (msg : OperatorMessage) : M Unit := handleFailedBatch msg

/-- `handleOperatorTradeError`. -/
def handleOperatorTradeError (msg : OperatorMessage) : M Unit := handleFailedBatch msg

/-- `handleOperatorTradeInvalid`. -/
def handleOperatorTradeInvalid (msg : OperatorMessage) : M Unit := handleFailedBatch msg

/-- `HandleOperatorMessages`. -/
def handleOperatorMessages (msg : OperatorMessage) : M Unit :=
  match msg.messageType with
  | .TRADE_ERROR => handleOperatorTradeError msg
  | .TRADE_TX_PENDING => handleOperatorTradeTxPending msg
  | .TRADE_TX_SUCCESS => handleOperatorTradeTxSuccess msg
  | .TRADE_TX_ERROR => handleOperatorTradeTxError msg
  | .TRADE_INVALID => handleOperatorTradeInvalid msg
  | .unknown _ => pure ()

end Services

end Dex
