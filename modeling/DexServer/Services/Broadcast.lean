import DexServer.Daos.OrderBook
import DexServer.Services.Messages

/-!
# Updates of the channels (`services/order.go`)

What the handlers of the engine's responses broadcast to the subscribers of the raw order book and
of the trades of a pair. `Services.respond` is `handleEngineResponse` with these updates as its
result; the state it leaves is the same (`respond_state`). The levels that
`broadcastOrderBookUpdate` sends before them are made by queries alone, and an error of these is
only logged.
-/

namespace Dex

open Lib

/-- `Trade.Pair`. -/
def Trade.pair (t : Trade) : Except String PairTokens := do
  require (t.baseToken ≠ 0) "Base token is not set"
  require (t.quoteToken ≠ 0) "Quote token is set"
  pure ⟨t.baseToken, t.quoteToken⟩

/-- `broadcastRawOrderBookUpdate`: the orders, on the channel of the pair; `none` if there is
none. -/
def broadcastRawOrderBookUpdate (orders : List Order) : M (Option (PairTokens × List Order)) := do
  let o ← index orders 0
  match o.pair with
  | .error _ => pure none
  | .ok p => pure (some (p, orders))

/-- `broadcastTradeUpdate`. -/
def broadcastTradeUpdate (trades : List Trade) : M (Option (PairTokens × List Trade)) := do
  let t ← index trades 0
  match t.pair with
  | .error _ => pure none
  | .ok p => pure (some (p, trades))

/-- A broadcast is made only for a slice that is not empty. -/
def unlessEmpty {α β : Type} (broadcast : List α → M (Option β)) (xs : List α) : M (Option β) :=
  if xs.isEmpty then pure none else broadcast xs

/-- What a handler broadcasts. -/
structure ChannelUpdates where
  rawOrderBook : Option (PairTokens × List Order) := none
  trades : Option (PairTokens × List Trade) := none
  deriving DecidableEq, Repr

namespace Services

/-- `handleEngineOrderAdded` and `handleOrderCancelled`, which broadcast the order of the
response. -/
def respondOrder (handler : EngineResponse → M Unit) (res : EngineResponse) : M ChannelUpdates := do
  handler res
  let o ← deref res.order
  let raw ← broadcastRawOrderBookUpdate [o]
  pure { rawOrderBook := raw }

/-- `storeMatches`; the result says that it has not returned early. -/
def storedMatches (o : Order) (m valid : Matches) : M Bool := do
  if valid.trades.isEmpty then pure true
  else
    match ← Prog.attempt (createTrades valid.trades) with
    | .error _ =>
      sendOrderMessage (.error o.userAddress)
      pure false
    | .ok created =>
      match ← Prog.attempt (publishTrades { valid with trades := created }) with
      | .error _ =>
        sendOrderMessage (.error o.userAddress)
        pure false
      | .ok () =>
        sendOrderMessage (.matched .ORDER_MATCHED o.userAddress
          { m.sent with trades := m.trades.map fun t => some (stamped valid.trades created t) })
        pure true

/-- `handleEngineOrderMatched`: there is an update only if no match is invalid. -/
def respondMatched (s : Services) (res : EngineResponse) : M ChannelUpdates := do
  let o ← deref res.order
  let m ← deref res.matches?
  let (valid, invalid) ← s.checkMakers m ⟨[], o, []⟩ ⟨[], o, []⟩ 0 m.trades
  if invalid.trades.isEmpty then pure ()
  else
    let _ ← Prog.attempt (publishInvalidateMakerOrdersMessage invalid)
  let stored ← storedMatches o m valid
  if stored ∧ invalid.trades.isEmpty then
    let raw ← broadcastRawOrderBookUpdate (o :: valid.makerOrders)
    pure { rawOrderBook := raw }
  else pure {}

/-- `handleOrdersInvalidated`. -/
def respondInvalidated (res : EngineResponse) : M ChannelUpdates := do
  handleOrdersInvalidated res
  let raw ← unlessEmpty broadcastRawOrderBookUpdate (res.invalidatedOrders.getD [])
  let cancelled ← unlessEmpty broadcastTradeUpdate (res.cancelledTrades.getD [])
  pure { rawOrderBook := raw, trades := cancelled }

/-- `HandleEngineResponse` with its updates. -/
def respond (s : Services) (res : EngineResponse) : M ChannelUpdates :=
  match res.status with
  | .ORDER_ADDED => respondOrder handleEngineOrderAdded res
  | .ORDER_FILLED | .ORDER_PARTIALLY_FILLED => s.respondMatched res
  | .ORDER_CANCELLED => respondOrder handleOrderCancelled res
  | .TRADES_CANCELLED => respondInvalidated res
  | .none | .INVALIDATED => pure {}

end Services

end Dex
