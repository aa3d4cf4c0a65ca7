import DexServer.Daos.Order
import DexServer.Daos.Trade
import DexServer.Rabbitmq.Orders

/-!
# The order book (`engine/orderbook.go`)

The functions that change an order in place take it and return it. Each operation holds the
mutex of its book from the first call to the last, so it is one step of the engine.
-/

namespace Dex

open Lib

/-! ## Matching -/

/-- The amount of a trade: what is left of the smaller of the two orders. -/
def tradeAmount (takerOrder makerOrder : Order) : Int :=
  if makerOrder.remainingAmount > takerOrder.remainingAmount then takerOrder.remainingAmount
  else makerOrder.remainingAmount

/-- The maker after the trade. -/
def filledMaker (takerOrder makerOrder : Order) : Order :=
  if makerOrder.remainingAmount > takerOrder.remainingAmount then
    { makerOrder with
      filledAmount := makerOrder.filledAmount + tradeAmount takerOrder makerOrder
      status := .PARTIAL_FILLED }
  else makerOrder.complete

/-- The taker after the trade; its status is set when the loop ends. -/
def filledTaker (takerOrder makerOrder : Order) : Order :=
  { takerOrder with
    filledAmount := takerOrder.filledAmount + tradeAmount takerOrder makerOrder }

/-- The trade between a taker and a maker: it is made at the taker's price. -/
def newTrade (eth : Eth) (takerOrder makerOrder : Order) : Trade where
  amount := tradeAmount takerOrder makerOrder
  pricePoint := takerOrder.pricePoint
  baseToken := takerOrder.baseToken
  quoteToken := takerOrder.quoteToken
  makerOrderHash := makerOrder.hash
  takerOrderHash := takerOrder.hash
  taker := takerOrder.userAddress
  pairName := takerOrder.pairName
  maker := makerOrder.userAddress
  status := .PENDING
  hash := Trade.computeHash eth makerOrder.hash takerOrder.hash
  txHash := 0
  createdAt := 0

/-- `execute`: the taker and the maker after it, and the trade. -/
def execute (takerOrder makerOrder : Order) : M (Order × Order × Trade) := do
  let env ← Prog.ask
  let _ ← findAndModify (filledMaker takerOrder makerOrder)
  pure (filledTaker takerOrder makerOrder, filledMaker takerOrder makerOrder,
    newTrade env.eth takerOrder makerOrder)

/-- The loop over the matching orders, the same in `buyOrder` and `sellOrder`. `remaining` is
`remainingOrder.Amount`, which starts at the full amount of the order. `Matches.TakerOrder` points
to the order itself, so it shows the order's last state. -/
def matchLoop (o : Order) (remaining : Int) (matched : Matches) : List Order → M EngineResponse
  | [] => do
    let o := o.withStatus .PARTIAL_FILLED
    let _ ← findAndModify o
    pure { status := .ORDER_PARTIALLY_FILLED, order := some o,
           matches? := some { matched with takerOrder := o } }
  | mo :: matchingOrders => do
    let (o, mo, trade) ← execute o mo
    let matched := matched.appendMatch mo trade
    let remaining := remaining - trade.amount
    if remaining = 0 then
      let o := o.complete
      let _ ← findAndModify o
      pure { status := .ORDER_FILLED, order := some o,
             matches? := some { matched with takerOrder := o } }
    else matchLoop o remaining matched matchingOrders

/-- The order as `addOrder` stores it. -/
def addedOrder (o : Order) : Order := if o.filledAmount = 0 then o.withStatus .OPEN else o

/-- `addOrder`. -/
def addOrder (o : Order) : M Unit := do
  let _ ← findAndModify (addedOrder o)
  pure ()

/-- `buyOrder`. An error of `addOrder` is not looked at. -/
def buyOrder (o : Order) : M EngineResponse := do
  let matchingOrders ← getMatchingSellOrders o
  if matchingOrders.isEmpty then
    let _ ← Prog.attempt (addOrder o)
    pure { status := .ORDER_ADDED, order := some (addedOrder o) }
  else matchLoop o o.amount ⟨[], o, []⟩ matchingOrders

/-- `sellOrder`: it sets the status before it adds the order, whatever was filled of it. -/
def sellOrder (o : Order) : M EngineResponse := do
  let matchingOrders ← getMatchingBuyOrders o
  if matchingOrders.isEmpty then
    let o := o.withStatus .OPEN
    let _ ← Prog.attempt (addOrder o)
    pure { status := .ORDER_ADDED, order := some (addedOrder o) }
  else matchLoop o o.amount ⟨[], o, []⟩ matchingOrders

/-- `newOrder`. -/
def newOrder (o : Order) : M Unit := do
  let res ← match o.side with
    | .SELL => sellOrder o
    | .BUY => buyOrder o
    | .other .. => pure {}
  publishEngineResponse res

/-! ## Cancellation and invalidation -/

/-- `cancelOrder`. -/
def cancelOrder (o : Order) : M Unit := do
  updateOrderStatus o.hash .CANCELLED
  publishEngineResponse { status := .ORDER_CANCELLED, order := some (o.withStatus .CANCELLED) }

/-- Publish `NEW_ORDER` for each order; an error is logged. -/
def republish : List Order → M Unit
  | [] => pure ()
  | o :: orders => do
    let _ ← Prog.attempt (publishNewOrderMessage o)
    republish orders

/-- The hashes the loop `for i := range orders` reads from `trades[i]`. -/
def tradeHashes (f : Trade → Hash) (trades : List Trade) : Nat → List Order → M (List Hash)
  | _, [] => pure []
  | i, _ :: orders => do
    let t ← index trades i
    let hs ← tradeHashes f trades (i + 1) orders
    pure (f t :: hs)

/-- `invalidateMakerOrders`. -/
def invalidateMakerOrders (m : Matches) : M Unit := do
  let makerOrderHashes ← tradeHashes (·.makerOrderHash) m.trades 0 m.makerOrders
  let takerOrderHashes ← tradeHashes (·.takerOrderHash) m.trades 0 m.makerOrders
  let takerOrders ← updateOrderFilledAmounts takerOrderHashes m.tradeAmounts
  let makerOrders ← updateOrderStatusesByHashes .INVALIDATED makerOrderHashes
  let cancelledTrades ← updateTradeStatusesByOrderHashes .CANCELLED takerOrderHashes
  let _ ← Prog.attempt <| publishEngineResponse
    { status := .TRADES_CANCELLED, invalidatedOrders := some makerOrders,
      cancelledTrades := some cancelledTrades }
  republish takerOrders

/-- `invalidateTakerOrders`. -/
def invalidateTakerOrders (m : Matches) : M Unit := do
  let makerOrderHashes := m.trades.map (·.makerOrderHash)
  let makerOrders ← updateOrderFilledAmounts makerOrderHashes m.tradeAmounts
  let invalidatedOrders ← updateOrderStatusesByHashes .INVALIDATED [m.takerOrder.hash]
  let cancelledTrades ← updateTradeStatusesByOrderHashes .CANCELLED makerOrderHashes
  publishEngineResponse
    { status := .TRADES_CANCELLED, invalidatedOrders := some invalidatedOrders,
      cancelledTrades := some cancelledTrades }
  republish makerOrders

/-- `InvalidateOrder`: it returns the response and does not publish it. -/
def invalidateOrder (o : Order) : M EngineResponse := do
  updateOrderStatus o.hash .ERROR
  pure { status := .INVALIDATED, order := some (o.withStatus .ERROR) }

end Dex
