import DexServer.Daos.OrderRecord
import DexServer.Lib.Decimal128
import DexServer.Lib.Group

/-!
# The order book queries (`daos/order.go`, `services/order.go`)

Three aggregation pipelines over the stored records: the open orders of a pair (`GetRawOrderBook`),
the levels of a side (`GetSideOrderBook`, twice in `GetOrderBook`) and one level
(`GetOrderBookPricePoint`), from which `broadcastOrderBookUpdate` makes the message to the
subscribers.

The records are scanned in the order of `Env.scanOrders`. A side is grouped by the decimal value of
its price texts, a single level is selected by the text of its price. A text that is not a number
makes the pipeline fail.
-/

namespace Dex

open Lib

/-- `$toDecimal` of a text. -/
def toDecimal (s : String) : Except Err Decimal128 :=
  match setString s with
  | some n => .ok (.ofInt n)
  | none => .error .io

/-- What the queries read of a `Pair`. -/
structure PairTokens where
  baseTokenAddress : Address
  quoteTokenAddress : Address
  deriving DecidableEq, Repr

/-- A row of the order book: a map with these two keys. -/
structure Level where
  pricepoint : String
  amount : String
  deriving DecidableEq, Repr

/-- The value of a `$sort` key: 1 or -1. -/
inductive Direction
  | ascending
  | descending
  deriving DecidableEq, Repr

def Direction.le : Direction → Int → Int → Prop
  | .ascending, a, b => a ≤ b
  | .descending, a, b => b ≤ a

instance (d : Direction) : DecidableRel d.le := by
  intro a b
  cases d
  · exact inferInstanceAs (Decidable (a ≤ b))
  · exact inferInstanceAs (Decidable (b ≤ a))

namespace OrderRecord

/-- The `$match` on status and tokens, which all three pipelines make. -/
def InBook (eth : Eth) (p : PairTokens) (r : OrderRecord) : Prop :=
  (r.status = "OPEN" ∨ r.status = "PARTIAL_FILLED") ∧ r.baseToken = eth.hex p.baseTokenAddress ∧
    r.quoteToken = eth.hex p.quoteTokenAddress

instance (eth : Eth) (p : PairTokens) (r : OrderRecord) : Decidable (r.InBook eth p) :=
  inferInstanceAs (Decidable (_ ∧ _ ∧ _))

/-- `$subtract` of the fill from the amount. -/
def remaining (r : OrderRecord) : Except Err Decimal128 := do
  let amount ← toDecimal r.amount
  let filledAmount ← toDecimal r.filledAmount
  pure (amount.sub filledAmount)

/-- The record with its price, the `_id` of its group. -/
def priced (r : OrderRecord) : Except Err (Int × OrderRecord) := do
  let price ← toDecimal r.pricepoint
  pure (price.value, r)

end OrderRecord

/-- The accumulators of a group: `$first` of the price texts and `$sum` of what remains. -/
def levelOf (group : List OrderRecord) : Except Err Level := do
  let amounts ← group.mapM OrderRecord.remaining
  pure ⟨(group.map (·.pricepoint)).headD "", (Decimal128.sum amounts).text⟩

/-- `$group` by price; the amount is projected to its text. -/
def levels (rs : List OrderRecord) : Except Err (List (Int × Level)) := do
  let rs ← rs.mapM OrderRecord.priced
  (groups Prod.fst rs).mapM fun g => do
    let level ← levelOf (g.2.map Prod.snd)
    pure (g.1, level)

namespace PairTokens

/-- The pipeline of `GetSideOrderBook`. -/
def sideOrderBook (eth : Eth) (p : PairTokens) (side : String) (sort : Direction)
    (limit : Option Nat) (rs : List OrderRecord) : Except Err (List Level) := do
  let rows ← levels (rs.filter fun r => r.InBook eth p ∧ r.side = side)
  let rows := (rows.insertionSort fun a b => sort.le a.1 b.1).map Prod.snd
  match limit with
  | none => pure rows
  | some n => pure (rows.take n)

/-- The pipeline of `GetOrderBookPricePoint`. -/
def orderBookPricePoint (eth : Eth) (p : PairTokens) (pp : Int) (side : String)
    (rs : List OrderRecord) : Except Err (List Level) := do
  let rows ← levels (rs.filter fun r => r.InBook eth p ∧ r.pricepoint = toString pp ∧ r.side = side)
  pure (rows.map Prod.snd)

/-- The pipeline of `GetRawOrderBook`. -/
def rawOrderBook (eth : Eth) (p : PairTokens) (rs : List OrderRecord) :
    Except Err (List OrderRecord) := do
  let rows ← (rs.filter fun r => r.InBook eth p).mapM OrderRecord.priced
  pure ((rows.insertionSort fun a b => a.1 ≤ b.1).map Prod.snd)

end PairTokens

/-- `db.Aggregate` on the collection of orders: `f` is the pipeline, on the records as they are
scanned. -/
def aggregateOrders {α : Type} (f : Eth → List OrderRecord → Except Err α) : M α :=
  call fun env n w =>
  (f env.eth ((env.scanOrders n w.orders.docs).map (Order.getBSON env.eth)), w)

/-- `GetSideOrderBook`. -/
def getSideOrderBook (p : Option PairTokens) (side : Side) (sort : Direction) (limit : Option Nat) :
    M (List Level) :=
  match p with
  | none => pure []
  | some p => aggregateOrders fun eth rs => p.sideOrderBook eth side.text sort limit rs

/-- `GetOrderBook`: bids descending, asks ascending. -/
def getOrderBook (p : Option PairTokens) : M (List Level × List Level) := do
  let bids ← getSideOrderBook p .BUY .descending none
  let asks ← getSideOrderBook p .SELL .ascending none
  pure (bids, asks)

/-- `GetOrderBookPricePoint`: nil if there is no row. -/
def getOrderBookPricePoint (p : PairTokens) (pp : Int) (side : Side) : M (Option Int) := do
  let env ← Prog.ask
  let res ← aggregateOrders fun eth rs => p.orderBookPricePoint eth pp side.text rs
  match res with
  | [] => pure none
  | row :: _ => pure (some (toBigInt env.undefinedInt row.amount))

/-- `GetRawOrderBook`. -/
def getRawOrderBook (p : PairTokens) : M (List RawOrder) := do
  let env ← Prog.ask
  let rs ← aggregateOrders fun eth rs => p.rawOrderBook eth rs
  pure (rs.map (OrderRecord.setBSON env.codec))

/-! ## The message to the subscribers -/

/-- `Order.Pair`. -/
def Order.pair (o : Order) : Except String PairTokens := do
  require (o.baseToken ≠ 0) "Base token is not set"
  require (o.quoteToken ≠ 0) "Quote token is set"
  pure ⟨o.baseToken, o.quoteToken⟩

/-- `types.OrderBook`. -/
structure OrderBookMessage where
  pairName : String
  asks : List Level
  bids : List Level
  deriving DecidableEq, Repr

/-- The row for an order: a failed query and a level that is gone both give 0. -/
def orderBookUpdate (p : PairTokens) (o : Order) : M Level := do
  let amount ← Prog.attempt (getOrderBookPricePoint p o.pricePoint o.side)
  match amount with
  | .ok (some amount) => pure ⟨toString o.pricePoint, toString amount⟩
  | _ => pure ⟨toString o.pricePoint, toString (0 : Int)⟩

/-- The loop of `broadcastOrderBookUpdate`: the bids and the asks. -/
def orderBookUpdates (p : PairTokens) : List Order → M (List Level × List Level)
  | [] => pure ([], [])
  | o :: orders => do
    let update ← orderBookUpdate p o
    let (bids, asks) ← orderBookUpdates p orders
    if o.side = .BUY then pure (update :: bids, asks) else pure (bids, update :: asks)

/-- `broadcastOrderBookUpdate`: the message, on the channel of the pair; `none` if there is none. -/
def broadcastOrderBookUpdate (orders : List Order) :
    M (Option (PairTokens × OrderBookMessage)) := do
  let o ← index orders 0
  match o.pair with
  | .error _ => pure none
  | .ok p =>
    let (bids, asks) ← orderBookUpdates p orders
    pure (some (p, ⟨o.pairName, asks, bids⟩))

end Dex
