import DexServer.Daos.OrderBook
import DexServer.Daos.Trade
import DexServer.Services.Pair
import DexServer.Types.Tick
import DexServer.Types.TradeJson
import Mathlib.Data.String.Basic

/-!
# The statistics of the pairs (`services/pair.go`)

`GetAllTokenPairData` makes three aggregations over the trades of a week and over the open orders of
each side, and merges their results pair by pair. The extremes of the prices are taken of the texts
(`$max`, `$min` and `$first`, `$last` of `$pricepoint`), unlike in `GetTokenPairData`, which
converts them first.

The store returns the groups in any order: `GroupOrder`.
-/

namespace Dex

open Lib

/-- The order in which the groups of call `n` are returned. -/
structure GroupOrder where
  keys : Nat → List PairKey → List PairKey
  keys_perm : ∀ n ks, (keys n ks).Perm ks

/-- `$max` of texts. -/
def greatestText (l : List String) : String := l.max?.getD ""

/-- `$min` of texts. -/
def leastText (l : List String) : String := l.min?.getD ""

/-- `bson.ParseDecimal128("1")`. -/
def decimalOne : Decimal128 := .ofInt 1

/-- `$sum` of ones. -/
def decimalCount {α : Type} (l : List α) : Decimal128 := .sum (l.map fun _ => decimalOne)

/-! ## Orders -/

def OrderRecord.pairKey (r : OrderRecord) : PairKey := ⟨r.pairName, r.baseToken, r.quoteToken⟩

/-- `status $in [OPEN, PARTIAL_FILLED]` and the side. -/
def OrderRecord.OpenOn (side : String) (r : OrderRecord) : Prop :=
  (r.status = "OPEN" ∨ r.status = "PARTIAL_FILLED") ∧ r.side = side

instance (side : String) (r : OrderRecord) : Decidable (r.OpenOn side) :=
  inferInstanceAs (Decidable (_ ∧ _))

/-- The accumulators of a group of orders. -/
def orderDataDoc (best : List String → String) (g : PairKey × List OrderRecord) :
    Except Err OrderDataDoc := do
  let amounts ← g.2.mapM OrderRecord.remaining
  pure ⟨g.1, .decimal (decimalCount g.2), .decimal (.sum amounts), best (g.2.map (·.pricepoint))⟩

/-- The pipelines `bidsQuery` and `asksQuery`. -/
def orderDataDocs (order : List PairKey → List PairKey) (side : String)
    (best : List String → String) (rs : List OrderRecord) : Except Err (List OrderDataDoc) :=
  let rs := rs.filter fun r => r.OpenOn side
  (groupsIn (order (rs.map OrderRecord.pairKey).dedup) OrderRecord.pairKey rs).mapM
  (orderDataDoc best)

/-- `OrderDao.Aggregate` of such a pipeline. -/
def aggregateOrderData (store : GroupOrder) (side : String) (best : List String → String) :
    M (List OrderData) := call fun env n w =>
  let rs := (env.scanOrders n w.orders.docs).map (Order.getBSON env.eth)
  ((orderDataDocs (store.keys n) side best rs).map fun ds =>
    ds.map (OrderDataDoc.setBSON env.eth env.undefinedInt), w)

/-! ## Trades -/

/-- What the pipelines read of the document of a trade. -/
structure TradeDoc where
  pairName : String
  baseToken : String
  quoteToken : String
  pricepoint : String
  amount : String
  status : String
  createdAt : Time

def Trade.doc (eth : Eth) (t : Trade) : TradeDoc where
  pairName := t.pairName
  baseToken := eth.hex t.baseToken
  quoteToken := eth.hex t.quoteToken
  pricepoint := toString t.pricePoint
  amount := toString t.amount
  status := t.status.text
  createdAt := t.createdAt

def TradeDoc.pairKey (t : TradeDoc) : PairKey := ⟨t.pairName, t.baseToken, t.quoteToken⟩

/-- The `$match` on the creation time and the status. -/
def TradeDoc.Within (start stop : Time) (t : TradeDoc) : Prop :=
  (start ≤ t.createdAt ∧ t.createdAt < stop) ∧ t.status = "SUCCESS"

instance (start stop : Time) (t : TradeDoc) : Decidable (t.Within start stop) :=
  inferInstanceAs (Decidable (_ ∧ _))

/-- The accumulators of a group of trades: but for count and volume they are texts. -/
def tradeDataDoc (g : PairKey × List TradeDoc) : Except Err TickDoc := do
  let amounts ← g.2.mapM fun t => toDecimal t.amount
  let prices := g.2.map (·.pricepoint)
  pure
    { pair := g.1
      count := .decimal (decimalCount g.2)
      openPrice := .text (prices.headD "")
      high := .text (greatestText prices)
      low := .text (leastText prices)
      closePrice := .text (prices.getLastD "")
      volume := .decimal (.sum amounts)
      timestamp := 0 }

/-- The pipeline `tradeDataQuery`. -/
def tradeDataDocs (order : List PairKey → List PairKey) (start stop : Time) (ts : List TradeDoc) :
    Except Err (List TickDoc) :=
  let ts := ts.filter fun t => t.Within start stop
  (groupsIn (order (ts.map TradeDoc.pairKey).dedup) TradeDoc.pairKey ts).mapM tradeDataDoc

/-- `TradeDao.Aggregate` of the pipeline. A document without fields does not match. -/
def aggregateTradeData (store : GroupOrder) (start stop : Time) : M (List Tick) :=
  call fun env n w =>
  let ts := (env.scanTrades n w.trades).map (Trade.doc env.eth)
  ((tradeDataDocs (store.keys n) start stop ts).map fun ds =>
    ds.map (TickDoc.setBSON env.eth env.undefinedInt), w)

/-! ## The merge -/

/-- `PairData`, without `Timestamp` and `Rank`, which are not set. -/
structure PairData where
  pair : PairID
  openPrice : Int
  high : Int
  low : Int
  volume : Int
  closePrice : Int
  count : Int
  orderVolume : Int
  orderCount : Int
  bidPrice : Int
  askPrice : Int
  price : Int
  deriving DecidableEq, Repr

namespace PairData

/-- The entry of a pair before the loops. -/
def initial (p : RawPair) : PairData :=
  ⟨⟨p.name, p.baseTokenAddress, p.quoteTokenAddress⟩, 0, 0, 0, 0, 0, 0, 0, 0, 0, 0, 0⟩

def addTrades (d : PairData) (t : Tick) : PairData :=
  { d with
    openPrice := t.openPrice, high := t.high, low := t.low, volume := t.volume
    closePrice := t.closePrice, count := t.count }

def addBids (d : PairData) (o : OrderData) : PairData :=
  { d with orderVolume := o.orderVolume, orderCount := o.orderCount, bidPrice := o.bestPrice }

def addAsks (d : PairData) (o : OrderData) : PairData :=
  { d with
    orderVolume := d.orderVolume + o.orderVolume
    orderCount := d.orderCount + o.orderCount
    askPrice := o.bestPrice
    price := if d.bidPrice ≠ 0 ∧ o.bestPrice ≠ 0 then (d.bidPrice + o.bestPrice) / 2 else 0 }

/-- The body of the loop over the pairs: three loops over the results. -/
def merged (eth : Eth) (trades : List Tick) (bids asks : List OrderData) (p : RawPair) : PairData :=
  let code := (initial p).pair.addressCode eth
  let d := trades.foldl (fun d t => if t.pair.addressCode eth = code then d.addTrades t else d)
    (initial p)
  let d := bids.foldl (fun d o => if o.pair.addressCode eth = code then d.addBids o else d) d
  asks.foldl (fun d o => if o.pair.addressCode eth = code then d.addAsks o else d) d

end PairData

/-- `time.Unix(t.Unix(), 0)`. -/
def Time.toSecond (t : Time) : Time := t - t % 10 ^ 9

/-- `t.AddDate(0, 0, -7)` in UTC. -/
def Time.weekBefore (t : Time) : Time := t - 7 * (24 * 60 * 60 * 10 ^ 9)

/-- `GetAllTokenPairData`; `activePairs` are the stored pairs that are active. The clock is read
before the first call. -/
def getAllTokenPairData (store : GroupOrder) (activePairs : List RawPair) : M (List PairData) := do
  let env ← Prog.ask
  let (pairs, now) ← call fun env n w => (.ok (activePairs, env.now n), w)
  let tradeData ← aggregateTradeData store now.weekBefore.toSecond now.toSecond
  let bidsData ← aggregateOrderData store "BUY" greatestText
  let asksData ← aggregateOrderData store "SELL" leastText
  pure (pairs.map (PairData.merged env.eth tradeData bidsData asksData))

end Dex
