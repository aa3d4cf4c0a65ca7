import DexServer.Types.Order
import Mathlib.Algebra.BigOperators.Group.List.Basic

/-!
# Trades, matches and messages (`types/trade.go`, `types/engine.go`, `rabbitmq/orders.go`)
-/

namespace Dex

/-- `Trade.Status`. -/
inductive TradeStatus
  | PENDING
  | SUCCESS
  | ERROR
  | CANCELLED
  deriving DecidableEq, Repr

/-- A trade between two orders. `ID`, `Side`, `Signature` and `UpdatedAt` are left out: nothing
modelled reads them. -/
structure Trade where
  taker : Address
  maker : Address
  baseToken : Address
  quoteToken : Address
  makerOrderHash : Hash
  takerOrderHash : Hash
  hash : Hash
  txHash : Hash
  pairName : String
  createdAt : Time
  pricePoint : Int
  status : TradeStatus
  amount : Int
  deriving DecidableEq, Repr

namespace Trade

/-- `Trade.ComputeHash`: only the two order hashes enter. -/
def computeHash (eth : Eth) (makerOrderHash takerOrderHash : Hash) : Hash :=
  eth.keccak256 (makerOrderHash.bytes ++ takerOrderHash.bytes)

/-- The trade has `h` as its maker's or its taker's order. -/
def Names (t : Trade) (h : Hash) : Prop := t.makerOrderHash = h ∨ t.takerOrderHash = h

instance (t : Trade) (h : Hash) : Decidable (t.Names h) := inferInstanceAs (Decidable (_ ∨ _))

/-- What the trades `ts` moved on the order `h`: the sum of the amounts of those that name it. -/
def total (ts : List Trade) (h : Hash) : Int := ((ts.filter (·.Names h)).map (·.amount)).sum

@[simp] theorem total_nil (h : Hash) : total [] h = 0 := rfl

@[simp] theorem total_append (ts us : List Trade) (h : Hash) :
    total (ts ++ us) h = total ts h + total us h := by
  simp [total]

theorem total_cons (t : Trade) (ts : List Trade) (h : Hash) :
    total (t :: ts) h = (if t.Names h then t.amount else 0) + total ts h := by
  by_cases ht : t.Names h <;> simp [total, ht]

theorem total_eq_zero {ts : List Trade} {h : Hash} (hn : ∀ t ∈ ts, ¬t.Names h) :
    total ts h = 0 := by
  have : ts.filter (·.Names h) = [] := by simpa [List.filter_eq_nil_iff] using hn
  simp [total, this]

theorem total_nonneg {ts : List Trade} {h : Hash} (hn : ∀ t ∈ ts, 0 ≤ t.amount) :
    0 ≤ total ts h := by
  induction ts with
  | nil => simp
  | cons t ts ih =>
    rw [total_cons]
    have h1 := hn t (.head _)
    have h2 := ih fun u hu => hn u (.tail _ hu)
    split <;> omega

/-- What does not change once a trade is made: all but its status, its transaction and the time it
was stored. -/
def terms (t : Trade) : Trade := { t with status := .PENDING, txHash := 0, createdAt := 0 }

theorem total_terms (ts : List Trade) (h : Hash) : total (ts.map terms) h = total ts h := by
  induction ts with
  | nil => rfl
  | cons t ts ih =>
    rw [List.map_cons, total_cons, total_cons, ih]
    rfl

theorem total_perm {ts us : List Trade} (hp : ts.Perm us) (h : Hash) : total ts h = total us h :=
  ((hp.filter _).map _).sum_eq

/-- The trade is pending or settled: it counts. -/
def Live (t : Trade) : Prop := t.status = .PENDING ∨ t.status = .SUCCESS

instance (t : Trade) : Decidable t.Live := inferInstanceAs (Decidable (_ ∨ _))

end Trade

/-- `Matches`: the makers of one taker and the trades with them, by position. -/
structure Matches where
  makerOrders : List Order
  takerOrder : Order
  trades : List Trade
  deriving DecidableEq, Repr

namespace Matches

/-- `AppendMatch`. -/
def appendMatch (m : Matches) (mo : Order) (t : Trade) : Matches :=
  { m with makerOrders := m.makerOrders ++ [mo], trades := m.trades ++ [t] }

/-- `TradeAmounts`. -/
def tradeAmounts (m : Matches) : List Int := m.trades.map (·.amount)

/-- `Matches.PairCode`. -/
def pairCode (eth : Eth) (m : Matches) : Except String String := m.takerOrder.pairCode eth

end Matches

/-- `EngineResponse.Status`; `none` is the empty string. -/
inductive ResponseStatus
  | none
  | ORDER_ADDED
  | ORDER_FILLED
  | ORDER_PARTIALLY_FILLED
  | ORDER_CANCELLED
  | TRADES_CANCELLED
  | INVALIDATED
  deriving DecidableEq, Repr

/-- `EngineResponse`. `RecoveredOrders` is left out: it is never set. -/
structure EngineResponse where
  status : ResponseStatus := .none
  order : Option Order := none
  matches? : Option Matches := none
  invalidatedOrders : Option (List Order) := none
  cancelledTrades : Option (List Trade) := none
  deriving DecidableEq, Repr

/-- The trades a response announces. -/
def EngineResponse.trades (r : EngineResponse) : List Trade :=
  match r.matches? with
  | some m => m.trades
  | none => []

/-- A message of the `order` queue, its data decoded. -/
inductive Message
  | NEW_ORDER (o : Order)
  | ADD_ORDER (o : Order)
  | CANCEL_ORDER (o : Order)
  | INVALIDATE_MAKER_ORDERS (m : Matches)
  | INVALIDATE_TAKER_ORDERS (m : Matches)
  | unknown (type : String)
  deriving DecidableEq, Repr

end Dex
