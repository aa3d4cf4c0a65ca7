import DexServer.Daos.Session
import Mathlib.Data.List.Sort

/-!
# The order collection (`daos/order.go`)

Every function is one or more calls to the store. `findAndModify` is the upsert of
`OrderBSONUpdate`: it overwrites every field of the stored order but its hash and its creation
time, `filledAmount` and `status` included.

`Mongo.orderDao` are the two matching queries. The store compares prices as Decimal128 values and
sorts by the two keys of a `bson.M`, a Go map: `sortKeys` is the order in which they were written
into the query.
-/

namespace Dex

open Lib

/-! ## Writes -/

/-- The document under `o.hash` after the update of `OrderBSONUpdate{o}`: `$set` writes every
field but `hash` and `createdAt` (`signature` only if it is set), `$setOnInsert` writes those. -/
def updatedDoc (now : Time) (old : Option Order) (o : Order) : Order :=
  match old with
  | some d => { o with createdAt := d.createdAt, signature := o.signature.or d.signature }
  | none => { o with createdAt := now }

@[simp] theorem updatedDoc_terms (now : Time) (old : Option Order) (o : Order) :
    (updatedDoc now old o).terms = o.terms := by cases old <;> rfl

@[simp] theorem updatedDoc_hash (now : Time) (old : Option Order) (o : Order) :
    (updatedDoc now old o).hash = o.hash := by cases old <;> rfl

@[simp] theorem updatedDoc_status (now : Time) (old : Option Order) (o : Order) :
    (updatedDoc now old o).status = o.status := by cases old <;> rfl

@[simp] theorem updatedDoc_filledAmount (now : Time) (old : Option Order) (o : Order) :
    (updatedDoc now old o).filledAmount = o.filledAmount := by cases old <;> rfl

@[simp] theorem updatedDoc_amount (now : Time) (old : Option Order) (o : Order) :
    (updatedDoc now old o).amount = o.amount := by cases old <;> rfl

theorem updatedDoc_bounded {now : Time} {old : Option Order} {o : Order} (h : o.Bounded) :
    (updatedDoc now old o).Bounded :=
  ⟨by simpa using h.pos, by simpa using h.nonneg, by simpa using h.le⟩

/-- The collection after the update. -/
def upsert (now : Time) (c : Coll Order.hash) (o : Order) : Coll Order.hash :=
  c.put (updatedDoc now (c.get o.hash) o)

/-- `FindAndModify(o.Hash, o)` (every caller passes the order's own hash). -/
def findAndModify (o : Order) : M Order := call fun env n w =>
  (.ok (updatedDoc (env.now n) (w.orders.get o.hash) o),
    { w with orders := upsert (env.now n) w.orders o })

/-- `$set` of the status of the orders with a hash in a list. -/
def setStatuses (c : Coll Order.hash) (status : Status) (hashes : List Hash) : Coll Order.hash :=
  c.updateWhere (·.hash ∈ hashes) (·.withStatus status) (Order.withStatus_hash · status)

theorem get_setStatuses (c : Coll Order.hash) (status : Status) (hashes : List Hash) (h : Hash) :
    (setStatuses c status hashes).get h =
      (c.get h).map fun d => if h ∈ hashes then d.withStatus status else d := by
  unfold setStatuses
  rw [Coll.get_updateWhere]
  cases hg : c.get h with
  | none => rfl
  | some d => simp [Coll.get_key hg]

theorem mem_setStatuses {c : Coll Order.hash} {status : Status} {hashes : List Hash} {x : Order} :
    x ∈ setStatuses c status hashes ↔
      ∃ d ∈ c, (if d.hash ∈ hashes then d.withStatus status else d) = x := by
  simp [setStatuses, Coll.mem_updateWhere]

/-- `UpdateOrderStatus`: an error if there is no such order. -/
def updateOrderStatus (h : Hash) (status : Status) : M Unit := call fun _ _ w =>
  match w.orders.get h with
  | some _ => (.ok (), { w with orders := setStatuses w.orders status [h] })
  | none => (.error .notFound, w)

/-- `db.Get` of the orders with a hash `$in` a list: each stored order once, in any order. -/
def getByHashes (hashes : List Hash) : M (List Order) := call fun env n w =>
  (.ok (env.scanOrders n (w.orders.docs.filter (·.hash ∈ hashes))), w)

/-- `GetByHash`. -/
def getByHash (h : Hash) : M (Option Order) := call fun _ _ w => (.ok (w.orders.get h), w)

/-- `UpdateOrderStatusesByHashes`: when a call fails, the error is logged and `nil, nil`
returned. -/
def updateOrderStatusesByHashes (status : Status) (hashes : List Hash) : M (List Order) := do
  let updated ← Prog.attempt <| call fun _ _ w =>
    (.ok (), { w with orders := setStatuses w.orders status hashes })
  match updated with
  | .error _ => pure []
  | .ok () =>
    let orders ← Prog.attempt (getByHashes hashes)
    match orders with
    | .error _ => pure []
    | .ok orders => pure orders

/-- An order with `amount` given back: the fill and the status `UpdateOrderFilledAmounts` sets. -/
def restored (o : Order) (amount : Int) : Order :=
  let filledAmount := o.filledAmount - amount
  if filledAmount ≤ 0 then { o with filledAmount := 0, status := .OPEN }
  else if filledAmount ≥ o.amount then { o with filledAmount := o.amount, status := .FILLED }
  else { o with filledAmount := filledAmount, status := .PARTIAL_FILLED }

/-- The update of one order in `UpdateOrderFilledAmounts`: `$set` of status and fill, returning
the new document. The order was read from the store in the same operation, so it is there. -/
def setFilledAmount (o : Order) : M Order := call fun _ _ w =>
  match w.orders.get o.hash with
  | some d =>
    let d := { d with status := o.status, filledAmount := o.filledAmount }
    (.ok d, { w with orders := w.orders.put d })
  | none => (.error .notFound, w)

/-- The loop of `UpdateOrderFilledAmounts`: the `i`-th order found gets the `i`-th amount back. -/
def restoreFilledAmounts (amount : List Int) : Nat → List Order → M (List Order)
  | _, [] => pure []
  | i, o :: orders => do
    let a ← index amount i
    let updated ← setFilledAmount (restored o a)
    let rest ← restoreFilledAmounts amount (i + 1) orders
    pure (updated :: rest)

/-- `UpdateOrderFilledAmounts`. -/
def updateOrderFilledAmounts (hashes : List Hash) (amount : List Int) : M (List Order) := do
  let orders ← getByHashes hashes
  restoreFilledAmounts amount 0 orders

/-! ## The matching queries -/

/-- The order in which the keys of `bson.M{"priceDecimal": _, "createdAt": 1}` are serialised. -/
inductive SortKeys
  | priceFirst
  | timeFirst
  deriving DecidableEq, Repr

/-- What the queries leave to the store and its driver. -/
structure Mongo where
  /-- the order in which the documents are scanned -/
  scan : Nat → List Order → List Order
  scan_perm : ∀ n l, (scan n l).Perm l
  /-- `$toDecimal` of a price -/
  toDecimal : Int → Int
  /-- `bson.ParseDecimal128` of a price -/
  parseDecimal128 : Int → Int
  sortKeys : Nat → SortKeys

/-- Decimal128 holds integers of at most 34 digits exactly. -/
structure Mongo.DecimalExact (m : Mongo) : Prop where
  toDecimal : ∀ n, 0 ≤ n → n < 10 ^ 34 → m.toDecimal n = n
  parseDecimal128 : ∀ n, 0 ≤ n → n < 10 ^ 34 → m.parseDecimal128 n = n

/-- `$sort` by the two keys in document order; `price` is the first key's value (negated for a
descending sort). -/
def sortLe (price : Order → Int) : SortKeys → Order → Order → Prop
  | .priceFirst, a, b => price a < price b ∨ (price a = price b ∧ a.createdAt ≤ b.createdAt)
  | .timeFirst, a, b => a.createdAt < b.createdAt ∨ (a.createdAt = b.createdAt ∧ price a ≤ price b)

instance (price : Order → Int) (k : SortKeys) (a b : Order) : Decidable (sortLe price k a b) := by
  cases k <;> exact inferInstanceAs (Decidable (_ ∨ _))

/-- The pipeline of both matching queries: `$match` on status, tokens and side, `$match` on the
price, `$sort`. -/
def Mongo.matchingOrders (m : Mongo) (side : Side) (crosses : Int → Int → Prop)
    [∀ a b, Decidable (crosses a b)] (price : Order → Int) (n : Nat) (docs : List Order)
    (o : Order) : List Order :=
  ((m.scan n docs).filter fun d =>
    d.isOpen ∧ o.SamePair d ∧ d.side = side ∧
      crosses (m.toDecimal d.pricePoint) (m.parseDecimal128 o.pricePoint)).insertionSort
    (sortLe price (m.sortKeys n))

/-- `GetMatchingBuyOrders`: bids at or above the price, highest first. -/
def Mongo.getMatchingBuyOrders (m : Mongo) : Nat → List Order → Order → List Order :=
  m.matchingOrders .BUY (fun d p => d ≥ p) fun d => -m.toDecimal d.pricePoint

/-- `GetMatchingSellOrders`: asks at or below the price, lowest first. -/
def Mongo.getMatchingSellOrders (m : Mongo) : Nat → List Order → Order → List Order :=
  m.matchingOrders .SELL (fun d p => d ≤ p) fun d => m.toDecimal d.pricePoint

section
variable {m : Mongo} {side : Side} {crosses : Int → Int → Prop} [∀ a b, Decidable (crosses a b)]
  {price : Order → Int} {n : Nat} {docs : List Order} {o d : Order}

theorem Mongo.matchingOrders_perm : (m.matchingOrders side crosses price n docs o).Perm
    (docs.filter fun d => d.isOpen ∧ o.SamePair d ∧ d.side = side ∧
      crosses (m.toDecimal d.pricePoint) (m.parseDecimal128 o.pricePoint)) :=
  (List.perm_insertionSort _ _).trans ((m.scan_perm n docs).filter _)

theorem Mongo.mem_matchingOrders : d ∈ m.matchingOrders side crosses price n docs o ↔
    d ∈ docs ∧ d.isOpen ∧ o.SamePair d ∧ d.side = side ∧
      crosses (m.toDecimal d.pricePoint) (m.parseDecimal128 o.pricePoint) := by
  simp only [Mongo.matchingOrders_perm.mem_iff, List.mem_filter, decide_eq_true_eq]

theorem Mongo.matchingOrders_subperm :
    (m.matchingOrders side crosses price n docs o).Subperm docs :=
  Mongo.matchingOrders_perm.subperm.trans List.filter_sublist.subperm

end

/-- The matching queries of `OrderDao`. -/
def Mongo.orderDao (m : Mongo) : OrderDao where
  getMatchingBuyOrders := m.getMatchingBuyOrders
  getMatchingSellOrders := m.getMatchingSellOrders
  buy_subperm _ _ _ := Mongo.matchingOrders_subperm
  buy_resting _ _ _ _ hd :=
    have ⟨_, h2, h3, h4, _⟩ := Mongo.mem_matchingOrders.1 hd
    ⟨h2, h3, h4⟩
  sell_subperm _ _ _ := Mongo.matchingOrders_subperm
  sell_resting _ _ _ _ hd :=
    have ⟨_, h2, h3, h4, _⟩ := Mongo.mem_matchingOrders.1 hd
    ⟨h2, h3, h4⟩

/-- `GetMatchingBuyOrders` as the engine calls it. -/
def getMatchingBuyOrders (o : Order) : M (List Order) := call fun env n w =>
  (.ok (env.orderDao.getMatchingBuyOrders n w.orders.docs o), w)

/-- `GetMatchingSellOrders` as the engine calls it. -/
def getMatchingSellOrders (o : Order) : M (List Order) := call fun env n w =>
  (.ok (env.orderDao.getMatchingSellOrders n w.orders.docs o), w)

/-! ## What the queries answer -/

/-- The two orders are on different sides of the book. -/
def Order.Opposes (o d : Order) : Prop :=
  o.side = .BUY ∧ d.side = .SELL ∨ o.side = .SELL ∧ d.side = .BUY

instance (o d : Order) : Decidable (o.Opposes d) := inferInstanceAs (Decidable (_ ∨ _))

theorem Order.Opposes.ne {o d : Order} (h : o.Opposes d) : d.side ≠ o.side := by
  rcases h with ⟨h1, h2⟩ | ⟨h1, h2⟩ <;> simp [h1, h2]

/-- `d` is on the other side of `o`, at a price `o` accepts. -/
def Order.Crosses (o d : Order) : Prop :=
  match o.side with
  | .BUY => d.side = .SELL ∧ d.pricePoint ≤ o.pricePoint
  | .SELL => d.side = .BUY ∧ o.pricePoint ≤ d.pricePoint
  | .other .. => False

instance (o d : Order) : Decidable (o.Crosses d) := by
  unfold Order.Crosses; split <;> infer_instance

/-- `d` rests in the book of `o`'s pair and crosses it. -/
def Order.Matchable (o d : Order) : Prop := d.isOpen ∧ o.SamePair d ∧ o.Crosses d

instance (o d : Order) : Decidable (o.Matchable d) := inferInstanceAs (Decidable (_ ∧ _ ∧ _))

/-- The query the engine makes for `o`, at call `n`. -/
def OrderDao.matching (dao : OrderDao) (n : Nat) (docs : List Order) (o : Order) : List Order :=
  match o.side with
  | .BUY => dao.getMatchingSellOrders n docs o
  | .SELL => dao.getMatchingBuyOrders n docs o
  | .other .. => []

section
variable (dao : OrderDao) (n : Nat) (docs : List Order) (o : Order)

theorem OrderDao.matching_subperm : (dao.matching n docs o).Subperm docs := by
  unfold OrderDao.matching
  split
  · exact dao.sell_subperm n docs o
  · exact dao.buy_subperm n docs o
  · exact List.nil_subperm

/-- The engine's query finds only resting orders of the other side of the pair. -/
theorem OrderDao.matching_resting : ∀ d ∈ dao.matching n docs o,
    d.isOpen ∧ o.SamePair d ∧ o.Opposes d := by
  unfold OrderDao.matching
  intro d hd
  split at hd
  · obtain ⟨h1, h2, h3⟩ := dao.sell_resting n docs o d hd
    exact ⟨h1, h2, .inl ⟨‹_›, h3⟩⟩
  · obtain ⟨h1, h2, h3⟩ := dao.buy_resting n docs o d hd
    exact ⟨h1, h2, .inr ⟨‹_›, h3⟩⟩
  · cases hd

end

/-- On prices Decimal128 holds exactly the queries find the matchable orders. -/
theorem Mongo.mem_matching {m : Mongo} {n : Nat} {docs : List Order} {o d : Order}
    (hd : m.toDecimal d.pricePoint = d.pricePoint)
    (ho : m.parseDecimal128 o.pricePoint = o.pricePoint) :
    d ∈ m.orderDao.matching n docs o ↔ d ∈ docs ∧ o.Matchable d := by
  unfold OrderDao.matching Order.Matchable Order.Crosses
  cases o.side with
  | BUY =>
    refine Mongo.mem_matchingOrders.trans ?_
    rw [hd, ho]
  | SELL =>
    refine Mongo.mem_matchingOrders.trans ?_
    rw [hd, ho]
  | other s h => simp

end Dex
