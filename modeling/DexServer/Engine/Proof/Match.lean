import DexServer.Engine.OrderBook
import Mathlib.Algebra.Order.BigOperators.Group.List
import Mathlib.Algebra.Order.Group.Int

/-!
# The matching loop without its calls

`matchOrders` lists which state of the taker met which maker (`fills`), and the taker at the end.
Trades and makers are functions of a fill.

* `processOrder_counts`: the fill of the taker grows by what it traded.
* `processOrder_fresh`: an order nothing of which was filled ends full, or uses up every match.
* `store_get_self`, `store_get_other`: what the writes leave under every hash, together with what
  the trades move on it.
-/

namespace Dex

open Lib

/-! ## One trade -/

section
variable (o mo : Order)

@[simp] theorem filledMaker_terms : (filledMaker o mo).terms = mo.terms := by
  unfold filledMaker; split <;> rfl

@[simp] theorem filledMaker_hash : (filledMaker o mo).hash = mo.hash := by
  unfold filledMaker; split <;> rfl

@[simp] theorem filledMaker_amount : (filledMaker o mo).amount = mo.amount := by
  unfold filledMaker; split <;> rfl

@[simp] theorem filledTaker_terms : (filledTaker o mo).terms = o.terms := rfl

@[simp] theorem filledTaker_hash : (filledTaker o mo).hash = o.hash := rfl

theorem filledMaker_filledAmount :
    (filledMaker o mo).filledAmount = mo.filledAmount + tradeAmount o mo := by
  unfold filledMaker tradeAmount
  split
  · rfl
  · simp only [Order.complete_filledAmount, Order.remainingAmount]; omega

theorem updatedDoc_filledMaker (now : Time) :
    updatedDoc now (some mo) (filledMaker o mo) = filledMaker o mo := by
  unfold filledMaker; split <;> simp [updatedDoc, Order.complete]

theorem tradeAmount_eq_min : tradeAmount o mo = min o.remainingAmount mo.remainingAmount := by
  unfold tradeAmount; split <;> omega

variable {o mo}

theorem tradeAmount_nonneg (ho : o.Bounded) (hm : mo.Bounded) : 0 ≤ tradeAmount o mo := by
  rw [tradeAmount_eq_min]
  have := ho.le; have := hm.le
  simp only [Order.remainingAmount]; omega

theorem filledMaker_bounded (ho : o.Bounded) (hm : mo.Bounded) : (filledMaker o mo).Bounded := by
  have hn := tradeAmount_nonneg ho hm
  have hmin := tradeAmount_eq_min o mo
  have := hm.pos; have := hm.nonneg
  simp only [Order.remainingAmount] at hmin
  refine ⟨?_, ?_, ?_⟩ <;> simp only [filledMaker_amount, filledMaker_filledAmount] <;> omega

theorem filledTaker_bounded (ho : o.Bounded) (hm : mo.Bounded) : (filledTaker o mo).Bounded := by
  have hn := tradeAmount_nonneg ho hm
  have hmin := tradeAmount_eq_min o mo
  have := ho.pos; have := ho.nonneg
  simp only [Order.remainingAmount] at hmin
  refine ⟨?_, ?_, ?_⟩ <;> simp only [filledTaker] <;> omega

end

/-! ## The loop -/

/-- The end of the matching loop. A fill is the taker before a trade and the maker before it. -/
structure Outcome where
  status : ResponseStatus
  fills : List (Order × Order)
  takerOrder : Order

namespace Outcome

def makerOrders (m : Outcome) : List Order := m.fills.map fun p => filledMaker p.1 p.2

def trades (m : Outcome) (eth : Eth) : List Trade := m.fills.map fun p => newTrade eth p.1 p.2

/-- What the taker traded. -/
def filled (m : Outcome) : Int := (m.fills.map fun p => tradeAmount p.1 p.2).sum

/-- The response of `buyOrder` and `sellOrder`. -/
def response (m : Outcome) (eth : Eth) : EngineResponse :=
  { status := m.status, order := some m.takerOrder,
    matches? := if m.status = .ORDER_ADDED then none
      else some ⟨m.makerOrders, m.takerOrder, m.trades eth⟩ }

/-- The makers are written one after another, then the taker. -/
def store (m : Outcome) (now : Time) (c : Coll Order.hash) : Coll Order.hash :=
  (c.putAll m.makerOrders).put (updatedDoc now (c.get m.takerOrder.hash) m.takerOrder)

end Outcome

/-- `matchLoop` without its calls. -/
def matchOrders (o : Order) (remaining : Int) : List Order → Outcome
  | [] => ⟨.ORDER_PARTIALLY_FILLED, [], o.withStatus .PARTIAL_FILLED⟩
  | mo :: matchingOrders =>
    if remaining - tradeAmount o mo = 0 then
      ⟨.ORDER_FILLED, [(o, mo)], (filledTaker o mo).complete⟩
    else
      let m := matchOrders (filledTaker o mo) (remaining - tradeAmount o mo) matchingOrders
      { m with fills := (o, mo) :: m.fills }

/-- The order that found no match, as it is stored. -/
def restingOrder (o : Order) : Order :=
  if o.side = .SELL then o.withStatus .OPEN else addedOrder o

/-- `buyOrder` and `sellOrder` without their calls. -/
def processOrder (o : Order) (matchingOrders : List Order) : Outcome :=
  if matchingOrders.isEmpty then ⟨.ORDER_ADDED, [], restingOrder o⟩
  else matchOrders o o.amount matchingOrders

/-- What an outcome for `o` and the matching orders `l` is made of. -/
structure Outcome.Of (o : Order) (l : List Order) (m : Outcome) : Prop where
  terms : m.takerOrder.terms = o.terms
  takers : ∀ p ∈ m.fills, p.1.terms = o.terms
  makers : m.fills.map (·.2) <+: l

/-- Nothing traded is lost: the fill of the taker grows by what it traded. -/
structure Outcome.Counts (o : Order) (m : Outcome) : Prop where
  bounded : m.takerOrder.Bounded
  takers : ∀ p ∈ m.fills, p.1.Bounded
  filledAmount : m.takerOrder.filledAmount = o.filledAmount + m.filled

theorem Outcome.Of.hash {o : Order} {l : List Order} {m : Outcome} (h : m.Of o l) :
    m.takerOrder.hash = o.hash :=
  (Order.sameTerms h.terms).hash

theorem matchOrders_of : ∀ (l : List Order) (o : Order) (rem : Int), (matchOrders o rem l).Of o l
  | [], _, _ => ⟨rfl, by simp [matchOrders], by simp [matchOrders]⟩
  | mo :: l, o, rem => by
    unfold matchOrders
    split
    · exact ⟨rfl, by simp, by simp⟩
    · have ih := matchOrders_of l (filledTaker o mo) (rem - tradeAmount o mo)
      refine ⟨ih.terms, fun p hp => ?_, ?_⟩
      · rcases List.mem_cons.1 hp with rfl | hp
        · rfl
        · exact ih.takers p hp
      · simpa using ih.makers

/-- The two counters stay in step: what is left of `remainingOrder` is never less than what is
left of the order, so the loop returns early only when the order is full. -/
theorem matchOrders_filledAmount : ∀ (l : List Order) (o : Order) (rem : Int),
    o.remainingAmount ≤ rem → (matchOrders o rem l).takerOrder.filledAmount =
      o.filledAmount + (matchOrders o rem l).filled
  | [], _, _, _ => by simp [matchOrders, Outcome.filled]
  | mo :: l, o, rem, hr => by
    have hmin := tradeAmount_eq_min o mo
    unfold matchOrders
    split
    · simp only [Order.complete_filledAmount, filledTaker, Outcome.filled, List.map_cons,
        List.map_nil, List.sum_cons, List.sum_nil]
      simp only [Order.remainingAmount] at hmin hr
      omega
    · have hr' : (filledTaker o mo).remainingAmount ≤ rem - tradeAmount o mo := by
        simp only [filledTaker, Order.remainingAmount] at hr ⊢
        omega
      have ih := matchOrders_filledAmount l (filledTaker o mo) (rem - tradeAmount o mo) hr'
      simp only [Outcome.filled, List.map_cons, List.sum_cons, filledTaker] at ih ⊢
      omega

theorem matchOrders_counts : ∀ (l : List Order) (o : Order) (rem : Int), o.Bounded →
    (∀ mo ∈ l, mo.Bounded) → o.remainingAmount ≤ rem → (matchOrders o rem l).Counts o
  | [], o, rem, ho, _, hr =>
    ⟨⟨ho.pos, ho.nonneg, ho.le⟩, by simp [matchOrders], matchOrders_filledAmount [] o rem hr⟩
  | mo :: l, o, rem, ho, hl, hr => by
    have hmo := hl mo (.head _)
    have hf := matchOrders_filledAmount (mo :: l) o rem hr
    unfold matchOrders at hf ⊢
    split at hf
    · rename_i h0
      rw [if_pos h0]
      exact ⟨⟨ho.pos, by simp [filledTaker, ho.pos.le], le_refl _⟩, by simp [ho], hf⟩
    · rename_i h0
      rw [if_neg h0]
      have hr' : (filledTaker o mo).remainingAmount ≤ rem - tradeAmount o mo := by
        simp only [filledTaker, Order.remainingAmount] at hr ⊢
        omega
      have ih := matchOrders_counts l (filledTaker o mo) (rem - tradeAmount o mo)
        (filledTaker_bounded ho hmo) (fun m hm => hl m (.tail _ hm)) hr'
      refine ⟨ih.bounded, fun p hp => ?_, hf⟩
      rcases List.mem_cons.1 hp with rfl | hp
      · exact ho
      · exact ih.takers p hp

/-- The loop ends with one of two reports; the order it stores has the status it reports. -/
theorem matchOrders_ends : ∀ (l : List Order) (o : Order) (rem : Int),
    ((matchOrders o rem l).status = .ORDER_FILLED ∧
      (matchOrders o rem l).takerOrder.status = .FILLED) ∨
    ((matchOrders o rem l).status = .ORDER_PARTIALLY_FILLED ∧
      (matchOrders o rem l).takerOrder.status = .PARTIAL_FILLED)
  | [], _, _ => .inr ⟨rfl, rfl⟩
  | mo :: l, o, rem => by
    unfold matchOrders
    split
    · exact .inl ⟨rfl, rfl⟩
    · exact matchOrders_ends l (filledTaker o mo) (rem - tradeAmount o mo)

theorem matchOrders_matched (l : List Order) (o : Order) (rem : Int) :
    (matchOrders o rem l).status = .ORDER_FILLED ∨
      (matchOrders o rem l).status = .ORDER_PARTIALLY_FILLED :=
  (matchOrders_ends l o rem).imp And.left And.left

theorem matchOrders_status (l : List Order) (o : Order) (rem : Int) :
    (matchOrders o rem l).status ≠ .ORDER_ADDED := by
  rcases matchOrders_matched l o rem with h | h <;> rw [h] <;> decide

@[simp] theorem restingOrder_terms (o : Order) : (restingOrder o).terms = o.terms := by
  unfold restingOrder addedOrder
  split <;> try split
  all_goals rfl

@[simp] theorem restingOrder_filledAmount (o : Order) :
    (restingOrder o).filledAmount = o.filledAmount := by
  unfold restingOrder addedOrder
  split <;> try split
  all_goals rfl

theorem matchOrders_takerStatus (l : List Order) (o : Order) (rem : Int) :
    (matchOrders o rem l).takerOrder.status = .PARTIAL_FILLED ∨
      (matchOrders o rem l).takerOrder.status = .FILLED :=
  ((matchOrders_ends l o rem).imp And.right And.right).symm

theorem processOrder_status {o : Order} {l : List Order}
    (h : (processOrder o l).status ≠ .ORDER_ADDED) : (processOrder o l).status = .ORDER_FILLED ∨
      (processOrder o l).status = .ORDER_PARTIALLY_FILLED := by
  unfold processOrder at h ⊢
  split at h
  · exact absurd rfl h
  · rw [if_neg ‹_›]
    exact matchOrders_matched l o o.amount

theorem processOrder_of (o : Order) (l : List Order) : (processOrder o l).Of o l := by
  unfold processOrder
  split
  · exact ⟨restingOrder_terms o, by simp, by simp⟩
  · exact matchOrders_of l o o.amount

theorem processOrder_counts {o : Order} {l : List Order} (ho : o.Bounded)
    (hl : ∀ mo ∈ l, mo.Bounded) : (processOrder o l).Counts o := by
  unfold processOrder
  split
  · have ha := (Order.sameTerms (restingOrder_terms o)).amount
    refine ⟨⟨?_, ?_, ?_⟩, by simp, by simp [Outcome.filled]⟩
    · rw [ha]; exact ho.pos
    · rw [restingOrder_filledAmount]; exact ho.nonneg
    · rw [restingOrder_filledAmount, ha]; exact ho.le
  · have := ho.nonneg
    exact matchOrders_counts l o o.amount ho hl (by simp only [Order.remainingAmount]; omega)

theorem processOrder_trades (o : Order) (l : List Order) (eth : Eth) :
    ((processOrder o l).response eth).trades = (processOrder o l).trades eth := by
  unfold processOrder
  split
  · rfl
  · simp [Outcome.response, EngineResponse.trades, matchOrders_status]

theorem Outcome.filled_nonneg {m : Outcome} (h : ∀ p ∈ m.fills, 0 ≤ tradeAmount p.1 p.2) :
    0 ≤ m.filled :=
  List.sum_nonneg fun x hx => by
    obtain ⟨p, hp, rfl⟩ := List.mem_map.1 hx
    exact h p hp

/-! ## Fresh orders -/

/-- The end of the loop for an order nothing of which was filled before. -/
structure Outcome.Fresh (o : Order) (l : List Order) (m : Outcome) : Prop where
  takers : ∀ p ∈ m.fills, 0 < p.1.remainingAmount
  pos : (0 < o.filledAmount ∨ l ≠ []) → 0 < m.takerOrder.filledAmount
  /-- the order is full, or every matching order has been used up -/
  ends : (m.takerOrder.status = .FILLED ∧ m.takerOrder.filledAmount = o.amount) ∨
    (m.takerOrder.status = .PARTIAL_FILLED ∧ m.takerOrder.filledAmount < o.amount ∧
      m.fills.map (·.2) = l ∧ ∀ p ∈ m.fills, p.2.remainingAmount ≤ p.1.remainingAmount)

/-- `remainingOrder` counts what is left of the order, as it does if the order was fresh. -/
theorem matchOrders_fresh : ∀ (l : List Order) (o : Order), o.Bounded →
    (∀ mo ∈ l, 0 < mo.remainingAmount) → 0 < o.remainingAmount →
    (matchOrders o o.remainingAmount l).Fresh o l
  | [], o, _, _, hr => by
    refine ⟨by simp [matchOrders], fun h => ?_, .inr ⟨rfl, ?_, rfl, by simp [matchOrders]⟩⟩
    · simpa [matchOrders] using h
    · simp only [Order.remainingAmount] at hr
      simp only [matchOrders, Order.withStatus_filledAmount]
      omega
  | mo :: l, o, ho, hl, hr => by
    have hmo := hl mo (.head _)
    have hmin := tradeAmount_eq_min o mo
    unfold matchOrders
    split
    · refine ⟨by simpa using hr, fun _ => ?_, .inl ⟨rfl, rfl⟩⟩
      simpa [filledTaker] using ho.pos
    · rename_i h0
      have hrem : (filledTaker o mo).remainingAmount = o.remainingAmount - tradeAmount o mo := by
        simp only [filledTaker, Order.remainingAmount]; omega
      have hb : (filledTaker o mo).Bounded := by
        have := ho.pos; have := ho.nonneg
        simp only [Order.remainingAmount] at hmin h0 hmo hr
        refine ⟨?_, ?_, ?_⟩ <;> simp only [filledTaker] <;> omega
      have ih := matchOrders_fresh l (filledTaker o mo) hb
        (fun m hm => hl m (.tail _ hm)) (by omega)
      rw [hrem] at ih
      refine ⟨fun p hp => ?_, fun _ => ih.pos (.inl ?_), ih.ends.imp id fun h => ?_⟩
      · rcases List.mem_cons.1 hp with rfl | hp
        · exact hr
        · exact ih.takers p hp
      · have := ho.nonneg
        simp only [filledTaker]
        omega
      · obtain ⟨h1, h2, h3, h4⟩ := h
        refine ⟨h1, h2, by simp [h3], fun p hp => ?_⟩
        rcases List.mem_cons.1 hp with rfl | hp
        · simp only
          omega
        · exact h4 p hp

theorem processOrder_fresh {o : Order} {l : List Order} (hp : 0 < o.amount)
    (h0 : o.filledAmount = 0) (hl : ∀ mo ∈ l, 0 < mo.remainingAmount) :
    (l = [] ∧ (processOrder o l).fills = [] ∧ (processOrder o l).takerOrder = o.withStatus .OPEN) ∨
      (l ≠ [] ∧ (processOrder o l).Fresh o l) := by
  unfold processOrder
  cases l with
  | nil => exact .inl ⟨rfl, rfl, by simp [restingOrder, addedOrder, h0]⟩
  | cons mo l =>
    have hr : o.remainingAmount = o.amount := by simp only [Order.remainingAmount]; omega
    have hfr := matchOrders_fresh (mo :: l) o ⟨hp, by omega, by omega⟩ hl (by omega)
    rw [hr] at hfr
    exact .inr ⟨List.cons_ne_nil _ _, hfr⟩

/-! ## What is stored afterwards -/

section
variable {o : Order} {l : List Order} {m : Outcome} (hm : m.Of o l) {c : Coll Order.hash}
  (hl : l.Subperm c.docs) (now : Time) (eth : Eth)
include hm

theorem store_get_self : (m.store now c).get o.hash =
    some (updatedDoc now (c.get o.hash) m.takerOrder) := by
  unfold Outcome.store
  rw [hm.hash, Coll.get_put, if_pos (by simp [hm.hash])]

theorem store_get_isSome {h : Hash} (hh : h = o.hash ∨ (c.get h).isSome) :
    ((m.store now c).get h).isSome := by
  unfold Outcome.store
  rw [Coll.get_put]
  split
  · rfl
  · rename_i hne
    rw [updatedDoc_hash, hm.hash] at hne
    exact Coll.get_putAll_isSome (hh.resolve_left hne)

theorem Outcome.Of.taker_hash {p : Order × Order} (hp : p ∈ m.fills) : p.1.hash = o.hash :=
  (Order.sameTerms (hm.takers p hp)).hash

theorem Outcome.Of.maker_mem {p : Order × Order} (hp : p ∈ m.fills) : p.2 ∈ l :=
  hm.makers.subset (List.mem_map_of_mem hp)

theorem total_trades_self : Trade.total (m.trades eth) o.hash = m.filled := by
  have hall : (m.trades eth).filter (·.Names o.hash) = m.trades eth := by
    refine List.filter_eq_self.2 fun t ht => ?_
    obtain ⟨p, hp, rfl⟩ := List.mem_map.1 ht
    simp [newTrade, Trade.Names, hm.taker_hash hp]
  unfold Trade.total
  rw [hall, Outcome.trades, List.map_map]
  rfl

theorem trade_names_other {p : Order × Order} (hp : p ∈ m.fills) {h : Hash} (hh : h ≠ o.hash) :
    (newTrade eth p.1 p.2).Names h ↔ p.2.hash = h := by
  simp [newTrade, Trade.Names, hm.taker_hash hp, Ne.symm hh]

omit hm in
theorem total_trades_maker {h : Hash} {fs : List (Order × Order)} (hn : (fs.map (·.2.hash)).Nodup)
    (hnames : ∀ p ∈ fs, (newTrade eth p.1 p.2).Names h ↔ p.2.hash = h) {p : Order × Order}
    (hp : p ∈ fs) (hph : p.2.hash = h) :
    Trade.total (fs.map fun p => newTrade eth p.1 p.2) h = tradeAmount p.1 p.2 := by
  induction fs with
  | nil => cases hp
  | cons q fs ih =>
    simp only [List.map_cons, List.nodup_cons] at hn
    rw [List.map_cons, Trade.total_cons]
    rcases List.mem_cons.1 hp with rfl | hp
    · rw [if_pos ((hnames p (.head _)).2 hph), Trade.total_eq_zero, Int.add_zero]
      · rfl
      · intro t ht
        obtain ⟨q, hq, rfl⟩ := List.mem_map.1 ht
        rw [hnames q (.tail _ hq)]
        intro hqh
        exact hn.1 (List.mem_map.2 ⟨q, hq, hqh.trans hph.symm⟩)
    · have hq : q.2.hash ≠ h := fun e => hn.1 (List.mem_map.2 ⟨p, hp, hph.trans e.symm⟩)
      rw [if_neg (mt (hnames q (.head _)).1 hq), Int.zero_add]
      exact ih hn.2 (fun p hp => hnames p (.tail _ hp)) hp

include hl

theorem fills_nodup : (m.fills.map (·.2.hash)).Nodup := by
  have h := (hm.makers.sublist.map Order.hash).nodup (Coll.nodup_of_subperm hl)
  rwa [List.map_map] at h

theorem trades_nodup (eth : Eth) :
    ((m.trades eth).map fun t => (t.makerOrderHash, t.takerOrderHash)).Nodup := by
  have hmk := fills_nodup hm hl
  rw [Outcome.trades, List.map_map]
  refine List.Nodup.of_map Prod.fst ?_
  rwa [List.map_map]

/-- What a processed order leaves under every other hash: the maker of one fill, grown by the
amount of the trade, or what was there, if no trade is with it. -/
theorem store_get_other {h : Hash} (hh : h ≠ o.hash) :
    (∃ p ∈ m.fills, p.2.hash = h ∧ c.get h = some p.2 ∧
      (m.store now c).get h = some (filledMaker p.1 p.2) ∧
      Trade.total (m.trades eth) h = tradeAmount p.1 p.2) ∨
    ((∀ p ∈ m.fills, p.2.hash ≠ h) ∧ (m.store now c).get h = c.get h ∧
      Trade.total (m.trades eth) h = 0) := by
  have hput : (m.store now c).get h = (c.putAll m.makerOrders).get h :=
    Coll.get_put_other (by simpa [hm.hash] using hh)
  have hnames : ∀ p ∈ m.fills, (newTrade eth p.1 p.2).Names h ↔ p.2.hash = h :=
    fun p hp => trade_names_other hm eth hp hh
  by_cases hx : ∃ p ∈ m.fills, p.2.hash = h
  · obtain ⟨p, hp, rfl⟩ := hx
    have hnodup : (m.makerOrders.map Order.hash).Nodup := by
      simpa [Outcome.makerOrders, Function.comp_def] using fills_nodup hm hl
    have hmem : filledMaker p.1 p.2 ∈ m.makerOrders := List.mem_map.2 ⟨p, hp, rfl⟩
    have hget := Coll.get_putAll_mem (c := c) hnodup hmem
    rw [filledMaker_hash] at hget
    exact .inl ⟨p, hp, rfl, Coll.get_mem (hl.subset (hm.maker_mem hp)), hput.trans hget,
      total_trades_maker eth (fills_nodup hm hl) hnames hp rfl⟩
  · have hx : ∀ p ∈ m.fills, p.2.hash ≠ h := fun p hp e => hx ⟨p, hp, e⟩
    refine .inr ⟨hx, hput.trans (Coll.get_putAll_other fun d hd => ?_),
      Trade.total_eq_zero fun t ht => ?_⟩
    · obtain ⟨p, hp, rfl⟩ := List.mem_map.1 hd
      rw [filledMaker_hash]
      exact hx p hp
    · obtain ⟨p, hp, rfl⟩ := List.mem_map.1 ht
      exact mt (hnames p hp).1 (hx p hp)

/-- An order stored afterwards is the taker, the maker of one fill, or was stored before and is in
no trade. -/
theorem mem_store {d : Order} (hd : d ∈ m.store now c) :
    (d = updatedDoc now (c.get o.hash) m.takerOrder ∧ d.hash = o.hash ∧
      Trade.total (m.trades eth) d.hash = m.filled) ∨
    (∃ p ∈ m.fills, p.2 ∈ c ∧ d = filledMaker p.1 p.2 ∧
      Trade.total (m.trades eth) d.hash = tradeAmount p.1 p.2) ∨
    (d ∈ c ∧ d.hash ≠ o.hash ∧ Trade.total (m.trades eth) d.hash = 0) := by
  have hget := Coll.get_mem hd
  by_cases hh : d.hash = o.hash
  · rw [hh, store_get_self hm now, Option.some.injEq] at hget
    exact .inl ⟨hget.symm, hh, by rw [hh]; exact total_trades_self hm eth⟩
  · rcases store_get_other hm hl now eth hh with ⟨p, hp, -, hc, hs, ht⟩ | ⟨-, hs, ht⟩
    · rw [hget, Option.some.injEq] at hs
      exact .inr (.inl ⟨p, hp, Coll.mem_of_get hc, hs, ht⟩)
    · rw [hget] at hs
      exact .inr (.inr ⟨Coll.mem_of_get hs.symm, hh, ht⟩)

include eth in
theorem store_keeps {d : Order} (hd : d ∈ c) (hh : d.hash ≠ o.hash) :
    ∃ d' ∈ m.store now c, d'.terms = d.terms := by
  rcases store_get_other hm hl now eth hh with ⟨p, -, -, hc, hs, -⟩ | ⟨-, hs, -⟩
  · rw [Coll.get_mem hd, Option.some.injEq] at hc
    exact ⟨_, Coll.mem_of_get hs, by rw [filledMaker_terms, hc]⟩
  · rw [Coll.get_mem hd] at hs
    exact ⟨d, Coll.mem_of_get hs, rfl⟩

end

end Dex
