import DexServer.Engine.Proof.Effect
import DexServer.Lib.Allot
import DexServer.Sample

/-!
# Price-time priority

The matching loop hands the order out (`Lib.allot`) along the list the query returned: what each
maker takes is what is left of it, and the loop ends early only for an order nothing of which was
filled before (`matchOrders_allot`). The query sorts by the keys of a Go map, in either order.

`price_time_priority`: the trades keep the priority exactly when the keys come price first or the
order is used up before it reaches a maker that a younger one beats on price, and, for an order that
comes with a fill, when it serves all makers but those of the last rank.
-/

namespace Dex

open Lib

/-! ## The priority -/

/-- What trading with `d` costs `o`: a bid prefers a low price, an ask a high one. -/
def Order.cost (o d : Order) : Int :=
  match o.side with
  | .BUY => d.pricePoint
  | .SELL => -d.pricePoint
  | .other .. => 0

/-- `a` comes before `b`: at a better price for `o`, or at the same and created earlier. -/
def Order.Better (o a b : Order) : Prop := lexLt o.cost Order.createdAt a b

instance (o a b : Order) : Decidable (o.Better a b) := inferInstanceAs (Decidable (_ ∨ _))

/-- The makers an order crosses, as they rest before it arrives. -/
def World.crossing (w : World) (o : Order) : List Order := w.orders.docs.filter (o.Matchable ·)

/-- What the trades take from the maker `h`. -/
def Trade.taken (ts : List Trade) (h : Hash) : Int :=
  ((ts.filter (·.makerOrderHash = h)).map (·.amount)).sum

/-- The trades `ts` of `o` go through `book` by the priority. -/
@[mk_iff] structure PriceTimePriority (o : Order) (book : List Order) (ts : List Trade) : Prop where
  makers : ∀ t ∈ ts, ∃ a ∈ book, t.makerOrderHash = a.hash
  visits : ts.Pairwise fun t t' => ∀ a ∈ book, ∀ b ∈ book,
    t.makerOrderHash = a.hash → t'.makerOrderHash = b.hash → ¬o.Better b a
  /-- a maker before one that trades is left with nothing -/
  exhausts : ∀ t ∈ ts, ∀ a ∈ book, ∀ b ∈ book,
    t.makerOrderHash = a.hash → o.Better b a → b.remainingAmount ≤ Trade.taken ts b.hash

instance (o : Order) (book : List Order) (ts : List Trade) :
    Decidable (PriceTimePriority o book ts) :=
  decidable_of_iff _ (priceTimePriority_iff o book ts).symm

/-- What is left of the makers before `a` when the oldest come first. -/
def Order.leftBefore (o : Order) (book : List Order) (a : Order) : Int :=
  ((book.filter fun x => lexLt Order.createdAt o.cost x a).map (·.remainingAmount)).sum

/-- What is left of the makers that are before some other. -/
def Order.leftAbove (o : Order) (book : List Order) : Int :=
  ((book.filter fun x => ∃ a ∈ book, o.Better x a).map (·.remainingAmount)).sum

/-- The order does not get to where the query departs from the priority, and if it comes with a
fill, it serves every maker before the last rank. -/
@[mk_iff] structure KeepsPriority (o : Order) (book : List Order) (keys : SortKeys) : Prop where
  oldest : keys = .priceFirst ∨ ∀ a ∈ book, ∀ b ∈ book, o.cost b < o.cost a →
    a.createdAt < b.createdAt → o.filledAmount = 0 ∧
      (o.amount ≤ o.leftBefore book a ∨
        (b.remainingAmount = 0 ∧ o.amount ≤ o.leftBefore book b))
  refill : 0 < o.filledAmount → o.leftAbove book ≤ o.remainingAmount

instance (o : Order) (book : List Order) (keys : SortKeys) :
    Decidable (KeepsPriority o book keys) :=
  decidable_of_iff _ (keepsPriority_iff o book keys).symm

/-! ## The loop hands the order out -/

/-- `remainingOrder` counts what is left of the order, or is more, if some of it was filled before;
then it does not get to zero. -/
theorem matchOrders_allot {stop : Bool} : ∀ (l : List Order) (o : Order) (c : Int),
    (stop = true ∧ c = o.remainingAmount) ∨ (stop = false ∧ o.remainingAmount < c) →
    (matchOrders o c l).fills.map (fun p => (p.2, tradeAmount p.1 p.2)) =
      allot Order.remainingAmount stop o.remainingAmount l
  | [], _, _, _ => rfl
  | mo :: l, o, c, hc => by
    have hmin := tradeAmount_eq_min o mo
    have hrem : (filledTaker o mo).remainingAmount = o.remainingAmount - tradeAmount o mo := by
      simp only [filledTaker, Order.remainingAmount]
      omega
    have hzero : c - tradeAmount o mo = 0 ↔
        stop = true ∧ o.remainingAmount ≤ mo.remainingAmount := by
      rcases hc with ⟨rfl, rfl⟩ | ⟨rfl, hlt⟩
      · simp only [true_and]
        omega
      · simp only [Bool.false_eq_true, false_and, iff_false]
        omega
    unfold matchOrders allot
    by_cases h0 : c - tradeAmount o mo = 0
    · rw [if_pos h0, if_pos (hzero.1 h0), List.map_singleton, hmin]
    · have hc' : (stop = true ∧ c - tradeAmount o mo = (filledTaker o mo).remainingAmount) ∨
          (stop = false ∧ (filledTaker o mo).remainingAmount < c - tradeAmount o mo) := by
        rw [hrem]
        exact hc.imp (fun h => ⟨h.1, by omega⟩) fun h => ⟨h.1, by omega⟩
      have ih := matchOrders_allot l (filledTaker o mo) (c - tradeAmount o mo) hc'
      rw [if_neg h0, if_neg (mt hzero.2 h0), List.map_cons, ih, hrem, hmin]

theorem processOrder_allot {o : Order} (ho : o.Bounded) (l : List Order) :
    (processOrder o l).fills.map (fun p => (p.2, tradeAmount p.1 p.2)) =
      allot Order.remainingAmount (o.filledAmount = 0) o.remainingAmount l := by
  unfold processOrder
  cases l with
  | nil => rfl
  | cons mo l =>
    refine matchOrders_allot (mo :: l) o o.amount ?_
    have := ho.nonneg
    simp only [Order.remainingAmount, decide_eq_true_eq, decide_eq_false_iff_not]
    omega

/-! ## The query -/

/-- The store holds the prices of the order and of the documents exactly. -/
structure Mongo.ExactOn (m : Mongo) (o : Order) (docs : List Order) : Prop where
  toDecimal : ∀ d ∈ docs, m.toDecimal d.pricePoint = d.pricePoint
  parseDecimal128 : m.parseDecimal128 o.pricePoint = o.pricePoint

theorem sortLe_priceFirst {price : Order → Int} {a b : Order} :
    sortLe price .priceFirst a b ↔ ¬lexLt price Order.createdAt b a :=
  not_lexLt.symm

theorem sortLe_timeFirst {price : Order → Int} {a b : Order} :
    sortLe price .timeFirst a b ↔ ¬lexLt Order.createdAt price b a :=
  not_lexLt.symm

instance (price : Order → Int) (k : SortKeys) : Std.Total (sortLe price k) where
  total a b := by
    cases k with
    | priceFirst =>
      rw [sortLe_priceFirst, sortLe_priceFirst, ← not_and_or]
      exact fun h => lexLt_asymm h.1 h.2
    | timeFirst =>
      rw [sortLe_timeFirst, sortLe_timeFirst, ← not_and_or]
      exact fun h => lexLt_asymm h.1 h.2

instance (price : Order → Int) (k : SortKeys) : IsTrans Order (sortLe price k) where
  trans a b c h1 h2 := by
    cases k with
    | priceFirst =>
      rw [sortLe_priceFirst] at h1 h2 ⊢
      exact not_lexLt_trans h1 h2
    | timeFirst =>
      rw [sortLe_timeFirst] at h1 h2 ⊢
      exact not_lexLt_trans h1 h2

theorem sortLe_congr {price price' : Order → Int} {k : SortKeys} {a b : Order}
    (ha : price a = price' a) (hb : price b = price' b) :
    sortLe price k a b ↔ sortLe price' k a b := by
  cases k <;> simp only [sortLe, ha, hb]

section
variable {m : Mongo} {o : Order} {docs : List Order} {n : Nat}

theorem Mongo.matching_sorted (hx : m.ExactOn o docs) :
    (m.orderDao.matching n docs o).Pairwise (sortLe o.cost (m.sortKeys n)) := by
  have hdoc : ∀ d ∈ m.orderDao.matching n docs o, m.toDecimal d.pricePoint = d.pricePoint :=
    fun d hd => hx.toDecimal d ((m.orderDao.matching_subperm n docs o).subset hd)
  -- on the documents found, the key of the sort is the cost
  have hkey : ∀ {price : Order → Int} {l : List Order}, (∀ d ∈ l, price d = o.cost d) →
      l.Pairwise (sortLe price (m.sortKeys n)) → l.Pairwise (sortLe o.cost (m.sortKeys n)) := by
    intro price l hp hl
    exact hl.imp_of_mem fun ha hb hab => (sortLe_congr (hp _ ha) (hp _ hb)).1 hab
  cases hside : o.side with
  | BUY =>
    unfold OrderDao.matching at hdoc ⊢
    simp only [hside] at hdoc ⊢
    refine hkey (fun d hd => ?_) (List.pairwise_insertionSort _ _)
    simp only [Order.cost, hside]
    exact hdoc d hd
  | SELL =>
    unfold OrderDao.matching at hdoc ⊢
    simp only [hside] at hdoc ⊢
    refine hkey (fun d hd => ?_) (List.pairwise_insertionSort _ _)
    simp only [Order.cost, hside]
    exact congrArg (- ·) (hdoc d hd)
  | other s h =>
    unfold OrderDao.matching
    simp only [hside]
    exact .nil

theorem Mongo.matching_perm (hx : m.ExactOn o docs) (hn : docs.Nodup) :
    (m.orderDao.matching n docs o).Perm (docs.filter (o.Matchable ·)) := by
  have hL : (m.orderDao.matching n docs o).Nodup :=
    let ⟨_, h1, h2⟩ := m.orderDao.matching_subperm n docs o
    h1.nodup (h2.nodup hn)
  refine (List.perm_ext_iff_of_nodup hL (hn.filter _)).2 fun d => ?_
  rw [List.mem_filter, decide_eq_true_eq]
  by_cases hd : d ∈ docs
  · exact Mongo.mem_matching (hx.toDecimal d hd) hx.parseDecimal128
  · refine iff_of_false (fun h => hd ((m.orderDao.matching_subperm n docs o).subset h)) fun h => ?_
    exact hd h.1

end

/-! ## What the trades say -/

theorem sum_of_key {ps : List (Hash × Int)} (hn : (ps.map Prod.fst).Nodup) {p : Hash × Int}
    (hp : p ∈ ps) : ((ps.filter (·.1 = p.1)).map Prod.snd).sum = p.2 := by
  induction ps with
  | nil => cases hp
  | cons q ps ih =>
    rw [List.map_cons, List.nodup_cons] at hn
    rcases List.mem_cons.1 hp with rfl | hp
    · have hnone : ps.filter (·.1 = p.1) = [] := by
        refine List.filter_eq_nil_iff.2 fun r hr hrp => hn.1 ?_
        rw [← of_decide_eq_true hrp]
        exact List.mem_map_of_mem hr
      simp [hnone]
    · have hq : q.1 ≠ p.1 := fun h => hn.1 (h ▸ List.mem_map_of_mem hp)
      simp only [hq, decide_false, Bool.false_eq_true, not_false_eq_true, List.filter_cons_of_neg]
      exact ih hn.2 hp

theorem Trade.taken_eq (ts : List Trade) (h : Hash) : Trade.taken ts h =
    (((ts.map fun t => (t.makerOrderHash, t.amount)).filter (·.1 = h)).map Prod.snd).sum := by
  unfold Trade.taken
  rw [List.filter_map, List.map_map]
  rfl

section
variable {o : Order} {L : List Order} {ts : List Trade} {E : List (Order × Int)}
  (hE : ts.map (fun t => (t.makerOrderHash, t.amount)) = E.map fun e => (e.1.hash, e.2))
  (hL : (L.map Order.hash).Nodup) (hv : E.map Prod.fst <+: L)
  (hb : ∀ e ∈ E, 0 ≤ e.2 ∧ e.2 ≤ e.1.remainingAmount)
include hE hL hv

theorem taken_share {e : Order × Int} (he : e ∈ E) : Trade.taken ts e.1.hash = e.2 := by
  rw [Trade.taken_eq, hE]
  refine sum_of_key (p := (e.1.hash, e.2)) ?_ (List.mem_map.2 ⟨e, he, rfl⟩)
  have hn := (hv.sublist.map Order.hash).nodup hL
  rw [List.map_map] at hn ⊢
  exact hn

include hb

theorem exhausted_iff {b : Order} (hbL : b ∈ L) (hb0 : 0 ≤ b.remainingAmount) :
    b.remainingAmount ≤ Trade.taken ts b.hash ↔
      (0 < b.remainingAmount → (b, b.remainingAmount) ∈ E) := by
  by_cases hvis : ∃ x, (b, x) ∈ E
  · obtain ⟨x, hx⟩ := hvis
    have htaken := taken_share hE hL hv hx
    have hle := hb _ hx
    dsimp only at htaken hle
    rw [htaken]
    constructor
    · intro h _
      have hxb : x = b.remainingAmount := by omega
      exact hxb ▸ hx
    · intro h
      by_cases hpos : 0 < b.remainingAmount
      · have hfull := taken_share hE hL hv (h hpos)
        dsimp only at hfull
        omega
      · omega
  · have hzero : Trade.taken ts b.hash = 0 := by
      rw [Trade.taken_eq, hE]
      have hnone : (E.map fun e => (e.1.hash, e.2)).filter (·.1 = b.hash) = [] := by
        refine List.filter_eq_nil_iff.2 fun p hp hpb => hvis ?_
        obtain ⟨e, he, rfl⟩ := List.mem_map.1 hp
        have heL := hv.subset (List.mem_map_of_mem he)
        have heq : e.1 = b := List.inj_on_of_nodup_map hL heL hbL (of_decide_eq_true hpb)
        exact ⟨e.2, heq ▸ he⟩
      rw [hnone]
      rfl
    rw [hzero]
    constructor
    · intro h hpos
      omega
    · intro h
      by_contra hpos
      exact hvis ⟨_, h (not_le.1 hpos)⟩

/-- The trades keep the priority exactly when the shares do. -/
theorem priority_iff_respects {book : List Order} (hbook : L.Perm book)
    (hc : ∀ x ∈ L, 0 ≤ x.remainingAmount) : PriceTimePriority o book ts ↔
      Respects Order.remainingAmount o.cost Order.createdAt E L := by
  have hmem : ∀ x, x ∈ book ↔ x ∈ L := fun x => hbook.mem_iff.symm
  have hEL : ∀ e ∈ E, e.1 ∈ L := fun e he => hv.subset (List.mem_map_of_mem he)
  have hinj : ∀ {a b : Order}, a ∈ L → b ∈ L → a.hash = b.hash → a = b :=
    fun ha hb h => List.inj_on_of_nodup_map hL ha hb h
  have hmakers : ts.map (·.makerOrderHash) = E.map (·.1.hash) := by
    have h := congrArg (List.map Prod.fst) hE
    rwa [List.map_map, List.map_map] at h
  have htrade : ∀ t ∈ ts, ∃ e ∈ E, e.1.hash = t.makerOrderHash := by
    intro t ht
    have := List.mem_map_of_mem (f := fun t : Trade => t.makerOrderHash) ht
    rw [hmakers] at this
    exact List.mem_map.1 this
  have hshare : ∀ e ∈ E, ∃ t ∈ ts, t.makerOrderHash = e.1.hash := by
    intro e he
    have := List.mem_map_of_mem (f := fun e : Order × Int => e.1.hash) he
    rw [← hmakers] at this
    exact List.mem_map.1 this
  constructor
  · intro h
    refine ⟨?_, fun e he b hbL hlt hpos => ?_⟩
    · have hvis : (ts.map (·.makerOrderHash)).Pairwise fun x y => ∀ a ∈ book, ∀ b ∈ book,
          x = a.hash → y = b.hash → ¬o.Better b a := List.pairwise_map.2 h.visits
      rw [hmakers, List.pairwise_map] at hvis
      refine hvis.imp_of_mem fun {e e'} he he' hee => ?_
      exact hee e.1 ((hmem _).2 (hEL e he)) e'.1 ((hmem _).2 (hEL e' he')) rfl rfl
    · obtain ⟨t, ht, hte⟩ := hshare e he
      have hex := h.exhausts t ht e.1 ((hmem _).2 (hEL e he)) b ((hmem _).2 hbL) hte hlt
      exact (exhausted_iff hE hL hv hb hbL (hc b hbL)).1 hex hpos
  · intro h
    refine ⟨fun t ht => ?_, ?_, fun t ht a ha b hbb hta hlt => ?_⟩
    · obtain ⟨e, he, hte⟩ := htrade t ht
      exact ⟨e.1, (hmem _).2 (hEL e he), hte.symm⟩
    · have hvis : (E.map (·.1.hash)).Pairwise fun x y => ∀ a ∈ book, ∀ b ∈ book,
          x = a.hash → y = b.hash → ¬o.Better b a := by
        refine List.pairwise_map.2 (h.visits.imp_of_mem ?_)
        intro e e' he he' hee a ha b hbb hea heb
        rw [← hinj (hEL e he) ((hmem a).1 ha) hea, ← hinj (hEL e' he') ((hmem b).1 hbb) heb]
        exact hee
      rw [← hmakers] at hvis
      exact List.pairwise_map.1 hvis
    · obtain ⟨e, he, hte⟩ := htrade t ht
      have hea := hinj (hEL e he) ((hmem a).1 ha) (hte.trans hta)
      have hbL := (hmem b).1 hbb
      refine (exhausted_iff hE hL hv hb hbL (hc b hbL)).2 (h.serves e he b hbL ?_)
      rw [hea]
      exact hlt

end

/-! ## The incoming order -/

section
variable {o : Order} {L book : List Order}

theorem leftBefore_perm (hp : L.Perm book) (a : Order) : o.leftBefore book a =
    ((L.filter fun x => lexLt Order.createdAt o.cost x a).map Order.remainingAmount).sum :=
  ((hp.symm.filter _).map _).sum_eq

theorem leftAbove_perm (hp : L.Perm book) : o.leftAbove book =
    ((L.filter fun x => ∃ a ∈ L, lexLt o.cost Order.createdAt x a).map
      Order.remainingAmount).sum := by
  unfold Order.leftAbove
  simp only [← hp.mem_iff]
  exact ((hp.symm.filter _).map _).sum_eq

theorem allot_respects_iff {k : SortKeys} (ho : o.Bounded) (hn : L.Nodup)
    (hc : ∀ x ∈ L, 0 ≤ x.remainingAmount) (hs : L.Pairwise (sortLe o.cost k)) (hp : L.Perm book) :
    Respects Order.remainingAmount o.cost Order.createdAt
        (allot Order.remainingAmount (o.filledAmount = 0) o.remainingAmount L) L ↔
      KeepsPriority o book k := by
  have hr : 0 ≤ o.remainingAmount := by
    have := ho.le
    simp only [Order.remainingAmount]
    omega
  by_cases h0 : o.filledAmount = 0
  · have hamt : o.remainingAmount = o.amount := by simp only [Order.remainingAmount]; omega
    have hpos : 0 < o.remainingAmount := hamt ▸ ho.pos
    rw [decide_eq_true h0]
    cases k with
    | priceFirst =>
      have hs' := hs.imp fun h => sortLe_priceFirst.1 h
      exact iff_of_true (respects_sorted hpos hn hc hs') ⟨.inl rfl, fun h => by omega⟩
    | timeFirst =>
      have hs' := hs.imp fun h => sortLe_timeFirst.1 h
      rw [respects_swapped hs' hpos hn hc, hamt]
      simp only [← leftBefore_perm hp, hp.mem_iff]
      constructor
      · intro h
        exact ⟨.inr fun a ha b hb hcost ht => ⟨h0, h a ha b hb hcost ht⟩, fun h => by omega⟩
      · intro h a ha b hb hcost ht
        rcases h.oldest with hk | h
        · cases hk
        · exact (h a ha b hb hcost ht).2
  · have hpos : 0 < o.filledAmount := lt_of_le_of_ne ho.nonneg (Ne.symm h0)
    rw [decide_eq_false h0, respects_all hr hn hc, ← leftAbove_perm hp]
    constructor
    · rintro ⟨hsorted, hsum⟩
      refine ⟨?_, fun _ => hsum⟩
      cases k with
      | priceFirst => exact .inl rfl
      | timeFirst =>
        -- sorted both ways, the list has no two makers in the wrong order
        refine .inr fun a ha b hb hcost ht => ?_
        have hs' := hs.imp fun h => sortLe_timeFirst.1 h
        have htotal := pairwise_total (hsorted.and hs') (fun x => by unfold lexLt; omega)
          (hp.mem_iff.2 ha) (hp.mem_iff.2 hb)
        rcases htotal with h | h
        · exact absurd (.inl hcost) h.1
        · exact absurd (.inl ht) h.2
    · intro h
      refine ⟨?_, h.refill hpos⟩
      cases k with
      | priceFirst => exact hs.imp fun h => sortLe_priceFirst.1 h
      | timeFirst =>
        refine hs.imp_of_mem fun {a b} ha hb hab hlt => ?_
        obtain ⟨hcost, ht⟩ := lexLt_swapped hlt (sortLe_timeFirst.1 hab)
        rcases h.oldest with hk | h
        · cases hk
        · exact h0 (h a (hp.mem_iff.1 ha) b (hp.mem_iff.1 hb) hcost ht).1

end

theorem newOrder_trades {env : Env} (hf : env.Faultless) (o : Order) (w : World) :
    (newOrder o env w).2.emitted = w.emitted ++
      (processOrder o (env.orderDao.matching w.calls w.orders.docs o)).trades env.eth := by
  obtain ⟨ds, rs, h⟩ := newOrder_effect env o w
  rw [h.emitted]
  by_cases hside : o.side = .BUY ∨ o.side = .SELL
  · rw [(h.faultless hf hside).2, List.flatMap_singleton, processOrder_trades]
  · -- no query is made, and no trade
    have hnone : env.orderDao.matching w.calls w.orders.docs o = [] := by
      unfold OrderDao.matching
      split
      · exact absurd (.inl ‹_›) hside
      · exact absurd (.inr ‹_›) hside
      · rfl
    rw [hnone] at h ⊢
    rcases h.published with hn | ⟨-, ht⟩
    · rw [hn]
      rfl
    · rw [ht]

theorem price_time_priority {env : Env} {m : Mongo} {o : Order} {w : World} {ts : List Trade}
    (hf : env.Faultless) (hm : env.orderDao = m.orderDao) (hx : m.ExactOn o w.orders.docs)
    (ho : o.Bounded) (hw : ∀ d ∈ w.orders, d.Bounded)
    (hts : (newOrder o env w).2.emitted = w.emitted ++ ts) :
    PriceTimePriority o (w.crossing o) ts ↔
      KeepsPriority o (w.crossing o) (m.sortKeys w.calls) := by
  rw [newOrder_trades hf, hm] at hts
  have hts := List.append_cancel_left hts
  have hdocs := w.orders.docs_nodup
  have hp : (m.orderDao.matching w.calls w.orders.docs o).Perm (w.crossing o) :=
    Mongo.matching_perm hx hdocs
  have hs := Mongo.matching_sorted (n := w.calls) hx
  have hsub := m.orderDao.matching_subperm w.calls w.orders.docs o
  generalize m.orderDao.matching w.calls w.orders.docs o = L at hts hp hs hsub
  have hc : ∀ x ∈ L, 0 ≤ x.remainingAmount := by
    intro x hx
    have := (hw x (hsub.subset hx)).le
    simp only [Order.remainingAmount]
    omega
  have hL : (L.map Order.hash).Nodup := Coll.nodup_of_subperm hsub
  have hr : 0 ≤ o.remainingAmount := by
    have := ho.le
    simp only [Order.remainingAmount]
    omega
  have hE : ts.map (fun t => (t.makerOrderHash, t.amount)) =
      (allot Order.remainingAmount (o.filledAmount = 0) o.remainingAmount L).map
        fun e => (e.1.hash, e.2) := by
    rw [← processOrder_allot ho, ← hts, Outcome.trades, List.map_map, List.map_map]
    rfl
  rw [priority_iff_respects hE hL (allot_visits L _) (allot_bounds _ hc hr).1 hp hc]
  exact allot_respects_iff ho (List.Nodup.of_map _ hL) hc hs hp

/-- Two asks, one after the other. -/
def World.asks (k : SortKeys) (price price' : Int) : World :=
  let env := Env.sample (Mongo.sample k).orderDao
  let w := (newOrder (.sample 1 .SELL price 5) env World.empty).2
  (newOrder (.sample 2 .SELL price' 5) env w).2

/-- The cheaper ask is older: sorted by time first, a bid gets to both in the right order. -/
theorem price_time_priority_cheaper_older : ∃ ts : List Trade,
    ts.map (fun t => (t.makerOrderHash, t.amount)) = [(1, 5), (2, 2)] ∧
      PriceTimePriority (.sample 3 .BUY 6 7)
        ((World.asks .timeFirst 5 6).crossing (.sample 3 .BUY 6 7)) ts :=
  ⟨_, by decide +kernel, (price_time_priority (m := .sample .timeFirst)
    (Env.sample_faultless (Mongo.sample .timeFirst).orderDao) rfl ⟨fun _ _ => rfl, rfl⟩
    (by decide) (by decide +kernel)
    (rfl : (newOrder (.sample 3 .BUY 6 7) (.sample (Mongo.sample .timeFirst).orderDao)
      (World.asks .timeFirst 5 6)).2.emitted = (World.asks .timeFirst 5 6).emitted ++ _)).2
    (by decide +kernel)⟩

/-- The dearer ask is older: sorted by time first, a bid trades with it and leaves the cheaper
one. -/
theorem dearer_older_ask_trades_first :
    let o := Order.sample 3 .BUY 6 5
    let w := World.asks .timeFirst 6 5
    let ts := (newOrder o (.sample (Mongo.sample .timeFirst).orderDao) w).2.emitted
    w.emitted = [] ∧ ts.map (fun t => (t.makerOrderHash, t.amount)) = [(1, 5)] ∧
      (w.crossing o).map (fun d => (d.hash, d.pricePoint, d.remainingAmount)) =
        [(1, 6, 5), (2, 5, 5)] ∧
      ¬PriceTimePriority o (w.crossing o) ts := by
  decide +kernel

end Dex
