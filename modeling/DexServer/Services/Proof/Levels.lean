import DexServer.Daos.OrderBook
import DexServer.Sample
import DexServer.Types.Matches
import Mathlib.Data.List.Perm.Subperm

/-!
# Snapshot and updates of the order book

`book` is what the queries are for: the prices of the open orders of a side, each with what remains
of the orders at it. While prices, amounts and sums are below `10 ^ 34` (`Small`), where decimal
arithmetic is exact, each query answers from it, whatever the order of the scan:

* `sideOrderBook_eq`: the levels of a side are the book.
* `orderBookPricePoint_eq`: a single level is looked up in it.
* `rawOrderBook_perm`: the orders are those the book is made of.
* `order_book_updates_agree`: so the rows that are broadcast make the client's book the fresh one.
-/

namespace Dex

open Lib

/-! ## The book of a side -/

section
variable (d : Direction)

instance : Std.Total d.le := by
  constructor
  intro a b
  cases d
  · exact Int.le_total a b
  · exact Int.le_total b a

instance : IsTrans Int d.le := by
  constructor
  intro a b c hab hbc
  cases d
  · exact Int.le_trans hab hbc
  · exact Int.le_trans hbc hab

instance : Std.Antisymm d.le := by
  constructor
  intro a b hab hba
  cases d
  · exact Int.le_antisymm hab hba
  · exact Int.le_antisymm hba hab

end

/-- What remains of the orders. -/
def totalRemaining (os : List Order) : Int := (os.map Order.remainingAmount).sum

theorem totalRemaining_perm {os os' : List Order} (h : os.Perm os') :
    totalRemaining os = totalRemaining os' :=
  (h.map _).sum_eq

/-- The price levels of the orders, in the direction of the side. -/
def book (d : Direction) (os : List Order) : List (Int × Int) :=
  ((groups Order.pricePoint os).map fun g => (g.1, totalRemaining g.2)).insertionSort
    fun a b => d.le a.1 b.1

section
variable {d : Direction} {os os' : List Order}

theorem book_perm_groups :
    (book d os).Perm ((groups Order.pricePoint os).map fun g => (g.1, totalRemaining g.2)) :=
  List.perm_insertionSort _ _

theorem mem_book {price amount : Int} : (price, amount) ∈ book d os ↔
    (∃ o ∈ os, o.pricePoint = price) ∧ amount =
      totalRemaining (os.filter (·.pricePoint = price)) := by
  rw [book_perm_groups.mem_iff, List.mem_map]
  constructor
  · intro h
    obtain ⟨⟨k, g⟩, hg, he⟩ := h
    obtain ⟨ho, rfl⟩ := mem_groups.1 hg
    cases he
    exact ⟨ho, rfl⟩
  · intro h
    obtain ⟨ho, rfl⟩ := h
    exact ⟨_, mem_groups.2 ⟨ho, rfl⟩, rfl⟩

theorem book_nodup : ((book d os).map Prod.fst).Nodup := by
  rw [(book_perm_groups.map Prod.fst).nodup_iff, List.map_map]
  exact groups_nodup

theorem book_pairwise : (book d os).Pairwise fun a b => d.le a.1 b.1 ∧ a.1 ≠ b.1 := by
  have : Std.Total fun a b : Int × Int => d.le a.1 b.1 := ⟨fun a b => Std.Total.total a.1 b.1⟩
  have : IsTrans (Int × Int) fun a b => d.le a.1 b.1 := ⟨fun a b c => IsTrans.trans a.1 b.1 c.1⟩
  exact (List.pairwise_insertionSort _ _).and (List.pairwise_map.1 book_nodup)

theorem book_perm (h : os.Perm os') : book d os = book d os' := by
  apply insertionSort_eq_of_perm
  · exact groups_map_perm (fun _ _ => totalRemaining_perm) h
  · rw [List.map_map]
    exact groups_nodup

theorem lookup_book (price : Int) : (book d os).lookup price =
    if ∃ o ∈ os, o.pricePoint = price then some (totalRemaining (os.filter (·.pricePoint = price)))
    else none := by
  split
  · rename_i h
    exact (lookup_eq_some book_nodup).2 (mem_book.2 ⟨h, rfl⟩)
  · rename_i h
    cases hl : (book d os).lookup price with
    | none => rfl
    | some amount => exact absurd (mem_book.1 ((lookup_eq_some book_nodup).1 hl)).1 h

end

/-! ## Where decimal arithmetic is exact -/

/-- Prices, amounts and all partial sums of a level are below `10 ^ 34`. -/
structure Small (os : List Order) : Prop where
  pricePoint : ∀ o ∈ os, o.pricePoint.natAbs < 10 ^ 34
  amount : ∀ o ∈ os, o.amount.natAbs < 10 ^ 34
  filledAmount : ∀ o ∈ os, o.filledAmount.natAbs < 10 ^ 34
  sums : ∀ price l, l.Subperm (os.filter (·.pricePoint = price)) →
    (totalRemaining l).natAbs < 10 ^ 34

theorem Small.subperm {os os' : List Order} (h : Small os) (hs : os'.Subperm os) : Small os' where
  pricePoint o ho := h.pricePoint o (hs.subset ho)
  amount o ho := h.amount o (hs.subset ho)
  filledAmount o ho := h.filledAmount o (hs.subset ho)
  sums price l hl := h.sums price l (hl.trans (hs.filter _))

theorem Small.of_bounded {os : List Order} (hprice : ∀ o ∈ os, o.pricePoint.natAbs < 10 ^ 34)
    (hbounded : ∀ o ∈ os, 0 ≤ o.filledAmount ∧ o.filledAmount ≤ o.amount ∧ o.amount < 10 ^ 34)
    (htotal : totalRemaining os < 10 ^ 34) : Small os := by
  have hnonneg : ∀ x ∈ os.map Order.remainingAmount, 0 ≤ x := by
    intro x hx
    obtain ⟨o, ho, rfl⟩ := List.mem_map.1 hx
    have := hbounded o ho
    unfold Order.remainingAmount
    omega
  refine ⟨hprice, ?_, ?_, ?_⟩
  · intro o ho
    have := hbounded o ho
    omega
  · intro o ho
    have := hbounded o ho
    omega
  · intro price l hl
    obtain ⟨l', hperm, hsub⟩ := hl.trans List.filter_sublist.subperm
    have heq : totalRemaining l' = totalRemaining l := totalRemaining_perm hperm
    have hle : totalRemaining l' ≤ totalRemaining os := (hsub.map _).sum_le_sum hnonneg
    have hpos : 0 ≤ totalRemaining l' := by
      apply List.sum_nonneg
      intro x hx
      exact hnonneg x ((hsub.map _).subset hx)
    omega

/-! ## The pipelines -/

section
variable {eth : Eth} {p : PairTokens}

theorem toDecimal_toString (n : Int) : toDecimal (toString n) = .ok (.ofInt n) := by
  simp only [toDecimal, setString_toString]

theorem mapM_map_ok {α β γ : Type} {f : β → Except Err γ} {h : α → β} {g : α → γ} {xs : List α}
    (hf : ∀ x ∈ xs, f (h x) = .ok (g x)) : (xs.map h).mapM f = .ok (xs.map g) := by
  rw [List.mapM_map]
  exact mapM_eq_ok hf

theorem priced_getBSON (o : Order) :
    (o.getBSON eth).priced = .ok ((Decimal128.ofInt o.pricePoint).value, o.getBSON eth) := by
  have h : toDecimal (o.getBSON eth).pricepoint = .ok (.ofInt o.pricePoint) := toDecimal_toString _
  rw [OrderRecord.priced, h]
  rfl

theorem remaining_getBSON (o : Order) :
    (o.getBSON eth).remaining = .ok ((Decimal128.ofInt o.amount).sub (.ofInt o.filledAmount)) := by
  have hamount : toDecimal (o.getBSON eth).amount = .ok (.ofInt o.amount) := toDecimal_toString _
  have hfilled : toDecimal (o.getBSON eth).filledAmount = .ok (.ofInt o.filledAmount) :=
    toDecimal_toString _
  rw [OrderRecord.remaining, hamount, hfilled]
  rfl

/-- A level as it is written. -/
def Level.of (x : Int × Int) : Level := ⟨toString x.1, toString x.2⟩

theorem levelOf_getBSON {price : Int} {g : List Order} (hs : Small g)
    (hprice : ∀ o ∈ g, o.pricePoint = price) (hne : g ≠ []) :
    levelOf (g.map (Order.getBSON eth)) = .ok (Level.of (price, totalRemaining g)) := by
  have hamounts : (g.map (Order.getBSON eth)).mapM OrderRecord.remaining =
      .ok ((g.map Order.remainingAmount).map Decimal128.ofInt) := by
    rw [List.map_map]
    apply mapM_map_ok
    intro o ho
    rw [remaining_getBSON, Decimal128.sub_ofInt (hs.amount o ho) (hs.filledAmount o ho)]
    rfl
  have hall : g.filter (·.pricePoint = price) = g := by
    apply List.filter_eq_self.2
    intro o ho
    simpa using hprice o ho
  have hsum : Decimal128.sum ((g.map Order.remainingAmount).map Decimal128.ofInt) =
      .ofInt (totalRemaining g) := by
    apply Decimal128.sum_ofInt
    intro l hl
    obtain ⟨l', hl', rfl⟩ := List.sublist_map_iff.1 hl
    apply hs.sums price l'
    rw [hall]
    exact hl'.subperm
  have htotal : (totalRemaining g).natAbs < 10 ^ 34 := by
    apply hs.sums price g
    rw [hall]
  have hfirst : ((g.map (Order.getBSON eth)).map (·.pricepoint)).headD "" = toString price := by
    cases g with
    | nil => exact absurd rfl hne
    | cons o g =>
      rw [← hprice o (.head _)]
      rfl
  rw [levelOf, hamounts, ok_bind, hsum, Decimal128.text_ofInt htotal, hfirst]
  rfl

theorem levels_getBSON {os : List Order} (hs : Small os) : levels (os.map (Order.getBSON eth)) =
    .ok ((groups Order.pricePoint os).map fun g => (g.1, Level.of (g.1, totalRemaining g.2))) := by
  have hpriced : (os.map (Order.getBSON eth)).mapM OrderRecord.priced =
      .ok (os.map fun o => (o.pricePoint, o.getBSON eth)) := by
    apply mapM_map_ok
    intro o ho
    rw [priced_getBSON, Decimal128.value_ofInt (hs.pricePoint o ho)]
  rw [levels, hpriced, ok_bind, groups_map]
  apply mapM_map_ok
  intro g hg
  obtain ⟨k, g⟩ := g
  obtain ⟨⟨o, ho, hk⟩, rfl⟩ := mem_groups.1 hg
  have hlevel : levelOf ((os.filter (·.pricePoint = k)).map (Order.getBSON eth)) =
      .ok (Level.of (k, totalRemaining (os.filter (·.pricePoint = k)))) := by
    apply levelOf_getBSON (hs.subperm List.filter_sublist.subperm)
    · intro o ho
      simpa using (List.mem_filter.1 ho).2
    · exact List.ne_nil_of_mem (List.mem_filter.2 ⟨ho, by simpa using hk⟩)
  simp only [List.map_map, Function.comp_def] at hlevel ⊢
  rw [hlevel]
  rfl

/-- The order is open and of the pair, as the queries compare it. -/
def Order.InBook (eth : Eth) (p : PairTokens) (o : Order) : Prop :=
  o.isOpen ∧ eth.hex o.baseToken = eth.hex p.baseTokenAddress ∧
    eth.hex o.quoteToken = eth.hex p.quoteTokenAddress

instance (eth : Eth) (p : PairTokens) (o : Order) : Decidable (o.InBook eth p) :=
  inferInstanceAs (Decidable (_ ∧ _ ∧ _))

theorem isOpen_getBSON (o : Order) :
    (o.getBSON eth).status = "OPEN" ∨ (o.getBSON eth).status = "PARTIAL_FILLED" ↔ o.isOpen := by
  have htext : Function.Injective Status.text := Function.LeftInverse.injective Status.ofText_text
  have hopen : o.status.text = "OPEN" ↔ o.status = .OPEN := htext.eq_iff' rfl
  have hpartial : o.status.text = "PARTIAL_FILLED" ↔ o.status = .PARTIAL_FILLED := htext.eq_iff' rfl
  unfold Order.isOpen
  simp only [Order.getBSON, hopen, hpartial]

theorem inBook_getBSON (o : Order) : (o.getBSON eth).InBook eth p ↔ o.InBook eth p := by
  unfold OrderRecord.InBook Order.InBook
  rw [isOpen_getBSON]
  rfl

/-- The open orders of a side. -/
def sideOrders (eth : Eth) (p : PairTokens) (side : Side) (docs : List Order) : List Order :=
  docs.filter fun o => o.InBook eth p ∧ o.side = side

theorem side_text_eq (o : Order) (side : Side) : (o.getBSON eth).side = side.text ↔ o.side = side :=
  (Function.LeftInverse.injective Side.ofText_text).eq_iff

theorem filter_side (side : Side) (docs : List Order) :
    (docs.map (Order.getBSON eth)).filter (fun r => r.InBook eth p ∧ r.side = side.text) =
      (sideOrders eth p side docs).map (Order.getBSON eth) := by
  simp only [List.filter_map, sideOrders, Function.comp_def, inBook_getBSON, side_text_eq]

theorem filter_pricePoint (side : Side) (pp : Int) (docs : List Order) :
    (docs.map (Order.getBSON eth)).filter
        (fun r => r.InBook eth p ∧ r.pricepoint = toString pp ∧ r.side = side.text) =
      ((sideOrders eth p side docs).filter (·.pricePoint = pp)).map (Order.getBSON eth) := by
  have hprice : ∀ o : Order, (o.getBSON eth).pricepoint = toString pp ↔ o.pricePoint = pp := by
    intro o
    constructor
    · intro h
      have hset := congrArg setString h
      simp only [Order.getBSON, setString_toString] at hset
      exact Option.some.inj hset
    · intro h
      simp only [Order.getBSON, h]
  simp only [List.filter_map, List.filter_filter, sideOrders, Function.comp_def, inBook_getBSON,
    side_text_eq, hprice]
  congr 1
  apply List.filter_congr
  intro o _
  by_cases h1 : o.InBook eth p <;> by_cases h2 : o.pricePoint = pp <;>
    by_cases h3 : o.side = side <;>
    simp [h1, h2, h3]

variable {side : Side} {d : Direction} {docs : List Order}

theorem sideOrderBook_eq (hs : Small (sideOrders eth p side docs)) :
    p.sideOrderBook eth side.text d none (docs.map (Order.getBSON eth)) =
      .ok ((book d (sideOrders eth p side docs)).map Level.of) := by
  unfold PairTokens.sideOrderBook
  rw [filter_side, levels_getBSON hs, ok_bind]
  -- the rows are sorted with their numbers first
  have hsort := List.map_insertionSort (fun a b : Int × Int => d.le a.1 b.1)
    (fun a b : Int × Level => d.le a.1 b.1) (fun x => (x.1, Level.of x))
    ((groups Order.pricePoint (sideOrders eth p side docs)).map fun g => (g.1, totalRemaining g.2))
    (fun a _ b _ => Iff.rfl)
  rw [List.map_map] at hsort
  simp only [Function.comp_def] at hsort
  rw [← hsort, List.map_map]
  rfl

theorem orderBookPricePoint_eq (hs : Small (sideOrders eth p side docs)) (pp : Int) :
    p.orderBookPricePoint eth pp side.text (docs.map (Order.getBSON eth)) =
      .ok (((book d (sideOrders eth p side docs)).lookup pp).toList.map
        fun a => Level.of (pp, a)) := by
  have hsmall := hs.subperm (List.filter_sublist (p := (·.pricePoint = pp))).subperm
  unfold PairTokens.orderBookPricePoint
  rw [filter_pricePoint, levels_getBSON hsmall, ok_bind, lookup_book]
  split
  · rename_i h
    obtain ⟨o, ho, hpp⟩ := h
    rw [groups_of_const (k := pp) (fun o ho => by simpa using (List.mem_filter.1 ho).2)
      (List.ne_nil_of_mem (List.mem_filter.2 ⟨ho, by simpa using hpp⟩))]
    rfl
  · rename_i h
    have hnil : (sideOrders eth p side docs).filter (·.pricePoint = pp) = [] := by
      apply List.filter_eq_nil_iff.2
      intro o ho hpp
      exact h ⟨o, ho, by simpa using hpp⟩
    rw [hnil]
    rfl

variable (eth p docs) in
theorem rawOrderBook_perm : ∃ rs, p.rawOrderBook eth (docs.map (Order.getBSON eth)) = .ok rs ∧
    rs.Perm ((docs.filter (·.InBook eth p)).map (Order.getBSON eth)) := by
  have hfilter : (docs.map (Order.getBSON eth)).filter (fun r => r.InBook eth p) =
      (docs.filter (·.InBook eth p)).map (Order.getBSON eth) := by
    simp only [List.filter_map, Function.comp_def, inBook_getBSON]
  unfold PairTokens.rawOrderBook
  rw [hfilter, mapM_map_ok fun o _ => priced_getBSON o, ok_bind]
  refine ⟨_, rfl, ?_⟩
  refine ((List.perm_insertionSort _ _).map Prod.snd).trans ?_
  rw [List.map_map]
  rfl

end

/-! ## The queries -/

/-- The book of a side as `GetOrderBook` sorts it. -/
def sideBook (eth : Eth) (p : PairTokens) (docs : List Order) (side : Side) : List (Int × Int) :=
  book (if side = .BUY then .descending else .ascending) (sideOrders eth p side docs)

/-- The two sides of the book are small enough. -/
def SmallBook (eth : Eth) (p : PairTokens) (docs : List Order) : Prop :=
  ∀ side, side = .BUY ∨ side = .SELL → Small (sideOrders eth p side docs)

/-- `Amount - FilledAmount` of the orders with a side and a price, added up. -/
def rawTotal (raw : List RawOrder) (side : Side) (price : Int) : Int :=
  ((raw.filter fun o => o.side = side ∧ o.pricePoint = some price).map
    fun o => o.order.remainingAmount).sum

section
variable {env : Env} {p : PairTokens} {w : World} {side : Side}

theorem aggregateOrders_eq {α : Type} {f : Eth → List OrderRecord → Except Err α}
    (hf : env.fails w.calls = false) : aggregateOrders f env w =
      (f env.eth ((env.scanOrders w.calls w.orders.docs).map (Order.getBSON env.eth)), w.tick) := by
  simp [aggregateOrders, call, hf]

theorem sideOrders_scan (env : Env) (p : PairTokens) (side : Side) (docs : List Order) (n : Nat) :
    (sideOrders env.eth p side (env.scanOrders n docs)).Perm (sideOrders env.eth p side docs) :=
  (env.scanOrders_perm n docs).filter _

theorem getSideOrderBook_eq {d : Direction} (hs : Small (sideOrders env.eth p side w.orders.docs))
    (hf : env.fails w.calls = false) : getSideOrderBook (some p) side d none env w =
      (.ok ((book d (sideOrders env.eth p side w.orders.docs)).map Level.of), w.tick) := by
  have hscan := sideOrders_scan env p side w.orders.docs w.calls
  unfold getSideOrderBook
  simp only
  rw [aggregateOrders_eq hf, sideOrderBook_eq (hs.subperm hscan.subperm), book_perm hscan]

theorem getOrderBook_eq (hs : SmallBook env.eth p w.orders.docs) (hf : ¬env.FailsWithin w.calls 2) :
    getOrderBook (some p) env w = (.ok ((sideBook env.eth p w.orders.docs .BUY).map Level.of,
      (sideBook env.eth p w.orders.docs .SELL).map Level.of), w.tick.tick) := by
  rw [Env.failsWithin_succ, Env.failsWithin_one, not_or, Bool.not_eq_true, Bool.not_eq_true] at hf
  have hasks : getSideOrderBook (some p) .SELL .ascending none env w.tick =
      (.ok ((sideBook env.eth p w.orders.docs .SELL).map Level.of), w.tick.tick) :=
    getSideOrderBook_eq (hs .SELL (.inr rfl)) hf.2
  unfold getOrderBook
  rw [Prog.bind_ok (getSideOrderBook_eq (hs .BUY (.inl rfl)) hf.1), Prog.bind_ok hasks]
  rfl

theorem getOrderBookPricePoint_eq (hs : Small (sideOrders env.eth p side w.orders.docs)) (pp : Int)
    (hf : env.fails w.calls = false) : getOrderBookPricePoint p pp side env w =
      (.ok ((sideBook env.eth p w.orders.docs side).lookup pp), w.tick) := by
  have hscan := sideOrders_scan env p side w.orders.docs w.calls
  have hrows : aggregateOrders (fun eth rs => p.orderBookPricePoint eth pp side.text rs) env w =
      (.ok (((sideBook env.eth p w.orders.docs side).lookup pp).toList.map
        fun a => Level.of (pp, a)), w.tick) := by
    rw [aggregateOrders_eq hf, orderBookPricePoint_eq (hs.subperm hscan.subperm), book_perm hscan]
    rfl
  have hask : (Prog.ask : M Env) env w = (.ok env, w) := rfl
  unfold getOrderBookPricePoint
  rw [Prog.bind_ok hask, Prog.bind_ok hrows]
  cases (sideBook env.eth p w.orders.docs side).lookup pp with
  | none => rfl
  | some a =>
    simp only [Option.toList, List.map_cons, Level.of, Int.toString_eq_repr, toBigInt_repr]
    rfl

theorem getRawOrderBook_perm (hf : env.fails w.calls = false) : ∃ raw,
    getRawOrderBook p env w = (.ok raw, w.tick) ∧ raw.Perm ((w.orders.docs.filter
      (·.InBook env.eth p)).map fun o => (o.getBSON env.eth).setBSON env.codec) := by
  obtain ⟨rs, hrs, hperm⟩ := rawOrderBook_perm env.eth p (env.scanOrders w.calls w.orders.docs)
  have hread : aggregateOrders (fun eth rs => p.rawOrderBook eth rs) env w = (.ok rs, w.tick) := by
    rw [aggregateOrders_eq hf, hrs]
  refine ⟨rs.map (OrderRecord.setBSON env.codec), ?_, ?_⟩
  · have hask : (Prog.ask : M Env) env w = (.ok env, w) := rfl
    unfold getRawOrderBook
    rw [Prog.bind_ok hask, Prog.bind_ok hread]
    rfl
  · have hdocs := ((env.scanOrders_perm w.calls w.orders.docs).filter (·.InBook env.eth p)).map
      (Order.getBSON env.eth)
    have h := (hperm.trans hdocs).map (OrderRecord.setBSON env.codec)
    rwa [List.map_map] at h

/-- The book of a side, in terms of the orders that `GetRawOrderBook` returns. -/
theorem mem_sideBook_raw {raw : List RawOrder} (hraw : raw.Perm ((w.orders.docs.filter
      (·.InBook env.eth p)).map fun o => (o.getBSON env.eth).setBSON env.codec))
      {price amount : Int} :
    (price, amount) ∈ sideBook env.eth p w.orders.docs side ↔
      (∃ o ∈ raw, o.side = side ∧ o.pricePoint = some price) ∧
      amount = rawTotal raw side price := by
  have hside : ∀ o : Order, ((o.getBSON env.eth).setBSON env.codec).side = o.side :=
    fun o => Side.ofText_text o.side
  have hprice : ∀ o : Order, ((o.getBSON env.eth).setBSON env.codec).pricePoint =
      some o.pricePoint :=
    fun o => recordNumber_repr env.codec o.pricePoint
  have hremaining : ∀ o : Order,
      ((o.getBSON env.eth).setBSON env.codec).order.remainingAmount = o.remainingAmount := by
    intro o
    simp [OrderRecord.setBSON, Order.getBSON, RawOrder.order, Order.remainingAmount,
      recordNumber_repr]
  have hlevel : rawTotal raw side price =
      totalRemaining ((sideOrders env.eth p side w.orders.docs).filter (·.pricePoint = price)) := by
    unfold rawTotal
    rw [((hraw.filter _).map _).sum_eq, List.filter_map, List.map_map, totalRemaining, sideOrders,
      List.filter_filter, List.filter_filter]
    simp only [Function.comp_def, hside, hprice, hremaining, Option.some.injEq]
    congr 2
    apply List.filter_congr
    intro o _
    by_cases h1 : o.InBook env.eth p <;> by_cases h2 : o.pricePoint = price <;>
      by_cases h3 : o.side = side <;> simp [h1, h2, h3]
  rw [sideBook, mem_book, hlevel]
  apply and_congr_left'
  constructor
  · intro h
    obtain ⟨o, ho, hp⟩ := h
    obtain ⟨hmem, hin⟩ := List.mem_filter.1 ho
    have hin : o.InBook env.eth p ∧ o.side = side := by simpa using hin
    refine ⟨(o.getBSON env.eth).setBSON env.codec, ?_, ?_, ?_⟩
    · exact hraw.mem_iff.2 (List.mem_map.2 ⟨o, List.mem_filter.2 ⟨hmem, by simpa using hin.1⟩, rfl⟩)
    · rw [hside, hin.2]
    · rw [hprice, hp]
  · intro h
    obtain ⟨r, hr, hs, hp⟩ := h
    obtain ⟨o, ho, rfl⟩ := List.mem_map.1 (hraw.mem_iff.1 hr)
    obtain ⟨hmem, hin⟩ := List.mem_filter.1 ho
    have hin : o.InBook env.eth p := by simpa using hin
    rw [hside] at hs
    rw [hprice] at hp
    exact ⟨o, List.mem_filter.2 ⟨hmem, by simpa using ⟨hin, hs⟩⟩, Option.some.inj hp⟩

end

/-! ## What a client makes of the messages -/

/-- A client's side of the book, as texts: it overwrites the levels it is told of. -/
def overwrite (rows : List Level) (client : String → String) : String → String :=
  rows.foldl (fun client row => Function.update client row.pricepoint row.amount) client

/-- A book without levels: nothing is offered at any price. -/
def noLevels : String → String := fun _ => toString (0 : Int)

theorem overwrite_not_mem {rows : List Level} {pp : String} (h : ∀ row ∈ rows, row.pricepoint ≠ pp)
    (client : String → String) : overwrite rows client pp = client pp := by
  unfold overwrite
  induction rows generalizing client with
  | nil => rfl
  | cons row rows ih =>
    obtain ⟨hrow, hrows⟩ := List.forall_mem_cons.1 h
    rw [List.foldl_cons, ih hrows]
    exact Function.update_of_ne hrow.symm _ _

theorem overwrite_mem {rows : List Level} {pp amount : String}
    (hmem : ∃ row ∈ rows, row.pricepoint = pp)
    (h : ∀ row ∈ rows, row.pricepoint = pp → row.amount = amount) (client : String → String) :
    overwrite rows client pp = amount := by
  induction rows generalizing client with
  | nil =>
    obtain ⟨row, hrow, -⟩ := hmem
    cases hrow
  | cons row rows ih =>
    obtain ⟨hrow, hrows⟩ := List.forall_mem_cons.1 h
    show overwrite rows (Function.update client row.pricepoint row.amount) pp = amount
    by_cases hlater : ∃ row ∈ rows, row.pricepoint = pp
    · exact ih hlater hrows _
    · rw [overwrite_not_mem fun r hr he => hlater ⟨r, hr, he⟩]
      have hpp : row.pricepoint = pp := by
        obtain ⟨r, hr, he⟩ := hmem
        rcases List.mem_cons.1 hr with rfl | hr
        · exact he
        · exact absurd ⟨r, hr, he⟩ hlater
      rw [← hpp, Function.update_self, hrow hpp]

theorem toString_injective {m n : Int} (h : toString m = toString n) : m = n := by
  have hset := congrArg setString h
  rw [setString_toString, setString_toString] at hset
  exact Option.some.inj hset

theorem overwrite_book {levels : List (Int × Int)} (hkeys : (levels.map Prod.fst).Nodup)
    (price : Int) : overwrite (levels.map Level.of) noLevels (toString price) =
      toString ((levels.lookup price).getD 0) := by
  have hrow : ∀ row ∈ levels.map Level.of, row.pricepoint = toString price →
      ∃ amount, levels.lookup price = some amount ∧ row.amount = toString amount := by
    intro row hrow hpp
    obtain ⟨⟨price', amount⟩, hmem, rfl⟩ := List.mem_map.1 hrow
    cases toString_injective hpp
    exact ⟨amount, (lookup_eq_some hkeys).2 hmem, rfl⟩
  cases hlookup : levels.lookup price with
  | none =>
    rw [overwrite_not_mem]
    · rfl
    · intro row hmem hpp
      obtain ⟨amount, hsome, -⟩ := hrow row hmem hpp
      rw [hlookup] at hsome
      cases hsome
  | some amount =>
    apply overwrite_mem
    · exact ⟨_, List.mem_map.2 ⟨_, (lookup_eq_some hkeys).1 hlookup, rfl⟩, rfl⟩
    · intro row hmem hpp
      obtain ⟨amount', hsome, hamount⟩ := hrow row hmem hpp
      rw [hlookup] at hsome
      cases hsome
      exact hamount

/-! ## The updates -/

section
variable {env : Env} {p : PairTokens} {w : World}

/-- The row that is broadcast for an order. -/
def updateRow (eth : Eth) (p : PairTokens) (docs : List Order) (o : Order) : Level :=
  Level.of (o.pricePoint, ((sideBook eth p docs o.side).lookup o.pricePoint).getD 0)

theorem orderBookUpdate_eq {o : Order} (hs : Small (sideOrders env.eth p o.side w.orders.docs))
    (hf : env.fails w.calls = false) :
    orderBookUpdate p o env w = (.ok (updateRow env.eth p w.orders.docs o), w.tick) := by
  unfold orderBookUpdate
  rw [Prog.bind_ok (Prog.attempt_eq (getOrderBookPricePoint_eq hs o.pricePoint hf)), updateRow]
  cases (sideBook env.eth p w.orders.docs o.side).lookup o.pricePoint <;> rfl

theorem orderBookUpdates_eq {orders : List Order} (hs : SmallBook env.eth p w.orders.docs)
    (hside : ∀ o ∈ orders, o.side = .BUY ∨ o.side = .SELL)
    (hf : ¬env.FailsWithin w.calls orders.length) :
    ∃ w', orderBookUpdates p orders env w =
      (.ok ((orders.filter (·.side = .BUY)).map (updateRow env.eth p w.orders.docs),
        (orders.filter (·.side ≠ .BUY)).map (updateRow env.eth p w.orders.docs)), w') := by
  induction orders generalizing w with
  | nil => exact ⟨w, rfl⟩
  | cons o orders ih =>
    obtain ⟨ho, horders⟩ := List.forall_mem_cons.1 hside
    rw [List.length_cons, Env.failsWithin_succ, not_or, Bool.not_eq_true] at hf
    obtain ⟨w', hrest⟩ := ih (w := w.tick) hs horders hf.2
    refine ⟨w', ?_⟩
    unfold orderBookUpdates
    rw [Prog.bind_ok (orderBookUpdate_eq (hs o.side ho) hf.1), Prog.bind_ok hrest]
    by_cases hbuy : o.side = .BUY
    · simp [hbuy]
      rfl
    · simp [hbuy]
      rfl

theorem broadcastOrderBookUpdate_eq {orders : List Order} (hs : SmallBook env.eth p w.orders.docs)
    (hne : orders ≠ []) (htokens : ∀ o ∈ orders, o.baseToken = p.baseTokenAddress ∧
      o.quoteToken = p.quoteTokenAddress) (hbase : p.baseTokenAddress ≠ 0)
        (hquote : p.quoteTokenAddress ≠ 0)
    (hside : ∀ o ∈ orders, o.side = .BUY ∨ o.side = .SELL)
    (hf : ¬env.FailsWithin w.calls orders.length) :
    ∃ m w', broadcastOrderBookUpdate orders env w = (.ok (some (p, m)), w') ∧
      m.bids = (orders.filter (·.side = .BUY)).map (updateRow env.eth p w.orders.docs) ∧
      m.asks = (orders.filter (·.side ≠ .BUY)).map (updateRow env.eth p w.orders.docs) := by
  obtain ⟨w', hupdates⟩ := orderBookUpdates_eq hs hside hf
  cases orders with
  | nil => exact absurd rfl hne
  | cons o orders =>
    obtain ⟨hb, hq⟩ := htokens o (.head _)
    have hpair : o.pair = .ok p := by
      simp only [Order.pair, hb, hq, require_pos hbase, require_pos hquote, ok_bind]
      rfl
    have hfirst : index (o :: orders) 0 env w = (.ok o, w) := rfl
    refine ⟨⟨o.pairName, _, _⟩, w', ?_, rfl, rfl⟩
    unfold broadcastOrderBookUpdate
    rw [Prog.bind_ok hfirst, hpair]
    simp only
    rw [Prog.bind_ok hupdates]
    rfl

theorem overwrite_updateRow {docs orders : List Order} {side : Side} {o : Order} (hmem : o ∈ orders)
    (hside : ∀ o ∈ orders, o.side = side) (client : String → String) :
    overwrite (orders.map (updateRow env.eth p docs)) client (toString o.pricePoint) =
      toString (((sideBook env.eth p docs side).lookup o.pricePoint).getD 0) := by
  apply overwrite_mem
  · exact ⟨_, List.mem_map.2 ⟨o, hmem, rfl⟩, rfl⟩
  · intro row hrow hpp
    obtain ⟨o', ho', rfl⟩ := List.mem_map.1 hrow
    have hprice : o'.pricePoint = o.pricePoint := toString_injective hpp
    simp only [updateRow, Level.of, hprice, hside o' ho']

/-- **Snapshot and updates agree.** There are two strictly ordered lists of levels, such that from
every state with these orders: `GetOrderBook` returns them; they are the prices of the orders of
`GetRawOrderBook`, each with what remains of the orders at it; `GetOrderBookPricePoint` looks a
price up in them; and a client that overwrites its levels with the rows of
`broadcastOrderBookUpdate` has, at the prices of these rows, the book of a fresh snapshot. -/
theorem order_book_updates_agree (hs : SmallBook env.eth p w.orders.docs) :
    ∃ book : Side → List (Int × Int),
      (book .BUY).Pairwise (fun a b => b.1 < a.1) ∧ (book .SELL).Pairwise (fun a b => a.1 < b.1) ∧
      ∀ w₁ : World, w₁.orders = w.orders →
        (¬env.FailsWithin w₁.calls 2 → getOrderBook (some p) env w₁ =
          (.ok ((book .BUY).map Level.of, (book .SELL).map Level.of), w₁.tick.tick)) ∧
        (env.fails w₁.calls = false → ∃ raw, getRawOrderBook p env w₁ = (.ok raw, w₁.tick) ∧
          ∀ side, side = .BUY ∨ side = .SELL → ∀ price amount, (price, amount) ∈ book side ↔
            (∃ o ∈ raw, o.side = side ∧ o.pricePoint = some price) ∧
              amount = rawTotal raw side price) ∧
        (env.fails w₁.calls = false → ∀ side, side = .BUY ∨ side = .SELL → ∀ pp,
          getOrderBookPricePoint p pp side env w₁ = (.ok ((book side).lookup pp), w₁.tick)) ∧
        ∀ orders : List Order, orders ≠ [] →
          (∀ o ∈ orders, o.baseToken = p.baseTokenAddress ∧ o.quoteToken = p.quoteTokenAddress) →
          p.baseTokenAddress ≠ 0 → p.quoteTokenAddress ≠ 0 →
          (∀ o ∈ orders, o.side = .BUY ∨ o.side = .SELL) →
          ¬env.FailsWithin w₁.calls orders.length →
          ∃ m w₂, broadcastOrderBookUpdate orders env w₁ = (.ok (some (p, m)), w₂) ∧
            ∀ o ∈ orders, ∀ client,
              (o.side = .BUY → overwrite m.bids client (toString o.pricePoint) =
                overwrite ((book .BUY).map Level.of) noLevels (toString o.pricePoint)) ∧
              (o.side = .SELL → overwrite m.asks client (toString o.pricePoint) =
                overwrite ((book .SELL).map Level.of) noLevels (toString o.pricePoint)) := by
  refine ⟨sideBook env.eth p w.orders.docs, ?_, ?_, ?_⟩
  · apply book_pairwise.imp
    intro a b h
    exact Int.lt_iff_le_and_ne.2 ⟨h.1, h.2.symm⟩
  · apply book_pairwise.imp
    intro a b h
    exact Int.lt_iff_le_and_ne.2 h
  · intro w₁ horders
    rw [← horders] at hs ⊢
    refine ⟨getOrderBook_eq hs, ?_, ?_, ?_⟩
    · intro hf
      obtain ⟨raw, hraw, hperm⟩ := getRawOrderBook_perm (p := p) hf
      exact ⟨raw, hraw, fun side _ price amount => mem_sideBook_raw hperm⟩
    · intro hf side hside pp
      exact getOrderBookPricePoint_eq (hs side hside) pp hf
    · intro orders hne htokens hbase hquote hside hf
      obtain ⟨m, w₂, hm, hbids, hasks⟩ :=
        broadcastOrderBookUpdate_eq hs hne htokens hbase hquote hside hf
      have hkeys : ∀ side, ((sideBook env.eth p w₁.orders.docs side).map Prod.fst).Nodup :=
        fun _ => book_nodup
      refine ⟨m, w₂, hm, ?_⟩
      intro o ho client
      constructor
      · intro hbuy
        rw [hbids, overwrite_book (hkeys .BUY)]
        apply overwrite_updateRow
        · exact List.mem_filter.2 ⟨ho, by simpa using hbuy⟩
        · intro o' ho'
          simpa using (List.mem_filter.1 ho').2
      · intro hsell
        rw [hasks, overwrite_book (hkeys .SELL)]
        apply overwrite_updateRow
        · exact List.mem_filter.2 ⟨ho, by simp [hsell]⟩
        · intro o' ho'
          obtain ⟨hmem, hne⟩ := List.mem_filter.1 ho'
          rcases hside o' hmem with h | h
          · simp [h] at hne
          · exact h

end

/-- Two asks at one price and a bid. -/
def World.sampleBook : World :=
  { World.empty with
    orders := Coll.empty.putAll [.sample 1 .SELL 10 5, .sample 2 .SELL 10 7, .sample 3 .BUY 9 4] }

theorem order_book_updates_agree_sample :
    ∃ book : Side → List (Int × Int), getOrderBook (some ⟨3, 4⟩)
      (Env.sample .stored) World.sampleBook =
      (.ok ((book .BUY).map Level.of, (book .SELL).map Level.of), World.sampleBook.tick.tick) := by
  have hsmall : SmallBook (Env.sample .stored).eth ⟨3, 4⟩ World.sampleBook.orders.docs := by
    intro side hside
    rcases hside with rfl | rfl
    · apply Small.of_bounded <;> decide +kernel
    · apply Small.of_bounded <;> decide +kernel
  obtain ⟨book, -, -, h⟩ := order_book_updates_agree hsmall
  refine ⟨book, (h _ rfl).1 ?_⟩
  intro hf
  exact hf.not_faultless (Env.sample_faultless _)

end Dex
