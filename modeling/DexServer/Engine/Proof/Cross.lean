import DexServer.Engine.Proof.Fill

/-!
# The book is never crossed

An order that is not filled has used up every order it crosses, whichever order the query returned
them in, so no bid rests at or above an ask of its pair; and a trade, made at the taker's price, is
within the prices of its two orders. `book_never_crossed` says this of every run of fresh orders and
cancellations on the store's own matching queries, whose prices Decimal128 holds exactly.
-/

namespace Dex

open Lib

/-- The price is positive and has at most 34 digits. -/
def Order.PriceFits (o : Order) : Prop := 0 < o.pricePoint ∧ o.pricePoint < 10 ^ 34

instance (o : Order) : Decidable o.PriceFits := inferInstanceAs (Decidable (_ ∧ _))

/-- No open bid is at or above an open ask of the same pair. -/
def Uncrossed (c : Coll Order.hash) : Prop :=
  ∀ b ∈ c, ∀ s ∈ c, b.isOpen → s.isOpen → b.side = .BUY → s.side = .SELL → b.SamePair s →
    b.pricePoint < s.pricePoint

/-- The trade is between a bid and an ask, and within their prices. -/
def Trade.Within (t : Trade) (c : Coll Order.hash) : Prop :=
  ∃ b ∈ c, ∃ s ∈ c, b.side = .BUY ∧ s.side = .SELL ∧
    (t.makerOrderHash = b.hash ∧ t.takerOrderHash = s.hash ∨
      t.makerOrderHash = s.hash ∧ t.takerOrderHash = b.hash) ∧
    s.pricePoint ≤ t.pricePoint ∧ t.pricePoint ≤ b.pricePoint

theorem Trade.Within.mono {t : Trade} {c c' : Coll Order.hash} (h : t.Within c)
    (hc : ∀ d ∈ c, ∃ d' ∈ c', d'.terms = d.terms) : t.Within c' := by
  obtain ⟨b, hb, s, hs, h1, h2, h3, h4, h5⟩ := h
  obtain ⟨b', hb', eb⟩ := hc b hb
  obtain ⟨s', hs', es⟩ := hc s hs
  have hbt := Order.sameTerms eb
  have hst := Order.sameTerms es
  refine ⟨b', hb', s', hs', hbt.side.trans h1, hst.side.trans h2, ?_, ?_, ?_⟩
  · rw [hbt.hash, hst.hash]
    exact h3
  · rw [hst.pricePoint]
    exact h4
  · rw [hbt.pricePoint]
    exact h5

/-! ## A fresh order -/

namespace FreshStep

variable {env : Env} {w w' : World} {o : Order} {l : List Order} {now : Time} {m : Outcome}
  (h : FreshStep env w o l now m w')
include h

theorem taker {d : Order} (hd : d ∈ w'.orders) (hh : d.hash = o.hash) :
    d.terms = o.terms ∧ d.status = m.takerOrder.status := by
  have hget := Coll.get_mem hd
  rw [h.orders, hh, store_get_self h.of now, Option.some.injEq] at hget
  rw [← hget, updatedDoc_terms, updatedDoc_status, h.of.terms]
  exact ⟨rfl, rfl⟩

theorem open_before {d : Order} (hd : d ∈ w'.orders) (hh : d.hash ≠ o.hash) (ho : d.isOpen) :
    ∃ d₀ ∈ w.orders, d₀.isOpen ∧ d.terms = d₀.terms := by
  rcases h.mem hd with ⟨-, hd', -⟩ | ⟨p, hp, hpc, rfl, -⟩ | ⟨hdc, -, -⟩
  · exact absurd hd' hh
  · exact ⟨p.2, hpc, (h.resting _ (h.of.maker_mem hp)).1, filledMaker_terms p.1 p.2⟩
  · exact ⟨d, hdc, ho, rfl⟩

theorem used_up (hpos : 0 < o.amount) {d : Order} (hd : d ∈ w'.orders) (hh : d.hash = o.hash)
    (ho : d.isOpen) {mo x : Order} (hmo : mo ∈ l) (hx : x ∈ w'.orders) (hxh : x.hash = mo.hash) :
    ¬x.isOpen := by
  have hst := (h.taker hd hh).2
  rcases processOrder_fresh hpos h.zero h.left with ⟨rfl, -, -⟩ | ⟨-, hfr⟩
  · cases hmo
  · rw [← h.outcome] at hfr
    rcases hfr.ends with ⟨hs, -⟩ | ⟨-, -, hall, hle⟩
    · rw [hs] at hst
      rcases ho with ho | ho <;> cases hst.symm.trans ho
    · rcases store_get_other h.of h.sub now env.eth (h.new mo (h.sub.subset hmo)) with
        ⟨p, hp, hph, -, hs, -⟩ | ⟨hnone, -⟩
      · have hget := Coll.get_mem hx
        rw [h.orders, hxh, hs, Option.some.injEq] at hget
        have hfull : filledMaker p.1 p.2 = p.2.complete := if_neg (not_lt.2 (hle p hp))
        rw [← hget, hfull]
        exact fun ho => by rcases ho with ho | ho <;> cases ho
      · obtain ⟨p, hp, rfl⟩ := List.mem_map.1 (hall ▸ hmo)
        exact absurd rfl (hnone p hp)

theorem uncrossed (hpos : 0 < o.amount) (hall : ∀ d ∈ w.orders, o.Matchable d → d ∈ l)
    (hu : Uncrossed w.orders) : Uncrossed w'.orders := by
  intro b hb s hs hbo hso hbs hss hpair
  by_contra hcross
  have hcross : s.pricePoint ≤ b.pricePoint := not_lt.1 hcross
  by_cases hbh : b.hash = o.hash <;> by_cases hsh : s.hash = o.hash
  · rw [Coll.key_inj hb hs (hbh.trans hsh.symm), hss] at hbs
    cases hbs
  · -- the bid is the new order
    have hbt := Order.sameTerms (h.taker hb hbh).1
    obtain ⟨s₀, hs₀, hs₀o, hst⟩ := h.open_before hs hsh hso
    have hst := Order.sameTerms hst
    have hmatch : o.Matchable s₀ := by
      refine ⟨hs₀o, ⟨?_, ?_⟩, ?_⟩
      · rw [← hst.baseToken, ← hbt.baseToken, hpair.1]
      · rw [← hst.quoteToken, ← hbt.quoteToken, hpair.2]
      · unfold Order.Crosses
        rw [← hbt.side, hbs]
        refine ⟨hst.side.symm.trans hss, ?_⟩
        rw [← hst.pricePoint, ← hbt.pricePoint]
        exact hcross
    exact h.used_up hpos hb hbh hbo (hall s₀ hs₀ hmatch) hs hst.hash hso
  · -- the ask is the new order
    have hst := Order.sameTerms (h.taker hs hsh).1
    obtain ⟨b₀, hb₀, hb₀o, hbt⟩ := h.open_before hb hbh hbo
    have hbt := Order.sameTerms hbt
    have hmatch : o.Matchable b₀ := by
      refine ⟨hb₀o, ⟨?_, ?_⟩, ?_⟩
      · rw [← hst.baseToken, ← hbt.baseToken, hpair.1]
      · rw [← hst.quoteToken, ← hbt.quoteToken, hpair.2]
      · unfold Order.Crosses
        rw [← hst.side, hss]
        refine ⟨hbt.side.symm.trans hbs, ?_⟩
        rw [← hst.pricePoint, ← hbt.pricePoint]
        exact hcross
    exact h.used_up hpos hs hsh hso (hall b₀ hb₀ hmatch) hb hbt.hash hbo
  · obtain ⟨b₀, hb₀, hb₀o, hbt⟩ := h.open_before hb hbh hbo
    obtain ⟨s₀, hs₀, hs₀o, hst⟩ := h.open_before hs hsh hso
    have hbt := Order.sameTerms hbt
    have hst := Order.sameTerms hst
    have hlt := hu b₀ hb₀ s₀ hs₀ hb₀o hs₀o (hbt.side.symm.trans hbs) (hst.side.symm.trans hss)
      ⟨by rw [← hst.baseToken, ← hbt.baseToken, hpair.1],
        by rw [← hst.quoteToken, ← hbt.quoteToken, hpair.2]⟩
    rw [← hbt.pricePoint, ← hst.pricePoint] at hlt
    omega

theorem within (hmatch : ∀ d ∈ l, o.Crosses d) (hw : ∀ t ∈ w.emitted, t.Within w.orders) :
    ∀ t ∈ w'.emitted, t.Within w'.orders := by
  intro t ht
  rw [h.emitted] at ht
  rcases List.mem_append.1 ht with ht | ht
  · exact (hw t ht).mono fun d hd => h.keeps hd
  · obtain ⟨p, hp, rfl⟩ := List.mem_map.1 ht
    have hpl := h.of.maker_mem hp
    obtain ⟨mk, hmk, hmkt⟩ := h.keeps (h.sub.subset hpl)
    have htk := Coll.mem_of_get (store_get_self h.of now (c := w.orders))
    rw [← h.orders] at htk
    obtain ⟨htkt, -⟩ := h.taker htk (by rw [updatedDoc_hash, h.of.hash])
    generalize updatedDoc now (w.orders.get o.hash) m.takerOrder = tk at htk htkt
    have ht := Order.sameTerms htkt
    have hk := Order.sameTerms hmkt
    have hq := Order.sameTerms (h.of.takers p hp)
    have hprice : (newTrade env.eth p.1 p.2).pricePoint = o.pricePoint := hq.pricePoint
    have hcr := hmatch _ hpl
    unfold Order.Crosses at hcr
    cases hside : o.side with
    | BUY =>
      rw [hside] at hcr
      refine ⟨tk, htk, mk, hmk, ht.side.trans hside, hk.side.trans hcr.1,
        .inr ⟨hk.hash.symm, hq.hash.trans ht.hash.symm⟩, ?_, ?_⟩
      · rw [hprice, hk.pricePoint]
        exact hcr.2
      · rw [hprice, ht.pricePoint]
    | SELL =>
      rw [hside] at hcr
      refine ⟨mk, hmk, tk, htk, hk.side.trans hcr.1, ht.side.trans hside,
        .inl ⟨hk.hash.symm, hq.hash.trans ht.hash.symm⟩, ?_, ?_⟩
      · rw [hprice, ht.pricePoint]
      · rw [hprice, hk.pricePoint]
        exact hcr.2
    | other s hs =>
      rw [hside] at hcr
      exact hcr.elim

end FreshStep

/-! ## Runs -/

/-- A fresh order has a price that fits. -/
def BookOp.Priced (ops : List BookOp) : BookOp → Prop
  | newOrder o => Fresh ops (newOrder o) ∧ o.PriceFits
  | cancelOrder _ => True

instance (ops : List BookOp) : (op : BookOp) → Decidable (op.Priced ops)
  | .newOrder _ => inferInstanceAs (Decidable ((_ ∧ _ ∧ _) ∧ _))
  | .cancelOrder _ => inferInstanceAs (Decidable True)

theorem BookOp.Priced.fresh {ops : List BookOp} {op : BookOp} (h : op.Priced ops) :
    op.Fresh ops := by
  cases op with
  | newOrder o => exact h.1
  | cancelOrder o => trivial

/-- The book is not crossed and no trade crossed it. -/
structure UncrossedBook (w : World) : Prop where
  uncrossed : Uncrossed w.orders
  within : ∀ t ∈ w.emitted, t.Within w.orders

section
variable {env : Env} {m : Mongo} {ops : List BookOp} {w : World}

theorem uncrossed_newOrder (hf : env.Faultless) (hm : env.orderDao = m.orderDao)
    (hx : m.DecimalExact) (hi : Accounting ops w) (hp : ∀ d ∈ w.orders, d.PriceFits)
    (hu : UncrossedBook w) {o : Order} (hok : BookOp.Priced ops (.newOrder o)) :
    UncrossedBook (BookOp.step env w (.newOrder o)) ∧
      ∀ d ∈ (BookOp.step env w (.newOrder o)).orders, d.PriceFits := by
  by_cases hside : o.side = .BUY ∨ o.side = .SELL
  · obtain ⟨l, now, out, h⟩ := freshStep hf hi hside hok.1
    have hmem : ∀ d ∈ w.orders, d ∈ l ↔ o.Matchable d := by
      intro d hd
      have hpd := hp d hd
      rw [h.matching, hm, Mongo.mem_matching (hx.toDecimal _ hpd.1.le hpd.2)
        (hx.parseDecimal128 _ hok.2.1.le hok.2.2)]
      exact and_iff_right hd
    refine ⟨⟨h.uncrossed hok.1.1 (fun d hd => (hmem d hd).2) hu.uncrossed,
      h.within (fun d hd => ((hmem d (h.sub.subset hd)).1 hd).2.2) hu.within⟩, fun d hd => ?_⟩
    have hterms : ∃ x : Order, x.PriceFits ∧ d.terms = x.terms := by
      rcases h.mem hd with ⟨-, hh, -⟩ | ⟨p, hp', hpc, rfl, -⟩ | ⟨hdc, -, -⟩
      · exact ⟨o, hok.2, (h.taker hd hh).1⟩
      · exact ⟨p.2, hp _ hpc, filledMaker_terms _ _⟩
      · exact ⟨d, hp d hdc, rfl⟩
    obtain ⟨x, hx, ht⟩ := hterms
    rw [Order.PriceFits, (Order.sameTerms ht).pricePoint]
    exact hx
  · obtain ⟨h1, h2⟩ : (BookOp.step env w (.newOrder o)).orders = w.orders ∧
        (BookOp.step env w (.newOrder o)).emitted = w.emitted := newOrder_other hside
    refine ⟨⟨?_, ?_⟩, ?_⟩
    · rw [h1]
      exact hu.uncrossed
    · rw [h1, h2]
      exact hu.within
    · rw [h1]
      exact hp

theorem uncrossed_cancelOrder (hf : env.Faultless) (hp : ∀ d ∈ w.orders, d.PriceFits)
    (hu : UncrossedBook w) (o : Order) :
    UncrossedBook (BookOp.step env w (.cancelOrder o)) ∧
      ∀ d ∈ (BookOp.step env w (.cancelOrder o)).orders, d.PriceFits := by
  cases hg : w.orders.get o.hash with
  | none =>
    have hw : BookOp.step env w (.cancelOrder o) = w.tick :=
      congrArg Prod.snd (cancelOrder_unstored hf hg)
    rw [hw]
    exact ⟨⟨hu.uncrossed, hu.within⟩, hp⟩
  | some d₀ =>
    obtain ⟨h1, h2⟩ : (BookOp.step env w (.cancelOrder o)).orders =
          setStatuses w.orders .CANCELLED [o.hash] ∧
        (BookOp.step env w (.cancelOrder o)).emitted = w.emitted :=
      cancelOrder_step hf (Coll.mem_of_get hg) (Coll.get_key hg)
    -- what is open afterwards is as it was before
    have hopen : ∀ d ∈ setStatuses w.orders .CANCELLED [o.hash], d.isOpen → d ∈ w.orders := by
      intro d hd ho
      obtain ⟨x, hx, rfl⟩ := mem_setStatuses.1 hd
      split at ho
      · rcases ho with ho | ho <;> cases ho
      · rename_i hne
        rw [if_neg hne]
        exact hx
    refine ⟨⟨?_, ?_⟩, ?_⟩
    · rw [h1]
      exact fun b hb s hs hbo hso => hu.uncrossed b (hopen b hb hbo) s (hopen s hs hso) hbo hso
    · rw [h1, h2]
      intro t ht
      refine (hu.within t ht).mono fun d hd => ⟨_, mem_setStatuses.2 ⟨d, hd, rfl⟩, ?_⟩
      split <;> rfl
    · rw [h1]
      intro d hd
      obtain ⟨x, hx, rfl⟩ := mem_setStatuses.1 hd
      split <;> exact hp x hx

/-- **The book is never crossed**, and every trade is within the prices of its orders. -/
theorem book_never_crossed (hf : env.Faultless) (hm : env.orderDao = m.orderDao)
    (hx : m.DecimalExact)
    (h : Run (fun ops _ op => BookOp.Priced ops op) (BookOp.step env) World.empty ops w) :
    UncrossedBook w := by
  have hall : UncrossedBook w ∧ ∀ d ∈ w.orders, d.PriceFits := by
    refine h.invariant (I := fun _ w => UncrossedBook w ∧ ∀ d ∈ w.orders, d.PriceFits) ?_ ?_
    · exact ⟨⟨fun b hb => absurd hb (Coll.not_mem_empty b), by simp⟩, by simp⟩
    · intro ops w op hr hi hok
      have hacc := accounting_run hf (hr.mono fun _ _ _ hok => hok.fresh)
      cases op with
      | newOrder o => exact uncrossed_newOrder hf hm hx hacc hi.2 hi.1 hok
      | cancelOrder o => exact uncrossed_cancelOrder hf hi.2 hi.1 o
  exact hall.1

end

/-- A BUY of 12 uses up two asks and rests as a bid below a third. -/
theorem book_never_crossed_sample : ∃ w : World,
    w.emitted.map (·.pricePoint) = [6, 6] ∧ UncrossedBook w :=
  ⟨_, by decide +kernel, book_never_crossed (m := .sample .timeFirst)
    (Env.sample_faultless (Mongo.sample .timeFirst).orderDao) rfl (Mongo.sample_exact _)
    (Run.of_check [.newOrder (.sample 1 .SELL 6 5), .newOrder (.sample 2 .SELL 5 5),
      .newOrder (.sample 3 .SELL 7 5), .newOrder (.sample 4 .BUY 6 12),
      .cancelOrder (.sample 3 .SELL 7 5)] (by decide +kernel))⟩

end Dex
