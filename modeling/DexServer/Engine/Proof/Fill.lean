import DexServer.Lib.Run
import DexServer.Sample
import DexServer.Engine.Proof.Effect

/-!
# Exact fill accounting

Runs of `newOrder` on fresh orders and `cancelOrder` on stored ones, over any number of pairs, when
no call fails. `Accounting` is the invariant: the fill of every stored order is the sum of the
trades that name it, and its status follows from its fill until it is cancelled.

* `accounting_newOrder`, `accounting_cancelOrder`: both operations keep it.
* `exact_fill_accounting`: it holds after every run, and no step touches another pair.
-/

namespace Dex

open Lib

/-- The operations on the order books. -/
inductive BookOp
  | newOrder (o : Order)
  | cancelOrder (o : Order)

namespace BookOp

def run : BookOp → M Unit
  | newOrder o => Dex.newOrder o
  | cancelOrder o => Dex.cancelOrder o

def step (env : Env) (w : World) (op : BookOp) : World := (op.run env w).2

def hash : BookOp → Hash
  | newOrder o => o.hash
  | cancelOrder o => o.hash

/-- After the operations `ops`: a fresh order under a new hash, or the cancellation of a stored
order. -/
def Allowed (ops : List BookOp) (w : World) : BookOp → Prop
  | newOrder o => (o.side = .BUY ∨ o.side = .SELL) ∧ 0 < o.amount ∧ o.filledAmount = 0 ∧
      o.hash ∉ ops.map hash
  | cancelOrder o => (w.orders.get o.hash).isSome

instance (ops : List BookOp) (w : World) : (op : BookOp) → Decidable (Allowed ops w op)
  | newOrder _ => inferInstanceAs (Decidable (_ ∧ _ ∧ _ ∧ _))
  | cancelOrder _ => inferInstanceAs (Decidable (_ = _))

/-- After the operations `ops`: any cancellation, and orders of any side under a new hash. -/
def Fresh (ops : List BookOp) : BookOp → Prop
  | newOrder o => 0 < o.amount ∧ o.filledAmount = 0 ∧ o.hash ∉ ops.map hash
  | cancelOrder _ => True

theorem Allowed.fresh {ops : List BookOp} {w : World} {op : BookOp} (h : Allowed ops w op) :
    Fresh ops op := by
  cases op with
  | newOrder o => exact h.2
  | cancelOrder o => trivial

/-- The order `h` has been cancelled. -/
def Cancelled (ops : List BookOp) (h : Hash) : Prop := ∃ o, cancelOrder o ∈ ops ∧ o.hash = h

/-- The order an operation is about: the incoming one, or the stored one that is cancelled. -/
def target (w : World) : BookOp → Order
  | newOrder o => o
  | cancelOrder o => (w.orders.get o.hash).getD o

end BookOp

/-- The status an order has when nobody cancelled it. -/
structure Order.StatusFits (d : Order) : Prop where
  OPEN : d.status = .OPEN ↔ d.filledAmount = 0
  FILLED : d.status = .FILLED ↔ d.filledAmount = d.amount
  PARTIAL_FILLED : d.status = .PARTIAL_FILLED ↔ d.filledAmount ≠ 0 ∧ d.filledAmount ≠ d.amount

/-- The trade is between a stored BUY and a stored SELL order of its two tokens. -/
def Trade.Joins (t : Trade) (c : Coll Order.hash) : Prop :=
  ∃ b ∈ c, ∃ s ∈ c, b.side = .BUY ∧ s.side = .SELL ∧ b.SamePair s ∧
    t.baseToken = b.baseToken ∧ t.quoteToken = b.quoteToken ∧
    (t.makerOrderHash = b.hash ∧ t.takerOrderHash = s.hash ∨
      t.makerOrderHash = s.hash ∧ t.takerOrderHash = b.hash)

/-- The orders of the store and the trades emitted agree. -/
structure FillAccounting (ops : List BookOp) (w : World) : Prop where
  filled : ∀ d ∈ w.orders, d.filledAmount = Trade.total w.emitted d.hash
  joins : ∀ t ∈ w.emitted, 0 < t.amount ∧ t.Joins w.orders
  once : (w.emitted.map fun t => (t.makerOrderHash, t.takerOrderHash)).Nodup
  status : ∀ d ∈ w.orders, ¬BookOp.Cancelled ops d.hash → d.StatusFits

/-- The invariant: also, a stored hash is one of the run, and a cancelled order stays cancelled. -/
structure Accounting (ops : List BookOp) (w : World) : Prop extends FillAccounting ops w where
  known : ∀ d ∈ w.orders, d.hash ∈ ops.map BookOp.hash
  bounded : ∀ d ∈ w.orders, d.Bounded
  cancelled : ∀ d ∈ w.orders, BookOp.Cancelled ops d.hash → d.status = .CANCELLED

/-! ## Statuses and trades of one step -/

theorem filledMaker_statusFits {o mo : Order} (hm : mo.Bounded) (ho : 0 < o.remainingAmount) :
    (filledMaker o mo).StatusFits := by
  have := hm.pos; have := hm.nonneg
  unfold filledMaker
  split
  · rename_i hgt
    have ht : tradeAmount o mo = o.remainingAmount := if_pos hgt
    simp only [Order.remainingAmount] at hgt ho ht
    refine ⟨?_, ?_, ?_⟩ <;> simp only [reduceCtorEq, false_iff, true_iff] <;> omega
  · refine ⟨?_, ?_, ?_⟩ <;> simp
    · omega

section
variable {o : Order} {l : List Order} (hp : 0 < o.amount) (h0 : o.filledAmount = 0)
  (hl : ∀ mo ∈ l, 0 < mo.remainingAmount)
include hp h0 hl

theorem processOrder_statusFits : (processOrder o l).takerOrder.StatusFits := by
  rcases processOrder_fresh hp h0 hl with ⟨-, -, ht⟩ | ⟨hne, hfr⟩
  · rw [ht]
    refine ⟨?_, ?_, ?_⟩ <;> simp [h0]
    omega
  · have ha := (Order.sameTerms (processOrder_of o l).terms).amount
    have hpos := hfr.pos (.inr hne)
    rcases hfr.ends with ⟨hs, hfa⟩ | ⟨hs, hfa, -⟩
    · refine ⟨?_, ?_, ?_⟩ <;> simp only [hs, reduceCtorEq, false_iff, true_iff] <;> omega
    · refine ⟨?_, ?_, ?_⟩ <;> simp only [hs, reduceCtorEq, false_iff, true_iff] <;> omega

theorem processOrder_takers_pos : ∀ p ∈ (processOrder o l).fills, 0 < p.1.remainingAmount := by
  rcases processOrder_fresh hp h0 hl with ⟨-, hf, -⟩ | ⟨-, hfr⟩
  · simp [hf]
  · exact hfr.takers

end

theorem newTrade_joins {o : Order} {l : List Order} {m : Outcome} (hm : m.Of o l)
    {c : Coll Order.hash} (hl : l.Subperm c.docs) (now : Time) (eth : Eth)
    (hres : ∀ mo ∈ l, o.SamePair mo ∧ o.Opposes mo) (hself : ∀ mo ∈ l, mo.hash ≠ o.hash)
    {p : Order × Order} (hp : p ∈ m.fills) : (newTrade eth p.1 p.2).Joins (m.store now c) := by
  have hpl := hm.maker_mem hp
  obtain ⟨⟨hbase, hquote⟩, hopp⟩ := hres _ hpl
  obtain ⟨mk, hmk, hmkt⟩ := store_keeps hm hl now eth (hl.subset hpl) (hself _ hpl)
  have htk := Coll.mem_of_get (store_get_self hm now (c := c))
  have htkt : (updatedDoc now (c.get o.hash) m.takerOrder).terms = o.terms := by
    rw [updatedDoc_terms, hm.terms]
  generalize updatedDoc now (c.get o.hash) m.takerOrder = tk at htk htkt
  -- everything a trade is made of is among the terms of the two orders
  have ht := Order.sameTerms htkt
  have hk := Order.sameTerms hmkt
  have hq := Order.sameTerms (hm.takers p hp)
  rcases hopp with ⟨ho, hd⟩ | ⟨ho, hd⟩
  · refine ⟨tk, htk, mk, hmk, ht.side.trans ho, hk.side.trans hd, ⟨?_, ?_⟩,
      hq.baseToken.trans ht.baseToken.symm, hq.quoteToken.trans ht.quoteToken.symm,
      .inr ⟨hk.hash.symm, hq.hash.trans ht.hash.symm⟩⟩
    · rw [hk.baseToken, ht.baseToken, hbase]
    · rw [hk.quoteToken, ht.quoteToken, hquote]
  · refine ⟨mk, hmk, tk, htk, hk.side.trans hd, ht.side.trans ho, ⟨?_, ?_⟩,
      hq.baseToken.trans (hbase.symm.trans hk.baseToken.symm),
      hq.quoteToken.trans (hquote.symm.trans hk.quoteToken.symm),
      .inl ⟨hk.hash.symm, hq.hash.trans ht.hash.symm⟩⟩
    · rw [hk.baseToken, ht.baseToken, hbase]
    · rw [hk.quoteToken, ht.quoteToken, hquote]

theorem Trade.Joins.mono {t : Trade} {c c' : Coll Order.hash} (h : t.Joins c)
    (hc : ∀ d ∈ c, ∃ d' ∈ c', d'.terms = d.terms) : t.Joins c' := by
  obtain ⟨b, hb, s, hs, h1, h2, ⟨h3, h4⟩, h5, h6, h7⟩ := h
  obtain ⟨b', hb', eb⟩ := hc b hb
  obtain ⟨s', hs', es⟩ := hc s hs
  have hbt := Order.sameTerms eb
  have hst := Order.sameTerms es
  refine ⟨b', hb', s', hs', hbt.side.trans h1, hst.side.trans h2, ⟨?_, ?_⟩,
    h5.trans hbt.baseToken.symm, h6.trans hbt.quoteToken.symm, ?_⟩
  · rw [hst.baseToken, hbt.baseToken, h3]
  · rw [hst.quoteToken, hbt.quoteToken, h4]
  · rw [hbt.hash, hst.hash]; exact h7

theorem Trade.Joins.stored {t : Trade} {c : Coll Order.hash} (h : t.Joins c) {x : Hash}
    (hx : t.Names x) : ∃ d ∈ c, d.hash = x := by
  obtain ⟨b, hb, s, hs, -, -, -, -, -, ⟨h1, h2⟩ | ⟨h1, h2⟩⟩ := h
  · rcases hx with hx | hx
    · exact ⟨b, hb, h1.symm.trans hx⟩
    · exact ⟨s, hs, h2.symm.trans hx⟩
  · rcases hx with hx | hx
    · exact ⟨s, hs, h1.symm.trans hx⟩
    · exact ⟨b, hb, h2.symm.trans hx⟩

/-! ## The steps -/

theorem Order.StatusFits.remaining_pos {d : Order} (hs : d.StatusFits) (hb : d.Bounded)
    (ho : d.isOpen) : 0 < d.remainingAmount := by
  have hne : d.filledAmount ≠ d.amount := fun e => by
    have hf := hs.FILLED.2 e
    rcases ho with h | h <;> rw [hf] at h <;> cases h
  have := hb.le
  simp only [Order.remainingAmount]
  omega

theorem Cancelled_newOrder {ops : List BookOp} {o : Order} {h : Hash} :
    BookOp.Cancelled (ops ++ [.newOrder o]) h ↔ BookOp.Cancelled ops h := by
  simp [BookOp.Cancelled]

theorem Cancelled_cancelOrder {ops : List BookOp} {o : Order} {h : Hash} :
    BookOp.Cancelled (ops ++ [.cancelOrder o]) h ↔ BookOp.Cancelled ops h ∨ o.hash = h := by
  simp only [BookOp.Cancelled, List.mem_append, List.mem_singleton, BookOp.cancelOrder.injEq]
  constructor
  · rintro ⟨o', h1 | rfl, h2⟩
    · exact .inl ⟨o', h1, h2⟩
    · exact .inr h2
  · rintro (⟨o', h1, h2⟩ | h2)
    · exact ⟨o', .inl h1, h2⟩
    · exact ⟨o, .inr rfl, h2⟩

theorem BookOp.Cancelled.known {ops : List BookOp} {h : Hash} (hc : BookOp.Cancelled ops h) :
    h ∈ ops.map BookOp.hash := by
  obtain ⟨o, ho, rfl⟩ := hc
  exact List.mem_map.2 ⟨_, ho, rfl⟩

section
variable {env : Env} {ops : List BookOp} {w : World} {o : Order}

theorem Accounting.open_remaining (hi : Accounting ops w) {d : Order} (hd : d ∈ w.orders)
    (ho : d.isOpen) : 0 < d.remainingAmount := by
  have hnc : ¬BookOp.Cancelled ops d.hash := fun hc => by
    have := hi.cancelled d hd hc
    rcases ho with h | h <;> rw [this] at h <;> cases h
  exact (hi.status d hd hnc).remaining_pos (hi.bounded d hd) ho

/-- What is known of the step that processes the fresh order `o`: the matching orders `l`, the
outcome `m`, the state `w'` after it. -/
structure FreshStep (env : Env) (w : World) (o : Order) (l : List Order) (now : Time) (m : Outcome)
    (w' : World) : Prop where
  new : ∀ d ∈ w.orders, d.hash ≠ o.hash
  zero : o.filledAmount = 0
  matching : l = env.orderDao.matching w.calls w.orders.docs o
  sub : l.Subperm w.orders.docs
  resting : ∀ mo ∈ l, mo.isOpen ∧ o.SamePair mo ∧ o.Opposes mo
  left : ∀ mo ∈ l, 0 < mo.remainingAmount
  outcome : m = processOrder o l
  of : m.Of o l
  counts : m.Counts o
  fits : m.takerOrder.StatusFits
  takers : ∀ p ∈ m.fills, 0 < p.1.remainingAmount
  orders : w'.orders = m.store now w.orders
  emitted : w'.emitted = w.emitted ++ m.trades env.eth

theorem freshStep (hf : env.Faultless) (hi : Accounting ops w)
    (hside : o.side = .BUY ∨ o.side = .SELL) (hok : BookOp.Fresh ops (.newOrder o)) :
    ∃ l now m, FreshStep env w o l now m (BookOp.step env w (.newOrder o)) := by
  obtain ⟨hpos, h0, hfresh⟩ := hok
  have hnew : ∀ d ∈ w.orders, d.hash ≠ o.hash := fun d hdw e => hfresh (e ▸ hi.known d hdw)
  obtain ⟨l, now, hl, hsub, hres, horders, hemit⟩ := newOrder_step hf hside
    fun d hdw e => absurd e (hnew d hdw)
  have hleft : ∀ mo ∈ l, 0 < mo.remainingAmount := fun mo hm =>
    hi.open_remaining (hsub.subset hm) (hres mo hm).1
  have hcnt := processOrder_counts (o := o) (l := l) ⟨hpos, by omega, by omega⟩
    fun mo hm => hi.bounded mo (hsub.subset hm)
  exact ⟨l, now, processOrder o l, hnew, h0, hl, hsub, hres, hleft, rfl, processOrder_of o l, hcnt,
    processOrder_statusFits hpos h0 hleft, processOrder_takers_pos hpos h0 hleft, horders, hemit⟩

namespace FreshStep

variable {l : List Order} {now : Time} {m : Outcome} {w' : World} (h : FreshStep env w o l now m w')
include h

theorem mem {d : Order} (hd : d ∈ w'.orders) :
    (d = updatedDoc now (w.orders.get o.hash) m.takerOrder ∧ d.hash = o.hash ∧
      Trade.total (m.trades env.eth) d.hash = m.filled) ∨
    (∃ p ∈ m.fills, p.2 ∈ w.orders ∧ d = filledMaker p.1 p.2 ∧
      Trade.total (m.trades env.eth) d.hash = tradeAmount p.1 p.2) ∨
    (d ∈ w.orders ∧ d.hash ≠ o.hash ∧ Trade.total (m.trades env.eth) d.hash = 0) := by
  rw [h.orders] at hd
  exact mem_store h.of h.sub now env.eth hd

theorem keeps {d : Order} (hd : d ∈ w.orders) : ∃ d' ∈ w'.orders, d'.terms = d.terms := by
  rw [h.orders]
  exact store_keeps h.of h.sub now env.eth hd (h.new d hd)

theorem not_named (hj : ∀ t ∈ w.emitted, t.Joins w.orders) : ∀ t ∈ w.emitted, ¬t.Names o.hash :=
  fun t ht hn => by
    obtain ⟨d, hdw, e⟩ := (hj t ht).stored hn
    exact h.new d hdw e

theorem trade_pos {p : Order × Order} (hp : p ∈ m.fills) : 0 < tradeAmount p.1 p.2 := by
  have h1 := h.takers p hp
  have h2 := h.left p.2 (h.of.maker_mem hp)
  have := tradeAmount_eq_min p.1 p.2
  omega

theorem bounded (hb : ∀ d ∈ w.orders, d.Bounded) : ∀ d ∈ w'.orders, d.Bounded := by
  intro d hd
  rcases h.mem hd with ⟨rfl, -, -⟩ | ⟨p, hp, hpc, rfl, -⟩ | ⟨hdc, -, -⟩
  · exact updatedDoc_bounded h.counts.bounded
  · exact filledMaker_bounded (h.counts.takers p hp) (hb _ hpc)
  · exact hb d hdc

theorem filled (hj : ∀ t ∈ w.emitted, t.Joins w.orders)
    (hfl : ∀ d ∈ w.orders, d.filledAmount = Trade.total w.emitted d.hash) :
    ∀ d ∈ w'.orders, d.filledAmount = Trade.total w'.emitted d.hash := by
  intro d hd
  rw [h.emitted, Trade.total_append]
  rcases h.mem hd with ⟨rfl, hh, ht⟩ | ⟨p, hp, hpc, rfl, ht⟩ | ⟨hdc, -, ht⟩
  · rw [ht, hh, Trade.total_eq_zero (h.not_named hj), updatedDoc_filledAmount,
      h.counts.filledAmount, h.zero]
  · rw [ht, filledMaker_hash, filledMaker_filledAmount, hfl p.2 hpc]
  · rw [ht, hfl d hdc, Int.add_zero]

theorem joins (hj : ∀ t ∈ w.emitted, 0 < t.amount ∧ t.Joins w.orders) :
    ∀ t ∈ w'.emitted, 0 < t.amount ∧ t.Joins w'.orders := by
  intro t ht
  rw [h.emitted] at ht
  rcases List.mem_append.1 ht with ht | ht
  · exact ⟨(hj t ht).1, (hj t ht).2.mono fun d hd => h.keeps hd⟩
  · obtain ⟨p, hp, rfl⟩ := List.mem_map.1 ht
    rw [h.orders]
    exact ⟨h.trade_pos hp, newTrade_joins h.of h.sub now env.eth (fun mo hm => (h.resting mo hm).2)
      (fun mo hm => h.new mo (h.sub.subset hm)) hp⟩

theorem once (hj : ∀ t ∈ w.emitted, t.Joins w.orders)
    (hn : (w.emitted.map fun t => (t.makerOrderHash, t.takerOrderHash)).Nodup) :
    (w'.emitted.map fun t => (t.makerOrderHash, t.takerOrderHash)).Nodup := by
  rw [h.emitted, List.map_append, List.nodup_append]
  refine ⟨hn, ?_, fun x hx y hy hxy => ?_⟩
  · exact trades_nodup h.of h.sub env.eth
  · obtain ⟨t, ht, rfl⟩ := List.mem_map.1 hx
    obtain ⟨t', ht', rfl⟩ := List.mem_map.1 hy
    obtain ⟨p, hp, rfl⟩ := List.mem_map.1 ht'
    simp only [Prod.mk.injEq] at hxy
    refine h.not_named hj t ht (.inr ?_)
    rw [hxy.2]
    exact h.of.taker_hash hp

end FreshStep

/-- **A fresh order keeps the accounts.** -/
theorem accounting_newOrder (hf : env.Faultless) (hi : Accounting ops w)
    (hside : o.side = .BUY ∨ o.side = .SELL) (hok : BookOp.Fresh ops (.newOrder o)) :
    Accounting (ops ++ [.newOrder o]) (BookOp.step env w (.newOrder o)) := by
  obtain ⟨l, now, m, h⟩ := freshStep hf hi hside hok
  obtain ⟨-, -, hfresh⟩ := hok
  have hj : ∀ t ∈ w.emitted, t.Joins w.orders := fun t ht => (hi.joins t ht).2
  have hknown : ∀ d ∈ w.orders, d.hash ∈ (ops ++ [BookOp.newOrder o]).map BookOp.hash :=
    fun d hd => by
    rw [List.map_append]
    exact List.mem_append_left _ (hi.known d hd)
  refine { filled := h.filled hj hi.filled, joins := h.joins hi.joins, once := h.once hj hi.once,
           status := fun d hd hnc => ?_, known := fun d hd => ?_,
           bounded := h.bounded hi.bounded, cancelled := fun d hd hc => ?_ }
  · rw [Cancelled_newOrder] at hnc
    rcases h.mem hd with ⟨rfl, -, -⟩ | ⟨p, hp, hpc, rfl, -⟩ | ⟨hdc, -, -⟩
    · have hfit := h.fits
      exact ⟨by simpa using hfit.OPEN, by simpa using hfit.FILLED,
        by simpa using hfit.PARTIAL_FILLED⟩
    · exact filledMaker_statusFits (hi.bounded _ hpc) (h.takers p hp)
    · exact hi.status d hdc hnc
  · rcases h.mem hd with ⟨-, hh, -⟩ | ⟨p, hp, hpc, rfl, -⟩ | ⟨hdc, -, -⟩
    · rw [hh, List.map_append]
      exact List.mem_append_right _ (.head _)
    · rw [filledMaker_hash]
      exact hknown _ hpc
    · exact hknown d hdc
  · rw [Cancelled_newOrder] at hc
    rcases h.mem hd with ⟨-, hh, -⟩ | ⟨p, hp, hpc, rfl, -⟩ | ⟨hdc, -, -⟩
    · exact absurd (hh ▸ hc.known) hfresh
    · -- a maker was open, a cancelled order is not
      rw [filledMaker_hash] at hc
      have hs := hi.cancelled _ hpc hc
      rcases (h.resting _ (h.of.maker_mem hp)).1 with ho | ho <;> rw [hs] at ho <;> cases ho
    · exact hi.cancelled d hdc hc

/-- **A cancellation keeps the accounts.** -/
theorem accounting_cancelOrder (hf : env.Faultless) (hi : Accounting ops w)
    (hok : (w.orders.get o.hash).isSome) :
    Accounting (ops ++ [.cancelOrder o]) (BookOp.step env w (.cancelOrder o)) := by
  obtain ⟨d₀, hg⟩ := Option.isSome_iff_exists.1 hok
  have hd₀ := Coll.mem_of_get hg
  have hh₀ := Coll.get_key hg
  obtain ⟨horders, hemit⟩ := cancelOrder_step hf hd₀ hh₀
  change (BookOp.step env w (.cancelOrder o)).orders = _ at horders
  change (BookOp.step env w (.cancelOrder o)).emitted = _ at hemit
  have hmem : ∀ {d}, d ∈ (BookOp.step env w (.cancelOrder o)).orders →
      ∃ d₁ ∈ w.orders, (if d₁.hash = o.hash then d₁.withStatus .CANCELLED else d₁) = d := by
    intro d hd
    rw [horders] at hd
    simpa [mem_setStatuses] using hd
  refine { filled := fun d hd => ?_, joins := fun t ht => ?_, once := by rw [hemit]; exact hi.once,
           status := fun d hd hnc => ?_, known := fun d hd => ?_,
           bounded := fun d hd => ?_, cancelled := fun d hd hc => ?_ }
  · obtain ⟨d₁, hd₁, rfl⟩ := hmem hd
    rw [hemit]
    split <;> exact hi.filled d₁ hd₁
  · rw [hemit] at ht
    refine ⟨(hi.joins t ht).1, (hi.joins t ht).2.mono fun d hd => ?_⟩
    rw [horders]
    refine ⟨_, mem_setStatuses.2 ⟨d, hd, rfl⟩, ?_⟩
    split <;> rfl
  · obtain ⟨d₁, hd₁, rfl⟩ := hmem hd
    rw [Cancelled_cancelOrder, not_or] at hnc
    split at hnc
    · exact absurd (Eq.symm ‹_›) hnc.2
    · rename_i hne
      rw [if_neg hne]
      exact hi.status d₁ hd₁ hnc.1
  · obtain ⟨d₁, hd₁, rfl⟩ := hmem hd
    rw [List.map_append]
    split <;> exact List.mem_append_left _ (hi.known d₁ hd₁)
  · obtain ⟨d₁, hd₁, rfl⟩ := hmem hd
    have hb := hi.bounded d₁ hd₁
    split <;> exact ⟨hb.pos, hb.nonneg, hb.le⟩
  · obtain ⟨d₁, hd₁, rfl⟩ := hmem hd
    split
    · rfl
    · rename_i hne
      rw [if_neg hne, Cancelled_cancelOrder] at hc
      exact hi.cancelled d₁ hd₁ (hc.resolve_right (Ne.symm hne))

theorem accounting_idle {op : BookOp} {w' : World} (hi : Accounting ops w)
    (hnew : ∀ d ∈ w.orders, d.hash ≠ op.hash) (ho : w'.orders = w.orders)
    (he : w'.emitted = w.emitted) : Accounting (ops ++ [op]) w' := by
  have hcan : ∀ d ∈ w.orders, BookOp.Cancelled (ops ++ [op]) d.hash ↔
      BookOp.Cancelled ops d.hash := by
    intro d hd
    cases op with
    | newOrder o => exact Cancelled_newOrder
    | cancelOrder o =>
      rw [Cancelled_cancelOrder]
      exact or_iff_left (Ne.symm (hnew d hd))
  refine { filled := ?_, joins := ?_, once := he ▸ hi.once, status := fun d hd hnc => ?_,
           known := fun d hd => ?_, bounded := ho ▸ hi.bounded, cancelled := fun d hd hc => ?_ }
  · rw [ho, he]
    exact hi.filled
  · rw [ho, he]
    exact hi.joins
  · rw [ho] at hd
    exact hi.status d hd (mt (hcan d hd).2 hnc)
  · rw [ho] at hd
    rw [List.map_append]
    exact List.mem_append_left _ (hi.known d hd)
  · rw [ho] at hd
    exact hi.cancelled d hd ((hcan d hd).1 hc)

theorem newOrder_other (hs : ¬(o.side = .BUY ∨ o.side = .SELL)) :
    (newOrder o env w).2.orders = w.orders ∧ (newOrder o env w).2.emitted = w.emitted := by
  refine Prog.wp_state (P := fun w' : World => w'.orders = w.orders ∧ w'.emitted = w.emitted) ?_
  unfold newOrder
  cases hside : o.side with
  | BUY => exact absurd (.inl hside) hs
  | SELL => exact absurd (.inr hside) hs
  | other s h =>
    simp only [Prog.wp_bind, Prog.wp_pure]
    refine wp_call (fun _ => ⟨rfl, rfl⟩) fun _ => ⟨rfl, ?_⟩
    simp [World.emitted, EngineResponse.trades]

theorem cancelOrder_unstored (hf : env.Faultless) (hg : w.orders.get o.hash = none) :
    cancelOrder o env w = (.error .notFound, w.tick) := by
  have h : updateOrderStatus o.hash .CANCELLED env w = (.error .notFound, w.tick) := by
    rw [updateOrderStatus, call_eq hf]
    simp only [World.tick_orders, hg]
  simp only [cancelOrder, Bind.bind, h]

theorem accounting_step (hf : env.Faultless) {op : BookOp}
    (hi : Accounting ops w) (hok : BookOp.Fresh ops op) :
    Accounting (ops ++ [op]) (BookOp.step env w op) := by
  cases op with
  | newOrder o =>
    by_cases hside : o.side = .BUY ∨ o.side = .SELL
    · exact accounting_newOrder hf hi hside hok
    · have hnew : ∀ d ∈ w.orders, d.hash ≠ o.hash := fun d hd e => hok.2.2 (e ▸ hi.known d hd)
      exact accounting_idle hi hnew (newOrder_other hside).1 (newOrder_other hside).2
  | cancelOrder o =>
    cases hg : w.orders.get o.hash with
    | some d => exact accounting_cancelOrder hf hi (by rw [hg]; rfl)
    | none =>
      have hw : BookOp.step env w (.cancelOrder o) = w.tick :=
        congrArg Prod.snd (cancelOrder_unstored hf hg)
      rw [hw]
      exact accounting_idle hi (Coll.get_eq_none.1 hg) rfl rfl

/-- The invariant along a run. -/
theorem accounting_run (hf : env.Faultless)
    (h : Run (fun ops _ op => BookOp.Fresh ops op) (BookOp.step env) World.empty ops w) :
    Accounting ops w := by
  refine h.invariant ⟨⟨?_, ?_, ?_, ?_⟩, ?_, ?_, ?_⟩ fun _ _ _ _ hi hok =>
    accounting_step hf hi hok
  all_goals simp [BookOp.Cancelled]

/-! ## Other pairs -/

/-- The same orders of other pairs than `o`'s are stored before and after. -/
def OtherPairsUntouched (o : Order) (w w' : World) : Prop :=
  ∀ d, ¬o.SamePair d → (d ∈ w'.orders ↔ d ∈ w.orders)

theorem FreshStep.untouched {l : List Order} {now : Time} {m : Outcome} {w' : World}
    (h : FreshStep env w o l now m w') : OtherPairsUntouched o w w' := by
  intro d hd
  constructor
  · intro hw'
    rcases h.mem hw' with ⟨rfl, -, -⟩ | ⟨p, hp, hpc, rfl, -⟩ | ⟨hdc, -, -⟩
    · have ht :=
        Order.sameTerms ((updatedDoc_terms now (w.orders.get o.hash) m.takerOrder).trans h.of.terms)
      exact absurd ⟨ht.baseToken, ht.quoteToken⟩ hd
    · obtain ⟨-, ⟨hb, hq⟩, -⟩ := h.resting _ (h.of.maker_mem hp)
      have ht := Order.sameTerms (filledMaker_terms p.1 p.2)
      exact absurd ⟨ht.baseToken.trans hb, ht.quoteToken.trans hq⟩ hd
    · exact hdc
  · intro hw
    rcases store_get_other h.of h.sub now env.eth (h.new d hw) with ⟨p, hp, -, hc, -⟩ | ⟨-, hs, -⟩
    · rw [Coll.get_mem hw, Option.some.injEq] at hc
      exact absurd (hc ▸ (h.resting _ (h.of.maker_mem hp)).2.1) hd
    · rw [h.orders]
      exact Coll.mem_of_get (hs.trans (Coll.get_mem hw))

theorem cancelOrder_untouched (hf : env.Faultless) {d₀ : Order} (hd₀ : d₀ ∈ w.orders)
    (hh₀ : d₀.hash = o.hash) : OtherPairsUntouched d₀ w (BookOp.step env w (.cancelOrder o)) := by
  have horders := (cancelOrder_step hf hd₀ hh₀).1
  change (BookOp.step env w (.cancelOrder o)).orders = _ at horders
  -- the only order the update selects is the cancelled one
  have hsel : ∀ d ∈ w.orders, d.hash ∈ [o.hash] → d = d₀ := fun d hd hm =>
    Coll.key_inj hd hd₀ ((List.mem_singleton.1 hm).trans hh₀.symm)
  intro d hd
  rw [horders, mem_setStatuses]
  constructor
  · rintro ⟨d₁, hd₁, rfl⟩
    split at hd
    · rename_i hm
      rw [hsel d₁ hd₁ hm] at hd
      exact absurd ⟨rfl, rfl⟩ hd
    · rename_i hm
      rwa [if_neg hm]
  · intro hw
    refine ⟨d, hw, if_neg fun hm => hd ?_⟩
    rw [hsel d hw hm]
    exact ⟨rfl, rfl⟩

/-- **Exact fill accounting**: after every run the accounts agree, and no next step touches the
orders of another pair. -/
theorem exact_fill_accounting (hf : env.Faultless)
    (h : Run BookOp.Allowed (BookOp.step env) World.empty ops w) :
    FillAccounting ops w ∧ ∀ op, BookOp.Allowed ops w op →
      OtherPairsUntouched (op.target w) w (BookOp.step env w op) := by
  have hi := accounting_run hf (h.mono fun _ _ _ hok => hok.fresh)
  refine ⟨hi.toFillAccounting, fun op hok => ?_⟩
  cases op with
  | newOrder o =>
    obtain ⟨l, now, m, hs⟩ := freshStep hf hi hok.1 hok.2
    exact hs.untouched
  | cancelOrder o =>
    obtain ⟨d₀, hg⟩ := Option.isSome_iff_exists.1 hok
    rw [BookOp.target, hg]
    exact cancelOrder_untouched hf (Coll.mem_of_get hg) (Coll.get_key hg)

end

/-- An ask of 10, a bid that takes 4 of it, the ask cancelled. -/
def sampleOps : List BookOp :=
  [.newOrder (.sample 1 .SELL 5 10), .newOrder (.sample 2 .BUY 6 4),
    .cancelOrder (.sample 1 .SELL 5 10)]

theorem exact_fill_accounting_sample :
    ∃ w, w.emitted.map (·.amount) = [4] ∧ FillAccounting sampleOps w ∧
      ∀ op, BookOp.Allowed sampleOps w op →
        OtherPairsUntouched (op.target w) w (BookOp.step (.sample .stored) w op) :=
  ⟨_, by decide, exact_fill_accounting (Env.sample_faultless _)
    (Run.of_check _ (by decide))⟩

end Dex
