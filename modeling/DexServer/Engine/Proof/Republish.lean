import DexServer.Engine.Proof.Handle
import DexServer.Lib.Run
import DexServer.Sample

/-!
# Republished orders

An invalidation gives an order its amount back and publishes it again as NEW_ORDER. The order is
matchable from then on, so the message is a snapshot of an order that may be filled before the
message is handled; handling it writes the snapshot back whole (`republished_order_loses_fill`).

* `Republishing`: the orders stored and queued are copies of the published ones.
* `republished_order_counts_fills`: handling a copy keeps every fill of its order if the fill of
  the copy is not below the stored one, and, when no call fails, only then.
-/

namespace Dex

open Lib

/-- New orders are published once, invalidations and cancellations at any time. -/
def QueueOp.Fresh (ops : List QueueOp) : QueueOp → Prop
  | publish (.NEW_ORDER o) => (o.side = .BUY ∨ o.side = .SELL) ∧ 0 < o.amount ∧ o.filledAmount = 0 ∧
      ∀ o' ∈ published ops, o'.hash ≠ o.hash
  | publish (.ADD_ORDER _) => False
  | _ => True

instance (ops : List QueueOp) : (op : QueueOp) → Decidable (QueueOp.Fresh ops op)
  | .publish (.NEW_ORDER _) => inferInstanceAs (Decidable (_ ∧ _ ∧ _ ∧ _))
  | .publish (.ADD_ORDER _) => inferInstanceAs (Decidable False)
  | .publish (.CANCEL_ORDER _) | .publish (.INVALIDATE_MAKER_ORDERS _)
  | .publish (.INVALIDATE_TAKER_ORDERS _) | .publish (.unknown _)
  | .deliver _ => inferInstanceAs (Decidable True)

/-- Every order stored or queued is a copy of a published one. -/
structure Republishing (ops : List QueueOp) (w : World) : Prop where
  held : ∀ d, w.Holds d → d.Bounded ∧ ∃ o ∈ QueueOp.published ops, d.terms = o.terms
  distinct : ∀ o ∈ QueueOp.published ops, ∀ o' ∈ QueueOp.published ops, o.hash = o'.hash → o = o'
  sides : ∀ o ∈ QueueOp.published ops, o.side = .BUY ∨ o.side = .SELL
  adds : ∀ o, .ADD_ORDER o ∉ w.orderQueue

namespace Republishing

variable {e : Engine} {env : Env} {ops : List QueueOp} {w : World}

theorem same_terms (hi : Republishing ops w) {d d' : Order} (hd : w.Holds d) (hd' : w.Holds d')
    (hh : d.hash = d'.hash) : d.terms = d'.terms := by
  obtain ⟨-, o, ho, ht⟩ := hi.held d hd
  obtain ⟨-, o', ho', ht'⟩ := hi.held d' hd'
  have h1 := (Order.sameTerms ht).hash
  have h2 := (Order.sameTerms ht').hash
  rw [ht, ht', hi.distinct o ho o' ho' (h1.symm.trans (hh.trans h2))]

theorem publish (hi : Republishing ops w) {m : Message} (hm : QueueOp.Fresh ops (.publish m)) :
    Republishing (ops ++ [.publish m]) (QueueOp.step e env w (.publish m)) := by
  have hst : (QueueOp.step e env w (.publish m)).orders = w.orders ∧
      ∀ x ∈ (QueueOp.step e env w (.publish m)).orderQueue, x ∈ w.orderQueue ∨ x = m := by
    rcases publishOrder_cases m env w with h | h
    · exact ⟨h.orders, fun x hx => .inl (by simpa [QueueOp.step, h.orderQueue] using hx)⟩
    · exact ⟨h.orders, fun x hx => by simpa [QueueOp.step, h.orderQueue] using hx⟩
  refine ⟨fun d hd => ?_, fun o ho o' ho' hh => ?_, fun o ho => ?_, fun o ho => ?_⟩
  · have hd : w.Holds d ∨ m = .NEW_ORDER d := by
      rcases hd with hd | hd
      · exact .inl (.inl (hst.1 ▸ hd))
      · rcases hst.2 _ hd with hd | rfl
        · exact .inl (.inr hd)
        · exact .inr rfl
    rcases hd with hd | rfl
    · obtain ⟨hb, o, ho, ht⟩ := hi.held d hd
      exact ⟨hb, o, QueueOp.mem_published_snoc.2 (.inl ho), ht⟩
    · obtain ⟨-, hpos, h0, -⟩ := hm
      exact ⟨⟨hpos, by omega, by omega⟩, d, QueueOp.mem_published_snoc.2 (.inr rfl), rfl⟩
  · rcases QueueOp.mem_published_snoc.1 ho with h1 | h1 <;>
      rcases QueueOp.mem_published_snoc.1 ho' with h2 | h2
    · exact hi.distinct o h1 o' h2 hh
    · cases h2
      exact absurd hh (hm.2.2.2 o h1)
    · cases h1
      exact absurd hh.symm (hm.2.2.2 o' h2)
    · cases h1
      cases h2
      rfl
  · rcases QueueOp.mem_published_snoc.1 ho with ho | ho
    · exact hi.sides o ho
    · cases ho
      exact hm.1
  · rcases hst.2 _ ho with ho | rfl
    · exact hi.adds o ho
    · exact hm

theorem deliver (hi : Republishing ops w) (i : Nat) :
    Republishing (ops ++ [.deliver i]) (QueueOp.step e env w (.deliver i)) := by
  have hops : QueueOp.published (ops ++ [.deliver i]) = QueueOp.published ops := by
    simp [QueueOp.published]
  rw [QueueOp.step]
  rcases e.deliver_handled env w i with ⟨-, hw⟩ | ⟨m, hm, h⟩
  · rw [hw]
    exact ⟨hops ▸ hi.held, hops ▸ hi.distinct, hops ▸ hi.sides, hi.adds⟩
  · have hmq := List.mem_of_getElem? hm
    have hback : ∀ y ∈ w.orders, ∀ a, (restored y a).Bounded ∧
        ∃ o ∈ QueueOp.published ops, (restored y a).terms = o.terms := by
      intro y hy a
      obtain ⟨hb, o, ho, ht⟩ := hi.held y (.inl hy)
      exact ⟨restored_bounded a hb.pos, o, ho, (restored_terms y a).trans ht⟩
    refine ⟨fun d hdw => ?_, hops ▸ hi.distinct, hops ▸ hi.sides, fun o ho => ?_⟩
    · rw [hops]
      rcases hdw with hdw | hdw
      · have hadd : ∀ o, m ≠ .ADD_ORDER o := fun o hmo => hi.adds o (hmo ▸ hmq)
        obtain ⟨hb, x, hx, ht⟩ := h.stored hadd (fun d hd => (hi.held d (.inl hd)).1)
          (fun o ho => (hi.held o (.inr (ho ▸ hmq))).1) hdw
        have hx : w.Holds x := by
          rcases hx with hx | rfl
          · exact .inl hx
          · exact .inr hmq
        obtain ⟨-, o, ho, hxt⟩ := hi.held x hx
        exact ⟨hb, o, ho, ht.trans hxt⟩
      · rcases h.queued hdw with hq | ⟨y, hy, a, hya⟩
        · exact hi.held d (.inr (List.mem_of_mem_eraseIdx hq))
        · cases hya
          exact hback y hy a
    · rcases h.queued ho with hq | ⟨y, hy, a, hya⟩
      · exact hi.adds o (List.mem_of_mem_eraseIdx hq)
      · cases hya

theorem of_run
    (h : Run (fun ops _ op => QueueOp.Fresh ops op) (QueueOp.step e env) World.empty ops w) :
    Republishing ops w := by
  refine h.invariant ⟨?_, ?_, ?_, ?_⟩ fun ops w op _ hi hok => ?_
  · rintro d (hd | hd) <;> cases hd
  · simp [QueueOp.published]
  · simp [QueueOp.published]
  · intro o ho
    cases ho
  · cases op with
    | publish m => exact hi.publish hok
    | deliver i => exact hi.deliver i

end Republishing

/-! ## Handling a republished order -/

section
variable {e : Engine} {env : Env} {ops : List QueueOp} {w w' : World} {o d : Order}

/-- Going from `w` to `w'` keeps the fill `d` has, and counts what is traded on it on top. -/
def CountsFills (d : Order) (w w' : World) : Prop :=
  ∃ d' ∈ w'.orders, d'.hash = d.hash ∧ d.filledAmount ≤ d'.filledAmount ∧
    d.filledAmount + (Trade.total w'.emitted d.hash - Trade.total w.emitted d.hash) ≤
      d'.filledAmount

section
variable {l : List Order} {ds : List (Time × Order)} {rs : List EngineResponse}
  (hl : l.Subperm w.orders.docs) (hself : ∀ mo ∈ l, mo.hash ≠ o.hash) (ho : o.Bounded)
  (hb : ∀ d ∈ w.orders, d.Bounded) (hd : d ∈ w.orders) (hh : d.hash = o.hash)
include hl hself ho hb hd hh

theorem NewOrderEffect.countsFills (h : NewOrderEffect env o l w w' ds rs)
    (hle : d.filledAmount ≤ o.filledAmount) : CountsFills d w w' := by
  have hof := processOrder_of o l
  have hcnt := processOrder_counts ho fun mo hm => hb mo (hl.subset hm)
  have hnn := Outcome.filled_nonneg fun p hp =>
    tradeAmount_nonneg (hcnt.takers p hp) (hb _ (hl.subset (hof.maker_mem hp)))
  have hsome : (w'.orders.get d.hash).isSome := by
    rw [h.orders]
    exact get_upserts_isSome (.inr (by rw [Coll.get_mem hd]; rfl))
  obtain ⟨d', hd'⟩ := Option.isSome_iff_exists.1 hsome
  have hd'w := Coll.mem_of_get hd'
  have hd'h := Coll.get_key hd'
  refine ⟨d', hd'w, hd'h, ?_⟩
  rw [h.emitted, Trade.total_append, hh]
  rcases h.mem hd'w with ⟨now, old, rfl⟩ | ⟨p, hp, now, old, rfl⟩ | ⟨hdw, hne⟩
  · rw [updatedDoc_filledAmount, hcnt.filledAmount]
    rcases h.total_self with ht | ht <;> rw [ht] <;> constructor <;> omega
  · -- a maker has another hash
    rw [updatedDoc_hash, filledMaker_hash, hh] at hd'h
    exact absurd hd'h (hself _ (hof.maker_mem hp))
  · rw [hd'h, hh] at hne
    rw [h.total_unwritten hne, Coll.key_inj hdw hd hd'h]
    constructor <;> omega

end

/-- **A republished order counts its fills** if the message does not carry a fill below the stored
one; when no call fails, only then. -/
theorem republished_order_counts_fills
    (h : Run (fun ops _ op => QueueOp.Fresh ops op) (QueueOp.step e env) World.empty ops w)
    {i : Nat} (hm : w.orderQueue[i]? = some (.NEW_ORDER o)) (hg : w.orders.get o.hash = some d) :
    (d.filledAmount ≤ o.filledAmount → CountsFills d w (e.deliver env i w)) ∧
      (env.Faultless → e.HasBook env o → CountsFills d w (e.deliver env i w) →
        d.filledAmount ≤ o.filledAmount) := by
  have hi := Republishing.of_run h
  have hmq : w.Holds o := .inr (List.mem_of_getElem? hm)
  have hdw := Coll.mem_of_get hg
  have hdh := Coll.get_key hg
  have hb : ∀ d ∈ w.orders, d.Bounded := fun d hd => (hi.held d (.inl hd)).1
  have ho := (hi.held o hmq).1
  have hside : ∀ x ∈ w.orders, x.hash = o.hash → x.side = o.side := fun x hx hxh =>
    (Order.sameTerms (hi.same_terms (.inl hx) hmq hxh)).side
  have hl := env.orderDao.matching_subperm w.calls w.orders.docs o
  have hself : ∀ mo ∈ env.orderDao.matching w.calls w.orders.docs o, mo.hash ≠ o.hash :=
    fun mo hmo hmh => (env.orderDao.matching_resting _ _ _ mo hmo).2.2.ne
      (hside mo (hl.subset hmo) hmh)
  constructor
  · intro hle
    rcases e.deliver_newOrder env hm with hw | hw <;> rw [hw]
    · exact ⟨d, hdw, rfl, le_refl _, by simp⟩
    · obtain ⟨ds, rs, heff⟩ := newOrder_effect env o (w.take i)
      exact NewOrderEffect.countsFills (w := w.take i) hl hself ho hb hdw hdh heff hle
  · intro hf hbk hc
    have hs : o.side = .BUY ∨ o.side = .SELL := by
      obtain ⟨-, x, hx, ht⟩ := hi.held o hmq
      rw [(Order.sameTerms ht).side]
      exact hi.sides x hx
    obtain ⟨l, now, hl', -, -, hst, hem⟩ := newOrder_step hf (w := w.take i) hs hside
    have hof := processOrder_of o l
    have hcnt := processOrder_counts ho fun mo hm => hb mo (hl.subset (hl' ▸ hm))
    rw [Engine.deliver_newOrder_eq hm hbk] at hc
    obtain ⟨d', hd', hd'h, -, hc⟩ := hc
    have hget := Coll.get_mem hd'
    rw [hst, hd'h, hdh, store_get_self hof now] at hget
    cases hget
    rw [hem, Trade.total_append, hdh, total_trades_self hof, updatedDoc_filledAmount,
      hcnt.filledAmount, World.take_emitted] at hc
    omega

end

/-- A BUY of 10 takes a SELL of 10 whose maker turns out to have no balance: the BUY is given its
amount back and is queued again. -/
def invalidatingOps : List QueueOp :=
  let maker := Order.sample 1 .SELL 5 10
  let taker := Order.sample 2 .BUY 5 10
  [.publish (.NEW_ORDER maker), .deliver 0, .publish (.NEW_ORDER taker), .deliver 0,
    .publish (.INVALIDATE_MAKER_ORDERS ⟨[maker], taker, [newTrade .sample taker maker]⟩),
    .deliver 0]

theorem republished_order_counts_fills_unfilled : ∃ w d, ∃ o : Order,
    w.orderQueue[0]? = some (.NEW_ORDER o) ∧ w.orders.get o.hash = some d ∧
    (d.filledAmount ≤ o.filledAmount → CountsFills d w
      (Engine.sample.deliver (.sample .stored) 0 w)) ∧
      ((Env.sample .stored).Faultless → Engine.sample.HasBook (.sample .stored) o →
        CountsFills d w (Engine.sample.deliver (.sample .stored) 0 w) →
        d.filledAmount ≤ o.filledAmount) := by
  have hrun : Run (fun ops _ op => QueueOp.Fresh ops op) (QueueOp.step .sample (.sample .stored))
      World.empty invalidatingOps _ := Run.of_check _ (by decide +kernel)
  exact ⟨_, _, _, rfl, rfl, republished_order_counts_fills hrun rfl rfl⟩

/-- Before the message is handled the BUY rests in the book and a SELL of 4 fills it; handling the
message erases this fill. -/
theorem republished_order_loses_fill : ∃ ops w d, ∃ o : Order,
    Run (fun ops _ op => QueueOp.Fresh ops op) (QueueOp.step .sample (.sample .stored)) World.empty
      ops w ∧
    w.orderQueue[0]? = some (.NEW_ORDER o) ∧ w.orders.get o.hash = some d ∧ d.filledAmount = 4 ∧
    ((Engine.sample.deliver (.sample .stored) 0 w).orders.get o.hash).map (·.filledAmount) =
      some 0 :=
  ⟨invalidatingOps ++ [.publish (.NEW_ORDER (.sample 3 .SELL 5 4)), .deliver 1], _, _, _,
    Run.of_check _ (by decide +kernel), rfl, rfl, by decide +kernel, by decide +kernel⟩

end Dex
