import DexServer.Lib.Run
import DexServer.Sample
import DexServer.Engine.Engine
import DexServer.Engine.Proof.Effect
import DexServer.Services.Proof.Request

/-!
# Orders submitted more than once

Users submit signed orders through `NewOrder`; the engine handles the published messages in any
order, whichever calls fail. Neither looks at what is stored under the hash, and `newOrder` writes
the fill of the message over the stored one, so a second copy of an order can be filled again
(`resubmitted_order_overfills`).

`Resubmission` is the invariant of the runs in which no message erases a fill: what the trades moved
on an order is at most its stored fill. `no_overfill_across_resubmission`: in these runs no order
is filled beyond its signed amount.
-/

namespace Dex

open Lib

/-- A step of users and engine. -/
inductive SubmitOp
  | submit (r : RawOrder)
  /-- the engine handles the `i`-th message of the queue -/
  | deliver (i : Nat)

namespace SubmitOp

section
variable (s : Services) (e : Engine) (env : Env)

def step (w : World) : SubmitOp → World
  | submit r => (s.newOrder r env w).2
  | deliver i => e.deliver env i w

/-- The order of a submission, as validated. -/
def signed? : SubmitOp → Option Order
  | submit r =>
    match r.validate s.exchangeAddress env.eth with
    | .ok (o, _) => some o
    | .error _ => none
  | deliver _ => none

/-- The orders that users signed and submitted. -/
def signed (ops : List SubmitOp) : List Order := ops.filterMap (signed? s env)

/-- The condition on a step. A submission agrees with the earlier ones of its hash on amount and
side. A handled message has a fill within its amount and not below the stored one. -/
def KeepsFills (ops : List SubmitOp) (w : World) : SubmitOp → Prop
  | submit r => ∀ o ∈ signed? s env (submit r), ∀ o' ∈ signed s env ops, o'.hash = o.hash →
      o'.amount = o.amount ∧ o'.side = o.side
  | deliver i =>
    match w.orderQueue[i]? with
    | some (.NEW_ORDER o) => 0 ≤ o.filledAmount ∧ o.filledAmount ≤ o.amount ∧
        ∀ d ∈ w.orders.get o.hash, d.filledAmount ≤ o.filledAmount
    | _ => True

instance (ops : List SubmitOp) (w : World) : (op : SubmitOp) → Decidable (KeepsFills s env ops w op)
  | submit r => inferInstanceAs (Decidable (∀ o ∈ signed? s env (submit r), _))
  | deliver i => by
    unfold KeepsFills
    dsimp only
    exact match w.orderQueue[i]? with
      | none => inferInstanceAs (Decidable True)
      | some (.NEW_ORDER o) => inferInstanceAs (Decidable (_ ∧ _))
      | some (.CANCEL_ORDER _) | some (.ADD_ORDER _) | some (.INVALIDATE_MAKER_ORDERS _)
      | some (.INVALIDATE_TAKER_ORDERS _) | some (.unknown _) => inferInstanceAs (Decidable True)

end

end SubmitOp

/-! ## One processed order -/

section
variable {env : Env} {o : Order} {l : List Order} {w w' : World} {ds : List (Time × Order)}
  {rs : List EngineResponse} (h : NewOrderEffect env o l w w' ds rs) (hl : l.Subperm w.orders.docs)
  (hself : ∀ mo ∈ l, mo.hash ≠ o.hash) (ho : o.Bounded) (hb : ∀ d ∈ w.orders, d.Bounded)
include h hl hself ho hb

/-- What the trades moved stays within the stored fills, if the message does not lower the fill
stored under its hash. -/
theorem NewOrderEffect.filled (hT : ∀ d ∈ w.orders, Trade.total w.emitted d.hash ≤ d.filledAmount)
    (hold : Trade.total w.emitted o.hash ≤ o.filledAmount) :
    ∀ d ∈ w'.orders, Trade.total w'.emitted d.hash ≤ d.filledAmount := by
  intro d hd
  have hof := processOrder_of o l
  have hcnt := processOrder_counts ho fun mo hm => hb mo (hl.subset hm)
  have hmk : ∀ p ∈ (processOrder o l).fills, p.2 ∈ w.orders := fun p hp =>
    hl.subset (hof.maker_mem hp)
  have hnn : ∀ p ∈ (processOrder o l).fills, 0 ≤ tradeAmount p.1 p.2 := fun p hp =>
    tradeAmount_nonneg (hcnt.takers p hp) (hb _ (hmk p hp))
  rw [h.emitted, Trade.total_append]
  rcases h.mem hd with ⟨now, old, rfl⟩ | ⟨p, hp, now, old, rfl⟩ | ⟨hd, hne⟩
  · have hfill := Outcome.filled_nonneg hnn
    rw [updatedDoc_hash, updatedDoc_filledAmount, hof.hash, hcnt.filledAmount]
    rcases h.total_self with ht | ht <;> omega
  · have := hT _ (hmk p hp)
    have := hnn p hp
    rw [updatedDoc_hash, updatedDoc_filledAmount, filledMaker_hash, filledMaker_filledAmount]
    rcases h.total_maker hl hself hp with ht | ht <;> omega
  · rw [h.total_unwritten hne]
    have := hT d hd
    omega

end

/-! ## The invariant -/

section
variable (s : Services) (env : Env)

/-- `d` has the hash, amount and side of an order that a user signed. -/
def FromUser (ops : List SubmitOp) (d : Order) : Prop :=
  ∃ o ∈ SubmitOp.signed s env ops, o.hash = d.hash ∧ o.amount = d.amount ∧ o.side = d.side

structure Resubmission (ops : List SubmitOp) (w : World) : Prop where
  queued : ∀ m ∈ w.orderQueue, ∃ o, m = .NEW_ORDER o ∧ FromUser s env ops o
  stored : ∀ d ∈ w.orders, FromUser s env ops d
  agree : ∀ o ∈ SubmitOp.signed s env ops, ∀ o' ∈ SubmitOp.signed s env ops, o.hash = o'.hash →
    o.amount = o'.amount ∧ o.side = o'.side
  bounded : ∀ d ∈ w.orders, d.Bounded
  filled : ∀ d ∈ w.orders, Trade.total w.emitted d.hash ≤ d.filledAmount
  named : ∀ t ∈ w.emitted, ∀ h, t.Names h → (w.orders.get h).isSome

end

section
variable {s : Services} {e : Engine} {env : Env} {ops : List SubmitOp} {w : World}

theorem FromUser.of_terms {d d' : Order} (h : FromUser s env ops d) (ht : d'.terms = d.terms) :
    FromUser s env ops d' := by
  obtain ⟨o, ho, h1, h2, h3⟩ := h
  have ht := Order.sameTerms ht
  exact ⟨o, ho, h1.trans ht.hash.symm, h2.trans ht.amount.symm, h3.trans ht.side.symm⟩

theorem signed_snoc (op : SubmitOp) : SubmitOp.signed s env (ops ++ [op]) =
    SubmitOp.signed s env ops ++ (SubmitOp.signed? s env op).toList := by
  unfold SubmitOp.signed
  rw [List.filterMap_append]
  cases h : SubmitOp.signed? s env op <;> simp [h]

theorem FromUser.mono {d : Order} {op : SubmitOp} (h : FromUser s env ops d) :
    FromUser s env (ops ++ [op]) d := by
  obtain ⟨o, ho, h⟩ := h
  exact ⟨o, by rw [signed_snoc]; exact List.mem_append_left _ ho, h⟩

theorem signed?_submit {r : RawOrder} {o : Order} :
    SubmitOp.signed? s env (.submit r) = some o ↔
      ∃ sig, r.validate s.exchangeAddress env.eth = .ok (o, sig) := by
  simp only [SubmitOp.signed?]
  split <;> rename_i h <;> simp [h]

theorem signed_pos {o : Order} (h : o ∈ SubmitOp.signed s env ops) : 0 < o.amount := by
  obtain ⟨op, -, ho⟩ := List.mem_filterMap.1 h
  cases op with
  | submit r =>
    obtain ⟨sig, hv⟩ := signed?_submit.1 ho
    exact (RawOrder.validate_eq_ok hv).amount
  | deliver i => cases ho

namespace Resubmission

theorem total_unstored (hi : Resubmission s env ops w) {h : Hash} (hg : w.orders.get h = none) :
    Trade.total w.emitted h = 0 :=
  Trade.total_eq_zero fun t ht hn => by
    have := hi.named t ht h hn
    rw [hg] at this
    cases this

theorem same (hi : Resubmission s env ops w) {d d' : Order} (hd : FromUser s env ops d)
    (hd' : FromUser s env ops d') (hh : d.hash = d'.hash) : d.amount = d'.amount ∧
    d.side = d'.side := by
  obtain ⟨o, ho, h1, h2, h3⟩ := hd
  obtain ⟨o', ho', h1', h2', h3'⟩ := hd'
  have := hi.agree o ho o' ho' (h1.trans (hh.trans h1'.symm))
  exact ⟨h2.symm.trans (this.1.trans h2'), h3.symm.trans (this.2.trans h3')⟩

theorem submit (hi : Resubmission s env ops w) {r : RawOrder}
    (hok : SubmitOp.KeepsFills s env ops w (.submit r)) :
    Resubmission s env (ops ++ [.submit r]) (SubmitOp.step s e env w (.submit r)) := by
  have hagree : ∀ o ∈ SubmitOp.signed s env (ops ++ [.submit r]),
      ∀ o' ∈ SubmitOp.signed s env (ops ++ [.submit r]), o.hash = o'.hash →
      o.amount = o'.amount ∧ o.side = o'.side := by
    intro o ho o' ho' hh
    rw [signed_snoc, List.mem_append, Option.mem_toList] at ho ho'
    rcases ho with ho | ho <;> rcases ho' with ho' | ho'
    · exact hi.agree o ho o' ho' hh
    · exact hok o' ho' o ho hh
    · have := hok o ho o' ho' hh.symm
      exact ⟨this.1.symm, this.2.symm⟩
    · cases ho.symm.trans ho'
      exact ⟨rfl, rfl⟩
  have hq : ∀ m ∈ w.orderQueue, ∃ o, m = .NEW_ORDER o ∧ FromUser s env (ops ++ [.submit r]) o :=
    fun m hm => by
      obtain ⟨o, ho, hu⟩ := hi.queued m hm
      exact ⟨o, ho, hu.mono⟩
  have hst : ∀ d ∈ w.orders, FromUser s env (ops ++ [.submit r]) d := fun d hd =>
    (hi.stored d hd).mono
  obtain ⟨n, h | ⟨m, ⟨o₀, p, o, rfl, hp⟩, h⟩⟩ := s.newOrder_requested r env w
  · rw [SubmitOp.step, h]
    exact ⟨hq, hst, hagree, hi.bounded, hi.filled, hi.named⟩
  · rw [SubmitOp.step, h]
    refine ⟨fun m hm => ?_, hst, hagree, hi.bounded, hi.filled, hi.named⟩
    rcases List.mem_append.1 hm with hm | hm
    · exact hq m hm
    · obtain ⟨sig, hv⟩ := hp.valid
      have ho := hp.eq
      subst ho
      refine ⟨_, List.mem_singleton.1 hm, o₀, ?_, rfl, rfl, rfl⟩
      rw [signed_snoc, signed?_submit.2 ⟨sig, hv⟩]
      exact List.mem_append_right _ (.head _)

theorem taken (hi : Resubmission s env ops w) (i : Nat) :
    Resubmission s env (ops ++ [.deliver i]) (w.take i) := by
  refine ⟨fun m hm => ?_, fun d hd => (hi.stored d hd).mono, ?_, hi.bounded, hi.filled, hi.named⟩
  · obtain ⟨o, ho, hu⟩ := hi.queued m (List.mem_of_mem_eraseIdx hm)
    exact ⟨o, ho, hu.mono⟩
  · have : SubmitOp.signed s env (ops ++ [.deliver i]) = SubmitOp.signed s env ops := by
      rw [signed_snoc]
      exact List.append_nil _
    rw [this]
    exact hi.agree

theorem newOrder (hi : Resubmission s env ops w) {o : Order}
    (hu : FromUser s env ops o) (h0 : 0 ≤ o.filledAmount) (hle : o.filledAmount ≤ o.amount)
    (hold : ∀ d ∈ w.orders.get o.hash, d.filledAmount ≤ o.filledAmount) :
    Resubmission s env ops (Dex.newOrder o env w).2 := by
  have hl := env.orderDao.matching_subperm w.calls w.orders.docs o
  have hres := env.orderDao.matching_resting w.calls w.orders.docs o
  obtain ⟨ds, rs, h⟩ := newOrder_effect env o w
  generalize env.orderDao.matching w.calls w.orders.docs o = l at hl hres h
  have hself : ∀ mo ∈ l, mo.hash ≠ o.hash := fun mo hm e =>
    (hres mo hm).2.2.ne (hi.same (hi.stored mo (hl.subset hm)) hu e).2
  have ho : o.Bounded := by
    obtain ⟨o₀, hs, -, ha, -⟩ := hu
    exact ⟨ha ▸ signed_pos hs, h0, hle⟩
  have hT : Trade.total w.emitted o.hash ≤ o.filledAmount := by
    cases hg : w.orders.get o.hash with
    | none => rw [hi.total_unstored hg]; exact h0
    | some d =>
      have h1 := hi.filled d (Coll.mem_of_get hg)
      rw [Coll.get_key hg] at h1
      have h2 := hold d hg
      omega
  refine ⟨?_, fun d hd => ?_, hi.agree, h.bounded hl ho hi.bounded,
    h.filled hl hself ho hi.bounded hi.filled hT, ?_⟩
  · rw [h.orderQueue]
    exact hi.queued
  · rcases h.mem_terms hl hd with ht | ⟨x, hx, ht⟩
    · exact hu.of_terms ht
    · exact (hi.stored x hx).of_terms ht
  · intro t ht x hx
    rw [h.emitted] at ht
    rw [h.orders]
    rcases List.mem_append.1 ht with ht | ht
    · exact get_upserts_isSome (.inr (hi.named t ht x hx))
    · exact get_upserts_isSome (.inl (h.named ht hx))

theorem deliver (hi : Resubmission s env ops w) {i : Nat}
    (hok : SubmitOp.KeepsFills s env ops w (.deliver i)) :
    Resubmission s env (ops ++ [.deliver i]) (SubmitOp.step s e env w (.deliver i)) := by
  have ht := hi.taken i
  rw [SubmitOp.step]
  cases hq : w.orderQueue[i]? with
  | none =>
    have hw : w.take i = w := by
      rw [World.take, List.eraseIdx_of_length_le (List.getElem?_eq_none_iff.1 hq)]
    rw [Engine.deliver, hq]
    exact hw ▸ ht
  | some m =>
    obtain ⟨o, rfl, hu⟩ := hi.queued m (List.mem_of_getElem? hq)
    simp only [SubmitOp.KeepsFills, hq] at hok
    rcases e.deliver_newOrder env hq with h | h <;> rw [h]
    · exact ht
    · exact ht.newOrder hu.mono hok.1 hok.2.1 hok.2.2

end Resubmission

/-- **No order is filled beyond its signed amount**, in every run whose submissions of one hash
agree on amount and side and whose messages do not lower the fill they find stored. -/
theorem no_overfill_across_resubmission
    (h : Run (SubmitOp.KeepsFills s env) (SubmitOp.step s e env) World.empty ops w) :
    ∀ o ∈ SubmitOp.signed s env ops, Trade.total w.emitted o.hash ≤ o.amount := by
  have hi : Resubmission s env ops w := by
    refine h.invariant ⟨?_, ?_, ?_, ?_, ?_, ?_⟩ fun ops w op _ hi hok => ?_
    · exact fun m hm => absurd hm List.not_mem_nil
    · simp
    · simp [SubmitOp.signed]
    · simp
    · simp
    · simp
    · cases op with
      | submit r => exact hi.submit hok
      | deliver i => exact hi.deliver hok
  intro o ho
  cases hg : w.orders.get o.hash with
  | none =>
    rw [hi.total_unstored hg]
    exact (signed_pos ho).le
  | some d =>
    have hdw := Coll.mem_of_get hg
    have h1 := hi.filled d hdw
    rw [Coll.get_key hg] at h1
    have h2 := (hi.bounded d hdw).le
    have h3 := (hi.same (hi.stored d hdw) ⟨o, ho, rfl, rfl, rfl⟩ (Coll.get_key hg)).1
    omega

end

/-- A SELL of 10 is submitted twice before it meets a BUY of 10. -/
theorem no_overfill_across_resubmission_twice :
    ∃ ops, ∃ w : World, w.emitted.map (·.amount) = [10] ∧
      ∀ o ∈ SubmitOp.signed .sample (.sample .stored) ops,
      Trade.total w.emitted o.hash ≤ o.amount :=
  ⟨[.submit (.sample 1 .SELL 5 10), .submit (.sample 1 .SELL 5 10), .deliver 0, .deliver 0,
      .submit (.sample 2 .BUY 5 10), .deliver 0], _, by decide +kernel,
    no_overfill_across_resubmission (e := .sample)
      (Run.of_check _ (by decide +kernel))⟩

/-- A SELL of 10 is submitted and FILLED by a BUY of 10, submitted again, and filled by a second
BUY of 10: the second copy was written over the first. -/
theorem resubmitted_order_overfills :
    ∃ ops w, Run (fun _ _ _ => True) (SubmitOp.step .sample .sample (.sample .stored)) World.empty
        ops w ∧
      ∃ o ∈ SubmitOp.signed .sample (.sample .stored) ops,
        o.amount = 10 ∧ Trade.total w.emitted o.hash = 20 :=
  ⟨[.submit (.sample 1 .SELL 5 10), .deliver 0, .submit (.sample 2 .BUY 5 10), .deliver 0,
      .submit (.sample 1 .SELL 5 10), .deliver 0, .submit (.sample 3 .BUY 5 10), .deliver 0], _,
    Run.of_check _ (by decide), by decide +kernel⟩

end Dex
