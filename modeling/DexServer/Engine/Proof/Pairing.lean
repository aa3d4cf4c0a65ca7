import DexServer.Engine.Proof.Republish

/-!
# Trade hashes

A trade's hash is computed from the hashes of its two orders alone, so it tells trades apart as far
as no maker is matched twice with one taker. A fresh order meets every maker once; an order given
back and published again may meet a maker it has already traded with (`rematched_pair`).

`Paired`: along a run without such a meeting (`QueueOp.MeetsOnce`) every pair of orders has at most
one trade; `trade_hashes_unique` follows for hashes that do not collide.
-/

namespace Dex

open Lib

/-- Keccak tells the pairs of these orders apart. -/
def CollisionFree (eth : Eth) (os : List Order) : Prop :=
  ∀ m ∈ os, ∀ t ∈ os, ∀ m' ∈ os, ∀ t' ∈ os,
    Trade.computeHash eth m.hash t.hash = Trade.computeHash eth m'.hash t'.hash →
      m.hash = m'.hash ∧ t.hash = t'.hash

instance (eth : Eth) (os : List Order) : Decidable (CollisionFree eth os) :=
  inferInstanceAs (Decidable (∀ m ∈ os, _))

/-- An order that is handled finds no maker resting with which it has traded as a taker before. -/
def QueueOp.MeetsOnce (w : World) : QueueOp → Prop
  | deliver i =>
    match w.orderQueue[i]? with
    | some (.NEW_ORDER o) => ∀ d ∈ w.orders.docs, d.isOpen → o.SamePair d → o.Opposes d →
        ∀ t ∈ w.emitted, ¬(t.makerOrderHash = d.hash ∧ t.takerOrderHash = o.hash)
    | _ => True
  | publish _ => True

instance (w : World) : (op : QueueOp) → Decidable (QueueOp.MeetsOnce w op)
  | .deliver i => by
    unfold QueueOp.MeetsOnce
    dsimp only
    exact match w.orderQueue[i]? with
      | none => inferInstanceAs (Decidable True)
      | some (.NEW_ORDER o) => inferInstanceAs (Decidable (∀ d ∈ w.orders.docs, _))
      | some (.CANCEL_ORDER _) | some (.ADD_ORDER _) | some (.INVALIDATE_MAKER_ORDERS _)
      | some (.INVALIDATE_TAKER_ORDERS _) | some (.unknown _) => inferInstanceAs (Decidable True)
  | .publish _ => inferInstanceAs (Decidable True)

/-- Every pair of orders has at most one trade, under the hash of the pair. -/
structure Paired (env : Env) (ops : List QueueOp) (w : World) : Prop where
  hash : ∀ t ∈ w.emitted, t.hash = Trade.computeHash env.eth t.makerOrderHash t.takerOrderHash
  named : ∀ t ∈ w.emitted, ∀ x, t.Names x → ∃ o ∈ QueueOp.published ops, o.hash = x
  once : (w.emitted.map fun t => (t.makerOrderHash, t.takerOrderHash)).Nodup

namespace Paired

variable {e : Engine} {env : Env} {ops : List QueueOp} {w w' : World}

theorem still (hi : Paired env ops w) (op : QueueOp) (h : w'.emitted = w.emitted) :
    Paired env (ops ++ [op]) w' := by
  refine ⟨h ▸ hi.hash, fun t ht x hx => ?_, h ▸ hi.once⟩
  obtain ⟨o, ho, rfl⟩ := hi.named t (h ▸ ht) x hx
  exact ⟨o, QueueOp.mem_published_snoc.2 (.inl ho), rfl⟩

theorem newOrder (hi : Paired env ops w) {o : Order} {l : List Order} {ds : List (Time × Order)}
    {rs : List EngineResponse} (h : NewOrderEffect env o l w w' ds rs)
    (hl : l.Subperm w.orders.docs)
    (ho : ∃ x ∈ QueueOp.published ops, x.hash = o.hash)
    (hw : ∀ d ∈ w.orders, ∃ x ∈ QueueOp.published ops, x.hash = d.hash)
    (hmeet : ∀ mo ∈ l, ∀ t ∈ w.emitted, ¬(t.makerOrderHash = mo.hash ∧ t.takerOrderHash = o.hash)) :
    Paired env ops w' := by
  have hof := processOrder_of o l
  have hnew : ∀ t ∈ rs.flatMap (·.trades), ∃ p ∈ (processOrder o l).fills,
      t = newTrade env.eth p.1 p.2 := fun t ht => (h.trade ht).2
  refine ⟨fun t ht => ?_, fun t ht x hx => ?_, ?_⟩
  · rw [h.emitted] at ht
    rcases List.mem_append.1 ht with ht | ht
    · exact hi.hash t ht
    · obtain ⟨p, -, rfl⟩ := hnew t ht
      rfl
  · rw [h.emitted] at ht
    rcases List.mem_append.1 ht with ht | ht
    · exact hi.named t ht x hx
    · obtain ⟨p, hp, rfl⟩ := hnew t ht
      rcases hx with rfl | rfl
      · exact hw _ (hl.subset (hof.maker_mem hp))
      · show ∃ x ∈ QueueOp.published ops, x.hash = p.1.hash
        rw [hof.taker_hash hp]
        exact ho
  · rw [h.emitted, List.map_append, List.nodup_append]
    refine ⟨hi.once, ?_, fun x hx y hy hxy => ?_⟩
    · rcases h.published with hn | ⟨-, htr⟩
      · simp [hn]
      · rw [htr]
        exact trades_nodup hof hl env.eth
    · obtain ⟨t, ht, rfl⟩ := List.mem_map.1 hx
      obtain ⟨t', ht', rfl⟩ := List.mem_map.1 hy
      obtain ⟨p, hp, rfl⟩ := hnew t' ht'
      simp only [Prod.mk.injEq] at hxy
      exact hmeet _ (hof.maker_mem hp) t ht ⟨hxy.1, hxy.2.trans (hof.taker_hash hp)⟩

theorem deliver (hi : Paired env ops w) (hr : Republishing ops w) {i : Nat}
    (hok : QueueOp.MeetsOnce w (.deliver i)) :
    Paired env (ops ++ [.deliver i]) (QueueOp.step e env w (.deliver i)) := by
  rw [QueueOp.step]
  rcases e.deliver_handled env w i with ⟨-, hw⟩ | ⟨m, hm, h⟩
  · exact hi.still _ (by rw [hw])
  · by_cases hnew : ∃ o, m = .NEW_ORDER o
    · obtain ⟨o, rfl⟩ := hnew
      have hheld : ∀ d, w.Holds d → ∃ x ∈ QueueOp.published ops, x.hash = d.hash := by
        intro d hd
        obtain ⟨-, x, hx, ht⟩ := hr.held d hd
        exact ⟨x, hx, (Order.sameTerms ht).hash.symm⟩
      simp only [QueueOp.MeetsOnce, hm] at hok
      generalize e.deliver env i w = w' at h
      cases h with
      | ignored => exact hi.still _ rfl
      | newOrder h =>
        have hl := env.orderDao.matching_subperm w.calls w.orders.docs o
        have hi' : Paired env ops (w.take i) := ⟨hi.hash, hi.named, hi.once⟩
        refine (hi'.newOrder h hl (hheld o (.inr (List.mem_of_getElem? hm)))
          (fun d hd => hheld d (.inl hd)) fun mo hmo t ht => ?_).still _ rfl
        obtain ⟨hopen, hpair, hside⟩ := env.orderDao.matching_resting _ _ _ mo hmo
        exact hok mo (hl.subset hmo) hopen hpair hside t ht
    · exact hi.still _ (h.emitted fun o ho => hnew ⟨o, ho⟩)

theorem of_run (h : Run (fun ops w op => QueueOp.Fresh ops op ∧ QueueOp.MeetsOnce w op)
    (QueueOp.step e env) World.empty ops w) : Paired env ops w := by
  refine h.invariant ⟨?_, ?_, ?_⟩ fun ops w op hrun hi hok => ?_
  · intro t ht
    cases ht
  · intro t ht
    cases ht
  · exact List.nodup_nil
  · cases op with
    | publish m =>
      refine hi.still _ ?_
      rcases publishOrder_cases m env w with h | h
      · simp [World.emitted, QueueOp.step, h.engineResponses]
      · simp [World.emitted, QueueOp.step, h.engineResponses]
    | deliver i => exact hi.deliver (Republishing.of_run (hrun.mono fun _ _ _ h => h.1)) hok.2

end Paired

/-- **Trade hashes identify trades** along a run in which no order meets a maker again. -/
theorem trade_hashes_unique {e : Engine} {env : Env} {ops : List QueueOp} {w : World}
    (h : Run (fun ops w op => QueueOp.Fresh ops op ∧ QueueOp.MeetsOnce w op) (QueueOp.step e env)
      World.empty ops w)
    (hinj : CollisionFree env.eth (QueueOp.published ops)) :
    (w.emitted.map (·.hash)).Nodup ∧ ∀ t ∈ w.emitted, w.emitted.filter (·.hash = t.hash) = [t] := by
  have hi := Paired.of_run h
  have hn : (w.emitted.map (·.hash)).Nodup := by
    refine List.Nodup.map_on (fun t ht t' ht' hh => ?_) (List.Nodup.of_map _ hi.once)
    obtain ⟨m, hm, hmh⟩ := hi.named t ht _ (.inl rfl)
    obtain ⟨k, hk, hkh⟩ := hi.named t ht _ (.inr rfl)
    obtain ⟨m', hm', hmh'⟩ := hi.named t' ht' _ (.inl rfl)
    obtain ⟨k', hk', hkh'⟩ := hi.named t' ht' _ (.inr rfl)
    rw [hi.hash t ht, hi.hash t' ht', ← hmh, ← hkh, ← hmh', ← hkh'] at hh
    obtain ⟨hmm, hkk⟩ := hinj m hm k hk m' hm' k' hk' hh
    rw [hmh, hmh'] at hmm
    rw [hkh, hkh'] at hkk
    exact List.inj_on_of_nodup_map hi.once ht ht' (Prod.ext hmm hkk)
  exact ⟨hn, fun t ht => filter_key_eq hn ht⟩

/-- A BUY of 10 takes a SELL of 4 and six of a SELL of 10. The first maker turns out to have no
balance: the BUY is given its 4 back and is queued again. -/
def rematchingOps : List QueueOp :=
  let first := Order.sample 1 .SELL 5 4
  let second := Order.sample 2 .SELL 5 10
  let taker := Order.sample 3 .BUY 5 10
  [.publish (.NEW_ORDER first), .deliver 0, .publish (.NEW_ORDER second), .deliver 0,
    .publish (.NEW_ORDER taker), .deliver 0,
    .publish (.INVALIDATE_MAKER_ORDERS ⟨[first], taker, [newTrade .sample taker first]⟩),
    .deliver 0]

/-- The second SELL is cancelled before the BUY is handled again; a new SELL then takes the BUY. -/
def newMakerOps : List QueueOp :=
  rematchingOps ++ [.publish (.CANCEL_ORDER (.sample 2 .SELL 5 10)), .deliver 1, .deliver 0,
    .publish (.NEW_ORDER (.sample 4 .SELL 5 4)), .deliver 0]

theorem trade_hashes_unique_republished : ∃ w,
    Run (fun ops w op => QueueOp.Fresh ops op ∧ QueueOp.MeetsOnce w op)
      (QueueOp.step .sample (.sample .stored)) World.empty newMakerOps w ∧
    w.emitted.map (·.amount) = [4, 6, 4] ∧ (w.emitted.map (·.hash)).Nodup ∧
    ∀ t ∈ w.emitted, w.emitted.filter (·.hash = t.hash) = [t] := by
  have hrun : Run (fun ops w op => QueueOp.Fresh ops op ∧ QueueOp.MeetsOnce w op)
      (QueueOp.step .sample (.sample .stored)) World.empty newMakerOps _ :=
    Run.of_check _ (by decide +kernel)
  exact ⟨_, hrun, by decide +kernel, trade_hashes_unique hrun (by decide +kernel)⟩

/-- The BUY that is queued again meets the second SELL again: two trades of 6 and 4 under one
hash. -/
theorem rematched_pair : ∃ w,
    Run (fun ops _ op => QueueOp.Fresh ops op) (QueueOp.step .sample (.sample .stored)) World.empty
      (rematchingOps ++ [.deliver 0]) w ∧
    CollisionFree (Env.sample .stored).eth (QueueOp.published (rematchingOps ++ [.deliver 0])) ∧
    w.emitted.map (·.amount) = [4, 6, 4] ∧ ¬(w.emitted.map (·.hash)).Nodup :=
  ⟨_, Run.of_check _ (by decide +kernel), by decide +kernel, by decide +kernel, by decide +kernel⟩

end Dex
