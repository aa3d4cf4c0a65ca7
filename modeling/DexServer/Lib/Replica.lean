import Mathlib.Logic.Function.Basic

/-!
# Replicas fed by a log

A store maps keys to values. Every write to it is also appended to a log, and the log is delivered,
from its front, to a replica that repeats the writes.

* `Synced st log rep`: once the rest of the log is delivered, the replica is the store.
* `Synced.write`, `Synced.deliver`: it stays so, whatever is written and delivered.
* A copy of the store is a replica, also while the log holds writes that the copy has already
  (`Synced.write_self`, `Synced.deliver_self`).
-/

namespace Lib

variable {κ β : Type} [DecidableEq κ] {f g st rep : κ → β} {us vs log : List (κ × β)} {k : κ}

/-- `f` after the writes `us`, one after the other. -/
def replay (f : κ → β) (us : List (κ × β)) : κ → β :=
  us.foldl (fun f u => Function.update f u.1 u.2) f

@[simp] theorem replay_nil (f : κ → β) : replay f [] = f := rfl

@[simp] theorem replay_cons (f : κ → β) (u : κ × β) (us : List (κ × β)) :
    replay f (u :: us) = replay (Function.update f u.1 u.2) us := rfl

theorem replay_append (f : κ → β) (us vs : List (κ × β)) :
    replay f (us ++ vs) = replay (replay f us) vs :=
  List.foldl_append

theorem replay_congr (h : k ∉ us.map Prod.fst → f k = g k) : replay f us k = replay g us k := by
  induction us generalizing f g with
  | nil => exact h (List.not_mem_nil)
  | cons u us ih =>
    rw [replay_cons, replay_cons]
    refine ih fun hk => ?_
    by_cases hu : k = u.1
    · rw [hu, Function.update_self, Function.update_self]
    · rw [Function.update_of_ne hu, Function.update_of_ne hu]
      refine h fun hmem => ?_
      rcases List.mem_cons.1 hmem with he | he
      · exact hu he
      · exact hk he

theorem replay_other (h : k ∉ us.map Prod.fst) : replay f us k = f k := by
  induction us generalizing f with
  | nil => rfl
  | cons u us ih =>
    rw [List.map_cons, List.mem_cons, not_or] at h
    rw [replay_cons, ih h.2, Function.update_of_ne h.1]

theorem replay_mem (hn : (us.map Prod.fst).Nodup) {u : κ × β} (hu : u ∈ us) :
    replay f us u.1 = u.2 := by
  induction us generalizing f with
  | nil => cases hu
  | cons v us ih =>
    rw [List.map_cons, List.nodup_cons] at hn
    rw [replay_cons]
    rcases List.mem_cons.1 hu with rfl | hu
    · rw [replay_other hn.1, Function.update_self]
    · exact ih hn.2 hu

theorem replay_perm (hn : (us.map Prod.fst).Nodup) (hp : us.Perm vs) :
    replay f us = replay f vs := by
  have hkeys := hp.map Prod.fst
  funext k
  by_cases hk : k ∈ us.map Prod.fst
  · obtain ⟨u, hu, rfl⟩ := List.mem_map.1 hk
    rw [replay_mem hn hu, replay_mem (hkeys.nodup_iff.1 hn) (hp.mem_iff.1 hu)]
  · rw [replay_other hk, replay_other fun hk' => hk (hkeys.mem_iff.2 hk')]

/-- The replica becomes the store when the log is delivered. -/
def Synced (st : κ → β) (log : List (κ × β)) (rep : κ → β) : Prop := replay rep log = st

namespace Synced

theorem write (h : Synced st log rep) (us : List (κ × β)) :
    Synced (replay st us) (log ++ us) rep := by
  unfold Synced at h ⊢
  rw [replay_append, h]

theorem deliver (h : Synced st (us ++ log) rep) : Synced st log (replay rep us) := by
  unfold Synced at h ⊢
  rw [← replay_append, h]

theorem done (h : Synced st [] rep) : rep = st := h

theorem empty (st : κ → β) : Synced st [] st := rfl

/-- The log holds only what the store has: every write that is written over is followed by the one
that did it. -/
theorem write_self (h : Synced st log st) (us : List (κ × β)) :
    Synced (replay st us) (log ++ us) (replay st us) := by
  unfold Synced at h ⊢
  rw [replay_append]
  funext k
  refine replay_congr fun hk => ?_
  calc replay (replay st us) log k
      = replay st log k := replay_congr fun _ => replay_other hk
    _ = st k := by rw [h]

theorem deliver_self (h : Synced st (us ++ log) st) : Synced st log st := by
  unfold Synced at h ⊢
  funext k
  by_cases hk : k ∈ log.map Prod.fst
  · calc replay st log k
        = replay (replay st us) log k := replay_congr fun hn => absurd hk hn
      _ = st k := by rw [← replay_append, h]
  · exact replay_other hk

end Synced

end Lib
