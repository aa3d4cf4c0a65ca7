import Mathlib.Data.List.Induction

/-!
# The last action that counts

Some actions set a flag or clear it, the others do not bear on it. `latest f as` is what the last of
the actions `as` that bears on the flag makes of it.

`foldl_latest` is the induction: a flag of a state that each step sets, clears or keeps, as `f`
says, is as the last action left it.
-/

namespace Lib

variable {σ α : Type}

/-- The value that the last action bearing on a flag gives to it: `f a` is the value `a` gives, if
it bears on it. -/
def latest (f : α → Option Bool) (as : List α) : Option Bool := (as.filterMap f).getLast?

theorem latest_concat (f : α → Option Bool) (as : List α) (a : α) :
    latest f (as ++ [a]) = (f a).or (latest f as) := by
  unfold latest
  rw [List.filterMap_append]
  cases ha : f a with
  | none => simp [ha]
  | some b => simp [ha]

/-- A flag that is clear at first is set only by an action. -/
theorem getD_latest {f : α → Option Bool} {as : List α} :
    (latest f as).getD false = true ↔ latest f as = some true := by
  cases latest f as with
  | none => simp
  | some b => simp

/-- A flag `g` that each step treats as `f` says, while an invariant holds. -/
theorem foldl_latest {f : α → Option Bool} {step : σ → α → σ} {g : σ → Bool} {I : σ → Prop}
    {s : σ} (hs : I s) (hI : ∀ s a, I s → I (step s a))
    (hg : ∀ s a, I s → g (step s a) = (f a).getD (g s)) (as : List α) :
    I (as.foldl step s) ∧ g (as.foldl step s) = (latest f as).getD (g s) := by
  induction as using List.reverseRecOn with
  | nil => exact ⟨hs, rfl⟩
  | append_singleton as a ih =>
    rw [List.foldl_append, List.foldl_cons, List.foldl_nil, latest_concat]
    refine ⟨hI _ a ih.1, ?_⟩
    rw [hg _ a ih.1, ih.2]
    cases f a <;> rfl

end Lib
