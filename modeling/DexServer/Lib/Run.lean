import Mathlib.Data.List.Induction
import Mathlib.Tactic.Common

/-!
# Runs of a transition system

`Run ok step s₀ as s`: taking the actions `as` from `s₀`, each of them allowed (`ok`) after the
ones before it and in the state it is taken in, ends in `s`. Every state reached on the way is
the end of a shorter run, so a fact about all runs is a fact about every state they reach.

`Run.invariant` is the induction: what holds at the start and is kept by every allowed action holds
at the end of every run. `Run.since` starts at some point of the run, `Run.observe` is the one for
an observer that joins later. `Run.outputs` is what the actions of a run put out, and
`Run.simulated` says that a run is one of another system, seen through an abstraction.
`Run.of_check` decides that given actions are a run.
-/

namespace Lib

variable {σ α : Type}

/-- The actions `as`, each allowed when it is taken, lead from `s₀` to `s`. -/
inductive Run (ok : List α → σ → α → Prop) (step : σ → α → σ) (s₀ : σ) : List α → σ → Prop
  | nil : Run ok step s₀ [] s₀
  | snoc {as : List α} {s : σ} (a : α) :
      Run ok step s₀ as s → ok as s a → Run ok step s₀ (as ++ [a]) (step s a)

namespace Run

variable {ok ok' : List α → σ → α → Prop} {step : σ → α → σ} {s₀ s : σ} {as : List α}

/-- **Invariants**: true at the start, kept by every allowed action. -/
theorem invariant {I : List α → σ → Prop} (h0 : I [] s₀)
    (hs : ∀ as s a, Run ok step s₀ as s → I as s → ok as s a → I (as ++ [a]) (step s a))
    (h : Run ok step s₀ as s) : I as s := by
  induction h with
  | nil => exact h0
  | snoc a hr hok ih => exact hs _ _ a hr ih hok

theorem mono (hk : ∀ as s a, ok as s a → ok' as s a) (h : Run ok step s₀ as s) :
    Run ok' step s₀ as s := by
  induction h with
  | nil => exact .nil
  | snoc a _ hok ih => exact .snoc a ih (hk _ _ a hok)

/-- Where an invariant holds the two conditions allow the same actions, so they have the same
runs. -/
theorem iff_of_invariant {I : σ → Prop} (h0 : I s₀) (hs : ∀ s a, I s → I (step s a))
    (hk : ∀ as s a, I s → (ok as s a ↔ ok' as s a)) :
    Run ok step s₀ as s ↔ Run ok' step s₀ as s := by
  constructor
  · intro h
    have hI : I s ∧ Run ok' step s₀ as s := by
      induction h with
      | nil => exact ⟨h0, .nil⟩
      | snoc a _ hok ih => exact ⟨hs _ a ih.1, .snoc a ih.2 ((hk _ _ a ih.1).1 hok)⟩
    exact hI.2
  · intro h
    have hI : I s ∧ Run ok step s₀ as s := by
      induction h with
      | nil => exact ⟨h0, .nil⟩
      | snoc a _ hok ih => exact ⟨hs _ a ih.1, .snoc a ih.2 ((hk _ _ a ih.1).2 hok)⟩
    exact hI.2

theorem eq_foldl (h : Run ok step s₀ as s) : s = as.foldl step s₀ := by
  induction h with
  | nil => rfl
  | snoc a _ _ ih => rw [List.foldl_append, List.foldl_cons, List.foldl_nil, ← ih]

theorem of_prefix {bs : List α} (h : Run ok step s₀ bs s) (hp : as <+: bs) :
    Run ok step s₀ as (as.foldl step s₀) := by
  induction h with
  | nil =>
    rw [List.prefix_nil.1 hp]
    exact .nil
  | snoc a hr hok ih =>
    rcases List.prefix_concat_iff.1 hp with rfl | hp
    · have hr' := Run.snoc a hr hok
      rw [← hr'.eq_foldl]
      exact hr'
    · exact ih hp

theorem of_concat {a : α} (h : Run ok step s₀ (as ++ [a]) s) :
    ∃ s', Run ok step s₀ as s' ∧ ok as s' a ∧ s = step s' a := by
  generalize hb : as ++ [a] = bs at h
  cases h with
  | nil => simp at hb
  | snoc b hr hok =>
    obtain ⟨rfl, rfl⟩ := List.append_singleton_inj.1 hb
    exact ⟨_, hr, hok, rfl⟩

/-- **From some point on**: what holds there and is kept by the actions taken after it holds at the
end. -/
theorem since {I : List α → σ → Prop} {bs : List α} (h : Run ok step s₀ (as ++ bs) s)
    (h0 : Run ok step s₀ as (as.foldl step s₀) → I [] (as.foldl step s₀))
    (hs : ∀ cs s b, Run ok step s₀ (as ++ cs) s → ok (as ++ cs) s b → b ∈ bs → I cs s →
      I (cs ++ [b]) (step s b)) : I bs s := by
  induction bs using List.reverseRecOn generalizing s with
  | nil =>
    rw [List.append_nil] at h
    have he := h.eq_foldl
    exact he ▸ h0 (he ▸ h)
  | append_singleton bs b ih =>
    rw [← List.append_assoc] at h
    obtain ⟨s', hr, hok, rfl⟩ := h.of_concat
    have hI : I bs s' := ih hr fun cs s b hr hok hb => hs cs s b hr hok (List.mem_append_left _ hb)
    exact hs _ _ b hr hok (by simp) hI

/-- **Observers**: `o` follows a run from some point on, with a state of its own. What holds of the
two states at that point and is kept by every allowed action holds at the end. -/
theorem observe {τ : Type} {o : σ → τ → α → τ} {J : σ → τ → Prop} {t₀ : τ}
    (h0 : Run ok step s₀ as (as.foldl step s₀) → J (as.foldl step s₀) t₀)
    (hs : ∀ cs s a t, Run ok step s₀ cs s → ok cs s a → J s t → J (step s a) (o s t a))
    {bs : List α} (h : Run ok step s₀ (as ++ bs) s) :
    J s (bs.foldl (fun x a => (step x.1 a, o x.1 x.2 a)) (as.foldl step s₀, t₀)).2 := by
  refine (h.since (I := fun cs s => ∃ t, cs.foldl (fun x a => (step x.1 a, o x.1 x.2 a))
    (as.foldl step s₀, t₀) = (s, t) ∧ J s t) (fun hr => ⟨t₀, rfl, h0 hr⟩)
      fun cs s b hr hok _ hI => ?_).elim fun t ht => by rw [ht.1]; exact ht.2
  obtain ⟨t, ht, hj⟩ := hI
  refine ⟨o s t b, ?_, hs _ s b t hr hok hj⟩
  rw [List.foldl_append, ht]
  rfl

theorem trans {allowed : σ → α → Prop} {s' : σ} {bs : List α}
    (h : Run (fun _ => allowed) step s₀ as s) (h' : Run (fun _ => allowed) step s bs s') :
    Run (fun _ => allowed) step s₀ (as ++ bs) s' := by
  induction h' with
  | nil => simpa using h
  | snoc a _ hok ih =>
    rw [← List.append_assoc]
    exact .snoc a ih hok

/-- **Simulation**: every allowed action is matched by a run of another system between the
abstractions of the two states. Then every run is; `L` relates the actions of the two. -/
theorem simulated {τ β : Type} {allowed : τ → β → Prop} {step' : τ → β → τ} {f : σ → τ}
    {L : List α → σ → List β → Prop} (h0 : L [] s₀ [])
    (hs : ∀ as s a bs, Run ok step s₀ as s → ok as s a → L as s bs → ∃ cs,
      Run (fun _ => allowed) step' (f s) cs (f (step s a)) ∧ L (as ++ [a]) (step s a) (bs ++ cs))
    (h : Run ok step s₀ as s) : ∃ bs, Run (fun _ => allowed) step' (f s₀) bs (f s) ∧ L as s bs := by
  induction h with
  | nil => exact ⟨[], .nil, h0⟩
  | snoc a hr hok ih =>
    obtain ⟨bs, hbs, hL⟩ := ih
    obtain ⟨cs, hcs, hL⟩ := hs _ _ a bs hr hok hL
    exact ⟨bs ++ cs, hbs.trans hcs, hL⟩

/-- What the actions put out, one after the other, each in the state it is taken in. -/
def outputs {β : Type} (step : σ → α → σ) (out : σ → α → List β) : σ → List α → List β
  | _, [] => []
  | s, a :: as => out s a ++ outputs step out (step s a) as

theorem outputs_append {β : Type} (out : σ → α → List β) (bs : List α) : ∀ (as : List α) (s : σ),
    outputs step out s (as ++ bs) = outputs step out s as ++ outputs step out (as.foldl step s) bs
  | [], _ => rfl
  | a :: as, s => by
    rw [List.cons_append, outputs, outputs, outputs_append out bs as, List.append_assoc,
      List.foldl_cons]

theorem outputs_snoc {β : Type} (h : Run ok step s₀ as s) (out : σ → α → List β) (a : α) :
    outputs step out s₀ (as ++ [a]) = outputs step out s₀ as ++ out s a := by
  rw [outputs_append, ← h.eq_foldl, outputs, outputs, List.append_nil]

/-- Is each of the actions allowed, after `as` and in the state it is taken in? -/
def check (ok : List α → σ → α → Prop) [∀ as s a, Decidable (ok as s a)] (step : σ → α → σ) :
    List α → σ → List α → Bool
  | _, _, [] => true
  | as, s, b :: bs => decide (ok as s b) && check ok step (as ++ [b]) (step s b) bs

theorem append_check [∀ as s a, Decidable (ok as s a)] : ∀ {as : List α} {s : σ} (bs : List α),
    Run ok step s₀ as s → check ok step as s bs = true → Run ok step s₀ (as ++ bs) (bs.foldl step s)
  | _, _, [], hr, _ => by simpa using hr
  | as, s, b :: bs, hr, hc => by
    simp only [check, Bool.and_eq_true, decide_eq_true_eq] at hc
    have := append_check bs (.snoc b hr hc.1) hc.2
    simpa using this

theorem of_check [∀ as s a, Decidable (ok as s a)] (as : List α)
    (h : check ok step [] s₀ as = true) :
    Run ok step s₀ as (as.foldl step s₀) :=
  append_check as .nil h

end Run

end Lib
