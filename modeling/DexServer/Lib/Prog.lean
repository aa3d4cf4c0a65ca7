import Mathlib.Tactic.Common

/-!
# Programs with outside calls

`Prog ρ σ ε α`: a computation that reads an environment `ρ` (everything the program does not
decide: which outside call fails, what the clock says), updates a state `σ`, and ends with a
value or an error. What was written before an error stays written, as in a program whose
functions return an error next to their result.

`wp m r s Q E`: from state `s`, `m` ends with a value in `Q` or an error in `E`. The rules
(`wp_pure`, `wp_bind`, `wp_throw`, `wp_attempt`) run a program symbolically; `wp_mono`
weakens both postconditions.
-/

namespace Lib

/-- A computation reading `ρ`, updating `σ`, ending with an `α` or an error. -/
def Prog (ρ σ ε α : Type) : Type := ρ → σ → Except ε α × σ

namespace Prog

variable {ρ σ ε α β : Type}

instance : Monad (Prog ρ σ ε) where
  pure a := fun _ s => (.ok a, s)
  bind m f := fun r s =>
    match m r s with
    | (.ok a, s') => f a r s'
    | (.error e, s') => (.error e, s')

/-- End with an error. -/
def throw (e : ε) : Prog ρ σ ε α := fun _ s => (.error e, s)

/-- A value or an error at hand. -/
def ofExcept (x : Except ε α) : Prog ρ σ ε α := fun _ s => (x, s)

/-- Run `m` and hand its error back as a value (a caller that does not return on error). -/
def attempt (m : Prog ρ σ ε α) : Prog ρ σ ε (Except ε α) := fun r s => (.ok (m r s).1, (m r s).2)

def ask : Prog ρ σ ε ρ := fun r s => (.ok r, s)

def get : Prog ρ σ ε σ := fun _ s => (.ok s, s)

def modify (f : σ → σ) : Prog ρ σ ε Unit := fun _ s => (.ok (), f s)

theorem bind_ok {m : Prog ρ σ ε α} {f : α → Prog ρ σ ε β} {r : ρ} {s s' : σ} {a : α}
    (h : m r s = (.ok a, s')) : (m >>= f) r s = f a r s' := by
  simp only [bind, h]

theorem bind_error {m : Prog ρ σ ε α} {f : α → Prog ρ σ ε β} {r : ρ} {s s' : σ} {e : ε}
    (h : m r s = (.error e, s')) : (m >>= f) r s = (.error e, s') := by
  simp only [bind, h]

theorem attempt_eq {m : Prog ρ σ ε α} {r : ρ} {s s' : σ} {x : Except ε α}
    (h : m r s = (x, s')) : attempt m r s = (.ok x, s') := by
  simp only [attempt, h]

theorem bind_assoc {γ : Type} (m : Prog ρ σ ε α) (f : α → Prog ρ σ ε β) (g : β → Prog ρ σ ε γ) :
    (m >>= f) >>= g = m >>= fun a => f a >>= g := by
  funext r s
  simp only [bind]
  rcases m r s with ⟨_ | a, s'⟩ <;> rfl

/-- The state a program leaves depends on its continuation only through the state that one
leaves. -/
theorem bind_state_congr {γ : Type} {m : Prog ρ σ ε α} {f : α → Prog ρ σ ε β} {g : α → Prog ρ σ ε γ}
    {r : ρ} (h : ∀ a s, (f a r s).2 = (g a r s).2) (s : σ) : ((m >>= f) r s).2 =
      ((m >>= g) r s).2 := by
  simp only [bind]
  rcases m r s with ⟨_ | a, s'⟩
  · rfl
  · exact h a s'

theorem bind_state {m : Prog ρ σ ε α} {f : α → Prog ρ σ ε β} {r : ρ}
    (h : ∀ a s, (f a r s).2 = s) (s : σ) : ((m >>= f) r s).2 = (m r s).2 := by
  simp only [bind]
  rcases m r s with ⟨_ | a, s'⟩
  · rfl
  · exact h a s'

theorem pure_bind (a : α) (f : α → Prog ρ σ ε β) : pure a >>= f = f a := rfl

/-! ## Weakest preconditions -/

/-- A value and a state in `Q`, or an error and a state in `E`. -/
def Ends (Q : α → σ → Prop) (E : ε → σ → Prop) : Except ε α × σ → Prop
  | (.ok a, s) => Q a s
  | (.error e, s) => E e s

@[simp] theorem ends_ok {Q : α → σ → Prop} {E : ε → σ → Prop} {a : α} {s : σ} :
    Ends Q E (.ok a, s) ↔ Q a s := Iff.rfl

/-- From `s`, `m` ends in `Q`, or with an error in `E`. -/
def wp (m : Prog ρ σ ε α) (r : ρ) (s : σ) (Q : α → σ → Prop) (E : ε → σ → Prop) : Prop :=
  Ends Q E (m r s)

variable {r : ρ} {s : σ} {Q Q' : α → σ → Prop} {E E' : ε → σ → Prop}

@[simp] theorem wp_pure {a : α} : wp (pure a) r s Q E ↔ Q a s := Iff.rfl

@[simp] theorem wp_throw {e : ε} : wp (throw e) r s Q E ↔ E e s := Iff.rfl

@[simp] theorem wp_ofExcept {x : Except ε α} :
    wp (ofExcept x) r s Q E ↔ Ends Q E (x, s) := Iff.rfl

@[simp] theorem wp_ask {Q : ρ → σ → Prop} : wp ask r s Q E ↔ Q r s := Iff.rfl

@[simp] theorem wp_get {Q : σ → σ → Prop} : wp get r s Q E ↔ Q s s := Iff.rfl

@[simp] theorem wp_modify {f : σ → σ} {Q : Unit → σ → Prop} :
    wp (modify f) r s Q E ↔ Q () (f s) := Iff.rfl

@[simp] theorem wp_bind {m : Prog ρ σ ε α} {f : α → Prog ρ σ ε β} {Q : β → σ → Prop} :
    wp (m >>= f) r s Q E ↔ wp m r s (fun a s' => wp (f a) r s' Q E) E := by
  simp only [wp, bind]
  rcases m r s with ⟨_ | a, s'⟩ <;> rfl

@[simp] theorem wp_attempt {m : Prog ρ σ ε α} {Q : Except ε α → σ → Prop} :
    wp (attempt m) r s Q E ↔ wp m r s (fun a => Q (.ok a)) (fun e => Q (.error e)) := by
  simp only [wp, attempt]
  rcases m r s with ⟨_ | a, s'⟩ <;> rfl

/-- What holds of both outcomes holds of the result. -/
theorem wp_result {m : Prog ρ σ ε α} {P : Except ε α × σ → Prop} (h : wp m r s Q E)
    (hok : ∀ a s', Q a s' → P (.ok a, s')) (herror : ∀ e s', E e s' → P (.error e, s')) :
    P (m r s) := by
  unfold wp at h
  generalize m r s = x at *
  match x, h with
  | (.error e, s'), h => exact herror e s' h
  | (.ok a, s'), h => exact hok a s' h

theorem wp_mono {m : Prog ρ σ ε α} (h : wp m r s Q E) (hQ : ∀ a s', Q a s' → Q' a s')
    (hE : ∀ e s', E e s' → E' e s') : wp m r s Q' E' :=
  wp_result (P := Ends Q' E') h hQ hE

theorem wp_and {m : Prog ρ σ ε α} (h : wp m r s Q E) (h' : wp m r s Q' E') :
    wp m r s (fun a s' => Q a s' ∧ Q' a s') (fun e s' => E e s' ∧ E' e s') := by
  unfold wp at *
  generalize m r s = x at *
  match x, h, h' with
  | (.error e, s'), h, h' => exact ⟨h, h'⟩
  | (.ok a, s'), h, h' => exact ⟨h, h'⟩

theorem wp_of_forall {m : Prog ρ σ ε α} (hQ : ∀ a s', Q a s') (hE : ∀ e s', E e s') :
    wp m r s Q E := by
  unfold wp
  match m r s with
  | (.error e, s') => exact hE e s'
  | (.ok a, s') => exact hQ a s'

/-- A fact about the final state, whatever the outcome. -/
theorem wp_state {m : Prog ρ σ ε α} {P : σ → Prop} (h : wp m r s (fun _ => P) (fun _ => P)) :
    P (m r s).2 :=
  wp_result (P := fun x => P x.2) h (fun _ _ hs => hs) fun _ _ hs => hs

theorem wp_of_state {m : Prog ρ σ ε α} {P : σ → Prop} (h : P (m r s).2) :
    wp m r s (fun _ => P) (fun _ => P) := by
  unfold wp
  generalize m r s = x at *
  match x, h with
  | (.error e, s'), h => exact h
  | (.ok a, s'), h => exact h

/-- When a condition decides the postconditions, whichever the outcome is. -/
theorem wp_iff {m : Prog ρ σ ε α} {P : Prop}
    (h : wp m r s (fun a s' => Q a s' ∧ P) (fun e s' => E e s' ↔ P)) : wp m r s Q E ↔ P :=
  wp_result (P := fun x => Ends Q E x ↔ P) h (fun _ _ hs => iff_of_true hs.1 hs.2) fun _ _ hs => hs

theorem wp_ok_iff {m : Prog ρ σ ε α} {P : Prop} (h : wp m r s (fun _ _ => P) (fun _ _ => ¬P)) :
    (∃ a, (m r s).1 = .ok a) ↔ P :=
  wp_result (P := fun x => (∃ a, x.1 = .ok a) ↔ P) h (fun a _ hs => iff_of_true ⟨a, rfl⟩ hs)
    fun _ _ hs => iff_of_false (fun ⟨_, ha⟩ => nomatch ha) hs

theorem wp_of_ok {m : Prog ρ σ ε α} {P : Prop} {a : α} (h : wp m r s (fun _ _ => P) E)
    (ha : (m r s).1 = .ok a) : P :=
  wp_result (P := fun x => x.1 = .ok a → P) h (fun _ _ hs _ => hs) (fun _ _ _ he => nomatch he) ha

/-! ## What a program keeps -/

/-- Whatever the outcome, the state before and the state after are related. -/
def Keeps (R : σ → σ → Prop) (m : Prog ρ σ ε α) : Prop := ∀ r s, R s (m r s).2

namespace Keeps

variable {R : σ → σ → Prop} [Std.Refl R]

theorem pure (a : α) : Keeps R (pure a : Prog ρ σ ε α) := fun _ s => Std.Refl.refl s

theorem throw (e : ε) : Keeps R (throw e : Prog ρ σ ε α) := fun _ s => Std.Refl.refl s

theorem ofExcept (x : Except ε α) : Keeps R (ofExcept x : Prog ρ σ ε α) :=
  fun _ s => Std.Refl.refl s

theorem ask : Keeps R (ask : Prog ρ σ ε ρ) := fun _ s => Std.Refl.refl s

theorem get : Keeps R (get : Prog ρ σ ε σ) := fun _ s => Std.Refl.refl s

omit [Std.Refl R] in
theorem attempt {m : Prog ρ σ ε α} (hm : Keeps R m) : Keeps R (attempt m) := hm

omit [Std.Refl R] in
theorem ite {c : Prop} [Decidable c] {m m' : Prog ρ σ ε α} (hm : Keeps R m) (hm' : Keeps R m') :
    Keeps R (if c then m else m') := by
  split
  · exact hm
  · exact hm'

omit [Std.Refl R] in
theorem bind [IsTrans σ R] {m : Prog ρ σ ε α} {f : α → Prog ρ σ ε β} (hm : Keeps R m)
    (hf : ∀ a, Keeps R (f a)) : Keeps R (m >>= f) := by
  intro r s
  have h := hm r s
  simp only [Bind.bind]
  generalize m r s = x at h
  match x, h with
  | (.ok a, s'), h => exact Trans.trans h (hf a r s')
  | (.error e, s'), h => exact h

omit [Std.Refl R] in
theorem wp {m : Prog ρ σ ε α} (hm : Keeps R m) (hQ : ∀ a s', R s s' → Q a s')
    (hE : ∀ e s', R s s' → E e s') : Prog.wp m r s Q E := by
  have h := hm r s
  unfold Prog.wp
  generalize m r s = x at h
  match x, h with
  | (.ok a, s'), h => exact hQ a s' h
  | (.error e, s'), h => exact hE e s' h

end Keeps

/-! ## Images of a program -/

/-- From the image of `s` the program `m'` does what `m` does from `s`: the same outcome, its value
mapped by `g`, in the image of the state. -/
def Mimics (f : σ → σ) (g : α → β) (r r' : ρ) (s : σ) (m : Prog ρ σ ε α) (m' : Prog ρ σ ε β) :
    Prop :=
  m' r' (f s) = ((m r s).1.map g, f (m r s).2)

namespace Mimics

variable {γ δ : Type} {f : σ → σ} {g : α → β} {h : γ → δ} {r' : ρ} {m : Prog ρ σ ε α}
    {m' : Prog ρ σ ε β}

theorem pure (a : α) : Mimics f g r r' s (pure a : Prog ρ σ ε α) (pure (g a)) := rfl

theorem bind {k : α → Prog ρ σ ε γ} {k' : β → Prog ρ σ ε δ} (hm : Mimics f g r r' s m m')
    (hk : ∀ a s', Mimics f h r r' s' (k a) (k' (g a))) :
    Mimics f h r r' s (m >>= k) (m' >>= k') := by
  unfold Mimics at hm
  simp only [Mimics, Bind.bind, hm]
  rcases m r s with ⟨e | a, s'⟩
  · rfl
  · exact hk a s'

theorem ask {k : ρ → Prog ρ σ ε γ} {k' : ρ → Prog ρ σ ε δ} (hk : Mimics f h r r' s (k r) (k' r')) :
    Mimics f h r r' s (ask >>= k) (ask >>= k') := hk

theorem attempt (hm : Mimics f g r r' s m m') :
    Mimics f (Except.map g) r r' s (attempt m) (attempt m') := by
  unfold Mimics at hm
  simp only [Mimics, Prog.attempt, hm]
  rfl

end Mimics

end Prog

end Lib
