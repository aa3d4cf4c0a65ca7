import DexServer.Lib.Run
import Mathlib.Algebra.Order.BigOperators.Group.List
import Mathlib.Algebra.Order.Ring.Int
import Mathlib.Data.List.Nodup
import Mathlib.Logic.Function.Basic

/-!
# A continuous auction

Standing offers, each with the amount that is left of it. An offer is posted, two offers that cross
trade an amount that both have left, and an offer may be withdrawn; nothing is said about who trades
first.

* `run_sweep`: an offer may trade with any number of others, one after the other, as long as it has
  enough left.
* `Settled`: no two standing offers cross.
-/

namespace Lib

/-- An offer and what is left of it. -/
structure Standing (α : Type) where
  offer : α
  left : Int

/-- The offers that stand, by a key. -/
abbrev Auction (κ α : Type) := κ → Option (Standing α)

namespace Auction

/-- An offer stands as long as something is left of it. -/
def live {α : Type} (a : α) (r : Int) : Option (Standing α) := if 0 < r then some ⟨a, r⟩ else none

/-- An amount is taken. -/
def reduce {α : Type} (s : Option (Standing α)) (q : Int) : Option (Standing α) :=
  s.bind fun x => live x.offer (x.left - q)

inductive Act (κ α : Type)
  | post (k : κ) (a : α) (q : Int)
  | fill (taker maker : κ) (q : Int)
  | withdraw (k : κ)

section
variable {κ α : Type} [DecidableEq κ]

def step (M : Auction κ α) : Act κ α → Auction κ α
  | .post k a q => Function.update M k (live a q)
  | .fill taker maker q =>
    Function.update (Function.update M taker (reduce (M taker) q)) maker (reduce (M maker) q)
  | .withdraw k => Function.update M k none

/-- An offer is posted under a free key; a trade is between two offers that cross, within what is
left of both. -/
def Allowed (cross : α → α → Prop) (M : Auction κ α) : Act κ α → Prop
  | .post k _ q => M k = none ∧ 0 < q
  | .fill taker maker q => taker ≠ maker ∧ 0 < q ∧ ∃ x y, M taker = some x ∧ M maker = some y ∧
      cross x.offer y.offer ∧ q ≤ x.left ∧ q ≤ y.left
  | .withdraw _ => True

/-- No two offers cross. -/
def Settled (cross : α → α → Prop) (M : Auction κ α) : Prop :=
  ∀ k j x y, M k = some x → M j = some y → ¬cross x.offer y.offer

end

/-- The trades among the actions: who took, who was taken from, how much. -/
def fills {κ α : Type} (acts : List (Act κ α)) : List (κ × κ × Int) :=
  acts.filterMap fun
    | .fill taker maker q => some (taker, maker, q)
    | _ => none

/-- The offers posted and withdrawn. -/
def requests {κ α : Type} (acts : List (Act κ α)) : List (Act κ α) :=
  acts.filter fun
    | .fill .. => false
    | _ => true

section
variable {κ α γ : Type}

@[simp] theorem fills_append (acts cs : List (Act κ α)) :
    fills (acts ++ cs) = fills acts ++ fills cs :=
  List.filterMap_append

@[simp] theorem requests_append (acts cs : List (Act κ α)) :
    requests (acts ++ cs) = requests acts ++ requests cs :=
  List.filter_append ..

theorem fills_map (taker maker : γ → κ) (q : γ → Int) (l : List γ) :
    fills (l.map fun x => (.fill (taker x) (maker x) (q x) : Act κ α)) =
      l.map fun x => (taker x, maker x, q x) := by
  induction l with
  | nil => rfl
  | cons x l ih => exact congrArg (_ :: ·) ih

theorem requests_map (taker maker : γ → κ) (q : γ → Int) (l : List γ) :
    requests (l.map fun x => (.fill (taker x) (maker x) (q x) : Act κ α)) = [] := by
  induction l with
  | nil => rfl
  | cons x l ih => exact ih

end

section
variable {α : Type} {a : α} {r q : Int}

theorem live_pos (h : 0 < r) : live a r = some ⟨a, r⟩ := if_pos h

theorem live_nonpos (h : r ≤ 0) : live a r = none := if_neg (not_lt.2 h)

theorem live_eq_some {x : Standing α} (h : live a r = some x) : x = ⟨a, r⟩ := by
  unfold live at h
  split at h
  · exact (Option.some.inj h).symm
  · cases h

@[simp] theorem reduce_live (hq : 0 ≤ q) : reduce (live a r) q = live a (r - q) := by
  by_cases hr : 0 < r
  · rw [live_pos hr]
    rfl
  · rw [live_nonpos (not_lt.1 hr), live_nonpos (by omega)]
    rfl

end

section
variable {κ α : Type} [DecidableEq κ] {cross : α → α → Prop}
    {M : Auction κ α} {t : κ} {a : α} {r : Int}
  {fs : List (κ × Int)}

/-- **An offer sweeps through others**: it trades with each of them once, within what is left of
either. -/
theorem run_sweep (ht : M t = live a r)
    (hfs : ∀ f ∈ fs, 0 < f.2 ∧ ∃ y, M f.1 = some y ∧ cross a y.offer ∧ f.2 ≤ y.left)
    (hn : (fs.map Prod.fst).Nodup) (hnt : t ∉ fs.map Prod.fst) (hsum : (fs.map Prod.snd).sum ≤ r) :
    ∃ M' : Auction κ α, Run (fun _ => Allowed cross) step M (fs.map fun f => .fill t f.1 f.2) M' ∧
      M' t = live a (r - (fs.map Prod.snd).sum) ∧ (∀ f ∈ fs, M' f.1 = reduce (M f.1) f.2) ∧
      ∀ k, k ≠ t → k ∉ fs.map Prod.fst → M' k = M k := by
  induction fs generalizing M r with
  | nil => exact ⟨M, .nil, by simpa using ht, by simp, fun _ _ _ => rfl⟩
  | cons f fs ih =>
    simp only [List.map_cons, List.nodup_cons, List.mem_cons, not_or,
      List.sum_cons] at hn hnt hsum ⊢
    obtain ⟨hpos, y, hy, hcross, hle⟩ := hfs f (.head _)
    have hrest : 0 ≤ (fs.map Prod.snd).sum := List.sum_nonneg fun q hq => by
      obtain ⟨g, hg, rfl⟩ := List.mem_map.1 hq
      exact (hfs g (.tail _ hg)).1.le
    have hstands : M t = some ⟨a, r⟩ := by rw [ht, live_pos (by omega)]
    -- the others are as they were, and the offer has so much less left
    have hother : ∀ k, k ≠ t → k ≠ f.1 → step M (.fill t f.1 f.2) k = M k := fun k hk hkf => by
      rw [step, Function.update_of_ne hkf, Function.update_of_ne hk]
    have hself : step M (.fill t f.1 f.2) t = live a (r - f.2) := by
      rw [step, Function.update_of_ne hnt.1, Function.update_self, ht, reduce_live hpos.le]
    have hmaker : step M (.fill t f.1 f.2) f.1 = reduce (M f.1) f.2 := Function.update_self ..
    have hkeep : ∀ g ∈ fs, step M (.fill t f.1 f.2) g.1 = M g.1 := fun g hg =>
      hother g.1 (fun e => hnt.2 (e ▸ List.mem_map_of_mem hg))
        fun e => hn.1 (e ▸ List.mem_map_of_mem hg)
    obtain ⟨M', hrun, hM't, hM'f, hM'k⟩ := ih hself
      (fun g hg => by rw [hkeep g hg]; exact hfs g (.tail _ hg)) hn.2 hnt.2 (by omega)
    have hfirst : Run (fun _ => Allowed cross) step M ([] ++ [.fill t f.1 f.2])
        (step M (.fill t f.1 f.2)) :=
      .snoc _ .nil ⟨hnt.1, hpos, _, y, hstands, hy, hcross, by show f.2 ≤ r; omega, hle⟩
    refine ⟨M', hfirst.trans hrun, ?_, fun g hg => ?_, fun k hk hkf => ?_⟩
    · rw [hM't, Int.sub_sub]
    · rcases hg with rfl | hg
      · rw [hM'k _ (Ne.symm hnt.1) hn.1, hmaker]
      · rw [hM'f g hg, hkeep g hg]
    · rw [hM'k k hk hkf.2, hother k hk hkf.1]

end

end Auction

end Lib
