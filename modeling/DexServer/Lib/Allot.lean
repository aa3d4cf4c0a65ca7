import Mathlib.Algebra.Order.BigOperators.Group.List
import Mathlib.Algebra.Order.Ring.Int
import Mathlib.Data.List.Nodup
import Mathlib.Data.List.Pairwise

/-!
# Handing out an amount along a list

`allot cap stop r xs`: the elements of `xs` take in turn what they can (`cap`) of the amount `r`.
With `stop` it ends when nothing is left; without it the rest of the list is visited in vain.

`Respects`: the visits go by a priority (`lexLt cost time`: least cost first, then least time), and
nobody is visited while somebody of better priority still could take something.

* `respects_all`: without `stop`, if and only if the list goes by the priority and `r` serves
  everybody but those of the last rank.
* `respects_sorted`: with `stop`, always, along a list that goes by the priority.
* `respects_swapped`: with `stop`, along a list that goes by time first, if and only if `r` is used
  up before any element that a later one has a better priority than (or, if the later one can take
  nothing, before that one).
-/

namespace Lib

variable {α : Type}

/-- Less in `f`, or equal in `f` and less in `g`. -/
def lexLt (f g : α → Int) (a b : α) : Prop := f a < f b ∨ (f a = f b ∧ g a < g b)

instance (f g : α → Int) (a b : α) : Decidable (lexLt f g a b) :=
  inferInstanceAs (Decidable (_ ∨ _))

section
variable {f g : α → Int} {a b c : α}

theorem not_lexLt : ¬lexLt f g b a ↔ f a < f b ∨ (f a = f b ∧ g a ≤ g b) := by
  unfold lexLt
  omega

theorem lexLt_asymm (h : lexLt f g a b) : ¬lexLt f g b a := by
  unfold lexLt at h ⊢
  omega

theorem not_lexLt_trans (h₁ : ¬lexLt f g b a) (h₂ : ¬lexLt f g c b) : ¬lexLt f g c a := by
  unfold lexLt at h₁ h₂ ⊢
  omega

theorem lexLt_swapped (h : lexLt f g b a) (h' : ¬lexLt g f b a) : f b < f a ∧ g a < g b := by
  unfold lexLt at h h'
  omega

end

/-- The elements take in turn what they can of `r`. -/
def allot (cap : α → Int) (stop : Bool) : Int → List α → List (α × Int)
  | _, [] => []
  | r, x :: xs => (x, min r (cap x)) ::
      if stop ∧ r ≤ cap x then [] else allot cap stop (r - min r (cap x)) xs

section
variable {cap : α → Int} {stop : Bool} {r : Int} {xs pre rest : List α}

theorem allot_visits : ∀ (xs : List α) (r : Int), (allot cap stop r xs).map Prod.fst <+: xs
  | [], _ => List.prefix_rfl
  | x :: xs, r => by
    unfold allot
    split
    · simp
    · simpa using allot_visits xs (r - min r (cap x))

theorem allot_visits_all : ∀ (xs : List α) (r : Int), (allot cap false r xs).map Prod.fst = xs
  | [], _ => rfl
  | x :: xs, r => by
    have ih := allot_visits_all xs (r - min r (cap x))
    simp [allot, ih]

theorem allot_append (h : (pre.map cap).sum < r ∨ stop = false ∧ (pre.map cap).sum ≤ r)
    (hc : ∀ x ∈ pre, 0 ≤ cap x) : allot cap stop r (pre ++ rest) =
      pre.map (fun x => (x, cap x)) ++ allot cap stop (r - (pre.map cap).sum) rest := by
  induction pre generalizing r with
  | nil => simp
  | cons x pre ih =>
    have hx := hc x (.head _)
    have hpre : 0 ≤ (pre.map cap).sum := List.sum_nonneg fun y hy => by
      obtain ⟨z, hz, rfl⟩ := List.mem_map.1 hy
      exact hc z (.tail _ hz)
    simp only [List.map_cons, List.sum_cons] at h
    have hmin : min r (cap x) = cap x := by omega
    have hgo : ¬(stop = true ∧ r ≤ cap x) := by
      intro ⟨hs, hle⟩
      rcases h with h | ⟨h, -⟩
      · omega
      · rw [hs] at h
        cases h
    have hrest : (pre.map cap).sum < r - cap x ∨ stop = false ∧ (pre.map cap).sum ≤ r - cap x :=
      h.imp (fun h => by omega) fun h => ⟨h.1, by omega⟩
    have ih := ih hrest fun y hy => hc y (.tail _ hy)
    rw [List.cons_append, allot, if_neg hgo, hmin, ih, List.map_cons, List.map_cons,
      List.sum_cons, List.cons_append, Int.sub_sub]

theorem allot_done (hr : 0 < r) (h : r ≤ (pre.map cap).sum) :
    allot cap true r (pre ++ rest) = allot cap true r pre := by
  induction pre generalizing r with
  | nil =>
    simp only [List.map_nil, List.sum_nil] at h
    omega
  | cons x pre ih =>
    rw [List.cons_append, allot, allot]
    split
    · rfl
    · rename_i hgo
      have hlt : cap x < r := by simpa using hgo
      simp only [List.map_cons, List.sum_cons] at h
      rw [ih (r := r - min r (cap x)) (by omega) (by omega)]

theorem allot_bounds (stop : Bool) (hc : ∀ x ∈ xs, 0 ≤ cap x) (hr : 0 ≤ r) :
    (∀ e ∈ allot cap stop r xs, 0 ≤ e.2 ∧ e.2 ≤ cap e.1) ∧
      ((allot cap stop r xs).map Prod.snd).sum ≤ r := by
  induction xs generalizing r with
  | nil => simpa [allot] using hr
  | cons x xs ih =>
    have hx := hc x (.head _)
    unfold allot
    split
    · refine ⟨fun e he => ?_, ?_⟩
      · rw [List.mem_singleton.1 he]
        dsimp only
        omega
      · simp only [List.map_cons, List.map_nil, List.sum_cons, List.sum_nil]
        omega
    · obtain ⟨h1, h2⟩ := ih (r := r - min r (cap x)) (fun y hy => hc y (.tail _ hy)) (by omega)
      refine ⟨fun e he => ?_, ?_⟩
      · rcases List.mem_cons.1 he with rfl | he
        · dsimp only
          omega
        · exact h1 e he
      · simp only [List.map_cons, List.sum_cons]
        omega

theorem allot_sum (hc : ∀ x ∈ xs, 0 ≤ cap x) (hr : 0 ≤ r) :
    ((allot cap stop r xs).map Prod.snd).sum = min r (xs.map cap).sum := by
  induction xs generalizing r with
  | nil => simpa [allot] using hr
  | cons x xs ih =>
    have hx := hc x (.head _)
    have hxs : 0 ≤ (xs.map cap).sum := List.sum_nonneg fun y hy => by
      obtain ⟨z, hz, rfl⟩ := List.mem_map.1 hy
      exact hc z (.tail _ hz)
    have ih := ih (r := r - min r (cap x)) (fun y hy => hc y (.tail _ hy)) (by omega)
    unfold allot
    split
    · simp only [List.map_cons, List.map_nil, List.sum_cons, List.sum_nil]
      omega
    · simp only [List.map_cons, List.sum_cons, ih]
      omega

theorem allot_pos (hc : ∀ x ∈ xs, 0 < cap x) (hr : 0 < r) :
    ∀ e ∈ allot cap true r xs, 0 < e.2 := by
  induction xs generalizing r with
  | nil => simp [allot]
  | cons x xs ih =>
    have hx := hc x (.head _)
    intro e he
    unfold allot at he
    rcases List.mem_cons.1 he with rfl | he
    · dsimp only
      omega
    · split at he
      · cases he
      · exact ih (fun y hy => hc y (.tail _ hy)) (by simp at *; omega) e he

theorem allot_reached (hr : 0 < r) {i : Nat} (hi : i < (allot cap true r xs).length) :
    ((xs.take i).map cap).sum < r := by
  induction xs generalizing r i with
  | nil => simp [allot] at hi
  | cons x xs ih =>
    cases i with
    | zero => simpa using hr
    | succ i =>
      unfold allot at hi
      split at hi
      · simp at hi
      · rename_i hgo
        have hlt : cap x < r := by simpa using hgo
        have ih := ih (r := r - min r (cap x)) (by omega) (i := i) (by simpa using hi)
        simp only [List.take_succ_cons, List.map_cons, List.sum_cons]
        omega

theorem sum_lt_of_visited (hr : 0 < r) {a : α} (hn : (pre ++ a :: rest).Nodup)
    (ha : a ∈ (allot cap true r (pre ++ a :: rest)).map Prod.fst) : (pre.map cap).sum < r := by
  by_contra hle
  rw [allot_done hr (not_lt.1 hle)] at ha
  have hpre := (allot_visits pre r).subset ha
  exact (List.nodup_append.1 hn).2.2 a hpre a (.head _) rfl

end

/-! ## Priorities -/

section
variable {cap cost time : α → Int} {r : Int} {L : List α}

/-- The visits go by the priority, and leave nobody of better priority with something to take. -/
structure Respects (cap cost time : α → Int) (E : List (α × Int)) (L : List α) : Prop where
  visits : E.Pairwise fun e e' => ¬lexLt cost time e'.1 e.1
  serves : ∀ e ∈ E, ∀ b ∈ L, lexLt cost time b e.1 → 0 < cap b → (b, cap b) ∈ E

theorem sum_filter_le {D : α → Bool} : ∀ {E : List (α × Int)}, (∀ e ∈ E, 0 ≤ e.2) →
    (∀ e ∈ E, D e.1 = true → e.2 = cap e.1) →
    (((E.map Prod.fst).filter D).map cap).sum ≤ (E.map Prod.snd).sum
  | [], _, _ => by simp
  | e :: E, h0, hD => by
    have ih := sum_filter_le (fun e he => h0 e (.tail _ he)) fun e he => hD e (.tail _ he)
    have h0e := h0 e (.head _)
    simp only [List.map_cons, List.sum_cons]
    cases hd : D e.1 with
    | true =>
      have := hD e (.head _) hd
      simp only [List.filter_cons_of_pos, hd, List.map_cons, List.sum_cons]
      omega
    | false =>
      simp only [hd, List.filter_cons_of_neg, Bool.false_eq_true, not_false_eq_true]
      omega

theorem sum_le_of_sublist {l l' : List α} (h : l.Sublist l') (hc : ∀ x ∈ l', 0 ≤ cap x) :
    (l.map cap).sum ≤ (l'.map cap).sum := by
  refine (h.map cap).sum_le_sum fun x hx => ?_
  obtain ⟨y, hy, rfl⟩ := List.mem_map.1 hx
  exact hc y hy

/-- A list in which `p` never comes back is what satisfies `p` and then the rest. -/
theorem filter_append_filter_not {p : α → Bool} : ∀ {l : List α},
    l.Pairwise (fun x y => p y = true → p x = true) → l.filter p ++ l.filter (!p ·) = l
  | [], _ => rfl
  | x :: l, h => by
    rw [List.pairwise_cons] at h
    have ih := filter_append_filter_not h.2
    cases hx : p x with
    | true => simp [hx, ih]
    | false =>
      have hnone : l.filter p = [] := List.filter_eq_nil_iff.2 fun y hy hp => by
        have := h.1 y hy hp
        rw [hx] at this
        cases this
      rw [hnone, List.nil_append] at ih
      simp [hx, hnone, ih]

theorem pairwise_total {R : α → α → Prop} {l : List α} (h : l.Pairwise R) (hr : ∀ x, R x x)
    {a b : α} (ha : a ∈ l) (hb : b ∈ l) : R a b ∨ R b a := by
  have hsymm : Std.Symm fun x y => R x y ∨ R y x := ⟨fun _ _ h => h.symm⟩
  exact (h.imp fun h => Or.inl h).forall_of_forall (R := fun x y => R x y ∨ R y x)
    (fun x _ => .inl (hr x)) ha hb

theorem respects_all (hr : 0 ≤ r) (hn : L.Nodup) (hc : ∀ x ∈ L, 0 ≤ cap x) :
    Respects cap cost time (allot cap false r L) L ↔
      L.Pairwise (fun a b => ¬lexLt cost time b a) ∧
        ((L.filter fun x => ∃ a ∈ L, lexLt cost time x a).map cap).sum ≤ r := by
  have hfst : (allot cap false r L).map Prod.fst = L := allot_visits_all L r
  have hsorted : (allot cap false r L).Pairwise (fun e e' => ¬lexLt cost time e'.1 e.1) ↔
      L.Pairwise (fun a b => ¬lexLt cost time b a) := by
    conv_rhs => rw [← hfst, List.pairwise_map]
  constructor
  · intro h
    refine ⟨hsorted.1 h.visits, ?_⟩
    obtain ⟨hb, hsum⟩ := allot_bounds false hc hr
    refine le_trans ?_ hsum
    conv_lhs => rw [← hfst]
    refine sum_filter_le (fun e he => (hb e he).1) fun e he hD => ?_
    -- everybody is visited, so whoever is ranked above somebody takes all it can
    simp only [hfst, decide_eq_true_eq] at hD
    obtain ⟨a, ha, hlt⟩ := hD
    obtain ⟨e', he', rfl⟩ := List.mem_map.1 (hfst.symm ▸ ha)
    rcases lt_or_ge 0 (cap e.1) with hpos | hpos
    · have hfull := h.serves e' he' e.1 (hfst ▸ List.mem_map_of_mem he) hlt hpos
      exact congrArg Prod.snd (List.inj_on_of_nodup_map (hfst.symm ▸ hn) he hfull rfl)
    · have := hb e he
      omega
  · rintro ⟨hs, hsum⟩
    refine ⟨hsorted.2 hs, fun e he b hb hlt _ => ?_⟩
    have hel : e.1 ∈ L := hfst ▸ List.mem_map_of_mem he
    obtain ⟨pre, post, rfl⟩ := List.append_of_mem hb
    have hpre : (pre ++ [b]).Sublist
        ((pre ++ b :: post).filter fun x => ∃ a ∈ pre ++ b :: post, lexLt cost time x a) := by
      have hall : ∀ x ∈ pre ++ [b], lexLt cost time x e.1 := by
        intro x hx
        rcases List.mem_append.1 hx with hx | hx
        · have hxb := (List.pairwise_append.1 hs).2.2 x hx b (.head _)
          unfold lexLt at hxb hlt ⊢
          omega
        · rw [List.mem_singleton.1 hx]
          exact hlt
      have hfilter : (pre ++ [b]).filter (fun x => ∃ a ∈ pre ++ b :: post, lexLt cost time x a) =
          pre ++ [b] :=
        List.filter_eq_self.2 fun x hx => decide_eq_true ⟨e.1, hel, hall x hx⟩
      rw [← hfilter]
      exact List.Sublist.filter _ (List.Sublist.append_left (by simp) _)
    have hle := (sum_le_of_sublist hpre fun x hx => hc x (List.mem_of_mem_filter hx)).trans hsum
    rw [List.append_cons, allot_append (.inr ⟨rfl, hle⟩) fun x hx => hc x (by simp at hx ⊢; tauto)]
    exact List.mem_append_left _ (List.mem_map.2 ⟨b, by simp, rfl⟩)

theorem served_before (hr : 0 < r) (hn : L.Nodup) (hc : ∀ x ∈ L, 0 ≤ cap x) {pre post : List α}
    {a : α} (hL : L = pre ++ a :: post) (ha : a ∈ (allot cap true r L).map Prod.fst) :
    (pre.map cap).sum < r ∧ ∀ b ∈ pre, (b, cap b) ∈ allot cap true r L := by
  subst hL
  have hlt := sum_lt_of_visited hr hn ha
  refine ⟨hlt, fun b hb => ?_⟩
  rw [allot_append (.inl hlt) fun x hx => hc x (List.mem_append_left _ hx)]
  exact List.mem_append_left _ (List.mem_map.2 ⟨b, hb, rfl⟩)

theorem respects_sorted (hr : 0 < r) (hn : L.Nodup) (hc : ∀ x ∈ L, 0 ≤ cap x)
    (hs : L.Pairwise fun a b => ¬lexLt cost time b a) :
    Respects cap cost time (allot cap true r L) L := by
  have hv : (allot cap true r L).map Prod.fst <+: L := allot_visits L r
  refine ⟨List.pairwise_map.1 (hs.sublist hv.sublist), fun e he b hb hlt _ => ?_⟩
  have ha := List.mem_map_of_mem (f := Prod.fst) he
  obtain ⟨pre, post, hL⟩ := List.append_of_mem (hv.subset ha)
  refine (served_before hr hn hc hL ha).2 b ?_
  rw [hL] at hb hs
  rcases List.mem_append.1 hb with hb | hb
  · exact hb
  · -- nothing ranked above `e` comes after it
    rcases List.mem_cons.1 hb with rfl | hb
    · unfold lexLt at hlt
      omega
    · exact absurd hlt ((List.pairwise_cons.1 (List.pairwise_append.1 hs).2.1).1 b hb)

section
variable (hs : L.Pairwise fun a b => ¬lexLt time cost b a)
include hs

/-- If `r` is not used up before `a`, the first of `a`'s rank in the list is visited. -/
theorem visited_of_sum_lt (hc : ∀ x ∈ L, 0 ≤ cap x) {a : α} (ha : a ∈ L)
    (hlt : ((L.filter fun x => lexLt time cost x a).map cap).sum < r) :
    ∃ a' ∈ (allot cap true r L).map Prod.fst, time a' = time a ∧ cost a' = cost a := by
  have hsplit : L.filter (fun x => lexLt time cost x a) ++
      L.filter (fun x => !decide (lexLt time cost x a)) = L := by
    refine filter_append_filter_not (hs.imp ?_)
    intro x y hxy hy
    simp only [decide_eq_true_eq] at hy ⊢
    unfold lexLt at hxy hy ⊢
    omega
  generalize hL₁ : L.filter (fun x => decide (lexLt time cost x a)) = L₁ at hsplit hlt
  generalize hL₂ : L.filter (fun x => !decide (lexLt time cost x a)) = L₂ at hsplit
  have hmem : ∀ x, x ∈ L₂ ↔ x ∈ L ∧ ¬lexLt time cost x a := by
    intro x
    rw [← hL₂]
    simp
  have ha₂ : a ∈ L₂ := (hmem a).2 ⟨ha, by unfold lexLt; omega⟩
  cases L₂ with
  | nil => cases ha₂
  | cons a' rest =>
    refine ⟨a', ?_, ?_⟩
    · have hL₁c : ∀ x ∈ L₁, 0 ≤ cap x := fun x hx => hc x (hsplit ▸ List.mem_append_left _ hx)
      rw [← hsplit, allot_append (.inl hlt) hL₁c]
      simp [allot]
    · have h1 := ((hmem a').1 (.head _)).2
      have h2 : ¬lexLt time cost a a' := by
        rcases List.mem_cons.1 ha₂ with rfl | ha₂
        · exact h1
        · rw [← hsplit] at hs
          exact (List.pairwise_cons.1 (List.pairwise_append.1 hs).2.1).1 a ha₂
      unfold lexLt at h1 h2
      omega

theorem sum_before_lt (hr : 0 < r) (hn : L.Nodup) (hc : ∀ x ∈ L, 0 ≤ cap x) {a : α}
    (ha : a ∈ (allot cap true r L).map Prod.fst) :
    ((L.filter fun x => lexLt time cost x a).map cap).sum < r := by
  obtain ⟨pre, post, hL⟩ := List.append_of_mem ((allot_visits L r).subset ha)
  have hlt := (served_before hr hn hc hL ha).1
  have hpost : (a :: post).filter (fun x => lexLt time cost x a) = [] := by
    refine List.filter_eq_nil_iff.2 fun x hx hxa => ?_
    simp only [decide_eq_true_eq] at hxa
    rcases List.mem_cons.1 hx with rfl | hx
    · unfold lexLt at hxa
      omega
    · rw [hL] at hs
      exact (List.pairwise_cons.1 (List.pairwise_append.1 hs).2.1).1 x hx hxa
  rw [hL, List.filter_append, hpost, List.append_nil]
  refine lt_of_le_of_lt (sum_le_of_sublist List.filter_sublist fun x hx => hc x ?_) hlt
  rw [hL]
  exact List.mem_append_left _ hx

theorem respects_swapped (hr : 0 < r) (hn : L.Nodup) (hc : ∀ x ∈ L, 0 ≤ cap x) :
    Respects cap cost time (allot cap true r L) L ↔
      ∀ a ∈ L, ∀ b ∈ L, cost b < cost a → time a < time b →
        r ≤ ((L.filter fun x => lexLt time cost x a).map cap).sum ∨
        (cap b = 0 ∧ r ≤ ((L.filter fun x => lexLt time cost x b).map cap).sum) := by
  have hv : (allot cap true r L).map Prod.fst <+: L := allot_visits L r
  have hE := hs.sublist hv.sublist
  constructor
  · intro h a ha b hb hcost htime
    by_contra hno
    obtain ⟨hlta, hnb⟩ := not_or.1 hno
    obtain ⟨a', ha', hta, hca⟩ := visited_of_sum_lt hs hc ha (not_le.1 hlta)
    -- somebody of the rank of `b` is visited as well
    obtain ⟨b', hb', htb, hcb⟩ : ∃ b' ∈ (allot cap true r L).map Prod.fst,
        time b' = time b ∧ cost b' = cost b := by
      by_cases h0 : cap b = 0
      · exact visited_of_sum_lt hs hc hb (not_le.1 fun hle => hnb ⟨h0, hle⟩)
      · obtain ⟨e, he, rfl⟩ := List.mem_map.1 ha'
        have hbetter : lexLt cost time b e.1 := by
          unfold lexLt
          omega
        have hpos : 0 < cap b := lt_of_le_of_ne (hc b hb) (Ne.symm h0)
        exact ⟨b, List.mem_map.2 ⟨_, h.serves e he b hb hbetter hpos, rfl⟩, rfl, rfl⟩
    -- one of the two visits comes first: the first breaks the priority, the other the list's order
    have hvis : ((allot cap true r L).map Prod.fst).Pairwise fun x y => ¬lexLt cost time y x :=
      List.pairwise_map.2 h.visits
    have htotal := pairwise_total (hvis.and hE) (fun x => by unfold lexLt; omega) ha' hb'
    unfold lexLt at htotal
    omega
  · intro h
    refine ⟨?_, fun e he b hb hlt hpos => ?_⟩
    · have hvis : ((allot cap true r L).map Prod.fst).Pairwise fun a b => ¬lexLt cost time b a := by
        refine hE.imp_of_mem ?_
        intro a b ha hb hab hlt
        have hsa := sum_before_lt hs hr hn hc ha
        have hsb := sum_before_lt hs hr hn hc hb
        have := h a (hv.subset ha) b (hv.subset hb)
        unfold lexLt at hab hlt
        omega
      exact List.pairwise_map.1 hvis
    · have ha := List.mem_map_of_mem (f := Prod.fst) he
      obtain ⟨pre, post, hL⟩ := List.append_of_mem (hv.subset ha)
      refine (served_before hr hn hc hL ha).2 b ?_
      have hsa := sum_before_lt hs hr hn hc ha
      have hno := h e.1 (hv.subset ha) b hb
      rw [hL] at hb hs
      rcases List.mem_append.1 hb with hb | hb
      · exact hb
      · rcases List.mem_cons.1 hb with rfl | hb
        · unfold lexLt at hlt
          omega
        · have := (List.pairwise_cons.1 (List.pairwise_append.1 hs).2.1).1 b hb
          unfold lexLt at this hlt
          omega

end

end

end Lib
