import Mathlib.Data.List.Dedup
import Mathlib.Data.List.Sort

/-!
# Grouping a list by a key

`groups key l` has one entry for each key that occurs: the key and the elements with it, in the
order of `l`. The order of the groups themselves is not meant to matter.

* `groups_map_perm`: what is computed of each group, whatever the order of its elements, does not
  depend on the order of `l`.
* `insertionSort_eq_of_perm`: sorted by distinct keys, there is one order.
-/

namespace Lib

section
variable {α β κ : Type} [DecidableEq κ] {key : α → κ} {l l' : List α}

def groups (key : α → κ) (l : List α) : List (κ × List α) :=
  (l.map key).dedup.map fun k => (k, l.filter (key · = k))

theorem mem_groups {k : κ} {g : List α} :
    (k, g) ∈ groups key l ↔ (∃ a ∈ l, key a = k) ∧ g = l.filter (key · = k) := by
  simp only [groups, List.mem_map, List.mem_dedup, Prod.mk.injEq]
  constructor
  · rintro ⟨k, ha, rfl, rfl⟩
    exact ⟨ha, rfl⟩
  · rintro ⟨ha, rfl⟩
    exact ⟨k, ha, rfl, rfl⟩

theorem groups_keys : (groups key l).map Prod.fst = (l.map key).dedup := by
  simp [groups, Function.comp_def]

theorem groups_nodup : ((groups key l).map Prod.fst).Nodup := by
  rw [groups_keys]
  exact List.nodup_dedup _

theorem groups_map (f : β → α) (l : List β) :
    groups key (l.map f) = (groups (key ∘ f) l).map fun g => (g.1, g.2.map f) := by
  simp [groups, List.filter_map, Function.comp_def]

theorem groups_of_const {k : κ} (h : ∀ a ∈ l, key a = k) (hne : l ≠ []) :
    groups key l = [(k, l)] := by
  have hkeys : (l.map key).dedup = [k] := by
    rw [List.map_congr_left h, List.map_const', List.replicate_dedup]
    simpa using hne
  have hfilter : l.filter (key · = k) = l := by
    apply List.filter_eq_self.2
    intro a ha
    simpa using h a ha
  simp [groups, hkeys, hfilter]

theorem groups_map_perm {f : List α → β} (hf : ∀ a b : List α, a.Perm b → f a = f b)
    (h : l.Perm l') : ((groups key l).map fun g => (g.1, f g.2)).Perm
    ((groups key l').map fun g => (g.1, f g.2)) := by
  have hgroup : ∀ k, f (l.filter (key · = k)) = f (l'.filter (key · = k)) := by
    intro k
    exact hf _ _ (h.filter _)
  simp only [groups, List.map_map, Function.comp_def, hgroup]
  exact ((h.map key).dedup).map _

theorem lookup_eq_some {l : List (κ × β)} (hkeys : (l.map Prod.fst).Nodup) {k : κ} {b : β} :
    l.lookup k = some b ↔ (k, b) ∈ l := by
  induction l with
  | nil => simp
  | cons x l ih =>
    obtain ⟨k', b'⟩ := x
    rw [List.map_cons, List.nodup_cons] at hkeys
    by_cases hk : k = k'
    · subst hk
      have hnot : (k, b) ∉ l := by
        intro h
        exact hkeys.1 (List.mem_map.2 ⟨_, h, rfl⟩)
      simp [hnot, eq_comm]
    · have hne : (k == k') = false := by simpa using hk
      simp [List.lookup_cons, hne, hk, ih hkeys.2]

/-- The groups of the keys `ks`, in their order. -/
def groupsIn (ks : List κ) (key : α → κ) (l : List α) : List (κ × List α) :=
  ks.map fun k => (k, l.filter (key · = k))

theorem flatMap_filter_perm {ks : List κ} (hks : ks.Nodup) (key : α → κ) (l : List α) :
    (ks.flatMap fun k => l.filter (key · = k)).Perm (l.filter (key · ∈ ks)) := by
  induction ks with
  | nil => simp
  | cons k ks ih =>
    obtain ⟨hk, hks⟩ := List.nodup_cons.1 hks
    rw [List.flatMap_cons]
    refine ((ih hks).append_left _).trans ?_
    have hfirst : l.filter (key · = k) = (l.filter (key · ∈ k :: ks)).filter (key · = k) := by
      rw [List.filter_filter]
      apply List.filter_congr
      intro a _
      by_cases ha : key a = k <;> simp [ha]
    have hrest : l.filter (key · ∈ ks) = (l.filter (key · ∈ k :: ks)).filter
        fun a => !decide (key a = k) := by
      rw [List.filter_filter]
      apply List.filter_congr
      intro a _
      by_cases ha : key a = k
      · simp [ha, hk]
      · simp [ha]
    rw [hfirst, hrest]
    exact List.filter_append_perm _ _

end

section
variable {α κ : Type} {le : κ → κ → Prop} [DecidableRel le]

theorem insertionSort_eq_of_perm [Std.Total le] [IsTrans κ le] [Std.Antisymm le]
    {l l' : List (κ × α)} (h : l.Perm l') (hkeys : (l.map Prod.fst).Nodup) :
    l.insertionSort (fun a b => le a.1 b.1) = l'.insertionSort fun a b => le a.1 b.1 := by
  have : Std.Total fun a b : κ × α => le a.1 b.1 := ⟨fun a b => Std.Total.total a.1 b.1⟩
  have : IsTrans (κ × α) fun a b => le a.1 b.1 := ⟨fun a b c => IsTrans.trans a.1 b.1 c.1⟩
  have hperm := List.perm_insertionSort (fun a b : κ × α => le a.1 b.1) l
  have hperm' := List.perm_insertionSort (fun a b : κ × α => le a.1 b.1) l'
  apply List.Perm.eq_of_pairwise ?_ (List.pairwise_insertionSort _ l)
    (List.pairwise_insertionSort _ l') ((hperm.trans h).trans hperm'.symm)
  intro a b ha hb hab hba
  have ha : a ∈ l := hperm.mem_iff.1 ha
  have hb : b ∈ l := h.mem_iff.2 (hperm'.mem_iff.1 hb)
  exact List.inj_on_of_nodup_map hkeys ha hb (antisymm hab hba)

end

end Lib
