import Mathlib.Data.List.Nodup
import Mathlib.Tactic.Common

/-!
# Documents

A document holds values under names. `setAll` writes the fields of one document into another,
`upsert` is the update of a document store: `$set` changes a document that is there, and where there
is none one is made of the query, `$set` and `$setOnInsert`.

* `get_upsert_some`, `get_upsert_none`: what is under a name after an upsert.
-/

namespace Lib

/-- The fields of a document. -/
abbrev Fields (α : Type) := List (String × α)

namespace Fields

variable {α : Type}

/-- The value under a name. -/
def get (d : Fields α) (k : String) : Option α := List.lookup k d

/-- Write a value under a name. -/
def set (k : String) (v : α) : Fields α → Fields α
  | [] => [(k, v)]
  | p :: d => if k = p.1 then (k, v) :: d else p :: set k v d

/-- Write the fields of `s`, one after the other. -/
def setAll (d s : Fields α) : Fields α := List.foldl (fun d p => set p.1 p.2 d) d s

/-- The names, each of which may be used once. -/
def names (d : Fields α) : List String := List.map Prod.fst d

/-- The document after an upsert. -/
def upsert (query set setOnInsert : Fields α) : Option (Fields α) → Fields α
  | some d => d.setAll set
  | none => (query.setAll set).setAll setOnInsert

@[simp] theorem get_nil (k : String) : get ([] : Fields α) k = none := rfl

@[simp] theorem get_cons_self (k : String) (v : α) (d : Fields α) : get ((k, v) :: d) k = some v :=
  List.lookup_cons_self

theorem get_cons_ne {k k' : String} (h : k ≠ k') (v : α) (d : Fields α) :
    get ((k', v) :: d) k = get d k := by
  have hb : (k == k') = false := by simpa using h
  rw [get, get, List.lookup_cons, hb]

theorem get_set_self (k : String) (v : α) (d : Fields α) : get (set k v d) k = some v := by
  induction d with
  | nil => exact get_cons_self k v []
  | cons p d ih =>
    by_cases h : k = p.1
    · rw [set, if_pos h]
      exact get_cons_self k v d
    · rw [set, if_neg h]
      exact (get_cons_ne h p.2 _).trans ih

theorem get_set_ne {k k' : String} (h : k ≠ k') (v : α) (d : Fields α) :
    get (set k' v d) k = get d k := by
  induction d with
  | nil => exact get_cons_ne h v []
  | cons p d ih =>
    by_cases hp : k' = p.1
    · rw [set, if_pos hp]
      subst hp
      exact (get_cons_ne h v d).trans (get_cons_ne h p.2 d).symm
    · rw [set, if_neg hp]
      by_cases hk : k = p.1
      · subst hk
        exact (get_cons_self p.1 p.2 _).trans (get_cons_self p.1 p.2 d).symm
      · exact (get_cons_ne hk p.2 _).trans (ih.trans (get_cons_ne hk p.2 d).symm)

theorem get_eq_none {d : Fields α} {k : String} (h : k ∉ d.names) : d.get k = none := by
  refine List.lookup_eq_none_iff.2 fun p hp => ?_
  have hne : k ≠ p.1 := fun e => h (List.mem_map.2 ⟨p, hp, e.symm⟩)
  simpa using hne

theorem names_set_of_mem {k : String} (v : α) {d : Fields α} (h : k ∈ d.names) :
    (set k v d).names = d.names := by
  induction d with
  | nil => cases h
  | cons p d ih =>
    by_cases hk : k = p.1
    · rw [set, if_pos hk]
      simp [names, hk]
    · have hd : k ∈ names d := by
        rcases List.mem_cons.1 h with hp | hd
        · exact absurd hp hk
        · exact hd
      rw [set, if_neg hk]
      show p.1 :: names (set k v d) = p.1 :: names d
      rw [ih hd]

theorem get_setAll {s : Fields α} (hs : s.names.Nodup) (d : Fields α) (k : String) :
    (d.setAll s).get k = (s.get k).or (d.get k) := by
  induction s generalizing d with
  | nil => rfl
  | cons p s ih =>
    obtain ⟨hp, hs⟩ := List.nodup_cons.1 hs
    have htail : (setAll d (p :: s)).get k = (get s k).or ((set p.1 p.2 d).get k) := ih hs _
    by_cases hk : k = p.1
    · subst hk
      have hself : get (p :: s) p.1 = some p.2 := get_cons_self p.1 p.2 s
      rw [htail, get_eq_none hp, get_set_self, hself]
      rfl
    · have hne : get (p :: s) k = get s k := get_cons_ne hk p.2 s
      rw [htail, get_set_ne hk, hne]

section
variable {query set' setOnInsert : Fields α}

theorem get_upsert_some (hs : set'.names.Nodup) (d : Fields α) (k : String) :
    (upsert query set' setOnInsert (some d)).get k = (set'.get k).or (d.get k) := get_setAll hs d k

theorem get_upsert_none (hs : set'.names.Nodup) (hi : setOnInsert.names.Nodup) (k : String) :
    (upsert query set' setOnInsert none).get k =
      (setOnInsert.get k).or ((set'.get k).or (query.get k)) := by
  rw [upsert, get_setAll hi, get_setAll hs]

end

end Fields

end Lib
