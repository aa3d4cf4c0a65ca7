import Mathlib.Algebra.Order.BigOperators.Group.List
import Mathlib.Algebra.Order.Ring.Int
import Mathlib.Data.List.Nodup
import Mathlib.Data.List.Perm.Subperm

/-!
# Document collections with a unique index

`Coll key`: the documents of a collection on which `key` is a unique index, in the order the
store holds them. The index is a field, so no operation can put two documents under one key.

* `get`: the document under a key (`get_eq_some`: the one document with that key).
* `put`: replace the document with the same key, or insert (an upsert). `get_put_self`,
  `get_put_other` and `mem_put` say what it leaves.
  `sum_put_le` bounds a sum over documents.
* `updateWhere`: rewrite every document a query selects, keeping its key.
* `map`: rewrite every document, keeping its key (`map_put`: an upsert is rewritten with it).
-/

namespace Lib

theorem filter_key_eq {α κ : Type} [DecidableEq κ] {f : α → κ} {l : List α} (hn : (l.map f).Nodup)
    {a : α} (ha : a ∈ l) : l.filter (fun b => f b = f a) = [a] := by
  induction l with
  | nil => cases ha
  | cons b l ih =>
    simp only [List.map_cons, List.nodup_cons] at hn
    rcases List.mem_cons.1 ha with rfl | ha
    · have hl : l.filter (fun b => f b = f a) = [] :=
        List.filter_eq_nil_iff.2 fun c hc => by
          simpa using fun h => hn.1 (List.mem_map.2 ⟨c, hc, h⟩)
      simp [hl]
    · have hb : f b ≠ f a := fun h => hn.1 (List.mem_map.2 ⟨a, ha, h.symm⟩)
      simp [hb, ih hn.2 ha]

/-- The documents of a collection with a unique index on `key`. -/
structure Coll {κ ρ : Type} (key : ρ → κ) where
  docs : List ρ
  nodup : (docs.map key).Nodup

namespace Coll

variable {κ ρ : Type} {key : ρ → κ}

instance : Membership ρ (Coll key) := ⟨fun c d => d ∈ c.docs⟩

instance (c : Coll key) [DecidableEq ρ] (d : ρ) : Decidable (d ∈ c) :=
  inferInstanceAs (Decidable (d ∈ c.docs))

instance (c : Coll key) (p : ρ → Prop) [DecidablePred p] : Decidable (∀ d ∈ c, p d) :=
  inferInstanceAs (Decidable (∀ d ∈ c.docs, p d))

theorem mem_def {c : Coll key} {d : ρ} : d ∈ c ↔ d ∈ c.docs := Iff.rfl

/-- The collection without documents. -/
def empty : Coll key := ⟨[], List.nodup_nil⟩

@[simp] theorem not_mem_empty (d : ρ) : d ∉ (empty : Coll key) := List.not_mem_nil

theorem key_inj {c : Coll key} {d d' : ρ} (hd : d ∈ c) (hd' : d' ∈ c) (h : key d = key d') :
    d = d' :=
  List.inj_on_of_nodup_map c.nodup hd hd' h

theorem docs_nodup (c : Coll key) : c.docs.Nodup := List.Nodup.of_map _ c.nodup

theorem nodup_of_subperm {c : Coll key} {l : List ρ} (h : l.Subperm c.docs) :
    (l.map key).Nodup := by
  obtain ⟨l', hp, hs⟩ := h
  exact (hp.map key).nodup_iff.1 ((hs.map key).nodup c.nodup)

variable [DecidableEq κ]

/-- The document under `k`. -/
def get (c : Coll key) (k : κ) : Option ρ := c.docs.find? (key · = k)

@[simp] theorem get_empty (k : κ) : (empty : Coll key).get k = none := rfl

theorem get_eq_some {c : Coll key} {k : κ} {d : ρ} : c.get k = some d ↔ d ∈ c ∧ key d = k := by
  constructor
  · intro h
    exact ⟨List.mem_of_find?_eq_some h, by simpa using List.find?_some h⟩
  · rintro ⟨hd, rfl⟩
    cases h : c.get (key d) with
    | none =>
      have := List.find?_eq_none.1 h d hd
      simp at this
    | some d' =>
      have hk : key d' = key d := by simpa using List.find?_some h
      rw [key_inj (List.mem_of_find?_eq_some h) hd hk]

theorem get_eq_none {c : Coll key} {k : κ} : c.get k = none ↔ ∀ d ∈ c, key d ≠ k := by
  simp [get, mem_def]

theorem get_mem {c : Coll key} {d : ρ} (h : d ∈ c) : c.get (key d) = some d :=
  get_eq_some.2 ⟨h, rfl⟩

theorem get_key {c : Coll key} {k : κ} {d : ρ} (h : c.get k = some d) : key d = k :=
  (get_eq_some.1 h).2

theorem mem_of_get {c : Coll key} {k : κ} {d : ρ} (h : c.get k = some d) : d ∈ c :=
  (get_eq_some.1 h).1

theorem mem_congr {c c' : Coll key} {d : ρ} (h : c.get (key d) = c'.get (key d)) :
    d ∈ c ↔ d ∈ c' := by
  constructor <;> intro hd
  · exact mem_of_get (h ▸ get_mem hd)
  · exact mem_of_get (h ▸ get_mem hd)

/-! ## Upserts -/

/-- Replace the document with `d`'s key, or append `d`. -/
def putList (key : ρ → κ) (d : ρ) : List ρ → List ρ
  | [] => [d]
  | x :: xs => if key x = key d then d :: xs else x :: putList key d xs

theorem mem_putList {d x : ρ} : ∀ {l : List ρ}, (l.map key).Nodup →
    (x ∈ putList key d l ↔ x = d ∨ (x ∈ l ∧ key x ≠ key d))
  | [], _ => by simp [putList]
  | y :: ys, hn => by
    simp only [List.map_cons, List.nodup_cons] at hn
    unfold putList
    split
    · rename_i hy
      -- the replaced document is the only one with this key
      have hys : ∀ z ∈ ys, key z ≠ key d := fun z hz e =>
        hn.1 (hy ▸ e ▸ List.mem_map_of_mem hz)
      simp only [List.mem_cons]
      constructor
      · rintro (rfl | hx)
        · exact .inl rfl
        · exact .inr ⟨.inr hx, hys x hx⟩
      · rintro (rfl | ⟨rfl | hx, hk⟩)
        · exact .inl rfl
        · exact absurd hy hk
        · exact .inr hx
    · rename_i hy
      simp only [List.mem_cons, mem_putList hn.2]
      constructor
      · rintro (rfl | rfl | ⟨hx, hk⟩)
        · exact .inr ⟨.inl rfl, hy⟩
        · exact .inl rfl
        · exact .inr ⟨.inr hx, hk⟩
      · rintro (rfl | ⟨rfl | hx, hk⟩)
        · exact .inr (.inl rfl)
        · exact .inl rfl
        · exact .inr (.inr ⟨hx, hk⟩)

theorem putList_nodup {d : ρ} : ∀ {l : List ρ}, (l.map key).Nodup →
    ((putList key d l).map key).Nodup
  | [], _ => by simp [putList]
  | y :: ys, hn => by
    have hn' := hn
    simp only [List.map_cons, List.nodup_cons] at hn
    unfold putList
    split
    · rename_i hy
      simpa [hy] using hn'
    · rename_i hy
      rw [List.map_cons, List.nodup_cons]
      refine ⟨fun hm => ?_, putList_nodup hn.2⟩
      obtain ⟨z, hz, hzk⟩ := List.mem_map.1 hm
      rcases (mem_putList hn.2).1 hz with rfl | ⟨hz, -⟩
      · exact hy hzk.symm
      · exact hn.1 (hzk ▸ List.mem_map_of_mem hz)

theorem putList_absent {d : ρ} : ∀ {l : List ρ}, (∀ x ∈ l, key x ≠ key d) →
    putList key d l = l ++ [d]
  | [], _ => rfl
  | x :: l, h => by
    rw [putList, if_neg (h x (.head _)), putList_absent fun y hy => h y (.tail _ hy)]
    rfl

/-- Replace the document with `d`'s key, or insert `d`. -/
def put (c : Coll key) (d : ρ) : Coll key := ⟨putList key d c.docs, putList_nodup c.nodup⟩

theorem mem_put {c : Coll key} {d x : ρ} : x ∈ c.put d ↔ x = d ∨ (x ∈ c ∧ key x ≠ key d) :=
  mem_putList c.nodup

theorem get_put (c : Coll key) (d : ρ) (k : κ) :
    (c.put d).get k = if k = key d then some d else c.get k := by
  split
  · rename_i h
    exact get_eq_some.2 ⟨mem_put.2 (.inl rfl), h.symm⟩
  · rename_i h
    cases hg : c.get k with
    | none =>
      refine get_eq_none.2 fun x hx hk => ?_
      rcases mem_put.1 hx with rfl | ⟨hx, -⟩
      · exact h hk.symm
      · exact get_eq_none.1 hg x hx hk
    | some x =>
      obtain ⟨hx, rfl⟩ := get_eq_some.1 hg
      exact get_eq_some.2 ⟨mem_put.2 (.inr ⟨hx, h⟩), rfl⟩

@[simp] theorem get_put_self (c : Coll key) (d : ρ) : (c.put d).get (key d) = some d := by
  simp [get_put]

theorem get_put_other {c : Coll key} {d : ρ} {k : κ} (h : k ≠ key d) :
    (c.put d).get k = c.get k := by
  simp [get_put, h]

theorem putList_perm {d : ρ} : ∀ {l : List ρ}, (l.map key).Nodup →
    (putList key d l).Perm (d :: l.filter (key · ≠ key d))
  | [], _ => .refl _
  | x :: xs, hn => by
    simp only [List.map_cons, List.nodup_cons] at hn
    unfold putList
    split
    · rename_i hx
      have hxs : xs.filter (key · ≠ key d) = xs := by
        refine List.filter_eq_self.2 fun y hy => ?_
        have hne : key y ≠ key d := fun e => hn.1 (hx ▸ e ▸ List.mem_map_of_mem hy)
        simpa using hne
      rw [List.filter_cons_of_neg (by simpa using hx), hxs]
    · rename_i hx
      rw [List.filter_cons_of_pos (by simpa using hx)]
      exact ((putList_perm hn.2).cons x).trans (.swap d x _)

section
variable {M : Type} [AddCommMonoid M] [PartialOrder M] [IsOrderedAddMonoid M] {c : Coll key} {d : ρ}
  {p : ρ → Bool} {f : ρ → M}

/-- A sum over the selected documents after an upsert: the replaced document is no longer in it. -/
theorem sum_put_le (hf : ∀ x ∈ c.docs.filter p, 0 ≤ f x) :
    (((c.put d).docs.filter p).map f).sum ≤
      (if p d then f d else 0) + ((c.docs.filter p).map f).sum := by
  have hperm : (c.put d).docs.Perm (d :: c.docs.filter (key · ≠ key d)) := putList_perm c.nodup
  have hrest : (((c.docs.filter (key · ≠ key d)).filter p).map f).sum ≤
      ((c.docs.filter p).map f).sum := by
    refine (List.Sublist.map f (List.filter_sublist.filter p)).sum_le_sum fun x hx => ?_
    obtain ⟨y, hy, rfl⟩ := List.mem_map.1 hx
    exact hf y hy
  rw [((hperm.filter p).map f).sum_eq]
  by_cases hd : p d
  · rw [List.filter_cons_of_pos hd, if_pos hd, List.map_cons, List.sum_cons]
    exact add_le_add_right hrest (f d)
  · rw [List.filter_cons_of_neg hd, if_neg hd, zero_add]
    exact hrest

end

/-- Upserting the documents of a list one after another. -/
def putAll (c : Coll key) (ds : List ρ) : Coll key := ds.foldl put c

@[simp] theorem putAll_nil (c : Coll key) : c.putAll [] = c := rfl

@[simp] theorem putAll_cons (c : Coll key) (d : ρ) (ds : List ρ) :
    c.putAll (d :: ds) = (c.put d).putAll ds := rfl

theorem docs_putAll : ∀ {ds : List ρ} {c : Coll key}, ((c.docs ++ ds).map key).Nodup →
    (c.putAll ds).docs = c.docs ++ ds
  | [], c, _ => by simp
  | d :: ds, c, h => by
    have habsent : ∀ x ∈ c.docs, key x ≠ key d := by
      intro x hx hk
      rw [List.map_append, List.nodup_append] at h
      exact h.2.2 _ (List.mem_map_of_mem hx) _ (List.mem_map_of_mem (.head _)) hk
    have hput : (c.put d).docs = c.docs ++ [d] := putList_absent habsent
    have hn : (((c.put d).docs ++ ds).map key).Nodup := by
      rw [hput, List.append_assoc]
      exact h
    rw [putAll_cons, docs_putAll hn, hput, List.append_assoc]
    rfl

theorem empty_putAll (c : Coll key) : (empty : Coll key).putAll c.docs = c := by
  have h : ((empty : Coll key).putAll c.docs).docs = c.docs := docs_putAll c.nodup
  cases hc : (empty : Coll key).putAll c.docs with
  | mk docs nodup =>
    rw [hc] at h
    cases c
    subst h
    rfl

theorem get_putAll_other {k : κ} : ∀ {ds : List ρ} {c : Coll key}, (∀ d ∈ ds, key d ≠ k) →
    (c.putAll ds).get k = c.get k
  | [], _, _ => rfl
  | d :: ds, c, h => by
    rw [putAll_cons, get_putAll_other fun x hx => h x (.tail _ hx),
      get_put_other (Ne.symm (h d (.head _)))]

theorem get_putAll_mem {d : ρ} : ∀ {ds : List ρ} {c : Coll key}, (ds.map key).Nodup → d ∈ ds →
    (c.putAll ds).get (key d) = some d
  | x :: ds, c, hn, hd => by
    simp only [List.map_cons, List.nodup_cons] at hn
    rcases List.mem_cons.1 hd with rfl | hd
    · have hds : ∀ y ∈ ds, key y ≠ key d := fun y hy e => hn.1 (e ▸ List.mem_map_of_mem hy)
      rw [putAll_cons, get_putAll_other hds, get_put_self]
    · rw [putAll_cons, get_putAll_mem hn.2 hd]

theorem get_putAll_isSome {k : κ} : ∀ {ds : List ρ} {c : Coll key}, (c.get k).isSome →
    ((c.putAll ds).get k).isSome
  | [], _, h => h
  | d :: ds, c, h => by
    rw [putAll_cons]
    apply get_putAll_isSome
    rw [get_put]
    split
    · rfl
    · exact h

theorem mem_putAll {c : Coll key} {ds : List ρ} {x : ρ} (hn : (ds.map key).Nodup) :
    x ∈ c.putAll ds ↔ x ∈ ds ∨ (x ∈ c ∧ key x ∉ ds.map key) := by
  constructor
  · intro hx
    by_cases hk : key x ∈ ds.map key
    · obtain ⟨d, hd, hdk⟩ := List.mem_map.1 hk
      have := get_putAll_mem (c := c) hn hd
      rw [hdk, get_mem hx, Option.some.injEq] at this
      exact .inl (this ▸ hd)
    · have := get_putAll_other (c := c) (k := key x)
        fun d hd e => hk (e ▸ List.mem_map_of_mem hd)
      exact .inr ⟨(mem_congr this).1 hx, hk⟩
  · rintro (hx | ⟨hx, hk⟩)
    · exact mem_of_get (get_putAll_mem hn hx)
    · have := get_putAll_other (c := c) (k := key x)
        fun d hd e => hk (e ▸ List.mem_map_of_mem hd)
      exact (mem_congr this).2 hx

/-! ## Updates in place -/

/-- Rewrite every document that `p` selects with `f`, which keeps the key. -/
def updateWhere (c : Coll key) (p : ρ → Bool) (f : ρ → ρ) (hf : ∀ d, key (f d) = key d) :
    Coll key :=
  ⟨c.docs.map fun d => if p d then f d else d, by
    have : (key ∘ fun d => if p d then f d else d) = key := by
      funext d; simp only [Function.comp_apply]; split <;> simp [hf]
    rw [List.map_map, this]
    exact c.nodup⟩

omit [DecidableEq κ] in
theorem mem_updateWhere {c : Coll key} {p : ρ → Bool} {f : ρ → ρ} {hf : ∀ d, key (f d) = key d}
    {x : ρ} : x ∈ c.updateWhere p f hf ↔ ∃ d ∈ c, (if p d then f d else d) = x := by
  simp [mem_def, updateWhere]

theorem get_updateWhere {c : Coll key} {p : ρ → Bool} {f : ρ → ρ} {hf : ∀ d, key (f d) = key d}
    {k : κ} : (c.updateWhere p f hf).get k = (c.get k).map fun d => if p d then f d else d := by
  cases h : c.get k with
  | none =>
    refine get_eq_none.2 fun x hx hk => ?_
    obtain ⟨d, hd, rfl⟩ := mem_updateWhere.1 hx
    refine get_eq_none.1 h d hd ?_
    split at hk
    · rw [← hk, hf]
    · exact hk
  | some d =>
    obtain ⟨hd, rfl⟩ := get_eq_some.1 h
    refine get_eq_some.2 ⟨mem_updateWhere.2 ⟨d, hd, rfl⟩, ?_⟩
    dsimp only
    split
    · exact hf d
    · rfl

/-! ## All documents at once -/

omit [DecidableEq κ] in
/-- Rewrite every document; keys stay. -/
def map (c : Coll key) (f : ρ → ρ) (hf : ∀ d, key (f d) = key d) : Coll key :=
  ⟨c.docs.map f, by
    have hkey : key ∘ f = key := funext hf
    rw [List.map_map, hkey]
    exact c.nodup⟩

section
variable {f : ρ → ρ} {hf : ∀ d, key (f d) = key d}

theorem get_map (c : Coll key) (k : κ) : (c.map f hf).get k = (c.get k).map f := by
  simp only [get, map, List.find?_map]
  congr 2
  funext d
  simp [hf]

theorem putList_map (hf : ∀ d, key (f d) = key d) (d : ρ) (l : List ρ) :
    putList key (f d) (l.map f) = (putList key d l).map f := by
  induction l with
  | nil => rfl
  | cons x l ih =>
    simp only [List.map_cons, putList, hf]
    split
    · rfl
    · rw [ih]
      rfl

theorem map_put (c : Coll key) (d : ρ) : (c.put d).map f hf = (c.map f hf).put (f d) := by
  simp only [put, map, putList_map hf]

end

end Coll

end Lib
