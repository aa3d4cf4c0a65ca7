import Mathlib.Data.Int.ConditionallyCompleteOrder
import Mathlib.Order.ConditionallyCompleteLattice.Basic

/-!
# Tilings of the integers and floor functions

A tiling cuts the integers into intervals, numbered from left to right: tile `m` begins at `start m`
and `tile n` is the number of the tile with `n` in it. A floor function goes from each number to the
greatest of its values that is not above the number.

* `Tiling.comp`: tiles of tiles.
* `isFloorOn_within`: multiples of `d` counted anew in each block of `k` numbers.
* `IsFloorOn.tiles`: a floor function on the numbers of the tiles is one on what they are tiles of.
* `IsFloorOn.isGreatest`: what a floor function is for.
-/

namespace Lib

structure Tiling (start tile : Int → Int) : Prop where
  mono : StrictMono start
  start_tile_le : ∀ n, start (tile n) ≤ n
  lt_start_tile : ∀ n, n < start (tile n + 1)

namespace Tiling

variable {start tile : Int → Int} (h : Tiling start tile)
include h

theorem start_le_iff {m n : Int} : start m ≤ n ↔ m ≤ tile n := by
  constructor
  · intro hm
    have hlt : start m < start (tile n + 1) := lt_of_le_of_lt hm (h.lt_start_tile n)
    have := h.mono.lt_iff_lt.1 hlt
    omega
  · intro hm
    exact (h.mono.monotone hm).trans (h.start_tile_le n)

theorem tile_start (m : Int) : tile (start m) = m := by
  have hle : m ≤ tile (start m) := h.start_le_iff.1 le_rfl
  have hge : tile (start m) ≤ m := h.mono.le_iff_le.1 (h.start_tile_le (start m))
  omega

theorem tile_mono : Monotone tile := by
  intro n n' hn
  exact h.start_le_iff.1 ((h.start_tile_le n).trans hn)

theorem comp {start' tile' : Int → Int} (h' : Tiling start' tile') :
    Tiling (fun m => start (start' m)) fun n => tile' (tile n) where
  mono := h.mono.comp h'.mono
  start_tile_le n := h.start_le_iff.2 (h'.start_tile_le (tile n))
  lt_start_tile n := by
    have hlt : tile n + 1 ≤ start' (tile' (tile n) + 1) := h'.lt_start_tile (tile n)
    exact lt_of_lt_of_le (h.lt_start_tile n) (h.mono.monotone hlt)

end Tiling

theorem tiling_linear {u : Int} (hu : 0 < u) (c : Int) :
    Tiling (fun m => u * m - c) fun n => (n + c) / u where
  mono m m' hm := by
    have := Int.mul_lt_mul_of_pos_left hm hu
    show u * m - c < u * m' - c
    omega
  start_tile_le n := by
    have := Int.mul_ediv_self_le (x := n + c) (k := u) (by omega)
    show u * ((n + c) / u) - c ≤ n
    omega
  lt_start_tile n := by
    have := Int.lt_mul_ediv_self_add (x := n + c) hu
    show n < u * ((n + c) / u + 1) - c
    rw [Int.mul_add]
    omega

/-- A floor function on the numbers of `D`. Its values may be outside. -/
structure IsFloorOn (D : Set Int) (f : Int → Int) : Prop where
  le : ∀ n ∈ D, f n ≤ n
  mono : MonotoneOn f D
  idem : ∀ n ∈ D, f (f n) = f n
  le_of_le : ∀ m ∈ D, ∀ n ∈ D, f m ≤ n → f m ≤ f n

namespace IsFloorOn

variable {D : Set Int} {f : Int → Int}

theorem of_mapsTo (hle : ∀ n ∈ D, f n ≤ n) (hmono : MonotoneOn f D) (hidem : ∀ n ∈ D, f (f n) = f n)
    (hf : Set.MapsTo f D D) : IsFloorOn D f := by
  refine ⟨hle, hmono, hidem, ?_⟩
  intro m hm n hn h
  have hmn := hmono (hf hm) hn h
  rwa [hidem m hm] at hmn

theorem subset {D' : Set Int} (hf : IsFloorOn D f) (h : D' ⊆ D) : IsFloorOn D' f where
  le n hn := hf.le n (h hn)
  mono _ hm _ hn hmn := hf.mono (h hm) (h hn) hmn
  idem n hn := hf.idem n (h hn)
  le_of_le m hm n hn := hf.le_of_le m (h hm) n (h hn)

/-- Of the values that are not above `n`, the floor function takes the greatest. -/
theorem isGreatest (hf : IsFloorOn D f) {n : Int} (hn : n ∈ D) :
    IsGreatest {x ∈ f '' D | x ≤ n} (f n) := by
  refine ⟨⟨⟨n, hn, rfl⟩, hf.le n hn⟩, ?_⟩
  intro x hx
  obtain ⟨⟨m, hm, rfl⟩, hle⟩ := hx
  exact hf.le_of_le m hm n hn hle

theorem tiles {start tile : Int → Int} (h : Tiling start tile) (hf : IsFloorOn D f) :
    IsFloorOn {n | tile n ∈ D} fun n => start (f (tile n)) where
  le n hn := h.start_le_iff.2 (hf.le _ hn)
  mono m hm n hn hmn := h.mono.monotone (hf.mono hm hn (h.tile_mono hmn))
  idem n hn := by
    show start (f (tile (start (f (tile n))))) = start (f (tile n))
    rw [h.tile_start, hf.idem _ hn]
  le_of_le m hm n hn hmn := h.mono.monotone (hf.le_of_le _ hm _ hn (h.start_le_iff.1 hmn))

end IsFloorOn

theorem isFloorOn_id : IsFloorOn Set.univ id :=
  .of_mapsTo (fun _ _ => le_rfl) (fun _ _ _ _ h => h) (fun _ _ => rfl) fun _ _ => trivial

/-- Multiples of `d`, counted anew in each block of `k` numbers. -/
theorem isFloorOn_within {k d : Int} (hk : 0 < k) (hd : 0 < d) :
    IsFloorOn Set.univ fun n => n - n % k % d := by
  have hrest : ∀ n : Int, 0 ≤ n % k % d ∧ n % k % d ≤ n % k := by
    intro n
    have h0 : 0 ≤ n % k := Int.emod_nonneg n (by omega)
    have hquot : 0 ≤ d * (n % k / d) := Int.mul_nonneg (by omega) (Int.ediv_nonneg h0 (by omega))
    have := Int.mul_ediv_add_emod (n % k) d
    exact ⟨Int.emod_nonneg _ (by omega), by omega⟩
  refine .of_mapsTo ?_ ?_ ?_ fun _ _ => trivial
  · intro n _
    have := hrest n
    show n - n % k % d ≤ n
    omega
  · intro m _ n _ hmn
    show m - m % k % d ≤ n - n % k % d
    have hm := Int.mul_ediv_add_emod m k
    have hn := Int.mul_ediv_add_emod n k
    rcases (Int.ediv_le_ediv hk hmn).lt_or_eq with hlt | heq
    · -- `n` is in a later block
      have hblock : k * (m / k) + k ≤ k * (n / k) := by
        have := Int.mul_le_mul_of_nonneg_left (show m / k + 1 ≤ n / k by omega)
          (show 0 ≤ k by omega)
        rwa [Int.mul_add, Int.mul_one] at this
      have := Int.emod_lt_of_pos m hk
      have := hrest m
      have := hrest n
      omega
    · have hle : m % k ≤ n % k := by
        rw [heq] at hm
        omega
      have hmul := Int.mul_le_mul_of_nonneg_left (Int.ediv_le_ediv hd hle) (show 0 ≤ d by omega)
      have hdm := Int.mul_ediv_add_emod (m % k) d
      have hdn := Int.mul_ediv_add_emod (n % k) d
      rw [heq] at hm
      omega
  · intro n _
    show n - n % k % d - (n - n % k % d) % k % d = n - n % k % d
    have hn := Int.mul_ediv_add_emod n k
    have hdn := Int.mul_ediv_add_emod (n % k) d
    have hblock : (n - n % k % d) % k = d * (n % k / d) := by
      have hsum : n - n % k % d = d * (n % k / d) + k * (n / k) := by omega
      rw [hsum, Int.add_mul_emod_self_left]
      have := hrest n
      have := Int.emod_lt_of_pos n hk
      apply Int.emod_eq_of_lt
      · omega
      · omega
    rw [hblock, Int.mul_emod_right]
    omega

/-- Multiples of `d`, the remainder having the sign of the number. -/
theorem isFloorOn_tmod {d : Int} (hd : 0 < d) : IsFloorOn {n | 0 ≤ n} fun n => n - n.tmod d := by
  have heq : ∀ n : Int, 0 ≤ n → n - n.tmod d = d * (n / d) := by
    intro n hn
    rw [Int.tmod_eq_emod_of_nonneg hn]
    have := Int.mul_ediv_add_emod n d
    omega
  have hnonneg : ∀ n : Int, 0 ≤ n → 0 ≤ d * (n / d) := by
    intro n hn
    exact Int.mul_nonneg (by omega) (Int.ediv_nonneg hn (by omega))
  refine .of_mapsTo ?_ ?_ ?_ ?_
  · intro n hn
    show n - n.tmod d ≤ n
    rw [heq n hn]
    exact Int.mul_ediv_self_le (by omega)
  · intro m hm n hn hmn
    show m - m.tmod d ≤ n - n.tmod d
    rw [heq m hm, heq n hn]
    exact Int.mul_le_mul_of_nonneg_left (Int.ediv_le_ediv hd hmn) (by omega)
  · intro n hn
    show n - n.tmod d - (n - n.tmod d).tmod d = n - n.tmod d
    rw [heq n hn, Int.mul_tmod_right]
    omega
  · intro n hn
    show 0 ≤ n - n.tmod d
    rw [heq n hn]
    exact hnonneg n hn

end Lib
