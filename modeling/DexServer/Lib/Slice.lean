import Mathlib.Data.List.Basic
import Mathlib.Tactic.Common

/-!
# Slices

A slice is the beginning of an array. Its elements can be read up to its length, but it can be
extended up to the end of the array (its capacity), and appending to it writes into the array while
that has room.
-/

namespace Lib

structure Slice (α : Type) where
  /-- the array from the first element of the slice on -/
  array : List α
  len : Nat
  len_le : len ≤ array.length

namespace Slice

variable {α : Type}

/-- The elements. -/
def toList (s : Slice α) : List α := s.array.take s.len

/-- A slice of `xs` in an array that goes on with `spare`. -/
def ofList (xs spare : List α) : Slice α := ⟨xs ++ spare, xs.length, by simp⟩

/-- `s[i]`, within the length. -/
def get? (s : Slice α) (i : Nat) : Option α := if i < s.len then s.array[i]? else none

/-- `s[lo:hi]`, within the capacity. -/
def sub? (s : Slice α) (lo hi : Nat) : Option (Slice α) :=
  if h : lo ≤ hi ∧ hi ≤ s.array.length then
    some ⟨s.array.drop lo, hi - lo, by rw [List.length_drop]; omega⟩
  else none

/-- `append(s, xs...)`: in place if there is room, else in a new array that goes on with `spare`. -/
def append (s : Slice α) (xs spare : List α) : Slice α :=
  if h : s.len + xs.length ≤ s.array.length then
    ⟨s.array.take s.len ++ xs ++ s.array.drop (s.len + xs.length), s.len + xs.length, by
      simp only [List.length_append, List.length_take, List.length_drop]
      omega⟩
  else ofList (s.toList ++ xs) spare

@[simp] theorem toList_ofList (xs spare : List α) : (ofList xs spare).toList = xs := by
  simp [toList, ofList]

@[simp] theorem len_ofList (xs spare : List α) : (ofList xs spare).len = xs.length := rfl

@[simp] theorem length_toList (s : Slice α) : s.toList.length = s.len := by
  rw [toList, List.length_take, Nat.min_eq_left s.len_le]

theorem toList_append (s : Slice α) (xs spare : List α) :
    (s.append xs spare).toList = s.toList ++ xs := by
  unfold append
  split
  case isTrue h =>
    have hlen : (s.array.take s.len ++ xs).length = s.len + xs.length := by
      rw [List.length_append, List.length_take, Nat.min_eq_left s.len_le]
    show (s.array.take s.len ++ xs ++ _).take (s.len + xs.length) = _
    rw [← hlen, List.take_left', toList]
    rfl
  case isFalse => exact toList_ofList _ _

/-- `append(s[:i], s[i+1:]...)` removes an element in place. Behind it the array then has the other
elements one place earlier, and the last one also where it was. -/
theorem append_sub? (s : Slice α) {i : Nat} (hi : i < s.len) (spare : List α) :
    ∃ front back, s.sub? 0 i = some front ∧ s.sub? (i + 1) s.len = some back ∧
      (front.append back.toList spare).toList = s.toList.eraseIdx i ∧
      ∀ k, i < k → k < s.len →
        (front.append back.toList spare).array[k]? =
          s.toList[if k + 1 < s.len then k + 1 else k]? := by
  have hcap := s.len_le
  have hback : ((s.array.drop (i + 1)).take (s.len - (i + 1))).length = s.len - (i + 1) := by
    rw [List.length_take, List.length_drop]
    omega
  refine ⟨⟨s.array.drop 0, i - 0, by rw [List.drop_zero]; omega⟩,
    ⟨s.array.drop (i + 1), s.len - (i + 1), by rw [List.length_drop]; omega⟩, ?_, ?_, ?_, ?_⟩
  · rw [sub?, dif_pos ⟨Nat.zero_le i, by omega⟩]
  · rw [sub?, dif_pos ⟨hi, hcap⟩]
  · rw [toList_append, List.eraseIdx_eq_take_drop_succ]
    simp only [toList, List.drop_zero, Nat.sub_zero, List.take_take, List.drop_take,
      Nat.min_eq_left (Nat.le_of_lt hi)]
  · intro k hik hk
    unfold append
    rw [dif_pos (by simp only [toList, hback, List.drop_zero]; omega)]
    simp only [toList, hback, List.drop_zero, Nat.sub_zero]
    have hfront : (s.array.take i).length = i := by
      rw [List.length_take]
      omega
    by_cases hlast : k + 1 < s.len
    · rw [if_pos hlast, List.getElem?_append_left
        (by rw [List.length_append, hfront, hback]; omega), List.getElem?_append_right
        (by rw [hfront]; omega), hfront, List.getElem?_take_of_lt (by omega),
        List.getElem?_drop, List.getElem?_take_of_lt hlast]
      congr 1
      omega
    · rw [if_neg hlast, List.getElem?_append_right
        (by rw [List.length_append, hfront, hback]; omega),
        List.length_append, hfront, hback, List.getElem?_drop, List.getElem?_take_of_lt hk]
      congr 1
      omega

end Slice

end Lib
