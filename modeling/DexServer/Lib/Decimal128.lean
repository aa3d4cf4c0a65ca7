import Mathlib.Algebra.BigOperators.Group.List.Basic
import Mathlib.Algebra.Order.Ring.Int
import Mathlib.Data.List.Induction
import Mathlib.Data.Nat.Log

/-!
# Integers in decimal floating point (IEEE 754 decimal128)

A number is a coefficient of at most 34 digits and an exponent. Integers have exponents from 0 on;
the exponent is not bounded here. A result that needs more digits is rounded to the nearest, ties to
even; one that does not keeps the smaller exponent of the operands.

* `add_ofInt`, `sub_ofInt`, `text_ofInt`: below `10 ^ 34` the arithmetic and the text are those of
  the integers.
* `sum_ofInt`: so is a sum, added up in any order, if every partial sum is below `10 ^ 34`.
-/

namespace Lib

structure Decimal128 where
  coeff : Int
  exp : Nat
  coeff_lt : coeff.natAbs < 10 ^ 34
  deriving DecidableEq, Repr

namespace Decimal128

def value (d : Decimal128) : Int := d.coeff * 10 ^ d.exp

/-- `n / 10 ^ k` to the nearest, ties to even. -/
def nearest (n k : Nat) : Nat :=
  if 2 * (n % 10 ^ k) < 10 ^ k ∨ 2 * (n % 10 ^ k) = 10 ^ k ∧ n / 10 ^ k % 2 = 0 then n / 10 ^ k
  else n / 10 ^ k + 1

/-- `v * 10 ^ e` in 34 digits. -/
def round (v : Int) (e : Nat) : Decimal128 :=
  if h : v.natAbs < 10 ^ 34 then ⟨v, e, h⟩
  else
    let k := Nat.log 10 v.natAbs + 1 - 34
    let q := nearest v.natAbs k
    if hq : (v.sign * q).natAbs < 10 ^ 34 then ⟨v.sign * q, e + k, hq⟩
    else
      -- all digits were nines
      ⟨v.sign * 10 ^ 33, e + k + 1, by
        rcases Int.sign_trichotomy v with hs | hs | hs <;> rw [hs] <;> decide⟩

def ofInt (n : Int) : Decimal128 := round n 0

def zero : Decimal128 := ofInt 0

/-- `x.coeff` at a smaller exponent. -/
def scaled (x : Decimal128) (e : Nat) : Int := x.coeff * 10 ^ (x.exp - e)

def add (x y : Decimal128) : Decimal128 :=
  let e := min x.exp y.exp
  round (x.scaled e + y.scaled e) e

def sub (x y : Decimal128) : Decimal128 :=
  let e := min x.exp y.exp
  round (x.scaled e - y.scaled e) e

/-- Added up from the left. -/
def sum (ds : List Decimal128) : Decimal128 := ds.foldl add zero

/-- The digits with a point after the first. -/
def pointed : List Char → List Char
  | c :: d :: ds => c :: '.' :: d :: ds
  | ds => ds

/-- Plain digits for exponent 0, the scientific form otherwise. -/
def text (d : Decimal128) : String :=
  if d.exp = 0 then toString d.coeff
  else
    let ds := Nat.toDigits 10 d.coeff.natAbs
    (if d.coeff < 0 then "-" else "") ++ .ofList (pointed ds) ++ "E+" ++
    toString (d.exp + ds.length - 1)

example : (ofInt (-120)).text = "-120" := by decide +kernel

example : (ofInt (15 * 10 ^ 33 + 5)).text = "1.500000000000000000000000000000000E+34" := by
  decide +kernel

/-! ## Exactness -/

theorem ofInt_eq {n : Int} (h : n.natAbs < 10 ^ 34) : ofInt n = ⟨n, 0, h⟩ := by
  unfold ofInt round
  rw [dif_pos h]

theorem value_ofInt {n : Int} (h : n.natAbs < 10 ^ 34) : (ofInt n).value = n := by
  rw [ofInt_eq h]
  simp [value]

theorem text_ofInt {n : Int} (h : n.natAbs < 10 ^ 34) : (ofInt n).text = toString n := by
  rw [ofInt_eq h]
  simp [text]

theorem add_ofInt {m n : Int} (hm : m.natAbs < 10 ^ 34) (hn : n.natAbs < 10 ^ 34) :
    (ofInt m).add (ofInt n) = ofInt (m + n) := by
  rw [ofInt_eq hm, ofInt_eq hn]
  simp [add, scaled, ofInt]

theorem sub_ofInt {m n : Int} (hm : m.natAbs < 10 ^ 34) (hn : n.natAbs < 10 ^ 34) :
    (ofInt m).sub (ofInt n) = ofInt (m - n) := by
  rw [ofInt_eq hm, ofInt_eq hn]
  simp [sub, scaled, ofInt]

theorem sum_ofInt {ns : List Int} (h : ∀ l : List Int, l.Sublist ns → l.sum.natAbs < 10 ^ 34) :
    sum (ns.map ofInt) = ofInt ns.sum := by
  -- the prefixes are sublists
  induction ns using List.reverseRecOn with
  | nil => rfl
  | append_singleton ns n ih =>
    have hns : sum (ns.map ofInt) = ofInt ns.sum := by
      apply ih
      intro l hl
      exact h l (hl.trans (List.sublist_append_left ns [n]))
    have hsum : ns.sum.natAbs < 10 ^ 34 := h ns (List.sublist_append_left ns [n])
    have hn : n.natAbs < 10 ^ 34 := by
      simpa using h [n] (List.sublist_append_right ns [n])
    unfold sum at hns ⊢
    rw [List.map_append, List.foldl_append, hns]
    simp [add_ofInt hsum hn]

end Decimal128

end Lib
