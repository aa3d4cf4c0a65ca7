import Mathlib.Algebra.Ring.Nat
import Mathlib.Data.List.Basic
import Mathlib.Tactic.Common

/-!
# Numbers as bytes, and bytes as text

`beWord k n` are the `k` lowest bytes of `n`, most significant first. `beBytes n` are as many as `n`
needs: none for zero. `beNat` reads either. `hexText` writes two hexadecimal digits for each byte,
`hexBytes` reads them.

* `beWord_eq_append`: a wider word begins with zeros.
* `leftAligned_eq_iff`: the needed bytes at the *left* of a word are the word only if there is
  nothing to fill up.
* `hexBytes_hexText`: a text reads back.
-/

namespace Lib

/-! ## Words -/

/-- The `k` lowest bytes of `n`, most significant first. -/
def beWord (k n : Nat) : List (BitVec 8) :=
  (List.range k).map fun i => BitVec.ofNat 8 (n >>> (8 * (k - 1 - i)))

/-- The number that bytes are, most significant first. -/
def beNat (bs : List (BitVec 8)) : Nat := bs.foldl (fun n b => 256 * n + b.toNat) 0

@[simp] theorem length_beWord (k n : Nat) : (beWord k n).length = k := by simp [beWord]

theorem beWord_succ (k n : Nat) : beWord (k + 1) n = beWord k (n / 256) ++ [BitVec.ofNat 8 n] := by
  unfold beWord
  rw [List.range_succ, List.map_append, List.map_singleton]
  congr 1
  · apply List.map_congr_left
    intro i hi
    have hi : i < k := List.mem_range.1 hi
    have hexp : 8 * (k + 1 - 1 - i) = 8 + 8 * (k - 1 - i) := by omega
    rw [hexp, Nat.shiftRight_add, Nat.shiftRight_eq_div_pow n 8]
  · simp

theorem beNat_append_singleton (bs : List (BitVec 8)) (b : BitVec 8) :
    beNat (bs ++ [b]) = 256 * beNat bs + b.toNat := by
  rw [beNat, List.foldl_append]
  rfl

theorem beNat_beWord (k n : Nat) : beNat (beWord k n) = n % 256 ^ k := by
  induction k generalizing n with
  | zero => simp [beWord, beNat, Nat.mod_one]
  | succ k ih =>
    have hsplit : n % (256 * 256 ^ k) = n % 256 + 256 * (n / 256 % 256 ^ k) := Nat.mod_mul
    rw [beWord_succ, beNat_append_singleton, ih, BitVec.toNat_ofNat, Nat.pow_succ' (m := 256),
      hsplit, Nat.add_comm]

theorem beWord_eq_append {j k n : Nat} (hjk : j ≤ k) (hn : n < 256 ^ j) :
    beWord k n = List.replicate (k - j) 0 ++ beWord j n := by
  induction j generalizing k n with
  | zero =>
    obtain rfl : n = 0 := by simpa using hn
    simp [beWord]
  | succ j ih =>
    obtain ⟨k, rfl⟩ : ∃ k', k = k' + 1 := ⟨k - 1, by omega⟩
    have hdiv : n / 256 < 256 ^ j := Nat.div_lt_of_lt_mul (by rwa [Nat.pow_succ'] at hn)
    rw [beWord_succ, beWord_succ, ih (by omega) hdiv, List.append_assoc]
    congr 2
    omega

theorem beWord_succ_eq_cons (k n : Nat) :
    beWord (k + 1) n = BitVec.ofNat 8 (n >>> (8 * k)) :: (beWord (k + 1) n).tail := by
  rw [beWord, List.range_succ_eq_map, List.map_cons]
  rfl

/-! ## As many bytes as are needed -/

/-- The number of bytes that `n` needs. -/
def byteLength (n : Nat) : Nat := if n = 0 then 0 else n.log2 / 8 + 1

theorem byteLength_le_iff {n k : Nat} : byteLength n ≤ k ↔ n < 256 ^ k := by
  unfold byteLength
  split
  case isTrue h =>
    subst h
    exact iff_of_true (Nat.zero_le k) (Nat.pow_pos (by decide))
  case isFalse h =>
    have hlog : n.log2 < 8 * k ↔ n < 2 ^ (8 * k) := Nat.log2_lt h
    rw [Nat.pow_mul, show 2 ^ 8 = 256 from rfl] at hlog
    rw [← hlog]
    omega

/-- The bytes of `n`, without zeros in front. -/
def beBytes (n : Nat) : List (BitVec 8) := beWord (byteLength n) n

@[simp] theorem length_beBytes (n : Nat) : (beBytes n).length = byteLength n := length_beWord _ _

theorem beWord_eq_beBytes {k n : Nat} (h : n < 256 ^ k) :
    beWord k n = List.replicate (k - byteLength n) 0 ++ beBytes n :=
  beWord_eq_append (byteLength_le_iff.2 h) (byteLength_le_iff.1 (Nat.le_refl _))

theorem beNat_beBytes (n : Nat) : beNat (beBytes n) = n := by
  rw [beBytes, beNat_beWord, Nat.mod_eq_of_lt (byteLength_le_iff.1 (Nat.le_refl _))]

theorem head?_beBytes_ne_zero (n : Nat) : (beBytes n).head? ≠ some 0 := by
  unfold beBytes
  cases hlen : byteLength n with
  | zero => simp [beWord]
  | succ k =>
    rw [beWord_succ_eq_cons, List.head?_cons]
    intro h
    have hlow : ¬n < 256 ^ k := by
      rw [← byteLength_le_iff]
      omega
    have hhigh : n < 256 ^ (k + 1) := byteLength_le_iff.1 (by omega)
    have hpow : (256 : Nat) ^ k = 2 ^ (8 * k) := by rw [Nat.pow_mul]
    have htop : n >>> (8 * k) % 256 = 0 := by
      have := congrArg BitVec.toNat (Option.some.inj h)
      simpa using this
    rw [Nat.pow_succ'] at hhigh
    rw [Nat.shiftRight_eq_div_pow, ← hpow] at htop
    have hpos : 0 < n / 256 ^ k := Nat.div_pos (by omega) (Nat.pow_pos (by decide))
    have hlt : n / 256 ^ k < 256 := Nat.div_lt_of_lt_mul (by rwa [Nat.mul_comm] at hhigh)
    omega

/-- The bytes at the left of a word of `k` are the word only if they fill it, or if it is zero. -/
theorem leftAligned_eq_iff {k n : Nat} (h : n < 256 ^ (k + 1)) :
    beBytes n ++ List.replicate (k + 1 - byteLength n) 0 = beWord (k + 1) n ↔
      n = 0 ∨ 256 ^ k ≤ n := by
  have hle : byteLength n ≤ k + 1 := byteLength_le_iff.2 h
  rw [beWord_eq_beBytes h]
  by_cases hfull : byteLength n = k + 1
  · have hlow : ¬n < 256 ^ k := by
      rw [← byteLength_le_iff]
      omega
    rw [hfull]
    simp
    omega
  · have hlow : n < 256 ^ k := byteLength_le_iff.1 (by omega)
    constructor
    · intro heq
      left
      -- the word begins with a zero, the bytes do not
      obtain ⟨j, hj⟩ : ∃ j, k + 1 - byteLength n = j + 1 := ⟨k - byteLength n, by omega⟩
      have hhead := congrArg List.head? heq
      rw [hj, List.replicate_succ, List.cons_append, List.head?_cons] at hhead
      cases hbytes : beBytes n with
      | nil =>
        have := beNat_beBytes n
        rw [hbytes] at this
        exact this.symm
      | cons b bs =>
        have hne := head?_beBytes_ne_zero n
        rw [hbytes] at hhead hne
        exact absurd hhead hne
    · rintro (rfl | hge)
      · simp [beBytes, byteLength, beWord]
      · omega

/-! ## Hexadecimal texts -/

/-- The digits of a byte. -/
def hexPair (b : BitVec 8) : List Char := [(b.toNat / 16).digitChar, (b.toNat % 16).digitChar]

/-- Two digits for each byte, in lower case. -/
def hexText (bs : List (BitVec 8)) : String := .ofList (bs.flatMap hexPair)

/-- The value of a digit, in either case. -/
def hexDigit (c : Char) : Option Nat :=
  if '0' ≤ c ∧ c ≤ '9' then some (c.toNat - '0'.toNat)
  else if 'a' ≤ c ∧ c ≤ 'f' then some (c.toNat - 'a'.toNat + 10)
  else if 'A' ≤ c ∧ c ≤ 'F' then some (c.toNat - 'A'.toNat + 10)
  else none

/-- The bytes of an even number of digits. -/
def hexChars : List Char → Option (List (BitVec 8))
  | [] => some []
  | [_] => none
  | c :: d :: cs => do
    let high ← hexDigit c
    let low ← hexDigit d
    let bs ← hexChars cs
    pure (BitVec.ofNat 8 (16 * high + low) :: bs)

def hexBytes (s : String) : Option (List (BitVec 8)) := hexChars s.toList

theorem hexDigit_digitChar : ∀ n < 16, hexDigit n.digitChar = some n := by decide

theorem hexChars_append (b : BitVec 8) (cs : List Char) :
    hexChars (hexPair b ++ cs) = (hexChars cs).map (b :: ·) := by
  have hb := b.isLt
  have hhigh := hexDigit_digitChar (b.toNat / 16) (by omega)
  have hlow := hexDigit_digitChar (b.toNat % 16) (by omega)
  have hsum : 16 * (b.toNat / 16) + b.toNat % 16 = b.toNat := Nat.div_add_mod _ _
  simp only [hexPair, List.cons_append, List.nil_append, hexChars, hhigh, hlow, hsum,
    Option.bind_eq_bind, Option.bind_some, BitVec.ofNat_toNat, BitVec.setWidth_eq]
  cases hexChars cs <;> rfl

theorem hexBytes_hexText (bs : List (BitVec 8)) : hexBytes (hexText bs) = some bs := by
  rw [hexBytes, hexText, String.toList_ofList]
  induction bs with
  | nil => rfl
  | cons b bs ih => rw [List.flatMap_cons, hexChars_append, ih, Option.map_some]

end Lib
