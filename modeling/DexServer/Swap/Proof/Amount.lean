import DexServer.Swap.Amount
import DexServer.Types.Proof.Rational

/-!
# When an amount is converted exactly

`EthToWei` returns the number that the text denotes times `10 ^ 18`, or an error. `BtcToSat` does so
for the amounts that an `int64` holds in satoshi; of any other it returns the lower 64 bits
(`coin_amounts_exact_iff`). `toSmallestUnit_decimal`: no decimal number with as many digits behind
the point as the unit has zeros is refused.
-/

namespace Dex

open Lib

/-- The answer to a text is an error, or exactly the number that the text denotes times `unit`. -/
def ExactOrError (unit : ℚ) (text : String) (answer : Except String Int) : Prop :=
  ∀ n, answer = .ok n → ∃ q, Denotes text.toList q ∧ (n : ℚ) = q * unit

/-! ## The smallest unit -/

theorem toSmallestUnit_eq_ok {unit : ℚ} {precision text : String} {n : Int} :
    toSmallestUnit unit precision text = .ok n ↔
      ∃ q, ratSetString text = some q ∧ (n : ℚ) = q * unit := by
  unfold toSmallestUnit
  cases ratSetString text with
  | none => simp
  | some q =>
    simp only [Option.some.injEq, exists_eq_left']
    refine ⟨fun h => ?_, fun h => ?_⟩
    · split at h
      · cases h
      · rename_i hden
        cases h
        exact (Rat.den_eq_one_iff _).1 (not_not.1 hden)
    · rw [← h, Rat.den_intCast, Rat.num_intCast]
      rfl

theorem toSmallestUnit_exact (unit : ℚ) (precision text : String) :
    ExactOrError unit text (toSmallestUnit unit precision text) := by
  intro n h
  obtain ⟨q, hq, hn⟩ := toSmallestUnit_eq_ok.1 h
  exact ⟨q, denotes_of_ratSetString hq, hn⟩

/-- **A decimal amount of whole units is converted**: its digits as an integer, with zeros for the
digits that are not written. -/
theorem toSmallestUnit_decimal {k : Nat} {precision text : String} {sg cs : List Char} {x : Int}
    {is fs : List Nat} (htext : text.toList = sg ++ cs) (hs : Sign sg x)
    (h : Fixed numerals 10 .other cs is fs) (hne : is ++ fs ≠ []) (hfs : fs.length ≤ k)
    (hk : k ≤ 1000000) : toSmallestUnit (10 ^ k) precision text =
      .ok (x * positional 10 (is ++ fs) * 10 ^ (k - fs.length)) := by
  rw [toSmallestUnit_eq_ok]
  refine ⟨_, ratSetString_decimal htext hs h hne (hfs.trans hk), ?_⟩
  have hpow : (10 : ℚ) ^ k = 10 ^ (k - fs.length) * 10 ^ fs.length := by
    rw [← pow_add, Nat.sub_add_cancel hfs]
  rw [fixedPoint_eq (by decide), hpow, zpow_neg, zpow_natCast]
  push_cast
  field_simp

example : toSmallestUnit (10 ^ 8) "" "21000000.12345678" = .ok 2100000012345678 := by decide +kernel

/-! ## The `int64` -/

theorem bigInt64_eq (n : Int) : bigInt64 n = BitVec.ofInt 64 n := by
  simp only [bigInt64, ← BitVec.ofInt_natCast, ← BitVec.ofInt_neg]
  split
  · rw [Int.ofNat_natAbs_of_nonpos (by omega), Int.neg_neg]
  · rw [Int.natAbs_of_nonneg (by omega)]

/-- A number is kept iff it is one of an `int64`. -/
theorem toInt_bigInt64_eq_iff {n : Int} :
    (bigInt64 n).toInt = n ↔ -2 ^ 63 ≤ n ∧ n < 2 ^ 63 := by
  refine ⟨fun h => ?_, fun h => ?_⟩
  · have hle := BitVec.le_toInt (bigInt64 n)
    have hlt := BitVec.toInt_lt (x := bigInt64 n)
    rw [h] at hle hlt
    exact ⟨hle, hlt⟩
  · obtain ⟨hle, hlt⟩ := h
    rw [bigInt64_eq, BitVec.toInt_ofInt]
    exact Int.bmod_eq_of_le (by omega) (by omega)

/-! ## Both coins -/

namespace Bitcoin

theorem btcToSat_ok {text : String} {q : ℚ} {n : Int} (hq : ratSetString text = some q)
    (hn : (n : ℚ) = q * 10 ^ 8) : btcToSat text = .ok (bigInt64 n) := by
  unfold btcToSat
  rw [toSmallestUnit_eq_ok.2 ⟨q, hq, hn⟩]
  rfl

theorem btcToSat_error {text : String}
    (h : ∀ q, ratSetString text = some q → ∀ n : Int, (n : ℚ) ≠ q * 10 ^ 8) :
    ∃ e, btcToSat text = .error e := by
  unfold btcToSat
  cases hn : toSmallestUnit (10 ^ 8) "Invalid precision, is value smaller than 1 satoshi?" text with
  | error e => exact ⟨e, rfl⟩
  | ok n =>
    obtain ⟨q, hq, hn⟩ := toSmallestUnit_eq_ok.1 hn
    exact absurd hn (h q hq n)

/-- A bitcoin amount is exact iff it is no number that is read, no whole number of satoshi, or one
that an `int64` holds. -/
theorem btcToSat_exact_iff (text : String) :
    ExactOrError (10 ^ 8) text ((btcToSat text).map BitVec.toInt) ↔
      ratSetString text = none ∨ ∃ q, Denotes text.toList q ∧
        ((∀ n : Int, (n : ℚ) ≠ q * 10 ^ 8) ∨ -2 ^ 63 ≤ q * 10 ^ 8 ∧ q * 10 ^ 8 < 2 ^ 63) := by
  have hrefused : (∃ e, btcToSat text = .error e) →
      ExactOrError (10 ^ 8) text ((btcToSat text).map BitVec.toInt) := by
    rintro ⟨e, he⟩ n hn
    rw [he] at hn
    cases hn
  cases hr : ratSetString text with
  | none => exact iff_of_true (hrefused (btcToSat_error (by simp [hr]))) (.inl rfl)
  | some q =>
    have hq : Denotes text.toList q := denotes_of_ratSetString hr
    by_cases hint : ∃ n : Int, (n : ℚ) = q * 10 ^ 8
    · obtain ⟨n, hn⟩ := hint
      have hfits : (-2 ^ 63 ≤ q * 10 ^ 8 ∧ q * 10 ^ 8 < 2 ^ 63) ↔ (bigInt64 n).toInt = n := by
        rw [toInt_bigInt64_eq_iff, ← hn]
        norm_cast
      rw [btcToSat_ok hr hn]
      constructor
      · intro h
        obtain ⟨q', hq', hn'⟩ := h _ rfl
        rw [hq'.unique hq, ← hn] at hn'
        exact .inr ⟨q, hq, .inr (hfits.2 (Int.cast_injective hn'))⟩
      · rintro (h | ⟨q', hq', hfit⟩)
        · cases h
        · rw [hq'.unique hq] at hfit
          have hfit := hfit.resolve_left fun h => h n hn
          rintro _ ⟨⟩
          exact ⟨q, hq, by rw [hfits.1 hfit, hn]⟩
    · have hno : ∀ n : Int, (n : ℚ) ≠ q * 10 ^ 8 := fun n hn => hint ⟨n, hn⟩
      refine iff_of_true (hrefused (btcToSat_error fun q' hq' => ?_)) (.inr ⟨q, hq, .inl hno⟩)
      rw [← Option.some.inj (hr.symm.trans hq')]
      exact hno

end Bitcoin

/-- **Amounts in ether are exact, amounts in bitcoin as far as an `int64` goes.** A text denotes at
most one number; `EthToWei` returns it times `10 ^ 18` or an error, for every text; `BtcToSat`
returns it times `10 ^ 8` or an error unless it is a whole number of satoshi that no `int64`
holds. -/
theorem coin_amounts_exact_iff (text : String) :
    (∀ q q', Denotes text.toList q → Denotes text.toList q' → q = q') ∧
    ExactOrError (10 ^ 18) text (Ethereum.ethToWei text) ∧
    (ExactOrError (10 ^ 8) text ((Bitcoin.btcToSat text).map BitVec.toInt) ↔
      ratSetString text = none ∨ ∃ q, Denotes text.toList q ∧
        ((∀ n : Int, (n : ℚ) ≠ q * 10 ^ 8) ∨ -2 ^ 63 ≤ q * 10 ^ 8 ∧ q * 10 ^ 8 < 2 ^ 63)) :=
  ⟨fun _ _ => Denotes.unique, toSmallestUnit_exact _ _ text, Bitcoin.btcToSat_exact_iff text⟩

/-- `100000000000` bitcoin are `10 ^ 19` satoshi, more than an `int64` holds. -/
theorem btc_amount_wraps :
    Bitcoin.btcToSat "100000000000" = .ok (.ofInt 64 (-8446744073709551616)) ∧
    Denotes "100000000000".toList (10 ^ 11) ∧
    ¬ ExactOrError (10 ^ 8) "100000000000"
      ((Bitcoin.btcToSat "100000000000").map BitVec.toInt) := by
  have hb : Bitcoin.btcToSat "100000000000" = .ok (.ofInt 64 (-8446744073709551616)) := by
    decide +kernel
  have hq : Denotes "100000000000".toList (10 ^ 11) :=
    denotes_of_ratSetString (by decide +kernel)
  refine ⟨hb, hq, ?_⟩
  intro h
  obtain ⟨q, hq', hn⟩ := h (-8446744073709551616) (by rw [hb]; rfl)
  rw [hq'.unique hq] at hn
  norm_num at hn

end Dex
