import DexServer.Types.Json
import DexServer.Types.Rational
import Mathlib.Data.List.TakeWhile
import Mathlib.Tactic.NormNum

/-!
# What a text denotes, and that `big.Rat.SetString` reads it

`Denotes` is the syntax of numbers with the rational number that each text stands for, given apart
from the reader: no limit on a number's size, nothing about the order in which characters are read.

* `denotes_iff`: `RatText.scan` accepts exactly the texts that denote a number and keeps that
  number, so a text denotes at most one (`Denotes.unique`).
* `RatText.rat_eq_some_iff`: the number is exact, unless its exponents are out of the limits.
* `denotes_of_ratSetString`, `ratSetString_decimal`: what `SetString` returns is the number denoted,
  and decimal numbers are not refused; for integers it agrees with `big.Int.SetString`
  (`ratSetString_of_setString`).
-/

namespace Dex

open Lib

/-! ## The syntax of numbers -/

inductive Sign : List Char → Int → Prop
  | none : Sign [] 1
  | plus : Sign ['+'] 1
  | minus : Sign ['-'] (-1)

/-- A whole number of a fraction. A leading zero makes it octal. -/
inductive Whole : List Char → Nat → Prop
  | decimal {c cs ds} (h : Digits numerals 10 .other (c :: cs) ds) (hc : c ≠ '0') :
      Whole (c :: cs) (positional 10 ds)
  | octal {cs ds} (h : Digits numerals 8 .digit cs ds) : Whole ('0' :: cs) (positional 8 ds)
  | based {c radix cs ds} (hc : basePrefix c = some radix)
      (h : Digits numerals radix.base .digit cs ds) (hne : ds ≠ []) :
      Whole ('0' :: c :: cs) (positional radix.base ds)

/-- A number up to its exponent. -/
inductive Mantissa : Radix → List Char → ℚ → Prop
  | decimal {cs is fs} (h : Fixed numerals 10 .other cs is fs) (hne : is ++ fs ≠ []) :
      Mantissa .dec cs (fixedPoint 10 is fs)
  | based {c radix cs is fs} (hc : basePrefix c = some radix)
      (h : Fixed numerals radix.base .digit cs is fs) (hne : is ++ fs ≠ []) :
      Mantissa radix ('0' :: c :: cs) (fixedPoint radix.base is fs)

/-- The factor of an exponent. A hexadecimal number has none of base 10, whose letter is one of its
digits. -/
inductive Exponent (radix : Radix) : List Char → ℚ → Prop
  | none : Exponent radix [] 1
  | power {c ebase sg x cs ds} (hc : exponentBase c = some ebase) (hr : ebase = .ten → radix ≠ .hex)
      (hs : Sign sg x) (h : Digits numerals 10 .other cs ds) (hne : ds ≠ []) :
      Exponent radix (c :: (sg ++ cs)) ((ebase.base : ℚ) ^ (x * positional 10 ds))

/-- **The number that a text denotes.** -/
inductive Denotes : List Char → ℚ → Prop
  | fraction {sg x a m b n} (hs : Sign sg x) (ha : Whole a m) (hb : Whole b n) (hn : n ≠ 0) :
      Denotes (sg ++ a ++ '/' :: b) (x * m / n)
  | number {sg x radix cs q es y} (hs : Sign sg x) (hm : Mantissa radix cs q)
      (he : Exponent radix es y) : Denotes (sg ++ cs ++ es) (x * q * y)

/-! ## Characters -/

theorem numerals_fits (radix : Radix) : numerals.Fits radix.base := by
  cases radix <;> exact ⟨by decide, by decide, by decide⟩

theorem Radix.base_ne_zero (radix : Radix) : radix.base ≠ 0 := by
  cases radix <;> decide

/-- No digit of a decimal number, nor a separator or a point, is the letter of a base. -/
theorem basePrefix_eq_none {c : Char} (h : digitVal c < 10 ∨ c = '_' ∨ c = '.') :
    basePrefix c = none := by
  unfold basePrefix
  split
  case h_7 => rfl
  all_goals exact absurd h (by decide)

/-- No character of the text is a sign or a slash. -/
def Plain (r : List Char) : Prop :=
  ∀ c ∈ r, c ≠ '+' ∧ c ≠ '-' ∧ c ≠ '/'

theorem Plain.cons {c : Char} {r : List Char} (hc : c ≠ '+' ∧ c ≠ '-' ∧ c ≠ '/') (h : Plain r) :
    Plain (c :: r) :=
  List.forall_mem_cons.2 ⟨hc, h⟩

theorem plain_of_fixed (radix : Radix) {last : Last} {cs : List Char} {is fs : List Nat}
    (h : Fixed numerals radix.base last cs is fs) : Plain cs := by
  intro c hc
  have hc := h.mem c hc
  refine ⟨?_, ?_, ?_⟩ <;> rintro rfl <;> revert hc <;> cases radix <;> decide

theorem plain_of_digits (radix : Radix) {last : Last} {cs : List Char} {ds : List Nat}
    (h : Digits numerals radix.base last cs ds) : Plain cs :=
  plain_of_fixed radix (.whole h)

theorem plain_of_basePrefix {c : Char} {radix : Radix} (h : basePrefix c = some radix) :
    c ≠ '+' ∧ c ≠ '-' ∧ c ≠ '/' := by
  refine ⟨?_, ?_, ?_⟩ <;> rintro rfl <;> cases h

theorem Whole.ne_nil {cs : List Char} {n : Nat} (h : Whole cs n) : cs ≠ [] := by
  cases h <;> simp

theorem Whole.plain {cs : List Char} {n : Nat} (h : Whole cs n) : Plain cs := by
  cases h with
  | decimal h _ => exact plain_of_digits .dec h
  | octal h => exact (plain_of_digits .oct h).cons (by decide)
  | based hc h _ => exact ((plain_of_digits _ h).cons (plain_of_basePrefix hc)).cons (by decide)

theorem Mantissa.ne_nil {radix : Radix} {cs : List Char} {q : ℚ} (h : Mantissa radix cs q) :
    cs ≠ [] := by
  cases h with
  | decimal h hne => exact h.ne_nil hne
  | based _ _ _ => simp

theorem Mantissa.plain {radix : Radix} {cs : List Char} {q : ℚ} (h : Mantissa radix cs q) :
    Plain cs := by
  cases h with
  | decimal h _ => exact plain_of_fixed .dec h
  | based hc h _ => exact ((plain_of_fixed _ h).cons (plain_of_basePrefix hc)).cons (by decide)

/-! ## Signs -/

theorem signed_eq (neg : Bool) (n : Nat) : signed neg n = signed neg 1 * n := by
  cases neg <;> simp [signed]

theorem sign_of_scanSign (r : List Char) :
    ∃ sg, r = sg ++ (scanSign r).2 ∧ Sign sg (signed (scanSign r).1 1) := by
  unfold scanSign
  split
  · exact ⟨['+'], rfl, .plus⟩
  · exact ⟨['-'], rfl, .minus⟩
  · exact ⟨[], rfl, .none⟩

theorem scanSign_of_plain {r : List Char} (h : Plain r) (r' : List Char) (hr : r ≠ []) :
    scanSign (r ++ r') = (false, r ++ r') := by
  cases r with
  | nil => exact absurd rfl hr
  | cons c r =>
    obtain ⟨h₁, h₂, -⟩ := h c (.head _)
    unfold scanSign
    split <;> simp_all

theorem scanSign_of_sign {sg r : List Char} {x : Int} (h : Sign sg x) (hp : Plain r)
    (r' : List Char) (hr : r ≠ []) : ∃ neg, scanSign (sg ++ r ++ r') = (neg, r ++ r') ∧
    x = signed neg 1 := by
  cases h with
  | none => exact ⟨false, scanSign_of_plain hp r' hr, rfl⟩
  | plus => exact ⟨false, rfl, rfl⟩
  | minus => exact ⟨true, rfl, rfl⟩

/-! ## Whole numbers -/

theorem natScan_based {c : Char} {radix : Radix} (hc : basePrefix c = some radix) (fracOk : Bool)
    (r : List Char) : natScan fracOk ('0' :: c :: r) =
      scan numerals radix.base fracOk .digit .start r >>= NatText.ofScanned radix := by
  rw [natScan, hc]

theorem ofScanned_digits (radix : Radix) (ds : List Nat) (r : List Char) :
    NatText.ofScanned radix (Scanned.start.digits radix.base ds, r) =
      if ds = [] then none else some (⟨positional radix.base ds, radix, ds.length⟩, r) := by
  cases ds with
  | nil => rfl
  | cons d ds => simp [NatText.ofScanned, Scanned.start, Scanned.digits]

theorem eq_of_ofScanned {radix : Radix} {s : Scanned} {r r' : List Char} {m : NatText}
    (h : NatText.ofScanned radix (s, r) = some (m, r')) : s.count ≠ 0 ∧ r' = r := by
  simp only [NatText.ofScanned] at h
  split at h <;> cases h
  exact ⟨‹_›, rfl⟩

theorem scan_to_end (radix : Radix) {last : Last} {r : List Char} {s : Scanned} :
    scan numerals radix.base false last .start r = some (s, []) ↔
      ∃ ds, Digits numerals radix.base last r ds ∧ s = Scanned.start.digits radix.base ds := by
  rw [scan_whole (numerals_fits radix)]
  refine ⟨fun h => ?_, fun h => ?_⟩
  · obtain ⟨cs, ds, rfl, hcs, -, rfl⟩ := h
    exact ⟨ds, by rwa [List.append_nil], rfl⟩
  · obtain ⟨ds, hcs, rfl⟩ := h
    exact ⟨r, ds, by simp, hcs, by simp [Stops], rfl⟩

theorem scan_ofScanned_to_end (radix : Radix) {last : Last} {r : List Char} {n : Nat} :
    (∃ m, scan numerals radix.base false last .start r >>= NatText.ofScanned radix = some (m, []) ∧
      m.value = n) ↔
    ∃ ds, Digits numerals radix.base last r ds ∧ ds ≠ [] ∧ positional radix.base ds = n := by
  refine ⟨fun h => ?_, fun h => ?_⟩
  · obtain ⟨m, h, rfl⟩ := h
    obtain ⟨⟨s, r'⟩, hs, h⟩ := Option.bind_eq_some_iff.1 h
    obtain ⟨-, rfl⟩ := eq_of_ofScanned h
    obtain ⟨ds, hds, rfl⟩ := (scan_to_end radix).1 hs
    rw [ofScanned_digits] at h
    split at h <;> cases h
    exact ⟨ds, hds, ‹_›, rfl⟩
  · obtain ⟨ds, hds, hne, rfl⟩ := h
    refine ⟨⟨positional radix.base ds, radix, ds.length⟩, ?_, rfl⟩
    refine Option.bind_eq_some_iff.2 ⟨_, (scan_to_end radix).2 ⟨ds, hds, rfl⟩, ?_⟩
    rw [ofScanned_digits, if_neg hne]

theorem scanWhole_eq_some {r : List Char} {n : Nat} :
    scanWhole r = some n ↔ ∃ m, natScan false r = some (m, []) ∧ m.value = n := by
  simp only [scanWhole, Option.bind_eq_bind, Option.bind_eq_some_iff, Option.ite_none_right_eq_some,
    Option.some.injEq, Prod.exists]
  refine ⟨fun h => ?_, fun h => ?_⟩
  · obtain ⟨m, r', h, rfl, rfl⟩ := h
    exact ⟨m, h, rfl⟩
  · obtain ⟨m, h, rfl⟩ := h
    exact ⟨m, [], h, rfl, rfl⟩

theorem scanWhole_based {c : Char} {radix : Radix} (hc : basePrefix c = some radix) {r : List Char}
    {n : Nat} : scanWhole ('0' :: c :: r) = some n ↔
      ∃ ds, Digits numerals radix.base .digit r ds ∧ ds ≠ [] ∧ positional radix.base ds = n := by
  rw [scanWhole_eq_some, natScan_based hc, scan_ofScanned_to_end]

theorem scanWhole_octal {c : Char} (hc : basePrefix c = none) {r : List Char} {n : Nat} :
    scanWhole ('0' :: c :: r) = some n ↔
      ∃ ds, Digits numerals 8 .digit (c :: r) ds ∧ positional 8 ds = n := by
  have hout : ∀ ds r', ∃ m, (if (Scanned.start.digits 8 ds).count = 0 then some (⟨0, .dec, 1⟩, r')
      else NatText.ofScanned .oct (Scanned.start.digits 8 ds, r')) = some (m, r') ∧
        m.value = positional 8 ds := by
    intro ds r'
    cases ds with
    | nil => exact ⟨_, rfl, rfl⟩
    | cons d ds =>
      rw [if_neg (by simp)]
      exact ⟨_, ofScanned_digits .oct (d :: ds) r', rfl⟩
  rw [scanWhole_eq_some]
  simp only [natScan, hc, Bool.false_eq_true, if_false, Option.bind_eq_bind,
    Option.bind_eq_some_iff, Prod.exists]
  refine ⟨fun h => ?_, fun h => ?_⟩
  · obtain ⟨m, ⟨s, r', hs, h⟩, rfl⟩ := h
    obtain ⟨cs, ds, hr, hcs, -, rfl⟩ := (scan_whole (numerals_fits .oct)).1 hs
    obtain ⟨m', hm', hv⟩ := hout ds r'
    cases hm'.symm.trans h
    rw [List.append_nil] at hr
    exact ⟨ds, hr ▸ hcs, hv.symm⟩
  · obtain ⟨ds, hds, rfl⟩ := h
    obtain ⟨m, hm, hv⟩ := hout ds []
    exact ⟨m, ⟨_, [], (scan_to_end .oct).2 ⟨ds, hds, rfl⟩, hm⟩, hv⟩

theorem scanWhole_decimal {r : List Char} (h : r.head? ≠ some '0') {n : Nat} :
    scanWhole r = some n ↔ ∃ ds, Digits numerals 10 .other r ds ∧ ds ≠ [] ∧
    positional 10 ds = n := by
  rw [scanWhole_eq_some]
  unfold natScan
  split
  · exact absurd rfl h
  · exact scan_ofScanned_to_end .dec

theorem whole_of_scanWhole {r : List Char} {n : Nat} (h : scanWhole r = some n) : Whole r n := by
  cases r with
  | nil => cases h
  | cons c r =>
    by_cases hc : c = '0'
    · subst hc
      cases r with
      | nil =>
        cases h
        exact .octal (.nil (by decide))
      | cons c r =>
        cases hb : basePrefix c with
        | none =>
          obtain ⟨ds, hds, rfl⟩ := (scanWhole_octal hb).1 h
          exact .octal hds
        | some radix =>
          obtain ⟨ds, hds, hne, rfl⟩ := (scanWhole_based hb).1 h
          exact .based hb hds hne
    · obtain ⟨ds, hds, -, rfl⟩ := (scanWhole_decimal (by simpa using hc)).1 h
      exact .decimal hds hc

/-- **The whole numbers of fractions are read as they are written.** -/
theorem scanWhole_iff {r : List Char} {n : Nat} : scanWhole r = some n ↔ Whole r n := by
  refine ⟨whole_of_scanWhole, fun h => ?_⟩
  cases h with
  | decimal h hc =>
    refine (scanWhole_decimal (by simpa using hc)).2 ⟨_, h, ?_, rfl⟩
    cases h
    simp
  | @octal cs ds h =>
    cases cs with
    | nil =>
      cases h
      rfl
    | cons c cs =>
      have hc : basePrefix c = none := by
        refine basePrefix_eq_none ((h.mem c (.head _)).imp (fun h => ?_) .inl)
        exact Nat.lt_trans h (by decide)
      exact (scanWhole_octal hc).2 ⟨ds, h, rfl⟩
  | based hc h hne => exact (scanWhole_based hc).2 ⟨_, h, hne, rfl⟩

/-! ## Numbers up to their exponent -/

theorem scan_zero (fracOk : Bool) (r : List Char) :
    scan numerals 10 fracOk .other .start ('0' :: r) =
      scan numerals 10 fracOk .digit ⟨0, 1, none⟩ r := by
  cases fracOk <;> rfl

theorem natScan_decimal {r : List Char} (h : ∀ c r', r = '0' :: c :: r' → basePrefix c = none) :
    natScan true r = scan numerals 10 true .other .start r >>= NatText.ofScanned .dec := by
  unfold natScan
  split
  · rename_i c r
    rw [h c r rfl, scan_zero]
    rfl
  · rfl

/-- The number in front of an exponent, its digits behind the point taken into account. -/
def NatText.val (m : NatText) : ℚ :=
  m.value * (m.radix.base : ℚ) ^ min m.count 0

/-- The number is written with the digits `is` and, behind a point, `fs`. -/
structure NatText.Is (m : NatText) (is fs : List Nat) : Prop where
  value : m.value = positional m.radix.base (is ++ fs)
  point : min m.count 0 = -(fs.length : Int)

theorem NatText.Is.val_eq {m : NatText} {is fs : List Nat} (h : m.Is is fs) :
    m.val = fixedPoint m.radix.base is fs := by
  rw [fixedPoint_eq m.radix.base_ne_zero, NatText.val, h.value, h.point]

theorem ofScanned_reads {radix : Radix} {s : Scanned} {is fs : List Nat}
    (h : s.Reads radix.base is fs) (hne : is ++ fs ≠ []) (r : List Char) :
    ∃ m, NatText.ofScanned radix (s, r) = some (m, r) ∧ m.radix = radix ∧ m.Is is fs := by
  have hc : s.count ≠ 0 := by
    rw [h.count]
    exact mt List.length_eq_zero_iff.1 hne
  simp only [NatText.ofScanned, if_neg hc]
  refine ⟨_, rfl, rfl, h.value, ?_⟩
  have hcount := h.count
  rw [List.length_append] at hcount
  rcases h.point with ⟨hp, rfl⟩ | hp
  · simp [hp]
  · simp only [hp]
    omega

theorem fixed_of_scan_ofScanned (radix : Radix) {last : Last} {r r' : List Char} {m : NatText}
    (h : scan numerals radix.base true last .start r >>= NatText.ofScanned radix = some (m, r')) :
    ∃ cs is fs, r = cs ++ r' ∧ Fixed numerals radix.base last cs is fs ∧ is ++ fs ≠ [] ∧
      Stops numerals radix.base false r' ∧ m.radix = radix ∧ m.Is is fs := by
  obtain ⟨⟨s, r₁⟩, hs, hof⟩ := Option.bind_eq_some_iff.1 h
  obtain ⟨hc, rfl⟩ := eq_of_ofScanned hof
  obtain ⟨cs, is, fs, rfl, hcs, hst, hrd⟩ := fixed_of_scan (numerals_fits radix) hs
  have hne : is ++ fs ≠ [] := by
    rw [hrd.count] at hc
    exact mt (congrArg List.length) hc
  obtain ⟨m', hm', hi⟩ := ofScanned_reads hrd hne r'
  cases hm'.symm.trans hof
  exact ⟨cs, is, fs, rfl, hcs, hne, hst, hi⟩

theorem scan_ofScanned_of_fixed (radix : Radix) {last : Last} {cs r : List Char} {is fs : List Nat}
    (h : Fixed numerals radix.base last cs is fs) (hne : is ++ fs ≠ [])
    (hst : Stops numerals radix.base true r) :
    ∃ m, scan numerals radix.base true last .start (cs ++ r) >>= NatText.ofScanned radix =
      some (m, r) ∧ m.radix = radix ∧ m.Is is fs := by
  obtain ⟨s, hs, hrd⟩ := scan_of_fixed (numerals_fits radix) h hst
  obtain ⟨m, hm, hi⟩ := ofScanned_reads hrd hne r
  exact ⟨m, Option.bind_eq_some_iff.2 ⟨_, hs, hm⟩, hi⟩

theorem mantissa_of_natScan {r r' : List Char} {m : NatText} (h : natScan true r = some (m, r')) :
    ∃ cs, r = cs ++ r' ∧ Mantissa m.radix cs m.val ∧ Stops numerals m.radix.base false r' := by
  by_cases hb : ∃ c radix r₁, r = '0' :: c :: r₁ ∧ basePrefix c = some radix
  · obtain ⟨c, radix, r₁, rfl, hc⟩ := hb
    rw [natScan_based hc] at h
    obtain ⟨cs, is, fs, rfl, hcs, hne, hst, rfl, hi⟩ := fixed_of_scan_ofScanned radix h
    rw [hi.val_eq]
    exact ⟨'0' :: c :: cs, rfl, .based hc hcs hne, hst⟩
  · have hdec : ∀ c r₁, r = '0' :: c :: r₁ → basePrefix c = none := by
      intro c r₁ hr
      cases hc : basePrefix c with
      | none => rfl
      | some radix => exact absurd ⟨c, radix, r₁, hr, hc⟩ hb
    rw [natScan_decimal hdec] at h
    obtain ⟨cs, is, fs, rfl, hcs, hne, hst, hr, hi⟩ := fixed_of_scan_ofScanned .dec h
    rw [hi.val_eq, hr]
    exact ⟨cs, rfl, .decimal hcs hne, hst⟩

theorem natScan_of_decimal {cs r : List Char} {is fs : List Nat}
    (h : Fixed numerals 10 .other cs is fs) (hne : is ++ fs ≠ []) (hst : Stops numerals 10 true r)
    (hr : ∀ c ∈ r.head?, basePrefix c = none) :
    ∃ m, natScan true (cs ++ r) = some (m, r) ∧ m.radix = .dec ∧ m.Is is fs := by
  have hdec : ∀ c r₁, cs ++ r = '0' :: c :: r₁ → basePrefix c = none := by
    intro c r₁ hcr
    -- the character behind a leading zero is one of the number or the first behind it
    rcases List.append_eq_cons_iff.1 hcr with ⟨rfl, -⟩ | ⟨cs', rfl, hcr'⟩
    · exact absurd rfl (h.ne_nil hne)
    · rcases List.append_eq_cons_iff.1 hcr'.symm with ⟨rfl, hr'⟩ | ⟨cs'', rfl, -⟩
      · exact hr c (by rw [hr']; rfl)
      · exact basePrefix_eq_none (h.mem c (by simp))
  obtain ⟨m, hm, hi⟩ := scan_ofScanned_of_fixed .dec h hne hst
  exact ⟨m, (natScan_decimal hdec).trans hm, hi⟩

theorem natScan_of_mantissa {radix : Radix} {cs r : List Char} {q : ℚ} (h : Mantissa radix cs q)
    (hst : Stops numerals radix.base true r) (hr : ∀ c ∈ r.head?, basePrefix c = none) :
    ∃ m, natScan true (cs ++ r) = some (m, r) ∧ m.radix = radix ∧ m.val = q := by
  cases h with
  | decimal h hne =>
    obtain ⟨m, hm, hd, hi⟩ := natScan_of_decimal h hne hst hr
    refine ⟨m, hm, hd, ?_⟩
    rw [hi.val_eq, hd]
    rfl
  | based hc h hne =>
    obtain ⟨m, hm, rfl, hi⟩ := scan_ofScanned_of_fixed _ h hne hst
    exact ⟨m, (natScan_based hc true _).trans hm, rfl, hi.val_eq⟩

/-! ## Exponents -/

theorem exponentBase_eq_some {c : Char} {ebase : ExponentBase} (h : exponentBase c = some ebase) :
    ebase = .ten ∧ (c = 'e' ∨ c = 'E') ∨ ebase = .two ∧ (c = 'p' ∨ c = 'P') := by
  unfold exponentBase at h
  split at h <;> cases h <;> simp

theorem scanExponent_power {c : Char} {ebase : ExponentBase} (hc : exponentBase c = some ebase)
    {eb : ExponentBase} {r : List Char} {exp : Int} :
    scanExponent (c :: r) = some (eb, exp, []) ↔ eb = ebase ∧ ∃ sg x cs ds, r = sg ++ cs ∧
      Sign sg x ∧ Digits numerals 10 .other cs ds ∧ ds ≠ [] ∧ exp = x * positional 10 ds := by
  simp only [scanExponent, hc, Option.bind_eq_bind, Option.bind_eq_some_iff, Prod.exists,
    Option.ite_none_left_eq_some, Option.some.injEq, Prod.mk.injEq]
  refine ⟨fun h => ?_, fun h => ?_⟩
  · obtain ⟨s, r', hs, hcount, rfl, rfl, rfl⟩ := h
    obtain ⟨sg, hr, hsg⟩ := sign_of_scanSign r
    obtain ⟨ds, hds, rfl⟩ := (scan_to_end .dec).1 hs
    refine ⟨rfl, sg, _, _, ds, hr, hsg, hds, ?_, ?_⟩
    · rintro rfl
      exact hcount rfl
    · rw [signed_eq, Scanned.start_digits_value]
      rfl
  · obtain ⟨rfl, sg, x, cs, ds, rfl, hsg, hds, hne, rfl⟩ := h
    have hcs : cs ≠ [] := (Fixed.whole hds).ne_nil (by simpa using hne)
    obtain ⟨neg, hneg, rfl⟩ := scanSign_of_sign hsg (plain_of_digits .dec hds) [] hcs
    simp only [List.append_nil] at hneg
    refine ⟨_, [], by rw [hneg]; exact (scan_to_end .dec).2 ⟨ds, hds, rfl⟩, ?_, rfl, ?_, rfl⟩
    · simpa using hne
    · rw [hneg, signed_eq, Scanned.start_digits_value]
      rfl

theorem exponent_of_scanExponent {radix : Radix} {r : List Char} {eb : ExponentBase} {exp : Int}
    (h : scanExponent r = some (eb, exp, [])) (hst : Stops numerals radix.base false r) :
    Exponent radix r ((eb.base : ℚ) ^ exp) := by
  cases r with
  | nil =>
    cases h
    rw [zpow_zero]
    exact .none
  | cons c r =>
    cases hc : exponentBase c with
    | none => simp [scanExponent, hc] at h
    | some ebase =>
      obtain ⟨rfl, sg, x, cs, ds, rfl, hsg, hds, hne, rfl⟩ := (scanExponent_power hc).1 h
      refine .power hc ?_ hsg hds hne
      -- the letter of base 10 would be a digit of a hexadecimal number
      rintro rfl rfl
      have hle := (hst c rfl).2.1
      obtain ⟨-, rfl | rfl⟩ | ⟨he, -⟩ := exponentBase_eq_some hc
      · exact absurd hle (by decide)
      · exact absurd hle (by decide)
      · cases he

theorem scanExponent_of_exponent {radix : Radix} {r : List Char} {y : ℚ} (h : Exponent radix r y) :
    ∃ eb exp, scanExponent r = some (eb, exp, []) ∧ (eb.base : ℚ) ^ exp = y := by
  cases h with
  | none => exact ⟨.ten, 0, rfl, zpow_zero _⟩
  | power hc _ hsg hds hne =>
    exact ⟨_, _, (scanExponent_power hc).2 ⟨rfl, _, _, _, _, rfl, hsg, hds, hne, rfl⟩, rfl⟩

theorem Exponent.stops {radix : Radix} {r : List Char} {y : ℚ} (h : Exponent radix r y) :
    Stops numerals radix.base true r ∧ ∀ c ∈ r.head?, basePrefix c = Option.none := by
  cases h with
  | none => exact ⟨by simp [Stops], by simp⟩
  | power hc hr _ _ _ =>
    simp only [Stops, List.head?_cons, Option.mem_some_iff, forall_eq']
    obtain ⟨rfl, rfl | rfl⟩ | ⟨rfl, rfl | rfl⟩ := exponentBase_eq_some hc
    all_goals revert hr; cases radix <;> decide

/-! ## Whole texts -/

/-- The number that was read, whatever its size. -/
def RatText.value : RatText → ℚ
  | fraction a b => a / b
  | number neg m ebase exp => signed neg 1 * m.val * (ebase.base : ℚ) ^ exp

theorem denotes_of_scanFraction {a b : List Char} {t : RatText}
    (h : RatText.scanFraction a b = some t) : Denotes (a ++ '/' :: b) t.value := by
  simp only [RatText.scanFraction, Option.bind_eq_bind, Option.bind_eq_some_iff,
    Option.ite_none_left_eq_some, Option.some.injEq] at h
  obtain ⟨m, hm, n, hn, hn0, rfl⟩ := h
  obtain ⟨sg, ha, hsg⟩ := sign_of_scanSign a
  have hd := Denotes.fraction hsg (scanWhole_iff.1 hm) (scanWhole_iff.1 hn) hn0
  rw [← ha] at hd
  rw [RatText.value, signed_eq]
  push_cast
  exact hd

theorem denotes_of_scanNumber {r : List Char} {t : RatText} (h : RatText.scanNumber r = some t) :
    Denotes r t.value := by
  simp only [RatText.scanNumber, Option.bind_eq_bind, Option.bind_eq_some_iff, Prod.exists,
    Option.ite_none_right_eq_some, Option.some.injEq] at h
  obtain ⟨m, r₁, hm, eb, exp, r₂, he, rfl, rfl⟩ := h
  obtain ⟨sg, hr, hsg⟩ := sign_of_scanSign r
  obtain ⟨cs, hcs, hman, hst⟩ := mantissa_of_natScan hm
  have hd := Denotes.number hsg hman (exponent_of_scanExponent he hst)
  rwa [List.append_assoc, ← hcs, ← hr] at hd

theorem eq_slash_of_dropWhile {r b : List Char} {c : Char} (h : r.dropWhile (· ≠ '/') = c :: b) :
    c = '/' := by
  have hc := List.head?_dropWhile_not (· ≠ '/') r
  rw [h] at hc
  simpa using hc

theorem RatText.denotes_of_scan {r : List Char} {t : RatText} (h : RatText.scan r = some t) :
    Denotes r t.value := by
  unfold RatText.scan at h
  split at h
  · rename_i c b hb
    obtain rfl := eq_slash_of_dropWhile hb
    have hd := denotes_of_scanFraction h
    rwa [← hb, List.takeWhile_append_dropWhile] at hd
  · exact denotes_of_scanNumber h

/-- No character of the text is a slash. -/
def Slashless (r : List Char) : Prop :=
  ∀ c ∈ r, c ≠ '/'

theorem Slashless.append {r r' : List Char} (h : Slashless r) (h' : Slashless r') :
    Slashless (r ++ r') :=
  List.forall_mem_append.2 ⟨h, h'⟩

theorem Plain.slashless {r : List Char} (h : Plain r) : Slashless r :=
  fun c hc => (h c hc).2.2

theorem Sign.slashless {sg : List Char} {x : Int} (h : Sign sg x) : Slashless sg := by
  cases h <;> simp [Slashless]

theorem Exponent.slashless {radix : Radix} {r : List Char} {y : ℚ} (h : Exponent radix r y) :
    Slashless r := by
  cases h with
  | none => simp [Slashless]
  | power hc _ hs h _ =>
    refine List.forall_mem_cons.2 ⟨?_, hs.slashless.append (plain_of_digits .dec h).slashless⟩
    rintro rfl
    cases hc

theorem RatText.scan_slash {a : List Char} (h : Slashless a) (b : List Char) :
    RatText.scan (a ++ '/' :: b) = scanFraction a b := by
  have hp : ∀ c ∈ a, decide (c ≠ '/') = true := fun c hc => decide_eq_true (h c hc)
  rw [RatText.scan, List.dropWhile_append_of_pos hp, List.takeWhile_append_of_pos hp,
    List.takeWhile_cons_of_neg (by simp), List.dropWhile_cons_of_neg (by simp), List.append_nil]

theorem RatText.scan_slashless {r : List Char} (h : Slashless r) :
    RatText.scan r = scanNumber r := by
  have hr : r.dropWhile (· ≠ '/') = [] :=
    List.dropWhile_eq_nil_iff.2 fun c hc => decide_eq_true (h c hc)
  rw [RatText.scan, hr]

theorem Denotes.scan {r : List Char} {q : ℚ} (h : Denotes r q) :
    ∃ t, RatText.scan r = some t ∧ t.value = q := by
  cases h with
  | @fraction sg x a m b n hs ha hb hn =>
    obtain ⟨neg, hneg, rfl⟩ := scanSign_of_sign hs ha.plain [] ha.ne_nil
    simp only [List.append_nil] at hneg
    refine ⟨.fraction (signed neg m) n, ?_, ?_⟩
    · rw [RatText.scan_slash (hs.slashless.append ha.plain.slashless)]
      simp [RatText.scanFraction, hneg, scanWhole_iff.2 ha, scanWhole_iff.2 hb, hn]
    · rw [RatText.value, signed_eq]
      push_cast
      rfl
  | @number sg x radix cs q es y hs hm he =>
    obtain ⟨neg, hneg, rfl⟩ := scanSign_of_sign hs hm.plain es hm.ne_nil
    obtain ⟨m, hms, -, rfl⟩ := natScan_of_mantissa hm he.stops.1 he.stops.2
    obtain ⟨eb, exp, hes, rfl⟩ := scanExponent_of_exponent he
    refine ⟨.number neg m eb exp, ?_, rfl⟩
    rw [RatText.scan_slashless ((hs.slashless.append hm.plain.slashless).append he.slashless)]
    simp only [List.append_assoc] at hneg ⊢
    simp [RatText.scanNumber, hneg, hms, hes]

/-- **The reader accepts the texts that denote a number, and reads that number.** -/
theorem denotes_iff {r : List Char} {q : ℚ} :
    Denotes r q ↔ ∃ t, RatText.scan r = some t ∧ t.value = q := by
  refine ⟨Denotes.scan, ?_⟩
  rintro ⟨t, ht, rfl⟩
  exact RatText.denotes_of_scan ht

theorem Denotes.unique {r : List Char} {q q' : ℚ} (h : Denotes r q) (h' : Denotes r q') :
    q = q' := by
  obtain ⟨t, ht, rfl⟩ := h.scan
  obtain ⟨t', ht', rfl⟩ := h'.scan
  cases ht.symm.trans ht'
  rfl

/-! ## Powers -/

theorem zpow_eq_div (x : ℚ) (e : Int) : x ^ e = x ^ e.toNat / x ^ (-e).toNat := by
  rcases le_total 0 e with he | he
  · rw [Int.toNat_of_nonpos (by omega : -e ≤ 0), pow_zero, div_one, ← zpow_natCast,
      Int.toNat_of_nonneg he]
  · rw [Int.toNat_of_nonpos he, pow_zero, one_div, ← zpow_natCast, Int.toNat_of_nonneg (by omega),
      zpow_neg, inv_inv]

theorem Radix.base_zpow (radix : Radix) (d : Int) :
    (radix.base : ℚ) ^ d = 5 ^ radix.exp5 d * 2 ^ radix.exp2 d := by
  cases radix with
  | bin => simp [base, exp5, exp2]
  | oct =>
    rw [show oct.exp5 d = 0 from rfl, exp2, mul_comm d, zpow_mul]
    norm_num [base]
  | dec =>
    rw [exp5, exp2, ← mul_zpow]
    norm_num [base]
  | hex =>
    rw [show hex.exp5 d = 0 from rfl, exp2, mul_comm d, zpow_mul]
    norm_num [base]

theorem ExponentBase.base_zpow (ebase : ExponentBase) (e : Int) :
    (ebase.base : ℚ) ^ e = 5 ^ ebase.exp5 e * 2 ^ e := by
  cases ebase with
  | two => simp [base, exp5]
  | ten =>
    rw [exp5, ← mul_zpow]
    norm_num [base]

namespace RatText

/-- The exponents are in the limits of `SetString`. -/
def InLimits : RatText → Prop
  | fraction _ _ => True
  | number _ m ebase exp => (-2 ^ 63 ≤ exp ∧ exp < 2 ^ 63) ∧ (m.value = 0 ∨
      (m.radix.exp5 (min m.count 0) + ebase.exp5 exp).natAbs ≤ 1000000 ∧
      (m.radix.exp2 (min m.count 0) + exp).natAbs ≤ 10000000)

theorem mkRat_eq_value (neg : Bool) (m : NatText) (ebase : ExponentBase) (exp exp5 exp2 : Int)
    (h5 : exp5 = m.radix.exp5 (min m.count 0) + ebase.exp5 exp)
    (h2 : exp2 = m.radix.exp2 (min m.count 0) + exp) :
    mkRat (signed neg (m.value * 5 ^ exp5.toNat * 2 ^ exp2.toNat))
      (5 ^ (-exp5).toNat * 2 ^ (-exp2).toNat) = (number neg m ebase exp).value := by
  have h5' : (5 : ℚ) ^ exp5 = 5 ^ exp5.toNat / 5 ^ (-exp5).toNat := zpow_eq_div _ exp5
  have h2' : (2 : ℚ) ^ exp2 = 2 ^ exp2.toNat / 2 ^ (-exp2).toNat := zpow_eq_div _ exp2
  calc mkRat _ _ = signed neg 1 * (m.value * 5 ^ exp5 * 2 ^ exp2) := by
        rw [Rat.mkRat_eq_div, signed_eq, h5', h2']
        push_cast
        ring
    _ = (number neg m ebase exp).value := by
        rw [value, NatText.val, Radix.base_zpow, ExponentBase.base_zpow, h5, h2,
          zpow_add₀ (by norm_num), zpow_add₀ (by norm_num)]
        ring

/-- **A number within the limits is computed exactly**, and no other is computed. -/
theorem rat_eq_some_iff {t : RatText} {q : ℚ} : t.rat = some q ↔ t.InLimits ∧ t.value = q := by
  cases t with
  | fraction a b => simp [rat, InLimits, value, Rat.mkRat_eq_div]
  | number neg m ebase exp =>
    have hzero : m.value = 0 → (number neg m ebase exp).value = 0 := by
      intro h
      simp [value, NatText.val, h]
    refine ⟨fun h => ?_, fun h => ?_⟩
    · simp only [rat] at h
      split at h
      · cases h
      · rename_i hexp
        split at h
        · rename_i h0
          cases h
          exact ⟨⟨not_not.1 hexp, .inl h0⟩, hzero h0⟩
        · split at h
          · cases h
          · rename_i h5
            split at h
            · cases h
            · rename_i h2
              cases h
              refine ⟨⟨not_not.1 hexp, .inr ⟨Nat.not_lt.1 h5, Nat.not_lt.1 h2⟩⟩, ?_⟩
              exact (mkRat_eq_value neg m ebase exp _ _ rfl rfl).symm
    · obtain ⟨⟨hexp, hlim⟩, rfl⟩ := h
      simp only [rat, if_neg (not_not.2 hexp)]
      split
      · rename_i h0
        rw [hzero h0]
      · rename_i h0
        obtain ⟨h5, h2⟩ := hlim.resolve_left h0
        rw [if_neg (Nat.not_lt.2 h5), if_neg (Nat.not_lt.2 h2),
          mkRat_eq_value neg m ebase exp _ _ rfl rfl]

end RatText

/-- **What `SetString` returns is the number that the text denotes.** -/
theorem denotes_of_ratSetString {s : String} {q : ℚ} (h : ratSetString s = some q) :
    Denotes s.toList q := by
  obtain ⟨t, ht, hq⟩ := Option.bind_eq_some_iff.1 h
  obtain ⟨-, rfl⟩ := RatText.rat_eq_some_iff.1 hq
  exact RatText.denotes_of_scan ht

/-- **A decimal number is accepted**, with up to a million digits behind the point. -/
theorem ratSetString_decimal {s : String} {sg cs : List Char} {x : Int} {is fs : List Nat}
    (htext : s.toList = sg ++ cs) (hs : Sign sg x) (h : Fixed numerals 10 .other cs is fs)
    (hne : is ++ fs ≠ []) (hfs : fs.length ≤ 1000000) :
    ratSetString s = some (x * fixedPoint 10 is fs) := by
  have hp := plain_of_fixed .dec h
  obtain ⟨neg, hneg, rfl⟩ := scanSign_of_sign hs hp [] (h.ne_nil hne)
  obtain ⟨m, hm, hd, hi⟩ := natScan_of_decimal (r := []) h hne (by simp [Stops]) (by simp)
  simp only [List.append_nil] at hneg hm
  have hscan : RatText.scan s.toList = some (.number neg m .ten 0) := by
    rw [htext, RatText.scan_slashless (hs.slashless.append hp.slashless)]
    simp [RatText.scanNumber, hneg, hm, scanExponent]
  refine Option.bind_eq_some_iff.2 ⟨_, hscan, RatText.rat_eq_some_iff.2 ⟨?_, ?_⟩⟩
  · refine ⟨by decide, .inr ?_⟩
    rw [hi.point, hd]
    simp only [Radix.exp5, Radix.exp2, ExponentBase.exp5]
    omega
  · rw [RatText.value, hi.val_eq, hd, zpow_zero, mul_one]
    rfl

/-! ## Whole decimal numbers -/

theorem digitVal_of_isDigit {c : Char} (h : c.isDigit = true) :
    digitVal c = c.toNat - '0'.toNat ∧ digitVal c < 10 := by
  have hc : '0' ≤ c ∧ c ≤ '9' := by
    simpa [Char.isDigit, Char.le_def] using h
  have hle : c.toNat ≤ '9'.toNat := hc.2
  have hv : digitVal c = c.toNat - '0'.toNat := if_pos hc
  refine ⟨hv, ?_⟩
  rw [hv]
  simp only [Char.reduceToNat] at hle ⊢
  omega

theorem ofDigitChars_eq (ds : List Char) (h : ∀ c ∈ ds, c.isDigit = true) (n : Nat) :
    Nat.ofDigitChars 10 ds n = n * 10 ^ ds.length + positional 10 (ds.map digitVal) := by
  induction ds generalizing n with
  | nil => simp [Nat.ofDigitChars]
  | cons c ds ih =>
    rw [Nat.ofDigitChars_cons, ih (fun c hc => h c (.tail _ hc)), List.map_cons, positional_cons,
      (digitVal_of_isDigit (h c (.head _))).1, List.length_cons, List.length_map]
    ring

theorem digits_of_isDigit {ds : List Char} (h : ∀ c ∈ ds, c.isDigit = true) (last : Last)
    (hl : last ≠ .separator) : Digits numerals 10 last ds (ds.map digitVal) := by
  induction ds generalizing last with
  | nil => exact .nil hl
  | cons c ds ih =>
    exact .digit (digitVal_of_isDigit (h c (.head _))).2
      (ih (fun c hc => h c (.tail _ hc)) .digit (by decide))

theorem ratSetString_of_digits {s : String} (sg : List Char) {ds : List Char} {x : Int} {n : Nat}
    (htext : s.toList = sg ++ ds) (hs : Sign sg x) (h : digits ds = some n) :
    ratSetString s = some ((x * n : Int) : ℚ) := by
  simp only [digits, Option.ite_none_right_eq_some, Option.some.injEq, List.all_eq_true] at h
  obtain ⟨⟨hne, hall⟩, rfl⟩ := h
  have hfix := Fixed.whole (digits_of_isDigit hall .other (by decide))
  rw [ratSetString_decimal htext hs hfix (by simpa using hne) (by simp), fixedPoint_nil,
    ofDigitChars_eq ds hall]
  push_cast
  ring_nf

/-- **The integers that `big.Int.SetString` reads in base 10, `big.Rat.SetString` reads as the same
numbers.** -/
theorem ratSetString_of_setString (s : String) (n : Int) (h : setString s = some n) :
    ratSetString s = some (n : ℚ) := by
  unfold setString at h
  split at h
  all_goals
    rename_i hds
    simp only [Option.bind_eq_bind, Option.pure_def, Option.map_eq_some_iff,
      Option.bind_eq_some_iff, Option.some.injEq, exists_eq_right] at h
  · obtain ⟨_, ⟨m, hm, rfl⟩, rfl⟩ := h
    rw [ratSetString_of_digits ['-'] hds .minus hm, neg_one_mul]
  · obtain ⟨m, hm, rfl⟩ := h
    rw [ratSetString_of_digits ['+'] hds .plus hm, one_mul]
  · obtain ⟨m, hm, rfl⟩ := h
    rw [ratSetString_of_digits [] rfl .none hm, one_mul]

end Dex
