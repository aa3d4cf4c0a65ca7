import Mathlib.Algebra.Order.Field.Rat
import Mathlib.Data.Nat.Digits.Defs
import Mathlib.Tactic.FieldSimp
import Mathlib.Tactic.Ring

/-! # Numerals: positional values, and a scanner of digits with separators

* `positional`, `fixedPoint`: the numbers that digits denote, most significant first, without and
  with a point; `fixedPoint_eq` moves the point to the end.
* `Digits`, `Fixed`: the texts of numerals over an alphabet, apart from any reader. A separator
  stands only between two digits, or between what announces the base and the first digit.
* `scan`: the reader, one character at a time, that stops at the first one it cannot use.
  `scan_eq_some` says what it reads up to a point; `scan_whole`, `fixed_of_scan` and
  `scan_of_fixed` say that it accepts the texts of the grammar, as far as they go, and computes
  their value.
-/

namespace Lib

/-! ## Positional values -/

/-- The number that the digits `ds` denote in base `b`, the most significant first. -/
def positional (b : Nat) (ds : List Nat) : Nat :=
  Nat.ofDigits b ds.reverse

@[simp] theorem positional_nil (b : Nat) : positional b [] = 0 := rfl

theorem positional_append (b : Nat) (ds es : List Nat) :
    positional b (ds ++ es) = positional b ds * b ^ es.length + positional b es := by
  simp only [positional, List.reverse_append, Nat.ofDigits_append, List.length_reverse]
  ring

theorem positional_cons (b d : Nat) (ds : List Nat) :
    positional b (d :: ds) = d * b ^ ds.length + positional b ds := by
  have h := positional_append b [d] ds
  rwa [show positional b [d] = d from Nat.ofDigits_singleton] at h

/-- The number that the digits `is` before a point and `fs` after it denote in base `b`. -/
def fixedPoint (b : Nat) (is fs : List Nat) : ℚ :=
  positional b is + positional b fs / (b : ℚ) ^ fs.length

@[simp] theorem fixedPoint_nil (b : Nat) (is : List Nat) :
    fixedPoint b is [] = positional b is := by
  simp [fixedPoint]

theorem fixedPoint_eq {b : Nat} (hb : b ≠ 0) (is fs : List Nat) :
    fixedPoint b is fs = positional b (is ++ fs) * (b : ℚ) ^ (-(fs.length : ℤ)) := by
  have hb' : (b : ℚ) ≠ 0 := Nat.cast_ne_zero.2 hb
  rw [fixedPoint, positional_append, zpow_neg, zpow_natCast]
  push_cast
  field_simp

/-! ## The texts of numerals -/

/-- The characters of numerals. `val` is the value of a digit; what is no digit of a base has a
value the base does not reach. -/
structure Alphabet (α : Type) where
  val : α → Nat
  separator : α
  point : α

/-- The separator and the point are no digits of base `b`, and they differ. -/
structure Alphabet.Fits {α : Type} (A : Alphabet α) (b : Nat) : Prop where
  separator : b ≤ A.val A.separator
  point : b ≤ A.val A.point
  ne : A.separator ≠ A.point

/-- What stands before the next character of a numeral; a base's announcement counts as a digit. -/
inductive Last
  | digit
  | separator
  | other
  deriving DecidableEq, Repr

variable {α : Type} (A : Alphabet α) (b : Nat)

/-- `Digits A b last cs ds`: behind `last`, the text `cs` is the digits `ds` of base `b`. -/
inductive Digits : Last → List α → List Nat → Prop
  | nil {last} (h : last ≠ .separator) : Digits last [] []
  | digit {last c cs ds} (h : A.val c < b) (hcs : Digits .digit cs ds) :
      Digits last (c :: cs) (A.val c :: ds)
  | separator {cs ds} (hcs : Digits .separator cs ds) : Digits .digit (A.separator :: cs) ds

/-- Digits with at most one point among them: the text, the digits before the point and those
after it. -/
inductive Fixed (last : Last) : List α → List Nat → List Nat → Prop
  | whole {cs is} (hcs : Digits A b last cs is) : Fixed last cs is []
  | point {cs is es fs} (hcs : Digits A b last cs is) (hes : Digits A b .other es fs) :
      Fixed last (cs ++ A.point :: es) is fs

/-- No numeral of base `b` goes on with the text `r`. -/
def Stops (pointOk : Bool) (r : List α) : Prop :=
  ∀ c ∈ r.head?, c ≠ A.separator ∧ b ≤ A.val c ∧ (pointOk = true → c ≠ A.point)

/-! ## The scanner -/

/-- What a scan has read: the value and the number of the digits, and how many of them stood
before the point if there was one. -/
structure Scanned where
  value : Nat
  count : Nat
  point : Option Nat
  deriving DecidableEq, Repr

/-- One digit more. -/
def Scanned.digit (s : Scanned) (d : Nat) : Scanned :=
  { s with value := s.value * b + d, count := s.count + 1 }

/-- The point is here. -/
def Scanned.mark (s : Scanned) : Scanned :=
  { s with point := some s.count }

/-- The digits of base `b`, and one point where `pointOk`, at the start of a text, with the rest of
the text; a separator out of place fails the scan. -/
def scan [DecidableEq α] (pointOk : Bool) (last : Last) (s : Scanned) :
    List α → Option (Scanned × List α)
  | [] => if last = .separator then none else some (s, [])
  | c :: r =>
    if c = A.point ∧ pointOk = true then
      if last = .separator then none else scan false .other s.mark r
    else if c = A.separator then
      if last = .digit then scan pointOk .separator s r else none
    else if A.val c < b then
      scan pointOk .digit (s.digit b (A.val c)) r
    else if last = .separator then none
    else some (s, c :: r)

/-- All of the digits `ds` after those of `s`. -/
def Scanned.digits (s : Scanned) (ds : List Nat) : Scanned :=
  { s with value := s.value * b ^ ds.length + positional b ds, count := s.count + ds.length }

theorem Scanned.digits_nil (s : Scanned) : s.digits b [] = s := by
  simp [Scanned.digits]

theorem Scanned.digits_cons (s : Scanned) (d : Nat) (ds : List Nat) :
    s.digits b (d :: ds) = (s.digit b d).digits b ds := by
  simp only [Scanned.digits, Scanned.digit, positional_cons, List.length_cons]
  congr 1 <;> ring

variable {A b}

theorem Digits.mem {last : Last} {cs : List α} {ds : List Nat} (h : Digits A b last cs ds) :
    ∀ c ∈ cs, A.val c < b ∨ c = A.separator := by
  induction h with
  | nil => simp
  | digit hd _ ih =>
    intro c hc
    rcases List.mem_cons.1 hc with rfl | hc
    · exact .inl hd
    · exact ih c hc
  | separator _ ih =>
    intro c hc
    rcases List.mem_cons.1 hc with rfl | hc
    · exact .inr rfl
    · exact ih c hc

theorem Fixed.mem {last : Last} {cs : List α} {is fs : List Nat} (h : Fixed A b last cs is fs) :
    ∀ c ∈ cs, A.val c < b ∨ c = A.separator ∨ c = A.point := by
  cases h with
  | whole hcs => exact fun c hc => (hcs.mem c hc).imp_right .inl
  | point hcs hes =>
    intro c hc
    rcases List.mem_append.1 hc with hc | hc
    · exact (hcs.mem c hc).imp_right .inl
    · rcases List.mem_cons.1 hc with rfl | hc
      · exact .inr (.inr rfl)
      · exact (hes.mem c hc).imp_right .inl

theorem Digits.eq_nil {last : Last} {ds : List Nat} (h : Digits A b last [] ds) : ds = [] := by
  cases h
  rfl

theorem Fixed.ne_nil {last : Last} {cs : List α} {is fs : List Nat} (h : Fixed A b last cs is fs)
    (hne : is ++ fs ≠ []) : cs ≠ [] := by
  cases h with
  | whole hcs =>
    rintro rfl
    obtain rfl := hcs.eq_nil
    exact hne rfl
  | point hcs hes => simp

section
variable [DecidableEq α] {pointOk : Bool} {last : Last} {s : Scanned} {r : List α}

theorem scan_digits (hA : A.Fits b) {cs : List α} {ds : List Nat} (h : Digits A b last cs ds) :
    ∃ last', last' ≠ .separator ∧ ∀ s r,
      scan A b pointOk last s (cs ++ r) = scan A b pointOk last' (s.digits b ds) r := by
  induction h with
  | @nil last hl => exact ⟨last, hl, fun s r => by rw [s.digits_nil, List.nil_append]⟩
  | @digit last c cs ds hd _ ih =>
    obtain ⟨last', hl, ih⟩ := ih
    have hpt : c ≠ A.point := fun h => absurd hA.point (Nat.not_le.2 (h ▸ hd))
    have hs : c ≠ A.separator := fun h => absurd hA.separator (Nat.not_le.2 (h ▸ hd))
    refine ⟨last', hl, fun s r => ?_⟩
    rw [List.cons_append, scan, if_neg fun h => hpt h.1, if_neg hs, if_pos hd, ih, s.digits_cons]
  | separator _ ih =>
    obtain ⟨last', hl, ih⟩ := ih
    refine ⟨last', hl, fun s r => ?_⟩
    rw [List.cons_append, scan, if_neg fun h => hA.ne h.1, if_pos rfl, if_pos rfl, ih]

theorem scan_stop (hl : last ≠ .separator) (h : Stops A b pointOk r) :
    scan A b pointOk last s r = some (s, r) := by
  cases r with
  | nil => rw [scan, if_neg hl]
  | cons c r =>
    obtain ⟨hs, hd, hpt⟩ := h c rfl
    rw [scan, if_neg fun h => hpt h.2 h.1, if_neg hs, if_neg (Nat.not_lt.2 hd), if_neg hl]

theorem scan_point (hl : last ≠ .separator) :
    scan A b true last s (A.point :: r) = scan A b false .other s.mark r := by
  rw [scan, if_pos ⟨rfl, rfl⟩, if_neg hl]

theorem digits_of_scan {out : Scanned × List α} (h : scan A b pointOk last s r = some out) :
    ∃ cs ds r', r = cs ++ r' ∧ Digits A b last cs ds ∧
      (Stops A b pointOk r' ∧ out = (s.digits b ds, r') ∨
        pointOk = true ∧ ∃ es, r' = A.point :: es ∧
          scan A b false .other (s.digits b ds).mark es = some out) := by
  induction r generalizing last s with
  | nil =>
    simp only [scan] at h
    split at h
    · cases h
    · cases h
      exact ⟨[], [], [], rfl, .nil ‹_›, .inl ⟨by simp [Stops], by rw [s.digits_nil]⟩⟩
  | cons c r ih =>
    simp only [scan] at h
    split at h
    case isTrue hc =>
      obtain ⟨rfl, hp⟩ := hc
      split at h
      · cases h
      · exact ⟨[], [], _, rfl, .nil ‹_›, .inr ⟨hp, r, rfl, by rwa [s.digits_nil]⟩⟩
    case isFalse hpt =>
      split at h
      case isTrue hc =>
        subst hc
        split at h
        case isTrue hl =>
          obtain ⟨cs, ds, r', rfl, hcs, hout⟩ := ih h
          exact ⟨A.separator :: cs, ds, r', rfl, hl ▸ .separator hcs, hout⟩
        case isFalse => cases h
      case isFalse hs =>
        split at h
        case isTrue hd =>
          obtain ⟨cs, ds, r', rfl, hcs, hout⟩ := ih h
          exact ⟨c :: cs, A.val c :: ds, r', rfl, .digit hd hcs, by rwa [s.digits_cons]⟩
        case isFalse hd =>
          split at h
          · cases h
          · cases h
            refine ⟨[], [], c :: r, rfl, .nil ‹_›, .inl ⟨?_, by rw [s.digits_nil]⟩⟩
            intro c' hc'
            cases hc'
            exact ⟨hs, Nat.not_lt.1 hd, fun hp h => hpt ⟨h, hp⟩⟩

/-- **What a scan reads first**: digits as far as they go, and behind them either a text that no
numeral goes on with, or a point from which the scan goes on. -/
theorem scan_eq_some (hA : A.Fits b) {out : Scanned × List α} :
    scan A b pointOk last s r = some out ↔ ∃ cs ds r', r = cs ++ r' ∧ Digits A b last cs ds ∧
      (Stops A b pointOk r' ∧ out = (s.digits b ds, r') ∨
        pointOk = true ∧ ∃ es, r' = A.point :: es ∧
          scan A b false .other (s.digits b ds).mark es = some out) := by
  refine ⟨digits_of_scan, fun h => ?_⟩
  obtain ⟨cs, ds, r', rfl, hcs, hout⟩ := h
  obtain ⟨last', hl, hscan⟩ := scan_digits hA hcs
  rw [hscan]
  obtain ⟨hst, rfl⟩ | ⟨rfl, es, rfl, hout⟩ := hout
  · exact scan_stop hl hst
  · rwa [scan_point hl]

end

/-- **A scan without a point** reads digits, as far as they go. -/
theorem scan_whole [DecidableEq α] (hA : A.Fits b) {last : Last} {s s' : Scanned}
    {r r' : List α} :
    scan A b false last s r = some (s', r') ↔ ∃ cs ds, r = cs ++ r' ∧ Digits A b last cs ds ∧
      Stops A b false r' ∧ s' = s.digits b ds := by
  rw [scan_eq_some hA]
  refine ⟨fun h => ?_, fun h => ?_⟩
  · obtain ⟨cs, ds, r₁, hr, hcs, ⟨hst, hout⟩ | ⟨hp, -⟩⟩ := h
    · cases hout
      exact ⟨cs, ds, hr, hcs, hst, rfl⟩
    · cases hp
  · obtain ⟨cs, ds, hr, hcs, hst, rfl⟩ := h
    exact ⟨cs, ds, r', hr, hcs, .inl ⟨hst, rfl⟩⟩

/-- The scan `s` has read the digits `is` before a point and `fs` after it. -/
structure Scanned.Reads (b : Nat) (s : Scanned) (is fs : List Nat) : Prop where
  value : s.value = positional b (is ++ fs)
  count : s.count = (is ++ fs).length
  point : s.point = none ∧ fs = [] ∨ s.point = some is.length

/-- The scan of nothing yet. -/
def Scanned.start : Scanned := ⟨0, 0, none⟩

@[simp] theorem Scanned.start_digits_value (b : Nat) (ds : List Nat) :
    (Scanned.start.digits b ds).value = positional b ds := by
  simp [start, digits]

@[simp] theorem Scanned.start_digits_count (b : Nat) (ds : List Nat) :
    (Scanned.start.digits b ds).count = ds.length := by
  simp [start, digits]

theorem Scanned.start_digits_reads (b : Nat) (is : List Nat) :
    (Scanned.start.digits b is).Reads b is [] where
  value := by simp
  count := by simp
  point := .inl ⟨rfl, rfl⟩

theorem Scanned.start_mark_reads (b : Nat) (is fs : List Nat) :
    ((Scanned.start.digits b is).mark.digits b fs).Reads b is fs where
  value := by simp [start, digits, mark, positional_append]
  count := by simp [start, digits, mark]
  point := by simp [start, digits, mark]

/-- What a scan with a point accepts is a numeral, and no numeral goes on behind it. -/
theorem fixed_of_scan [DecidableEq α] (hA : A.Fits b) {last : Last} {s : Scanned}
    {r r' : List α} (h : scan A b true last .start r = some (s, r')) :
    ∃ cs is fs, r = cs ++ r' ∧ Fixed A b last cs is fs ∧ Stops A b false r' ∧
      s.Reads b is fs := by
  obtain ⟨cs, is, r₁, rfl, hcs, ⟨hst, hout⟩ | ⟨-, _, rfl, hpt⟩⟩ := (scan_eq_some hA).1 h
  · cases hout
    refine ⟨cs, is, [], rfl, .whole hcs, ?_, Scanned.start_digits_reads b is⟩
    exact fun c hc => ⟨(hst c hc).1, (hst c hc).2.1, by simp⟩
  · obtain ⟨es, fs, rfl, hes, hst, rfl⟩ := (scan_whole hA).1 hpt
    refine ⟨cs ++ A.point :: es, is, fs, by simp, .point hcs hes, hst, ?_⟩
    exact Scanned.start_mark_reads b is fs

theorem scan_of_fixed [DecidableEq α] (hA : A.Fits b) {last : Last} {cs r' : List α}
    {is fs : List Nat} (h : Fixed A b last cs is fs) (hst : Stops A b true r') :
    ∃ s, scan A b true last .start (cs ++ r') = some (s, r') ∧ s.Reads b is fs := by
  cases h with
  | whole hcs =>
    refine ⟨_, (scan_eq_some hA).2 ⟨cs, is, r', rfl, hcs, .inl ⟨hst, rfl⟩⟩, ?_⟩
    exact Scanned.start_digits_reads b is
  | @point cs _ es _ hcs hes =>
    have hst' : Stops A b false r' := fun c hc => ⟨(hst c hc).1, (hst c hc).2.1, by simp⟩
    refine ⟨(Scanned.start.digits b is).mark.digits b fs, ?_, Scanned.start_mark_reads b is fs⟩
    rw [scan_eq_some hA]
    refine ⟨cs, is, A.point :: (es ++ r'), by simp, hcs, .inr ⟨rfl, es ++ r', rfl, ?_⟩⟩
    exact (scan_whole hA).2 ⟨es, fs, rfl, hes, hst', rfl⟩

end Lib
