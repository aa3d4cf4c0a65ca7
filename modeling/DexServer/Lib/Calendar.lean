import DexServer.Lib.Tiling
import Mathlib.Algebra.Order.Ring.Int
import Mathlib.Tactic.Common

/-!
# The calendar

Days are counted from the first of January of the year 1, in the Gregorian calendar, also before it
was in use and for years before the first one.

* `Date.number_ofNumber`: the date of a day has the number of that day.
* `tiling_years`, `tiling_months`: the years and the months, counted through, tile the days.
* `isoWeekStart_isoWeek`: the ISO week of a day begins on its Monday.
-/

namespace Lib

/-- Where `n` falls, counted along pieces of the given lengths: which piece, and how far in it. -/
def locate : List Nat → Nat → Nat × Nat
  | [], n => (0, n)
  | l :: ls, n => if n < l then (0, n) else ((locate ls (n - l)).1 + 1, (locate ls (n - l)).2)

theorem locate_spec {ls : List Nat} {n : Nat} (h : n < ls.sum) :
    ∃ l, ls[(locate ls n).1]? = some l ∧ (locate ls n).2 < l ∧
      (ls.take (locate ls n).1).sum + (locate ls n).2 = n := by
  induction ls generalizing n with
  | nil => simp at h
  | cons l ls ih =>
    rw [List.sum_cons] at h
    by_cases hn : n < l
    · simp [locate, hn]
    · obtain ⟨k, hk, hlt, hsum⟩ := ih (n := n - l) (by omega)
      refine ⟨k, ?_⟩
      simp only [locate, if_neg hn, List.getElem?_cons_succ, List.take_succ_cons, List.sum_cons]
      exact ⟨hk, hlt, by omega⟩

def isLeap (year : Int) : Bool := year % 4 = 0 ∧ (year % 100 ≠ 0 ∨ year % 400 = 0)

/-- The lengths of the months. -/
def monthLengths (leap : Bool) : List Nat :=
  [31, if leap then 29 else 28, 31, 30, 31, 30, 31, 31, 30, 31, 30, 31]

def yearLength (leap : Bool) : Nat := if leap then 366 else 365

theorem sum_monthLengths (leap : Bool) : (monthLengths leap).sum = yearLength leap := by
  cases leap <;> rfl

/-- The length of a month of a year, the months being counted from 1. -/
def daysIn (year : Int) (month : Nat) : Nat := (monthLengths (isLeap year)).getD (month - 1) 0

theorem daysIn_le (year : Int) (month : Nat) : daysIn year month ≤ 31 := by
  have hall : ∀ l ∈ monthLengths (isLeap year), l ≤ 31 := by
    cases isLeap year <;> decide
  rw [daysIn, List.getD_eq_getElem?_getD]
  cases h : (monthLengths (isLeap year))[month - 1]? with
  | none => exact Nat.zero_le 31
  | some l => exact hall l (List.mem_of_getElem? h)

/-- A day of the calendar. -/
@[ext] structure Date where
  year : Int
  month : Nat
  day : Nat
  month_pos : 1 ≤ month
  month_le : month ≤ 12
  day_pos : 1 ≤ day
  day_le : day ≤ daysIn year month

/-- The day with these numbers, if there is one. -/
def Date.of (year : Int) (month day : Nat) : Option Date :=
  if h : (1 ≤ month ∧ month ≤ 12) ∧ 1 ≤ day ∧ day ≤ daysIn year month then
    some ⟨year, month, day, h.1.1, h.1.2, h.2.1, h.2.2⟩
  else none

theorem Date.of_eq (d : Date) : Date.of d.year d.month d.day = some d :=
  dif_pos ⟨⟨d.month_pos, d.month_le⟩, d.day_pos, d.day_le⟩

/-- The days before the first of January. -/
def daysSince (year : Int) : Int :=
  365 * (year - 1) + (year - 1) / 4 - (year - 1) / 100 + (year - 1) / 400

/-- The number of a day. -/
def Date.number (d : Date) : Int :=
  daysSince d.year + ((monthLengths (isLeap d.year)).take (d.month - 1)).sum + (d.day - 1)

/-- The year of a day: cycles of 400 years are cut off, then centuries, then cycles of four years,
then years. The last century of a cycle and the last year of four are longer by a day. -/
def yearOf (n : Int) : Int :=
  let d := n % 146097
  let centuries := d / 36524 - d / 36524 / 4
  let d := d - 36524 * centuries
  let fours := d / 1461
  let d := d - 1461 * fours
  let years := d / 365 - d / 365 / 4
  400 * (n / 146097) + 100 * centuries + 4 * fours + years + 1

theorem daysSince_parts {c f y : Int} (cycles : Int) (hc : 0 ≤ c ∧ c ≤ 3) (hf : 0 ≤ f ∧ f ≤ 24)
    (hy : 0 ≤ y ∧ y ≤ 3) : daysSince (400 * cycles + 100 * c + 4 * f + y + 1) =
      146097 * cycles + 36524 * c + 1461 * f + 365 * y := by
  have hfour : (400 * cycles + 100 * c + 4 * f + y + 1 - 1) / 4 = 100 * cycles + 25 * c + f := by
    omega
  have hhundred : (400 * cycles + 100 * c + 4 * f + y + 1 - 1) / 100 = 4 * cycles + c := by omega
  have hcycle : (400 * cycles + 100 * c + 4 * f + y + 1 - 1) / 400 = cycles := by omega
  rw [daysSince, hfour, hhundred, hcycle]
  omega

/-- The centuries of a cycle of 400 years: the last one is longer by a day. -/
theorem centuries_spec {d c : Int} (h0 : 0 ≤ d) (hd : d < 146097)
    (hc : d / 36524 - d / 36524 / 4 = c) :
    0 ≤ c ∧ c ≤ 3 ∧ 36524 * c ≤ d ∧ d < 36524 * c + 36525 ∧ (c = 3 ∨ d < 36524 * c + 36524) := by
  omega

/-- The years of a cycle of four: the last one is longer by a day. -/
theorem years_spec {d y : Int} (h0 : 0 ≤ d) (hd : d < 1461) (hy : d / 365 - d / 365 / 4 = y) :
    0 ≤ y ∧ y ≤ 3 ∧ 365 * y ≤ d ∧ d < 365 * y + 366 ∧ (y = 3 ∨ d < 365 * y + 365) := by
  omega

theorem isLeap_parts {c f y : Int} (cycles : Int) (hc : 0 ≤ c ∧ c ≤ 3) (hf : 0 ≤ f ∧ f ≤ 24)
    (hy : 0 ≤ y ∧ y ≤ 3) : isLeap (400 * cycles + 100 * c + 4 * f + y + 1) = true ↔
      y = 3 ∧ (f ≠ 24 ∨ c = 3) := by
  have hfour : (400 * cycles + 100 * c + 4 * f + y + 1) % 4 = (y + 1) % 4 := by omega
  have hhundred : (400 * cycles + 100 * c + 4 * f + y + 1) % 100 = (4 * f + y + 1) % 100 := by omega
  have hcycle : (400 * cycles + 100 * c + 4 * f + y + 1) % 400 =
      (100 * c + 4 * f + y + 1) % 400 := by
    omega
  rw [isLeap, decide_eq_true_iff, hfour, hhundred, hcycle]
  omega

theorem yearOf_spec (n : Int) : 0 ≤ n - daysSince (yearOf n) ∧
    n - daysSince (yearOf n) < yearLength (isLeap (yearOf n)) := by
  obtain ⟨d, hd⟩ : ∃ d, n % 146097 = d := ⟨_, rfl⟩
  obtain ⟨c, hc⟩ : ∃ c, d / 36524 - d / 36524 / 4 = c := ⟨_, rfl⟩
  obtain ⟨f, hf⟩ : ∃ f, (d - 36524 * c) / 1461 = f := ⟨_, rfl⟩
  obtain ⟨y, hy⟩ : ∃ y,
    (d - 36524 * c - 1461 * f) / 365 - (d - 36524 * c - 1461 * f) / 365 / 4 = y := ⟨_, rfl⟩
  have hyear : yearOf n = 400 * (n / 146097) + 100 * c + 4 * f + y + 1 := by
    simp only [yearOf, hd, hc, hf, hy]
  have hn : n = 146097 * (n / 146097) + d := by omega
  obtain ⟨hc0, hc3, hcle, hclt, hcentury⟩ := centuries_spec (by omega) (by omega) hc
  have hfb : 0 ≤ f ∧ f ≤ 24 := by omega
  obtain ⟨hy0, hy3, hyle, hylt, hlast⟩ := years_spec (by omega) (by omega) hy
  have hsince := daysSince_parts (n / 146097) ⟨hc0, hc3⟩ hfb ⟨hy0, hy3⟩
  have hleap := isLeap_parts (n / 146097) ⟨hc0, hc3⟩ hfb ⟨hy0, hy3⟩
  rw [← hyear] at hsince hleap
  clear hc hf hy hyear hd
  rw [hsince]
  refine ⟨by omega, ?_⟩
  -- the day after 365 is there only at the end of a leap year
  by_cases h : isLeap (yearOf n) = true
  · rw [h]
    show _ < (366 : Int)
    omega
  · rw [hleap] at h
    rw [Bool.eq_false_iff.2 fun ht => h (hleap.1 ht)]
    show _ < (365 : Int)
    omega

/-- The day of a number. -/
def Date.ofNumber (n : Int) : Date :=
  let year := yearOf n
  let p := locate (monthLengths (isLeap year)) (n - daysSince year).toNat
  have hlt : (n - daysSince (yearOf n)).toNat < (monthLengths (isLeap (yearOf n))).sum := by
    obtain ⟨h0, hlt⟩ := yearOf_spec n
    rw [sum_monthLengths]
    omega
  have hp : p.1 < 12 ∧ p.2 < (monthLengths (isLeap year)).getD p.1 0 := by
    obtain ⟨l, hl, hday, -⟩ := locate_spec hlt
    obtain ⟨hi, -⟩ := List.getElem?_eq_some_iff.1 hl
    exact ⟨hi, by rw [List.getD_eq_getElem?_getD, hl]; exact hday⟩
  { year := year
    month := p.1 + 1
    day := p.2 + 1
    month_pos := Nat.le_add_left 1 _
    month_le := hp.1
    day_pos := Nat.le_add_left 1 _
    day_le := hp.2 }

theorem Date.number_ofNumber (n : Int) : (Date.ofNumber n).number = n := by
  obtain ⟨h0, hlt⟩ := yearOf_spec n
  have hlt' : (n - daysSince (yearOf n)).toNat < (monthLengths (isLeap (yearOf n))).sum := by
    rw [sum_monthLengths]
    omega
  obtain ⟨-, -, -, hsum⟩ := locate_spec hlt'
  simp only [Date.number, Date.ofNumber, Nat.add_sub_cancel]
  omega

/-! ## Years and months -/

theorem daysSince_succ (y : Int) : daysSince (y + 1) = daysSince y + yearLength (isLeap y) := by
  by_cases h : isLeap y = true
  · have hlen : (yearLength (isLeap y) : Int) = 366 := by rw [h]; rfl
    rw [hlen]
    simp only [isLeap, decide_eq_true_iff] at h
    unfold daysSince
    omega
  · have hlen : (yearLength (isLeap y) : Int) = 365 := by rw [Bool.eq_false_iff.2 h]; rfl
    rw [hlen]
    simp only [isLeap, decide_eq_true_iff] at h
    unfold daysSince
    omega

theorem yearLength_spec (leap : Bool) : 365 ≤ yearLength leap ∧ yearLength leap ≤ 366 := by
  cases leap <;> decide

theorem tiling_years : Tiling daysSince yearOf where
  mono := by
    apply strictMono_int_of_lt_succ
    intro y
    have := yearLength_spec (isLeap y)
    rw [daysSince_succ]
    omega
  start_tile_le n := by
    have := yearOf_spec n
    omega
  lt_start_tile n := by
    have := yearOf_spec n
    rw [daysSince_succ]
    omega

/-- The first day of a month; `12 * y` is January of the year `y`. -/
def monthStart (m : Int) : Int :=
  daysSince (m / 12) + ((monthLengths (isLeap (m / 12))).take (m % 12).toNat).sum

/-- The month of a day. -/
def monthOf (n : Int) : Int := 12 * (Date.ofNumber n).year + ((Date.ofNumber n).month - 1)

theorem monthStart_succ (m : Int) :
    monthStart (m + 1) = monthStart m + daysIn (m / 12) ((m % 12).toNat + 1) := by
  have hsum : ∀ leap, ∀ r < 11, ((monthLengths leap).take (r + 1)).sum =
      ((monthLengths leap).take r).sum + (monthLengths leap).getD r 0 := by decide
  have hyear : ∀ leap, yearLength leap = ((monthLengths leap).take 11).sum +
      (monthLengths leap).getD 11 0 := by
    decide
  unfold monthStart daysIn
  rw [Nat.add_sub_cancel]
  by_cases hr : m % 12 = 11
  · have hdiv : (m + 1) / 12 = m / 12 + 1 := by omega
    have hmod : (m + 1) % 12 = 0 := by omega
    have hfirst : (0 : Int).toNat = 0 := rfl
    have hlast : (11 : Int).toNat = 11 := rfl
    rw [hdiv, hmod, hr, daysSince_succ, hyear, hfirst, hlast, List.take_zero, List.sum_nil]
    omega
  · have hdiv : (m + 1) / 12 = m / 12 := by omega
    have hmod : ((m + 1) % 12).toNat = (m % 12).toNat + 1 := by omega
    rw [hdiv, hmod, hsum _ (m % 12).toNat (by omega)]
    omega

theorem daysIn_pos (y : Int) {m : Nat} (h : m < 12) : 28 ≤ daysIn y (m + 1) := by
  have hall : ∀ leap, ∀ m < 12, 28 ≤ (monthLengths leap).getD m 0 := by decide
  exact hall _ m h

theorem monthOf_div (n : Int) : monthOf n / 12 = (Date.ofNumber n).year := by
  have := (Date.ofNumber n).month_pos
  have := (Date.ofNumber n).month_le
  unfold monthOf
  omega

theorem monthOf_mod (n : Int) : (monthOf n % 12).toNat = (Date.ofNumber n).month - 1 := by
  have := (Date.ofNumber n).month_pos
  have := (Date.ofNumber n).month_le
  unfold monthOf
  omega

theorem monthStart_monthOf (n : Int) :
    monthStart (monthOf n) + ((Date.ofNumber n).day - 1) = n := by
  rw [monthStart, monthOf_div, monthOf_mod]
  exact Date.number_ofNumber n

theorem tiling_months : Tiling monthStart monthOf where
  mono := by
    apply strictMono_int_of_lt_succ
    intro m
    have := daysIn_pos (m / 12) (show (m % 12).toNat < 12 by omega)
    rw [monthStart_succ]
    omega
  start_tile_le n := by
    have := monthStart_monthOf n
    have := (Date.ofNumber n).day_pos
    omega
  lt_start_tile n := by
    have hday := (Date.ofNumber n).day_le
    have hpos := (Date.ofNumber n).month_pos
    have := monthStart_monthOf n
    rw [monthStart_succ, monthOf_div, monthOf_mod, Nat.sub_add_cancel hpos]
    omega

/-! ## ISO weeks

Day 0 is a Monday. A week belongs to the year of its Thursday. -/

def isoThursday (n : Int) : Int := n - n % 7 + 3

def isoWeekYear (n : Int) : Int := yearOf (isoThursday n)

def isoWeek (n : Int) : Int := (isoThursday n - daysSince (isoWeekYear n)) / 7 + 1

/-- The Monday of a week; the fourth of January is in the first one. -/
def isoWeekStart (year week : Int) : Int :=
  let jan4 := daysSince year + 3
  jan4 - jan4 % 7 + 7 * (week - 1)

theorem isoWeekStart_isoWeek (n : Int) : isoWeekStart (isoWeekYear n) (isoWeek n) = n - n % 7 := by
  simp only [isoWeekStart, isoWeek, isoThursday]
  omega

end Lib
