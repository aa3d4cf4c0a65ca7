import DexServer.Lib.Calendar
import DexServer.Types.Json
import DexServer.Types.Order
import Mathlib.Data.List.DropRight

/-!
# Times as text (`time.RFC3339Nano`)

`Time.Format` and `time.Parse` of the layout `2006-01-02T15:04:05.999999999Z07:00`. A `Time` counts
nanoseconds from the zero time, the first of January of the year 1; `zone` is the number of seconds
by which the clock of the time's location is ahead.

The text has four digits for the year and only hours and minutes for the zone. A time that needs
more (`Time.Expressible`) is written all the same; its text is another time, or none.

* `Time.parse_format`: an expressible time reads back.
-/

namespace Dex

open Lib

/-! ## Numbers of a fixed width -/

/-- A number with at least `width` digits. -/
def pad (width n : Nat) : List Char := (Nat.toDigits 10 n).leftpad width '0'

/-- `appendInt`. -/
def appendInt (width : Nat) : Int → List Char
  | .ofNat n => pad width n
  | .negSucc n => '-' :: pad width (n + 1)

/-- A number of `width` digits, and the rest of the text. -/
def getnum (width : Nat) (cs : List Char) : Option (Nat × List Char) :=
  if (cs.take width).length = width then (digits (cs.take width)).map fun n => (n, cs.drop width)
  else none

/-- The text after the character `c`. -/
def skip (c : Char) : List Char → Option (List Char)
  | [] => none
  | d :: cs => if d = c then some cs else none

theorem isDigit_of_mem_pad {width n : Nat} {c : Char} (h : c ∈ pad width n) : c.isDigit = true := by
  rw [pad, List.leftpad, List.mem_append] at h
  rcases h with h | h
  · rw [List.eq_of_mem_replicate h]
    rfl
  · exact Nat.isDigit_of_mem_toDigits (by decide) (by decide) h

theorem ofDigitChars_pad (width n : Nat) : Nat.ofDigitChars 10 (pad width n) 0 = n := by
  rw [pad, List.leftpad, Nat.ofDigitChars_append, Nat.ofDigitChars_replicate_zero, Nat.mul_zero,
    Nat.ofDigitChars_ten_toDigits]

theorem length_pad {width n : Nat} (h : n < 10 ^ width) (hw : 0 < width) :
    (pad width n).length = width := by
  have hle := (Nat.length_toDigits_le_iff (by decide : 1 < 10) hw).2 h
  rw [pad, List.length_leftpad]
  omega

theorem digits_pad (width n : Nat) : digits (pad width n) = some n := by
  have hne : pad width n ≠ [] := by
    intro h
    exact Nat.toDigits_ne_nil (List.append_eq_nil_iff.1 h).2
  have hall : (pad width n).all Char.isDigit = true :=
    List.all_eq_true.2 fun _ hc => isDigit_of_mem_pad hc
  rw [digits, if_pos ⟨hne, hall⟩, ofDigitChars_pad]

theorem getnum_pad {width n : Nat} (h : n < 10 ^ width) (hw : 0 < width) (rest : List Char) :
    getnum width (pad width n ++ rest) = some (n, rest) := by
  have hlen := length_pad h hw
  rw [getnum, List.take_left' hlen, List.drop_left' hlen, if_pos hlen, digits_pad]
  rfl

theorem skip_cons (c : Char) (cs : List Char) : skip c (c :: cs) = some cs := if_pos rfl

section
variable {α : Type}

theorem getnum_pad_bind {width n : Nat} (h : n < 10 ^ width) (hw : 0 < width) (rest : List Char)
    (f : Nat × List Char → Option α) : (getnum width (pad width n ++ rest) >>= f) =
      f (n, rest) := by
  rw [getnum_pad h hw]
  rfl

theorem skip_cons_bind (c : Char) (cs : List Char) (f : List Char → Option α) :
    (skip c (c :: cs) >>= f) = f cs := by
  rw [skip_cons]
  rfl

end

namespace Time

/-! ## Writing -/

/-- The nanoseconds of a second. -/
def second : Int := 10 ^ 9

/-- The seconds from the first of January of the year 1, on the clock of the location. -/
def clock (zone : Int) (t : Time) : Int := t / second + zone

/-- The day, on the clock of the location. -/
def date (zone : Int) (t : Time) : Date := .ofNumber (clock zone t / 86400)

def dateText (d : Date) : List Char :=
  appendInt 4 d.year ++ '-' :: (pad 2 d.month ++ '-' :: pad 2 d.day)

/-- The time of a day. -/
def clockText (s : Nat) : List Char :=
  pad 2 (s / 3600) ++ ':' :: (pad 2 (s / 60 % 60) ++ ':' :: pad 2 (s % 60))

/-- `formatNano`: the digits of a second, the zeros at the end left out. -/
def fractionText (nsec : Nat) : List Char :=
  match (pad 9 nsec).rdropWhile (· == '0') with
  | [] => []
  | ds => '.' :: ds

/-- The zone: the seconds of a minute are not written. -/
def zoneText (zone : Int) : List Char :=
  if zone = 0 then ['Z']
  else (if zone.tdiv 60 < 0 then '-' else '+') ::
    (pad 2 ((zone.tdiv 60).natAbs / 60) ++ ':' :: pad 2 ((zone.tdiv 60).natAbs % 60))

/-- `Time.Format(time.RFC3339Nano)`. -/
def format (zone : Int) (t : Time) : List Char :=
  dateText (date zone t) ++ 'T' :: (clockText (clock zone t % 86400).toNat ++
    (fractionText (t % second).toNat ++ zoneText zone))

/-! ## Reading -/

/-- A fraction of a second, of nine digits at most. -/
def fraction : List Char → Nat × List Char
  | '.' :: cs =>
    match (cs.takeWhile Char.isDigit).take 9 with
    | [] => (0, '.' :: cs)
    | ds => (Nat.ofDigitChars 10 ds 0 * 10 ^ (9 - ds.length), cs.drop ds.length)
  | cs => (0, cs)

/-- The offset of a zone: 24 hours and 60 minutes are let through, more is not. -/
def zoneOffset : List Char → Option (Int × List Char)
  | [] => none
  | sign :: cs =>
    if sign = 'Z' then some (0, cs)
    else do
      let (hour, cs) ← getnum 2 cs
      let cs ← skip ':' cs
      let (min, cs) ← getnum 2 cs
      if 24 < hour ∨ 60 < min then none
      else if sign = '+' then some ((hour * 60 + min) * 60, cs)
      else if sign = '-' then some (-((hour * 60 + min) * 60), cs)
      else none

/-- The instant at which the clock of a location shows the second `s` of a day. -/
def instant (date : Date) (s : Nat) (zone : Int) (nsec : Nat) : Int :=
  (date.number * 86400 + s - zone) * second + nsec

/-- `time.Parse(time.RFC3339Nano, s)`. -/
def parse (cs : List Char) : Option Time := do
  let (year, cs) ← getnum 4 cs
  let cs ← skip '-' cs
  let (month, cs) ← getnum 2 cs
  let cs ← skip '-' cs
  let (day, cs) ← getnum 2 cs
  let cs ← skip 'T' cs
  -- the layout's hour, unlike its other numbers, may have one digit
  let (hour, cs) ← (getnum 2 cs).or (getnum 1 cs)
  let cs ← skip ':' cs
  let (min, cs) ← getnum 2 cs
  let cs ← skip ':' cs
  let (sec, cs) ← getnum 2 cs
  let (nsec, cs) := fraction cs
  let (zone, cs) ← zoneOffset cs
  let date ← Date.of year month day
  if hour < 24 ∧ min < 60 ∧ sec < 60 ∧ cs = [] then
    some (instant date (hour * 3600 + min * 60 + sec) zone nsec)
  else none

/-! ## Reading back -/

/-- What the text can say: a year of four digits, and a zone of whole minutes, of less than 25
hours. -/
structure Expressible (zone : Int) (t : Time) : Prop where
  year_nonneg : 0 ≤ (date zone t).year
  year_le : (date zone t).year ≤ 9999
  minutes : zone % 60 = 0
  ahead : zone < 90000
  behind : -90000 < zone

theorem pad_eq_trimmed (nsec : Nat) : ∃ k,
    pad 9 nsec = (pad 9 nsec).rdropWhile (· == '0') ++ List.replicate k '0' := by
  refine ⟨((pad 9 nsec).rtakeWhile (· == '0')).length, ?_⟩
  have hzeros : (pad 9 nsec).rtakeWhile (· == '0') =
      List.replicate ((pad 9 nsec).rtakeWhile (· == '0')).length '0' :=
    List.eq_replicate_iff.2 ⟨rfl, fun c hc => by simpa using List.mem_rtakeWhile_imp hc⟩
  rw [← hzeros, List.rdropWhile_append_rtakeWhile]

/-- The fraction reads back before a text that begins neither with a dot nor with a digit. -/
theorem fraction_fractionText {nsec : Nat} (h : nsec < 10 ^ 9) {rest : List Char}
    (hrest : ∀ c ∈ rest.head?, c ≠ '.' ∧ c.isDigit = false) :
    fraction (fractionText nsec ++ rest) = (nsec, rest) := by
  obtain ⟨k, hk⟩ := pad_eq_trimmed nsec
  have hlen : ((pad 9 nsec).rdropWhile (· == '0')).length + k = 9 := by
    have := congrArg List.length hk
    rw [length_pad h (by decide), List.length_append, List.length_replicate] at this
    omega
  have hval : Nat.ofDigitChars 10 ((pad 9 nsec).rdropWhile (· == '0')) 0 * 10 ^ k = nsec := by
    have := congrArg (Nat.ofDigitChars 10 · 0) hk
    simp only [ofDigitChars_pad, Nat.ofDigitChars_append, Nat.ofDigitChars_replicate_zero] at this
    rw [Nat.mul_comm]
    exact this.symm
  have hdigits : ∀ c ∈ (pad 9 nsec).rdropWhile (· == '0'), c.isDigit = true := fun c hc =>
    isDigit_of_mem_pad ((List.rdropWhile_prefix _ _).subset hc)
  unfold fractionText
  cases hds : (pad 9 nsec).rdropWhile (· == '0') with
  | nil =>
    have hn : nsec = 0 := by rw [← hval, hds]; simp
    subst hn
    cases rest with
    | nil => rfl
    | cons c cs =>
      have hc : c ≠ '.' := (hrest c rfl).1
      simp only [List.nil_append]
      unfold fraction
      split
      · rename_i heq
        exact absurd (List.cons.inj heq).1 hc
      · rfl
  | cons d ds =>
    rw [hds] at hval hlen hdigits
    have htake : (((d :: ds) ++ rest).takeWhile Char.isDigit).take 9 = d :: ds := by
      have hrest0 : rest.takeWhile Char.isDigit = [] := by
        cases rest with
        | nil => rfl
        | cons c cs => simp [(hrest c rfl).2]
      rw [List.takeWhile_append_of_pos hdigits, hrest0, List.append_nil]
      exact List.take_of_length_le (by omega)
    show fraction ('.' :: ((d :: ds) ++ rest)) = _
    simp only [fraction, htake]
    rw [List.drop_left' rfl, show 9 - (d :: ds).length = k by omega, hval]

theorem zoneText_head (zone : Int) : ∀ c ∈ (zoneText zone).head?, c ≠ '.' ∧ c.isDigit = false := by
  intro c hc
  unfold zoneText at hc
  split at hc
  · rw [Option.mem_some_iff.1 hc |>.symm]
    decide
  · split at hc <;> (rw [Option.mem_some_iff.1 hc |>.symm]; decide)

theorem zoneOffset_zoneText {zone : Int} (hmin : zone % 60 = 0) (hahead : zone < 90000)
    (hbehind : -90000 < zone) : zoneOffset (zoneText zone) = some (zone, []) := by
  unfold zoneText
  by_cases h0 : zone = 0
  · rw [if_pos h0, h0]
    rfl
  · obtain ⟨m, rfl⟩ : ∃ m, zone = m * 60 := ⟨zone / 60, by omega⟩
    have hdiv : (m * 60).tdiv 60 = m := Int.mul_tdiv_cancel m (by decide)
    rw [if_neg h0, hdiv]
    have hhour : m.natAbs / 60 < 10 ^ 2 := by omega
    have hminute : m.natAbs % 60 < 10 ^ 2 := by omega
    have hmin := getnum_pad hminute (by decide) []
    rw [List.append_nil] at hmin
    have hread : ∀ sign : Char, sign ≠ 'Z' →
        zoneOffset (sign :: (pad 2 (m.natAbs / 60) ++ ':' :: pad 2 (m.natAbs % 60))) =
          if sign = '+' then some ((m.natAbs : Int) * 60, [])
          else if sign = '-' then some (-((m.natAbs : Int) * 60), []) else none := by
      intro sign hz
      have hrange : ¬(24 < m.natAbs / 60 ∨ 60 < m.natAbs % 60) := by omega
      have hsum : ((m.natAbs / 60 : Nat) : Int) * 60 + (m.natAbs % 60 : Nat) = m.natAbs := by omega
      simp only [zoneOffset, if_neg hz, getnum_pad hhour (by decide), skip_cons, hmin,
        Option.bind_eq_bind, Option.bind_some, if_neg hrange, hsum]
    by_cases hneg : m < 0
    · rw [if_pos hneg, hread '-' (by decide), if_neg (by decide), if_pos rfl]
      simp only [Option.some.injEq, Prod.mk.injEq, and_true]
      omega
    · rw [if_neg hneg, hread '+' (by decide), if_pos rfl]
      simp only [Option.some.injEq, Prod.mk.injEq, and_true]
      omega

theorem instant_clock (zone t : Int) :
    instant (date zone t) (clock zone t % 86400).toNat zone (t % second).toNat = t := by
  have hnumber : (date zone t).number = clock zone t / 86400 := Date.number_ofNumber _
  rw [instant, hnumber]
  unfold clock second
  omega

theorem parse_format {zone : Int} {t : Time} (h : Expressible zone t) :
    parse (format zone t) = some t := by
  obtain ⟨year, hyear⟩ : ∃ year : Nat, (date zone t).year = year :=
    ⟨_, (Int.toNat_of_nonneg h.year_nonneg).symm⟩
  have hyear4 : year < 10 ^ 4 := by have := h.year_le; omega
  have hmonth : (date zone t).month < 10 ^ 2 := by have := (date zone t).month_le; omega
  have hday : (date zone t).day < 10 ^ 2 := by
    have := (date zone t).day_le
    have := daysIn_le (date zone t).year (date zone t).month
    omega
  obtain ⟨s, hs⟩ : ∃ s, (clock zone t % 86400).toNat = s := ⟨_, rfl⟩
  have hs_lt : s < 86400 := by omega
  have hhour : s / 3600 < 10 ^ 2 := by omega
  have hminute : s / 60 % 60 < 10 ^ 2 := by omega
  have hsecond : s % 60 < 10 ^ 2 := by omega
  have hnsec : (t % second).toNat < 10 ^ 9 := by unfold second; omega
  have hdate := (date zone t).of_eq
  rw [hyear] at hdate
  have htext : format zone t = pad 4 year ++ '-' :: (pad 2 (date zone t).month ++ '-' ::
      (pad 2 (date zone t).day ++ 'T' :: (pad 2 (s / 3600) ++ ':' :: (pad 2 (s / 60 % 60) ++ ':' ::
        (pad 2 (s % 60) ++ (fractionText (t % second).toNat ++ zoneText zone)))))) := by
    simp [format, dateText, clockText, hyear, hs, appendInt]
  have hhour_bind : ∀ (rest : List Char) (f : Nat × List Char → Option Time),
      ((getnum 2 (pad 2 (s / 3600) ++ rest)).or (getnum 1 (pad 2 (s / 3600) ++ rest)) >>= f) =
        f (s / 3600, rest) := by
    intro rest f
    rw [getnum_pad hhour (by decide), Option.some_or]
    rfl
  rw [htext, parse]
  -- from the outside in: what is read first decides what the rest is read from
  simp only [↓getnum_pad_bind hyear4 (by decide), ↓getnum_pad_bind hmonth (by decide),
    ↓getnum_pad_bind hday (by decide), ↓hhour_bind,
    ↓getnum_pad_bind hminute (by decide), ↓getnum_pad_bind hsecond (by decide), ↓skip_cons_bind,
    fraction_fractionText hnsec (zoneText_head zone),
    zoneOffset_zoneText h.minutes h.ahead h.behind,
    Option.bind_eq_bind, Option.bind_some, hdate]
  have hclock : s / 3600 < 24 ∧ s / 60 % 60 < 60 ∧ s % 60 < 60 ∧ True :=
    ⟨by omega, by omega, by omega, trivial⟩
  have hsplit : s / 3600 * 3600 + s / 60 % 60 * 60 + s % 60 = s := by omega
  rw [if_pos hclock, hsplit, ← hs, instant_clock]

end Time

end Dex
