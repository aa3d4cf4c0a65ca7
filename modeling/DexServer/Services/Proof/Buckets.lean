import DexServer.Services.Ohlcv

/-!
# When the buckets of the candles tile time

For each unit the timestamp of a trade's tick is brought to one form: the start of the tile (second,
minute, hour, day, week, month, year) whose number is that of the trade's tile less a remainder
(`timestamp_sec`, ..., `timestamp_year`). Seconds, minutes, hours and months (`ceilMonth_eq`) are
counted from 0 within the enclosing unit, and the remainder is that of this count: a floor function
(`isFloorOn_within`). Days and weeks are counted from 1.

* `candle_buckets_tile_iff`: the timestamp is a floor function of the time exactly if days and weeks
  come with duration 1 and months with a duration that a double holds.
* `candle_buckets_not_tiled`: with two-day candles the tick of the first of February is the 31st of
  January, whose own tick is the 30th.
-/

namespace Dex

open Lib

theorem int64_eq {n : Int} (hlow : -2 ^ 63 ≤ n) (hhigh : n < 2 ^ 63) : int64 n = n :=
  Int.bmod_eq_of_le (by omega) (by omega)

/-! ## Fields of a datetime -/

namespace Agg

theorem goDate_dayNumber (t day : Int) :
    goDate (year t) (month t) day = dayNumber t - dayOfMonth t + day := by
  have h := monthStart_monthOf (dayNumber t)
  unfold goDate year month dayOfMonth
  unfold monthOf at h
  omega

theorem month_bounds (t : Int) : 1 ≤ month t ∧ month t ≤ 12 := by
  have := (Date.ofNumber (dayNumber t)).month_pos
  have := (Date.ofNumber (dayNumber t)).month_le
  unfold month
  omega

theorem monthOf_dayNumber (t : Int) : monthOf (dayNumber t) = 12 * year t + (month t - 1) := rfl

theorem year_eq (t : Int) : year t = yearOf (dayNumber t) := rfl

theorem isoWeek_pos (t : Int) : 1 ≤ isoWeek t := by
  have hle := tiling_years.start_tile_le (isoThursday (dayNumber t))
  unfold isoWeek Lib.isoWeek Lib.isoWeekYear
  omega

theorem subMod_eq {n : Int} (hn : 0 ≤ n) (d : Int) : subMod n d = n - n % d := by
  rw [subMod, Int.tmod_eq_emod_of_nonneg hn]

/-- Up to `2 ^ 53` the doubles are exact: the months of a bucket are counted from January. -/
theorem ceilMonth_eq {m d : Int} (hm : 1 ≤ m ∧ m ≤ 12) (hd : 1 ≤ d) (hd' : d ≤ 2 ^ 53) :
    ceilMonth m d = m - (m - 1) % d := by
  have hq0 : 0 ≤ (m - 1) / d := Int.ediv_nonneg (by omega) (by omega)
  have hdm := Int.mul_ediv_add_emod (m - 1) d
  have hr0 := Int.emod_nonneg (m - 1) (show d ≠ 0 by omega)
  have hr := Int.emod_lt_of_pos (m - 1) (show 0 < d by omega)
  have hdpos : (0 : ℚ) < d := by exact_mod_cast (show 0 < d by omega)
  have hceil : ⌈(m / d : ℚ)⌉ = (m - 1) / d + 1 := by
    rw [Int.ceil_eq_iff, lt_div_iff₀ hdpos, div_le_iff₀ hdpos]
    constructor
    · have : ((m - 1) / d + 1 - 1) * d < m := by
        rw [Int.add_sub_cancel, Int.mul_comm]
        omega
      exact_mod_cast this
    · have : m ≤ ((m - 1) / d + 1) * d := by
        rw [Int.add_mul, Int.mul_comm]
        omega
      exact_mod_cast this
  have hmul : d * ((m - 1) / d) + d ≤ 2 ^ 53 := by
    rcases Int.lt_or_le d m with hlt | hge
    · omega
    · rw [Int.ediv_eq_zero_of_lt (by omega) (by omega)]
      omega
  have hdouble : double d = d := double_intCast (by omega)
  have hprod : double (((m - 1) / d + 1 : ℤ) * d) = ((d * ((m - 1) / d) + d : ℤ) : ℚ) := by
    rw [← double_intCast (n := d * ((m - 1) / d) + d) (by omega)]
    congr 1
    push_cast
    ring
  have hpred : double (int64 (d - 1)) = ((d - 1 : ℤ) : ℚ) := by
    rw [int64_eq (by omega) (by omega), double_intCast (by omega)]
  unfold ceilMonth
  simp only
  rw [hdouble, ceil_double_div hm hdpos (.inr ⟨d, rfl⟩), hceil, hprod, hpred, ← Int.cast_sub,
    double_intCast (by omega), Int.floor_intCast]
  omega

theorem ceilMonth_even {d : Int} (hd : 2 ^ 53 < d) (hd' : d < 2 ^ 63) :
    ∃ k : Int, ∀ m, 1 ≤ m ∧ m ≤ 12 → ceilMonth m d = 2 * k := by
  obtain ⟨a, ha⟩ := double_intCast_of_le (n := d) (by omega)
  obtain ⟨b, hb⟩ := double_intCast_of_le (n := d - 1) (by omega)
  obtain ⟨a', ha'⟩ := double_two_mul a
  obtain ⟨k, hk⟩ := double_two_mul (a' - b)
  have hle := le_double (n := d) (by omega)
  refine ⟨k, fun m hm => ?_⟩
  have hm0 : (0 : ℚ) < m := by exact_mod_cast (show 0 < m by omega)
  have hmd : (m : ℚ) ≤ double d := by
    have h12 : (m : ℚ) ≤ 12 := by exact_mod_cast hm.2
    exact h12.trans (le_trans (by norm_num) hle)
  have hceil : ⌈double (m / double d)⌉ = 1 := by
    have hpos : 0 < double d := lt_of_lt_of_le (by norm_num) hle
    rw [ceil_double_div hm hpos (.inl hmd), Int.ceil_eq_iff, Int.cast_one, sub_self]
    exact ⟨div_pos hm0 hpos, (div_le_one hpos).2 hmd⟩
  unfold ceilMonth
  simp only
  rw [hceil, int64_eq (by omega) (by omega), Int.cast_one, one_mul, ha, ha', hb, ← mul_sub, ←
    Int.cast_sub, hk]
  have hcast : (2 * k : ℚ) = ((2 * k : ℤ) : ℚ) := by push_cast; rfl
  rw [hcast, Int.floor_intCast]

end Agg

/-! ## Timestamps -/

namespace TimeUnit

/-- The start of tile `m`, the tiles being `u` milliseconds long. -/
def startOf (u m : Int) : Int := u * m - unixEpoch

theorem tiling_startOf {u : Int} (hu : 0 < u) : Tiling (startOf u) fun t => (t + unixEpoch) / u :=
  tiling_linear hu unixEpoch

theorem tiling_days : Tiling (startOf 86400000) Agg.dayNumber := tiling_startOf (by decide)

variable {d t : Int}

theorem timestamp_sec (d t : Int) : timestamp sec d t =
    startOf 1000 ((t + unixEpoch) / 1000 - (t + unixEpoch) / 1000 % 60 % d) := by
  have hsub : Agg.subMod (Agg.second t) d = Agg.second t - Agg.second t % d :=
    Agg.subMod_eq (Int.emod_nonneg _ (by decide)) d
  simp only [timestamp, bucket, Bucket.timestamp, hsub, Agg.goDate_dayNumber, startOf]
  unfold Agg.dayNumber Agg.hour Agg.minute Agg.second
  omega

theorem timestamp_min (d t : Int) : timestamp min d t =
    startOf 60000 ((t + unixEpoch) / 60000 - (t + unixEpoch) / 60000 % 60 % d) := by
  have hsub : Agg.subMod (Agg.minute t) d = Agg.minute t - Agg.minute t % d :=
    Agg.subMod_eq (Int.emod_nonneg _ (by decide)) d
  simp only [timestamp, bucket, Bucket.timestamp, hsub, Agg.goDate_dayNumber, startOf]
  unfold Agg.dayNumber Agg.hour Agg.minute
  omega

theorem timestamp_hour (d t : Int) : timestamp hour d t =
    startOf 3600000 ((t + unixEpoch) / 3600000 - (t + unixEpoch) / 3600000 % 24 % d) := by
  have hsub : Agg.subMod (Agg.hour t) d = Agg.hour t - Agg.hour t % d :=
    Agg.subMod_eq (Int.emod_nonneg _ (by decide)) d
  simp only [timestamp, bucket, Bucket.timestamp, hsub, Agg.goDate_dayNumber, startOf]
  unfold Agg.dayNumber Agg.hour
  omega

theorem timestamp_day (d t : Int) :
    timestamp day d t = startOf 86400000 (Agg.dayNumber t - Agg.dayOfMonth t % d) := by
  have hsub : Agg.subMod (Agg.dayOfMonth t) d = Agg.dayOfMonth t - Agg.dayOfMonth t % d :=
    Agg.subMod_eq (Int.natCast_nonneg _) d
  simp only [timestamp, bucket, Bucket.timestamp, hsub, Agg.goDate_dayNumber, startOf]
  omega

theorem timestamp_week (d t : Int) : timestamp week d t =
    startOf 86400000 (Agg.dayNumber t - Agg.dayNumber t % 7 - 7 * (Agg.isoWeek t % d)) := by
  have hpos := Agg.isoWeek_pos t
  have hsub : Agg.subMod (Agg.isoWeek t) d = Agg.isoWeek t - Agg.isoWeek t % d :=
    Agg.subMod_eq (by omega) d
  have hweek : isoWeekStart (Agg.isoWeekYear t) (Agg.isoWeek t) =
      Agg.dayNumber t - Agg.dayNumber t % 7 :=
    isoWeekStart_isoWeek (Agg.dayNumber t)
  simp only [timestamp, bucket, Bucket.timestamp, hsub, startOf]
  simp only [isoWeekStart] at hweek ⊢
  omega

theorem timestamp_month (d t : Int) : timestamp month d t =
    startOf 86400000 (monthStart (12 * Agg.year t + (Agg.ceilMonth (Agg.month t) d - 1))) := by
  simp only [timestamp, bucket, Bucket.timestamp, goDate, startOf]
  omega

theorem timestamp_month_eq (hd : 1 ≤ d) (hd' : d ≤ 2 ^ 53) (t : Int) : timestamp month d t =
    startOf 86400000
      (monthStart (monthOf (Agg.dayNumber t) - monthOf (Agg.dayNumber t) % 12 % d)) := by
  have hm := Agg.month_bounds t
  have hmod : monthOf (Agg.dayNumber t) % 12 = Agg.month t - 1 := by
    rw [Agg.monthOf_dayNumber]
    omega
  rw [timestamp_month, Agg.ceilMonth_eq hm hd hd', hmod, Agg.monthOf_dayNumber]
  congr 2
  omega

theorem monthStart_january (y : Int) : monthStart (12 * y) = daysSince y := by
  have hdiv : 12 * y / 12 = y := by omega
  have hmod : (12 * y % 12).toNat = 0 := by omega
  rw [monthStart, hdiv, hmod, List.take_zero, List.sum_nil]
  omega

theorem goDate_january (y : Int) : goDate y 1 1 = daysSince y := by
  rw [goDate, Int.sub_self, Int.add_zero, Int.add_zero, monthStart_january]

theorem timestamp_year (d t : Int) : timestamp year d t =
    startOf 86400000
      (daysSince (yearOf (Agg.dayNumber t) - (yearOf (Agg.dayNumber t)).tmod d)) := by
  simp only [timestamp, bucket, Bucket.timestamp, goDate_january, startOf]
  rw [Agg.subMod, Agg.year_eq]
  omega

/-! ## Floors -/

/-- The datetimes from the zero time on. -/
def creationTimes : Set Int := {t | -unixEpoch ≤ t}

theorem mem_creationTimes (ht : 0 ≤ t) : t ∈ creationTimes := le_trans (by decide) ht

theorem yearOf_nonneg (ht : t ∈ creationTimes) : 0 ≤ yearOf (Agg.dayNumber t) := by
  have hday : 0 ≤ Agg.dayNumber t := by
    have ht : -unixEpoch ≤ t := ht
    unfold Agg.dayNumber
    omega
  exact tiling_years.start_le_iff.1 (le_trans (by decide) hday)

variable (hd : 1 ≤ d)
include hd

/-- Seconds, minutes and hours: whole ones are counted within the enclosing unit. -/
theorem isFloorOn_clock {u k : Int} (hu : 0 < u) (hk : 0 < k) : IsFloorOn creationTimes fun t =>
    startOf u ((t + unixEpoch) / u - (t + unixEpoch) / u % k % d) :=
  ((isFloorOn_within hk hd).tiles (tiling_startOf hu)).subset fun _ _ => trivial

theorem isFloorOn_month (hd' : d ≤ 2 ^ 53) : IsFloorOn creationTimes (timestamp month d) := by
  have h := (isFloorOn_within (show (0 : Int) < 12 by decide) hd).tiles
    (tiling_days.comp tiling_months)
  rw [funext (timestamp_month_eq hd hd')]
  exact h.subset fun _ _ => trivial

theorem isFloorOn_year : IsFloorOn creationTimes (timestamp year d) := by
  have h := (isFloorOn_tmod hd).tiles (tiling_days.comp tiling_years)
  rw [funext (timestamp_year d)]
  exact h.subset fun t ht => yearOf_nonneg ht

omit hd

theorem isFloorOn_day : IsFloorOn creationTimes (timestamp day 1) := by
  have h := isFloorOn_id.tiles tiling_days
  have heq : timestamp day 1 = fun t => startOf 86400000 (id (Agg.dayNumber t)) := by
    funext t
    rw [timestamp_day, Int.emod_one, Int.sub_zero, id]
  rw [heq]
  exact h.subset fun _ _ => trivial

theorem isFloorOn_week : IsFloorOn creationTimes (timestamp week 1) := by
  have h := isFloorOn_id.tiles (tiling_days.comp (tiling_linear (show (0 : Int) < 7 by decide) 0))
  have heq : timestamp week 1 = fun t => startOf 86400000
      (7 * id ((Agg.dayNumber t + 0) / 7) - 0) := by
    funext t
    rw [timestamp_week, Int.emod_one, id]
    congr 1
    omega
  rw [heq]
  exact h.subset fun _ _ => trivial

/-! ## Days and weeks -/

/-- Where a field counts from 1, the remainder at its first value is 1, and the tick `tick` of such
a time `t` has the field's last value before. It is its own tick only if `d` divides that. -/
theorem dvd_of_idem {d s t tick : Int} {f base field : Int → Int} (hd : 2 ≤ d) (hs : 0 < s)
    (hf : ∀ t, f t = startOf 86400000 (base t - s * (field t % d))) (hfirst : field t = 1)
    (htick : startOf 86400000 (base t - s) = tick) (hbase : startOf 86400000 (base tick) = tick)
    (hidem : f (f t) = f t) : field tick % d = 0 := by
  have hone : (1 : Int) % d = 1 := Int.emod_eq_of_lt (by decide) (by omega)
  have hft : f t = tick := by
    rw [hf, hfirst, hone, Int.mul_one, htick]
  rw [hft, hf] at hidem
  have hsame := tiling_days.mono.injective (hidem.trans hbase.symm)
  have hzero : s * (field tick % d) = 0 := by omega
  exact (Int.mul_eq_zero.1 hzero).resolve_left (by omega)

theorem eq_one_of_emod {d n : Int} (hd : 1 ≤ d) (hn : n % d = 0) (hn' : (n + 1) % d = 0) :
    d = 1 := by
  have hdvd : d ∣ 1 := (Int.dvd_add_right (Int.dvd_of_emod_eq_zero hn)).1
    (Int.dvd_of_emod_eq_zero hn')
  have := Int.le_of_dvd (by decide) hdvd
  omega

/-- An even month is not the first: the bucket of January begins later, or in another year. -/
theorem le_of_floor_month {d : Int} (hmax : d < 2 ^ 63) (hle : timestamp month d 0 ≤ 0)
    (hidem : timestamp month d (timestamp month d 0) = timestamp month d 0) : d ≤ 2 ^ 53 := by
  by_contra hd
  obtain ⟨k, hk⟩ := Agg.ceilMonth_even (show 2 ^ 53 < d by omega) hmax
  have hmonths := tiling_days.comp tiling_months
  have htick : ∀ t, timestamp month d t = startOf 86400000
      (monthStart (12 * Agg.year t + (2 * k - 1))) := by
    intro t
    rw [timestamp_month, hk _ (Agg.month_bounds t)]
  have hyear : Agg.year 0 = 1970 := by decide +kernel
  have hmonth : monthOf (Agg.dayNumber 0) = 12 * 1970 := by decide +kernel
  rw [htick 0, hyear] at hle hidem
  have hbefore : 12 * 1970 + (2 * k - 1) ≤ 12 * 1970 := by
    rw [← hmonth]
    exact hmonths.start_le_iff.1 hle
  have hsame := hmonths.mono.injective ((htick _).symm.trans hidem)
  have hfield := hmonths.tile_start (12 * 1970 + (2 * k - 1))
  have hbounds := Agg.month_bounds (startOf 86400000 (monthStart (12 * 1970 + (2 * k - 1))))
  rw [Agg.monthOf_dayNumber] at hfield
  omega

/-- The timestamps are a floor function of the creation time. -/
structure TilesTime (unit : TimeUnit) (d : Int) : Prop where
  not_later : ∀ t ∈ creationTimes, unit.timestamp d t ≤ t
  mono : MonotoneOn (unit.timestamp d) creationTimes
  fixed : ∀ t ∈ creationTimes, unit.timestamp d (unit.timestamp d t) = unit.timestamp d t
  greatest : ∀ t ∈ creationTimes,
    IsGreatest {x ∈ unit.timestamp d '' creationTimes | x ≤ t} (unit.timestamp d t)

theorem TilesTime.of_isFloorOn {unit : TimeUnit} (h : IsFloorOn creationTimes (unit.timestamp d)) :
    unit.TilesTime d :=
  ⟨h.le, h.mono, h.idem, fun _ ht => h.isGreatest ht⟩

end TimeUnit

open TimeUnit in
/-- **Candle buckets tile time** exactly if days and weeks come with duration 1 and months with a
duration that a double holds. -/
theorem candle_buckets_tile_iff (unit : TimeUnit) {d : Int} (hd : 1 ≤ d) (hmax : d < 2 ^ 63) :
    unit.TilesTime d ↔ (unit = .day ∨ unit = .week → d = 1) ∧ (unit = .month → d ≤ 2 ^ 53) := by
  constructor
  · intro h
    refine ⟨?_, ?_⟩
    · intro hunit
      by_contra hne
      have hd : 2 ≤ d := by omega
      rcases hunit with rfl | rfl
      · have hf : ∀ t, TimeUnit.day.timestamp d t =
            startOf 86400000 (Agg.dayNumber t - 1 * (Agg.dayOfMonth t % d)) := by
          intro t
          rw [timestamp_day, Int.one_mul]
        -- January has 31 days, April has 30
        have hjanuary := dvd_of_idem (t := 2678400000) hd (by decide) hf (by decide +kernel) rfl
          (by decide +kernel) (h.fixed _ (mem_creationTimes (by decide)))
        have hapril := dvd_of_idem (t := 10368000000) hd (by decide) hf (by decide +kernel) rfl
          (by decide +kernel) (h.fixed _ (mem_creationTimes (by decide)))
        exact hne (eq_one_of_emod (n := 30) (by omega) hapril hjanuary)
      · -- 2019 has 52 weeks, 2020 has 53
        have h2019 := dvd_of_idem (t := 1577664000000) hd (by decide) (timestamp_week d)
          (by decide +kernel) rfl (by decide +kernel) (h.fixed _ (mem_creationTimes (by decide)))
        have h2020 := dvd_of_idem (t := 1609718400000) hd (by decide) (timestamp_week d)
          (by decide +kernel) rfl (by decide +kernel) (h.fixed _ (mem_creationTimes (by decide)))
        exact hne (eq_one_of_emod (n := 52) (by omega) h2019 h2020)
    · rintro rfl
      have hzero : (0 : Int) ∈ creationTimes := mem_creationTimes le_rfl
      exact le_of_floor_month hmax (h.not_later 0 hzero) (h.fixed 0 hzero)
  · rintro ⟨hone, hmonth⟩
    apply TilesTime.of_isFloorOn
    cases unit with
    | sec =>
      rw [funext (timestamp_sec d)]
      exact isFloorOn_clock hd (by decide) (by decide)
    | min =>
      rw [funext (timestamp_min d)]
      exact isFloorOn_clock hd (by decide) (by decide)
    | hour =>
      rw [funext (timestamp_hour d)]
      exact isFloorOn_clock hd (by decide) (by decide)
    | day =>
      rw [hone (.inl rfl)]
      exact isFloorOn_day
    | week =>
      rw [hone (.inr rfl)]
      exact isFloorOn_week
    | month => exact isFloorOn_month hd (hmonth rfl)
    | year => exact isFloorOn_year hd

/-- Quarters tile time. -/
theorem candle_buckets_tile_quarter : ((1 : Int) ≤ 3 ∧ (3 : Int) < 2 ^ 63) ∧
    TimeUnit.month.TilesTime 3 :=
  ⟨by decide, (candle_buckets_tile_iff .month (by decide) (by decide)).2 ⟨by decide, by decide⟩⟩

/-- The tick of the first of February 1970 is the 31st of January, that of the 31st is the 30th. -/
theorem candle_buckets_not_tiled : TimeUnit.day.timestamp 2 2678400000 = 2592000000 ∧
    TimeUnit.day.timestamp 2 2592000000 = 2505600000 := by
  decide +kernel

end Dex
