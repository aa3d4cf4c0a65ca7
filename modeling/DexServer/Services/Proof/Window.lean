import DexServer.Services.Proof.Buckets
import DexServer.Services.Proof.Candles

/-!
# When the streamed candle covers its bucket

Called without a period, `GetOHLCV` looks back to the last multiple of the interval before now, less
another interval (`ohlcvPeriod_now`). The bucket of now begins less than one interval ago if the
interval is at least as long as `d` units (`lt_timestamp`). For months it is not: it has `d` days.

* `streamed_candle_covers_iff`: while the interval, in milliseconds, is within the range of an
  `int64`, the period covers the bucket for every unit but `month`, and for months exactly if the
  block of `d` days before the current one, counted from 1970, begins no later than the bucket.
* `streamed_candle_cut`: on the 15th of March 2020 the monthly candle has the trades since the 14th.
-/

namespace Dex

open Lib

/-! ## Machine arithmetic -/

theorem floor_intCast_div {x y : Int} (hy : 0 < y) : ⌊(x / y : ℚ)⌋ = x / y := by
  obtain ⟨n, rfl⟩ := Int.eq_ofNat_of_zero_le hy.le
  exact_mod_cast Rat.floor_intCast_div_natCast x n

theorem truncate_intCast {n : Int} (hn : 0 ≤ n) : truncate n = n := by
  have : ¬(n : ℚ) < 0 := by exact_mod_cast not_lt.2 hn
  rw [truncate, if_neg this, Int.floor_intCast]

/-- Below `2 ^ 53` the remainder of the floats is that of the integers. -/
theorem floatMod_eq {x y : Int} (nan : Int) (hx : 0 ≤ x) (hx' : x < 2 ^ 53) (hy : 1 ≤ y) :
    floatMod nan x y = x % y := by
  have hdx : double x = x := double_intCast (by omega)
  have hxq : (0 : ℚ) ≤ x := by exact_mod_cast hx
  have hmod := Int.emod_nonneg x (show y ≠ 0 by omega)
  unfold floatMod
  rw [hdx]
  rcases Int.le_total y (2 ^ 53) with hle | hge
  · have hdy : double y = y := double_intCast (by omega)
    have hyq : (0 : ℚ) < y := by exact_mod_cast (show 0 < y by omega)
    have hquot : truncate (x / y : ℚ) = x / y := by
      have : ¬(x / y : ℚ) < 0 := not_lt.2 (div_nonneg hxq hyq.le)
      rw [truncate, if_neg this, floor_intCast_div (by omega)]
    have hrest : (x - (x / y : Int) * y : ℚ) = ((x % y : Int) : ℚ) := by
      rw [Int.emod_def]
      push_cast
      ring
    rw [hdy, if_neg hyq.ne', hquot, hrest, truncate_intCast hmod]
  · -- the divisor is rounded, but stays above `x`
    have hdy := le_double (n := y) hge
    have hyq : 0 < double y := lt_of_lt_of_le (by norm_num) hdy
    have hlt : (x : ℚ) < double y := lt_of_lt_of_le (by exact_mod_cast hx') hdy
    have hquot : truncate (x / double y) = 0 := by
      have hnonneg := div_nonneg hxq hyq.le
      rw [truncate, if_neg (not_lt.2 hnonneg), Int.floor_eq_zero_iff]
      exact ⟨hnonneg, (div_lt_one hyq).2 hlt⟩
    rw [if_neg hyq.ne', hquot, Int.cast_zero, zero_mul, sub_zero, truncate_intCast hx,
      Int.emod_eq_of_lt hx (by omega)]

theorem toBSON_ofUnix (s : Int) : (Time.ofUnix s).toBSON.toInt = int64 (1000 * s) := by
  have hms : Time.ofUnix s / 10 ^ 6 - unixEpoch = 1000 * s := by
    show (s + unixEpoch / 1000) * 10 ^ 9 / 10 ^ 6 - unixEpoch = 1000 * s
    unfold unixEpoch
    omega
  rw [Time.toBSON, hms, BitVec.toInt_ofInt, int64]

/-! ## The period -/

namespace TimeUnit

variable {now d : Int} {unit : TimeUnit}

theorem daysOfMonth_eq (date : Date) : daysOfMonth date = 1 := by
  obtain ⟨m, hm⟩ : ∃ m, goDate date.year (date.month + 1) 1 = monthStart m :=
    ⟨_, by rw [goDate, Int.sub_self, Int.add_zero]⟩
  have h := monthStart_monthOf (monthStart m)
  rw [tiling_months.tile_start] at h
  rw [daysOfMonth, hm]
  omega

theorem daysOfYear_ge (date : Date) : 366 ≤ daysOfYear date := by
  have hdecember : monthStart (12 * date.year + (0 - 1)) < monthStart (12 * date.year) :=
    tiling_months.mono (by omega)
  have hyear := daysSince_succ date.year
  have hlen := yearLength_spec (isLeap date.year)
  rw [monthStart_january] at hdecember
  rw [daysOfYear, goDate_january, goDate]
  omega

theorem seconds_pos (date : Date) (unit : TimeUnit) : 1 ≤ unit.seconds date := by
  have hyear := daysOfYear_ge date
  have hmonth := daysOfMonth_eq date
  cases unit <;> simp only [seconds] <;> omega

/-- The bucket of `t` begins less than `d` units before, a year being counted as the code does. -/
theorem lt_timestamp (hd : 1 ≤ d) (hunit : unit ≠ .month) (ht : 0 ≤ now) :
    1000 * now - 1000 * (d * unit.seconds (unixDate now)) < unit.timestamp d (1000 * now) := by
  have hrest : ∀ n : Int, n % d < d := fun n => Int.emod_lt_of_pos n (by omega)
  cases unit with
  | sec =>
    have := hrest ((1000 * now + unixEpoch) / 1000 % 60)
    rw [timestamp_sec, startOf, seconds]
    omega
  | min =>
    have := hrest ((1000 * now + unixEpoch) / 60000 % 60)
    rw [timestamp_min, startOf, seconds]
    omega
  | hour =>
    have := hrest ((1000 * now + unixEpoch) / 3600000 % 24)
    rw [timestamp_hour, startOf, seconds]
    omega
  | day =>
    have := hrest (Agg.dayOfMonth (1000 * now))
    have hday := tiling_days.lt_start_tile (1000 * now)
    rw [startOf] at hday
    rw [timestamp_day, startOf, seconds]
    omega
  | week =>
    have := hrest (Agg.isoWeek (1000 * now))
    have hday := tiling_days.lt_start_tile (1000 * now)
    rw [startOf] at hday
    rw [timestamp_week, startOf, seconds]
    omega
  | month => exact absurd rfl hunit
  | year =>
    have hyears := daysOfYear_ge (unixDate now)
    have hday := tiling_days.lt_start_tile (1000 * now)
    have hnext := tiling_years.lt_start_tile (Agg.dayNumber (1000 * now))
    have hnonneg : 0 ≤ yearOf (Agg.dayNumber (1000 * now)) :=
      yearOf_nonneg (mem_creationTimes (by omega))
    have hr := hrest (yearOf (Agg.dayNumber (1000 * now)))
    have hr0 := Int.emod_nonneg (yearOf (Agg.dayNumber (1000 * now))) (show d ≠ 0 by omega)
    rw [startOf] at hday
    rw [timestamp_year, startOf, seconds, Int.tmod_eq_emod_of_nonneg hnonneg]
    generalize yearOf (Agg.dayNumber (1000 * now)) = y at *
    generalize y % d = r at *
    have hspan : daysSince (y + 1) ≤ daysSince (y - r) + 366 * (r + 1) := by
      unfold daysSince
      omega
    have hmul : 366 * d ≤ d * daysOfYear (unixDate now) := by
      rw [Int.mul_comm]
      exact Int.mul_le_mul_of_nonneg_left hyears (by omega)
    have hassoc : d * (daysOfYear (unixDate now) * 24 * 60 * 60) =
        86400 * (d * daysOfYear (unixDate now)) := by
      ring
    omega

variable (now d unit) in
/-- The interval, in milliseconds, is within the range of an `int64`. -/
def Fits : Prop := 1000 * (d * unit.seconds (unixDate now)) ≤ 2 ^ 63

theorem ohlcvPeriod_now (nan : Int) (hnow : 0 ≤ now) (hnow' : now < 2 ^ 53) (hd : 1 ≤ d)
    (hfits : unit.Fits now d) :
    let interval := d * unit.seconds (unixDate now)
    ∃ start stop, ohlcvPeriod nan now d (some unit) [] = .ok (start, stop) ∧
      start.toBSON.toInt = 1000 * (now - now % interval - interval) ∧
      stop.toBSON.toInt = 1000 * now := by
  intro interval
  have hpos : 1 ≤ interval := by
    have := Int.mul_le_mul_of_nonneg_left (seconds_pos (unixDate now) unit) (show 0 ≤ d by omega)
    omega
  have hfits : 1000 * interval ≤ 2 ^ 63 := hfits
  have hmod : now % interval ≤ now := by
    have := Int.mul_ediv_add_emod now interval
    have := Int.mul_nonneg (show 0 ≤ interval by omega)
      (Int.ediv_nonneg hnow (show 0 ≤ interval by omega))
    omega
  have hmod0 := Int.emod_nonneg now (show interval ≠ 0 by omega)
  have hinterval : int64 interval = interval := int64_eq (by omega) (by omega)
  have hmodTime : int64 (now - floatMod nan now interval) = now - now % interval := by
    rw [floatMod_eq nan hnow hnow' hpos, int64_eq (by omega) (by omega)]
  have hget : getModTime nan now d (some unit) = (now - now % interval, interval) := by
    show (int64 (now - floatMod nan now (int64 interval)), int64 interval) = _
    rw [hinterval, hmodTime]
  refine ⟨.ofUnix (int64 (now - now % interval - interval)), .ofUnix now, ?_, ?_, ?_⟩
  · unfold ohlcvPeriod
    rw [hget]
    rfl
  · rw [toBSON_ofUnix, int64_eq (n := now - now % interval - interval) (by omega) (by omega),
      int64_eq (by omega) (by omega)]
  · rw [toBSON_ofUnix, int64_eq (by omega) (by omega)]

/-- The first day of a bucket of months, counted from 1970. -/
def firstDay (now d : Int) : Int :=
  let m := monthOf (Agg.dayNumber (1000 * now))
  monthStart (m - m % 12 % d) - 719162

/-- For months, the interval has `d` days: it reaches back to the block of days before the current
one. -/
theorem start_le_iff (hnow : 0 ≤ now) (hd : 1 ≤ d) (hfits : unit.Fits now d) :
    let interval := d * unit.seconds (unixDate now)
    1000 * (now - now % interval - interval) ≤ unit.timestamp d (1000 * now) ↔
      (unit = .month → d * (now / 86400 / d - 1) ≤ firstDay now d) := by
  intro interval
  by_cases hunit : unit = .month
  · subst hunit
    have hinterval : interval = 86400 * d := by
      show d * (daysOfMonth (unixDate now) * 24 * 60 * 60) = 86400 * d
      rw [daysOfMonth_eq]
      ring
    have hfits : 1000 * interval ≤ 2 ^ 63 := hfits
    have hblocks : now - now % interval - interval = 86400 * (d * (now / 86400 / d - 1)) := by
      have hdiv : now / 86400 / d = now / interval := by
        rw [hinterval, Int.ediv_ediv_of_nonneg (by decide)]
      have hmod := Int.mul_ediv_add_emod now interval
      rw [hdiv, Int.mul_sub, Int.mul_sub, ← Int.mul_assoc, ← hinterval]
      omega
    rw [hblocks, timestamp_month_eq hd (by omega), startOf, firstDay]
    simp only [unixEpoch, true_implies]
    omega
  · have hlt := lt_timestamp hd hunit hnow
    have hmod : 0 ≤ now % interval := by
      have := Int.mul_le_mul_of_nonneg_left (seconds_pos (unixDate now) unit) (show 0 ≤ d by omega)
      exact Int.emod_nonneg now (by omega)
    have hle : 1000 * (now - now % interval - interval) ≤ unit.timestamp d (1000 * now) := by omega
    simp [hle, hunit]

/-- A bucket begins no later than its times, if months come with a duration that a double holds. -/
theorem timestamp_le {t : Int} (hd : 1 ≤ d) (hmonth : unit = .month → d ≤ 2 ^ 53)
    (ht : t ∈ creationTimes) : unit.timestamp d t ≤ t := by
  have hrest : ∀ n : Int, 0 ≤ n % d := fun n => Int.emod_nonneg n (by omega)
  have hday := tiling_days.start_tile_le t
  rw [startOf] at hday
  cases unit with
  | sec => rw [timestamp_sec]; exact (isFloorOn_clock hd (by decide) (by decide)).le t ht
  | min => rw [timestamp_min]; exact (isFloorOn_clock hd (by decide) (by decide)).le t ht
  | hour => rw [timestamp_hour]; exact (isFloorOn_clock hd (by decide) (by decide)).le t ht
  | day =>
    have := hrest (Agg.dayOfMonth t)
    rw [timestamp_day, startOf]
    omega
  | week =>
    have := hrest (Agg.isoWeek t)
    rw [timestamp_week, startOf]
    omega
  | month => exact (isFloorOn_month hd (hmonth rfl)).le t ht
  | year => exact (isFloorOn_year hd).le t ht

end TimeUnit

/-! ## The candle -/

/-- The SUCCESS trades of a pair in the bucket of `now` that were created before, as they are
scanned. -/
def bucketTrades (env : Env) (w : World) (pairs : List PairTokens) (unit : TimeUnit) (d now : Int)
    (k : PairKey) : List Trade :=
  (env.scanTrades w.calls w.trades).filter fun t =>
    (t.status = .SUCCESS ∧ (t.doc env.eth).date < 1000 * now) ∧
      unit.bucket d (t.doc env.eth).date = unit.bucket d (1000 * now) ∧
      (t.doc env.eth).pairKey = k ∧
      (1 ≤ pairs.length → ∃ p ∈ pairs, (t.doc env.eth).baseToken = env.eth.hex p.baseTokenAddress ∧
        (t.doc env.eth).quoteToken = env.eth.hex p.quoteTokenAddress)

/-- The period begins no later than the bucket of `now`, and the candle of the bucket is made of
every SUCCESS trade of the bucket that was created before. -/
structure StreamCovers (nan now d : Int) (unit : TimeUnit) : Prop where
  start_le : ∃ start stop, ohlcvPeriod nan now d (some unit) [] = .ok (start, stop) ∧
    start.toBSON.toInt ≤ unit.timestamp d (1000 * now)
  complete : ∀ (store : CandleOrder) (pairs : List PairTokens) (env : Env) (w : World),
    env.fails w.calls = false → (env.now w.calls).unix = now →
    (∀ t ∈ w.trades, (t.doc env.eth).date ∈ TimeUnit.creationTimes) →
    ∃ ticks, getOHLCV store nan pairs d unit.text [] env w = (.ok ticks, w.tick) ∧
      ∀ k : PairKey, bucketTrades env w pairs unit d now k ≠ [] →
        (CandleQuery.candle ⟨unit.bucket d (1000 * now), k⟩
          (bucketTrades env w pairs unit d now k)).setBSON env.eth env.undefinedInt ∈ ticks

theorem group_bucket {env : Env} {w : World} {unit : TimeUnit} {d now : Int} {start stop : Time}
    (pairs : List PairTokens) (hle : ∀ t ∈ TimeUnit.creationTimes, unit.timestamp d t ≤ t)
    (hstart : start.toBSON.toInt ≤ unit.timestamp d (1000 * now))
    (hstop : stop.toBSON.toInt = 1000 * now)
    (htimes : ∀ t ∈ w.trades, (t.doc env.eth).date ∈ TimeUnit.creationTimes) (k : PairKey) :
    CandleQuery.group ⟨env.eth, unit, d, start, stop, pairs⟩ (env.scanTrades w.calls w.trades)
      ⟨unit.bucket d (1000 * now), k⟩ = bucketTrades env w pairs unit d now k := by
  rw [CandleQuery.group, List.filter_filter, bucketTrades]
  apply List.filter_congr
  intro t ht
  rw [← Bool.decide_and, decide_eq_decide]
  have htime := hle _ (htimes t ((env.scanTrades_perm w.calls w.trades).mem_iff.1 ht))
  have hkey : CandleQuery.key ⟨env.eth, unit, d, start, stop, pairs⟩ t =
      ⟨unit.bucket d (1000 * now), k⟩ ↔
      unit.bucket d (t.doc env.eth).date = unit.bucket d (1000 * now) ∧
      (t.doc env.eth).pairKey = k := by
    simp only [CandleQuery.key, TradeDoc.candleKey, CandleKey.mk.injEq]
  have hstatus : (t.doc env.eth).status = "SUCCESS" ↔ t.status = .SUCCESS :=
    TradeStatus.text_eq_success t.status
  rw [hkey, CandleQuery.Matches, TradeDoc.MatchQuery, hstatus, hstop]
  constructor
  · intro h
    obtain ⟨⟨hbucket, hpair⟩, ⟨-, hnow⟩, hstatus, hasked⟩ := h
    exact ⟨⟨hstatus, hnow⟩, hbucket, hpair, hasked⟩
  · intro h
    obtain ⟨⟨hstatus, hnow⟩, hbucket, hpair, hasked⟩ := h
    rw [TimeUnit.timestamp, hbucket] at htime
    exact ⟨⟨hbucket, hpair⟩, ⟨hstart.trans htime, hnow⟩, hstatus, hasked⟩

open TimeUnit in
/-- **The streamed candle covers its whole bucket**, unless the unit is `month` and the bucket
begins before the block of `d` days before the current one. -/
theorem streamed_candle_covers_iff (nan : Int) {now d : Int} (unit : TimeUnit) (hnow : 0 ≤ now)
    (hnow' : now < 2 ^ 53) (hd : 1 ≤ d) (hfits : unit.Fits now d) :
    StreamCovers nan now d unit ↔ (unit = .month → d * (now / 86400 / d - 1) ≤ firstDay now d) := by
  obtain ⟨start, stop, hperiod, hstart, hstop⟩ := ohlcvPeriod_now nan hnow hnow' hd hfits
  constructor
  · intro h
    obtain ⟨start', stop', hperiod', hle⟩ := h.start_le
    rw [hperiod] at hperiod'
    cases hperiod'
    rw [hstart] at hle
    exact (start_le_iff hnow hd hfits).1 hle
  · intro hmonth
    have hle : start.toBSON.toInt ≤ unit.timestamp d (1000 * now) := by
      rw [hstart]
      exact (start_le_iff hnow hd hfits).2 hmonth
    have hdouble : unit = .month → d ≤ 2 ^ 53 := by
      rintro rfl
      have hfits : 1000 * (d * (daysOfMonth (unixDate now) * 24 * 60 * 60)) ≤ 2 ^ 63 := hfits
      rw [daysOfMonth_eq] at hfits
      omega
    refine ⟨⟨start, stop, hperiod, hle⟩, ?_⟩
    intro store pairs env w hf hclock htimes
    rw [← hclock] at hperiod
    obtain ⟨ticks, hrun, hticks, -⟩ := getOHLCV_eq store pairs hf (show d ≠ 0 by omega) hperiod
    refine ⟨ticks, hrun, ?_⟩
    intro k hne
    have hgroup := group_bucket pairs (fun t ht => timestamp_le hd hdouble ht) hle hstop htimes k
    rw [← hgroup] at hne ⊢
    obtain ⟨t, ht⟩ := List.exists_mem_of_ne_nil _ hne
    exact hticks.mem_iff.2 (List.mem_map.2 ⟨_, CandleQuery.mem_keys.2 ⟨t, ht⟩, rfl⟩)

/-- Candles of six hours, on the 15th of March 2020. -/
theorem streamed_candle_covers_six_hours : TimeUnit.hour.Fits 1584230400 6 ∧
    StreamCovers 0 1584230400 6 .hour := by
  have hfits : TimeUnit.hour.Fits 1584230400 6 := by
    show (1000 * (6 * (60 * 60)) : Int) ≤ 2 ^ 63
    decide
  refine ⟨hfits, ?_⟩
  apply (streamed_candle_covers_iff 0 .hour (by decide) (by decide) (by decide) hfits).2
  intro h
  cases h

/-- Beyond the range of an `int64` the period may begin in the future. -/
example : (ohlcvPeriod 0 1584230400 (93 * 10 ^ 14) (some .sec) []).map (fun p => p.1.toBSON.toInt) =
    .ok 9146744073709551616 := by
  decide +kernel

/-- Trades at 5 and 7 of the pair `ZRX/WETH`, on the 2nd and the 14th of March 2020. -/
def World.sampleMarch : World :=
  { World.empty with
    trades := [⟨1, 1, 3, 4, 1, 2, 3, 4, "ZRX/WETH", .ofUnix 1583107200, 5, .SUCCESS, 2⟩,
      ⟨1, 1, 3, 4, 5, 6, 7, 8, "ZRX/WETH", .ofUnix 1584187200, 7, .SUCCESS, 3⟩] }

/-- **A monthly candle of a day**: on the 15th of March 2020 the period begins on the 14th, the
bucket on the first. Of the two trades in the bucket, the candle has one. -/
theorem streamed_candle_cut :
    let env := { Env.sampleFixed with now := fun _ => .ofUnix 1584230400 }
    (ohlcvPeriod 0 1584230400 1 (some .month) []).map (fun p => p.1.toBSON.toInt) =
      .ok 1584144000000 ∧ TimeUnit.month.timestamp 1 1584230400000 = 1583020800000 ∧
      (bucketTrades env .sampleMarch [] .month 1 1584230400
        ⟨"ZRX/WETH", env.eth.hex 3, env.eth.hex 4⟩).length = 2 ∧
      (getOHLCV .sample 0 [] 1 "month" [] env .sampleMarch).1 =
        .ok [⟨⟨"ZRX/WETH", 3, 4⟩, 7, 1, 7, 7, 7, 3, 1583020800000⟩] := by
  decide +kernel

end Dex
