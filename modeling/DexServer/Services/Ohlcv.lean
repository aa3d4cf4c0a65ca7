import DexServer.Contracts.Exchange
import DexServer.Daos.Document
import DexServer.Lib.Calendar
import DexServer.Lib.Double
import DexServer.Services.PairData

/-!
# Candles (`services/ohlcv.go`)

`GetOHLCV` makes one aggregation over the trades: those of a period and of the given pairs are
grouped by pair and by a bucket of time, and a group becomes a `Tick`. The period is given, or
computed from the clock by `getModTime` in machine arithmetic; the bucket of a trade is computed in
the store by calendar operators, which `getGroupAddFieldBson` spells out for each unit.

A datetime of the store is the number of milliseconds from the Unix epoch. The clock is read once
here; the code reads it again in `getModTime`.
-/

namespace Dex

open Lib

/-- The units that `getModTime` and `getGroupAddFieldBson` know. -/
inductive TimeUnit
  | sec
  | min
  | hour
  | day
  | week
  | month
  | year
  deriving DecidableEq, Repr

namespace TimeUnit

def text : TimeUnit → String
  | sec => "sec"
  | min => "min"
  | hour => "hour"
  | day => "day"
  | week => "week"
  | month => "month"
  | year => "year"

def ofText (s : String) : Option TimeUnit :=
  [sec, min, hour, day, week, month, year].find? (·.text = s)

end TimeUnit

/-! ## Machine numbers -/

/-- The value of an `int64`. -/
def int64 (n : Int) : Int := n.bmod (2 ^ 64)

/-- `int64(x)` of a float. -/
def truncate (x : ℚ) : Int := if x < 0 then ⌈x⌉ else ⌊x⌋

/-- `int64(math.Mod(float64(x), float64(y)))`. The remainder by 0 is NaN, of which the conversion
makes `nan`, a number that depends on the platform. -/
def floatMod (nan x y : Int) : Int :=
  if double y = 0 then nan else truncate (double x - truncate (double x / double y) * double y)

/-! ## The period -/

/-- `t.Unix()`. -/
def Time.unix (t : Time) : Int := t / 10 ^ 9 - unixEpoch / 1000

/-- `time.Unix(s, 0)`. -/
def Time.ofUnix (s : Int) : Time := (s + unixEpoch / 1000) * 10 ^ 9

/-- The day of `time.Date(year, month, day, 0, 0, 0, 0, time.UTC)`; values out of range are
carried. -/
def goDate (year month day : Int) : Int := monthStart (12 * year + (month - 1)) + (day - 1)

/-- The `d` of the case `month`: the day of the month of the first of the next month. -/
def daysOfMonth (now : Date) : Int := (Date.ofNumber (goDate now.year (now.month + 1) 1)).day

/-- The `d` of the case `year`: the days from month 0, day 0. -/
def daysOfYear (now : Date) : Int := goDate (now.year + 1) 1 1 - goDate now.year 0 0

/-- What the duration is multiplied by. -/
def TimeUnit.seconds (now : Date) : TimeUnit → Int
  | sec => 1
  | hour => 60 * 60
  | day => 24 * 60 * 60
  | week => 7 * 24 * 60 * 60
  | month => daysOfMonth now * 24 * 60 * 60
  | year => daysOfYear now * 24 * 60 * 60
  | min => 60

/-- The date of a time in seconds from the Unix epoch. -/
def unixDate (ts : Int) : Date := Date.ofNumber ((ts + unixEpoch / 1000) / (24 * 60 * 60))

/-- `getModTime`, at the time `ts`. An unknown unit leaves both results at 0. -/
def getModTime (nan ts interval : Int) (unit : Option TimeUnit) : Int × Int :=
  match unit with
  | none => (0, 0)
  | some unit =>
    let intervalInSeconds := int64 (interval * unit.seconds (unixDate ts))
    (int64 (ts - floatMod nan ts intervalInSeconds), intervalInSeconds)

/-- `start` and `end`. -/
def ohlcvPeriod (nan currentTimestamp duration : Int) (unit : Option TimeUnit)
    (timeInterval : List Int) : Except Err (Time × Time) := do
  let (modTime, intervalInSeconds) := getModTime nan currentTimestamp duration unit
  if timeInterval.length ≥ 1 then
    let stop ← indexed timeInterval 1
    let start ← indexed timeInterval 0
    pure (.ofUnix start, .ofUnix stop)
  else pure (.ofUnix (int64 (modTime - intervalInSeconds)), .ofUnix currentTimestamp)

/-- The `createdAt` of the document. -/
def TradeDoc.date (t : TradeDoc) : Int := t.createdAt.toBSON.toInt

/-- `getMatchQuery`. -/
def TradeDoc.MatchQuery (eth : Eth) (start stop : Time) (pairs : List PairTokens) (t : TradeDoc) :
    Prop :=
  (start.toBSON.toInt ≤ t.date ∧ t.date < stop.toBSON.toInt) ∧ t.status = "SUCCESS" ∧
    (1 ≤ pairs.length → ∃ p ∈ pairs, t.baseToken = eth.hex p.baseTokenAddress ∧
      t.quoteToken = eth.hex p.quoteTokenAddress)

instance (eth : Eth) (start stop : Time) (pairs : List PairTokens) (t : TradeDoc) :
    Decidable (t.MatchQuery eth start stop pairs) :=
  inferInstanceAs (Decidable (_ ∧ _ ∧ (_ → _)))

/-! ## Buckets -/

namespace Agg

/-- The day of a datetime. -/
def dayNumber (t : Int) : Int := (t + unixEpoch) / 86400000

/-- `$year`. -/
def year (t : Int) : Int := (Date.ofNumber (dayNumber t)).year

/-- `$month`. -/
def month (t : Int) : Int := (Date.ofNumber (dayNumber t)).month

/-- `$dayOfMonth`. -/
def dayOfMonth (t : Int) : Int := (Date.ofNumber (dayNumber t)).day

/-- `$hour`. -/
def hour (t : Int) : Int := (t + unixEpoch) / 3600000 % 24

/-- `$minute`. -/
def minute (t : Int) : Int := (t + unixEpoch) / 60000 % 60

/-- `$second`. -/
def second (t : Int) : Int := (t + unixEpoch) / 1000 % 60

/-- `$isoWeekYear`. -/
def isoWeekYear (t : Int) : Int := Lib.isoWeekYear (dayNumber t)

/-- `$isoWeek`. -/
def isoWeek (t : Int) : Int := Lib.isoWeek (dayNumber t)

/-- `$subtract` of `$mod`. -/
def subMod (n duration : Int) : Int := n - n.tmod duration

/-- `$subtract: [{$multiply: [{$ceil: {$divide: [month, duration]}}, duration]}, duration - 1]`: the
quotient is a double, and so is all that follows. -/
def ceilMonth (month duration : Int) : Int :=
  let ceil := ⌈double (month / double duration)⌉
  ⌊double (double (ceil * double duration) - double (int64 (duration - 1)))⌋

end Agg

/-- The parts of a `$dateFromParts`, with its defaults. -/
structure DateParts where
  year : Int
  month : Int := 1
  day : Int := 1
  hour : Int := 0
  minute : Int := 0
  second : Int := 0
  deriving DecidableEq, Repr

/-- The time in a group's `_id`. -/
inductive Bucket
  | date (parts : DateParts)
  | week (isoWeekYear isoWeek : Int)
  deriving DecidableEq, Repr

/-- `$dateFromParts`, less the Unix epoch. Parts out of range are carried. -/
def Bucket.timestamp : Bucket → Int
  | date p => 86400000 * goDate p.year p.month p.day + 3600000 * p.hour + 60000 * p.minute +
      1000 * p.second - unixEpoch
  | week isoWeekYear isoWeek => 86400000 * isoWeekStart isoWeekYear isoWeek - unixEpoch

/-- The time in `groupID` of `getGroupAddFieldBson`. -/
def TimeUnit.bucket (duration t : Int) : TimeUnit → Bucket
  | sec => .date
    { year := Agg.year t, day := Agg.dayOfMonth t, month := Agg.month t, hour := Agg.hour t
      minute := Agg.minute t, second := Agg.subMod (Agg.second t) duration }
  | min => .date
    { year := Agg.year t, day := Agg.dayOfMonth t, month := Agg.month t, hour := Agg.hour t
      minute := Agg.subMod (Agg.minute t) duration }
  | hour => .date
    { year := Agg.year t, day := Agg.dayOfMonth t, month := Agg.month t
      hour := Agg.subMod (Agg.hour t) duration }
  | day => .date
    { year := Agg.year t, month := Agg.month t, day := Agg.subMod (Agg.dayOfMonth t) duration }
  | week => .week (Agg.isoWeekYear t) (Agg.subMod (Agg.isoWeek t) duration)
  | month => .date { year := Agg.year t, month := Agg.ceilMonth (Agg.month t) duration }
  | year => .date { year := Agg.subMod (Agg.year t) duration }

/-- The timestamp of the tick of a trade that was created at `t`. -/
def TimeUnit.timestamp (unit : TimeUnit) (duration t : Int) : Int :=
  (unit.bucket duration t).timestamp

/-! ## Candles -/

/-- `groupID`. -/
structure CandleKey where
  bucket : Bucket
  pair : PairKey
  deriving DecidableEq, Repr

def TradeDoc.candleKey (unit : TimeUnit) (duration : Int) (t : TradeDoc) : CandleKey :=
  ⟨unit.bucket duration t.date, t.pairKey⟩

/-- An accumulator that keeps the first value, or a later one that is better. -/
def bestDecimal (better : Int → Int → Bool) : List Decimal128 → Decimal128
  | [] => .zero
  | d :: ds => ds.foldl (fun m d => if better d.value m.value then d else m) d

/-- `$max` of decimals. -/
def greatestDecimal : List Decimal128 → Decimal128 := bestDecimal fun a b => b < a

/-- `$min` of decimals. -/
def leastDecimal : List Decimal128 → Decimal128 := bestDecimal fun a b => a < b

theorem bestDecimal_mem {better : Int → Int → Bool} {ds : List Decimal128} (h : ds ≠ []) :
    bestDecimal better ds ∈ ds := by
  cases ds with
  | nil => exact absurd rfl h
  | cons d ds =>
    clear h
    induction ds generalizing d with
    | nil => exact List.mem_singleton.2 rfl
    | cons e ds ih =>
      have hmem := ih (if better e.value d.value then e else d)
      rw [bestDecimal] at hmem ⊢
      rw [List.foldl_cons]
      rcases List.mem_cons.1 hmem with heq | hrest
      · rw [heq]
        split
        · exact List.mem_cons_of_mem _ List.mem_cons_self
        · exact List.mem_cons_self
      · exact List.mem_cons_of_mem _ (List.mem_cons_of_mem _ hrest)

/-- The accumulators of a group, and the `timestamp` that is added. -/
def candleDoc (g : CandleKey × List TradeDoc) : Except Err TickDoc := do
  let prices ← g.2.mapM fun t => toDecimal t.pricepoint
  let amounts ← g.2.mapM fun t => toDecimal t.amount
  pure
    { pair := g.1.pair
      count := .decimal (decimalCount g.2)
      openPrice := .decimal (prices.headD .zero)
      high := .decimal (greatestDecimal prices)
      low := .decimal (leastDecimal prices)
      closePrice := .decimal (prices.getLastD .zero)
      volume := .decimal (.sum amounts)
      timestamp := g.1.bucket.timestamp }

/-- The order in which the groups of call `n` come out. -/
structure CandleOrder where
  keys : Nat → List CandleKey → List CandleKey
  keys_perm : ∀ n ks, (keys n ks).Perm ks

/-- The pipeline, on the trades that match. The remainder by 0 is an error. -/
def ohlcvDocs (order : List CandleKey → List CandleKey) (unit : TimeUnit) (duration : Int)
    (ts : List TradeDoc) : Except Err (List TickDoc) :=
  if duration = 0 ∧ ts ≠ [] then .error .io
  else do
    let key := TradeDoc.candleKey unit duration
    let docs ← (groupsIn (order (ts.map key).dedup) key ts).mapM candleDoc
    pure (docs.insertionSort fun a b => a.timestamp ≤ b.timestamp)

/-- `GetOHLCV`. For an unknown unit the fourth stage of the pipeline is empty, which the store
refuses. -/
def getOHLCV (store : CandleOrder) (nan : Int) (pairs : List PairTokens) (duration : Int)
    (unit : String) (timeInterval : List Int) : M (List Tick) := do
  let env ← Prog.ask
  let w ← Prog.get
  let (start, stop) ← Prog.ofExcept
    (ohlcvPeriod nan (env.now w.calls).unix duration (TimeUnit.ofText unit) timeInterval)
  call fun env n w =>
    match TimeUnit.ofText unit with
    | none => (.error .io, w)
    | some unit =>
      let ts := (env.scanTrades n w.trades).map (Trade.doc env.eth)
      let ts := ts.filter fun t => t.MatchQuery env.eth start stop pairs
      ((ohlcvDocs (store.keys n) unit duration ts).map fun ds =>
        ds.map (TickDoc.setBSON env.eth env.undefinedInt), w)

end Dex
