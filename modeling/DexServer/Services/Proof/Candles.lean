import DexServer.Services.Ohlcv
import DexServer.Services.Proof.Books
import DexServer.Services.Proof.Levels
import Mathlib.Data.Multiset.Basic

/-!
# When candles do not depend on the order of the scan

The trades that match are grouped by `CandleQuery.key`; `CandleQuery.tick` is the tick that is made
of a group, in the order in which its trades are scanned, and `getOHLCV_eq` says that these ticks
are returned.

* `candles_order_free_iff`: whatever the order, the same ticks come back, and they open and close at
  the prices of the earliest and the latest trade, exactly if the candles are `Steady`: every trade
  of a candle has the same price, as the ticks read prices back, and the decimal total of the
  amounts does not depend on the order.
* `candles_order_dependent`: of two trades at 5 and 7, either price is Open.
-/

namespace Dex

open Lib

theorem TimeUnit.ofText_text (unit : TimeUnit) : TimeUnit.ofText unit.text = some unit := by
  cases unit <;> rfl

/-- What is left of a price in a tick: a decimal of 34 digits, read from its text. -/
def readBack (undefinedInt : String → Int) (n : Int) : Int :=
  (AggValue.decimal (.ofInt n)).bigInt undefinedInt

/-- The volume in a tick. -/
def readVolume (undefinedInt : String → Int) (g : List Trade) : Int :=
  (AggValue.decimal (.sum (g.map fun t => .ofInt t.amount))).bigInt undefinedInt

/-- What the aggregation is asked for. -/
structure CandleQuery where
  eth : Eth
  unit : TimeUnit
  duration : Int
  start : Time
  stop : Time
  pairs : List PairTokens

namespace CandleQuery

variable (q : CandleQuery)

def Matches (t : Trade) : Prop := (t.doc q.eth).MatchQuery q.eth q.start q.stop q.pairs

instance (t : Trade) : Decidable (q.Matches t) :=
  inferInstanceAs (Decidable ((t.doc q.eth).MatchQuery q.eth q.start q.stop q.pairs))

def key (t : Trade) : CandleKey := (t.doc q.eth).candleKey q.unit q.duration

/-- The keys of the groups. -/
def keys (ts : List Trade) : List CandleKey := ((ts.filter fun t => q.Matches t).map q.key).dedup

/-- The group of a key. -/
def group (ts : List Trade) (k : CandleKey) : List Trade :=
  (ts.filter fun t => q.Matches t).filter (q.key · = k)

/-- The document of a group. -/
def candle (k : CandleKey) (g : List Trade) : TickDoc :=
  let prices := g.map fun t => Decimal128.ofInt t.pricePoint
  { pair := k.pair
    count := .decimal (decimalCount g)
    openPrice := .decimal (prices.headD .zero)
    high := .decimal (greatestDecimal prices)
    low := .decimal (leastDecimal prices)
    closePrice := .decimal (prices.getLastD .zero)
    volume := .decimal (.sum (g.map fun t => .ofInt t.amount))
    timestamp := k.bucket.timestamp }

/-- The tick of a group. -/
def tick (undefinedInt : String → Int) (k : CandleKey) (g : List Trade) : Tick :=
  (candle k g).setBSON q.eth undefinedInt

variable {q} {ts ts' : List Trade} {k : CandleKey}

theorem mem_group {t : Trade} : t ∈ q.group ts k ↔ t ∈ ts ∧ q.Matches t ∧ q.key t = k := by
  simp [group, and_comm]

theorem mem_keys : k ∈ q.keys ts ↔ ∃ t, t ∈ q.group ts k := by
  simp [keys, mem_group, and_assoc]

theorem group_perm (h : ts.Perm ts') : (q.group ts k).Perm (q.group ts' k) := (h.filter _).filter _

theorem keys_perm (h : ts.Perm ts') : (q.keys ts).Perm (q.keys ts') := ((h.filter _).map _).dedup

theorem group_append : q.group (ts ++ ts') k = q.group ts k ++ q.group ts' k := by
  simp [group]

theorem candleDoc_doc (k : CandleKey) (g : List Trade) :
    candleDoc (k, g.map (Trade.doc q.eth)) = .ok (candle k g) := by
  have hprices : (g.map (Trade.doc q.eth)).mapM (fun t => toDecimal t.pricepoint) =
      .ok (g.map fun t => Decimal128.ofInt t.pricePoint) :=
    mapM_map_ok fun t _ => toDecimal_toString t.pricePoint
  have hamounts : (g.map (Trade.doc q.eth)).mapM (fun t => toDecimal t.amount) =
      .ok (g.map fun t => Decimal128.ofInt t.amount) :=
    mapM_map_ok fun t _ => toDecimal_toString t.amount
  have hcount : decimalCount (g.map (Trade.doc q.eth)) = decimalCount g := by
    simp [decimalCount, Function.comp_def]
  rw [candleDoc, hprices, ok_bind, hamounts, ok_bind, hcount]
  rfl

variable (q ts) in
theorem ohlcvDocs_doc (hd : q.duration ≠ 0) (order : List CandleKey → List CandleKey) :
    ohlcvDocs order q.unit q.duration ((ts.map (Trade.doc q.eth)).filter fun t =>
        t.MatchQuery q.eth q.start q.stop q.pairs) =
      .ok (((order (q.keys ts)).map fun k => candle k (q.group ts k)).insertionSort
        fun a b => a.timestamp ≤ b.timestamp) := by
  have hfilter : (ts.map (Trade.doc q.eth)).filter
      (fun t => t.MatchQuery q.eth q.start q.stop q.pairs) =
      (ts.filter fun t => q.Matches t).map (Trade.doc q.eth) := by
    rw [List.filter_map]
    rfl
  have hkeys : (((ts.filter fun t => q.Matches t).map (Trade.doc q.eth)).map
      (TradeDoc.candleKey q.unit q.duration)).dedup = q.keys ts := by
    rw [List.map_map]
    rfl
  have hgroups : groupsIn (order (q.keys ts)) (TradeDoc.candleKey q.unit q.duration)
      ((ts.filter fun t => q.Matches t).map (Trade.doc q.eth)) =
      (order (q.keys ts)).map fun k => (k, (q.group ts k).map (Trade.doc q.eth)) := by
    unfold groupsIn
    apply List.map_congr_left
    intro k _
    rw [List.filter_map]
    rfl
  unfold ohlcvDocs
  rw [if_neg fun h => hd h.1, hfilter]
  simp only [hkeys, hgroups]
  rw [mapM_map_ok fun k _ => candleDoc_doc k (q.group ts k)]
  rfl

end CandleQuery

section
variable {env : Env} {w : World} {store : CandleOrder} {nan d : Int} {pairs : List PairTokens}
  {unit : TimeUnit} {timeInterval : List Int} {start stop : Time}

variable (store pairs) in
/-- The ticks that are returned: one for each group, by their timestamps. -/
theorem getOHLCV_eq (hf : env.fails w.calls = false) (hd : d ≠ 0)
    (hperiod : ohlcvPeriod nan (env.now w.calls).unix d (some unit) timeInterval =
      .ok (start, stop)) :
    let q : CandleQuery := ⟨env.eth, unit, d, start, stop, pairs⟩
    let ts := env.scanTrades w.calls w.trades
    ∃ ticks, getOHLCV store nan pairs d unit.text timeInterval env w = (.ok ticks, w.tick) ∧
      ticks.Perm ((q.keys ts).map fun k => q.tick env.undefinedInt k (q.group ts k)) ∧
      ticks.Pairwise fun a b => a.timestamp ≤ b.timestamp := by
  intro q ts
  have hask : (Prog.ask : M Env) env w = (.ok env, w) := rfl
  have hget : (Prog.get : M World) env w = (.ok w, w) := rfl
  have hdocs := q.ohlcvDocs_doc ts hd (store.keys w.calls)
  let docs := ((store.keys w.calls (q.keys ts)).map
    fun k => CandleQuery.candle k (q.group ts k)).insertionSort fun a b => a.timestamp ≤ b.timestamp
  refine ⟨docs.map (TickDoc.setBSON env.eth env.undefinedInt), ?_, ?_, ?_⟩
  · unfold getOHLCV
    rw [Prog.bind_ok hask, Prog.bind_ok hget, TimeUnit.ofText_text]
    have hofExcept :
        (Prog.ofExcept (ohlcvPeriod nan (env.now w.calls).unix d (some unit) timeInterval) :
        M (Time × Time)) env w = (.ok (start, stop), w) := by
      rw [hperiod]
      rfl
    rw [Prog.bind_ok hofExcept]
    simp only [call, hf, Bool.false_eq_true, if_false, World.tick_trades]
    rw [hdocs]
    rfl
  · have hsort : docs.Perm ((store.keys w.calls (q.keys ts)).map fun k =>
        CandleQuery.candle k (q.group ts k)) := List.perm_insertionSort _ _
    have hkeys := (store.keys_perm w.calls (q.keys ts)).map
      fun k => CandleQuery.candle k (q.group ts k)
    have h := (hsort.trans hkeys).map (TickDoc.setBSON env.eth env.undefinedInt)
    rw [List.map_map] at h
    exact h
  · have : Std.Total fun a b : TickDoc => a.timestamp ≤ b.timestamp := ⟨fun a b => le_total _ _⟩
    have : IsTrans TickDoc fun a b => a.timestamp ≤ b.timestamp := ⟨fun a b c => le_trans⟩
    exact List.pairwise_map.2 (List.pairwise_insertionSort _ _)

end

/-! ## A candle and its trades -/

/-- What a candle of the trades `g` is meant to be. -/
structure Tick.IsCandle (c : Tick) (g : List Trade) : Prop where
  openPrice : ∀ t ∈ g, (∀ t' ∈ g, t.createdAt ≤ t'.createdAt) → c.openPrice = t.pricePoint
  closePrice : ∀ t ∈ g, (∀ t' ∈ g, t'.createdAt ≤ t.createdAt) → c.closePrice = t.pricePoint
  low_le : c.low ≤ c.openPrice ∧ c.low ≤ c.closePrice
  le_high : c.openPrice ≤ c.high ∧ c.closePrice ≤ c.high

/-- The trades of a candle have one price, that of the earliest and of the latest, and their amounts
one total, however they are added up. -/
structure Steady (undefinedInt : String → Int) (g : List Trade) : Prop where
  price : ∀ t ∈ g, ∀ t' ∈ g,
    ((∀ x ∈ g, t'.createdAt ≤ x.createdAt) ∨ ∀ x ∈ g, x.createdAt ≤ t'.createdAt) →
      readBack undefinedInt t.pricePoint = t'.pricePoint
  volume : ∀ g' : List Trade, g'.Perm g → readVolume undefinedInt g' = readVolume undefinedInt g

namespace CandleQuery

variable {q : CandleQuery} {undefinedInt : String → Int} {k : CandleKey} {g : List Trade}

theorem tick_price (hg : g ≠ []) :
    let c := q.tick undefinedInt k g
    ∀ p ∈ [c.openPrice, c.high, c.low, c.closePrice], ∃ t ∈ g, p =
      readBack undefinedInt t.pricePoint := by
  intro c p hp
  let prices := g.map fun t => Decimal128.ofInt t.pricePoint
  have hne : prices ≠ [] := by simpa [prices] using hg
  have hread : ∀ d ∈ prices, ∃ t ∈ g,
      (AggValue.decimal d).bigInt undefinedInt = readBack undefinedInt t.pricePoint := by
    intro d hd
    obtain ⟨t, ht, rfl⟩ := List.mem_map.1 hd
    exact ⟨t, ht, rfl⟩
  have hhead : prices.headD .zero ∈ prices := by
    rw [List.headD_eq_head?_getD, List.head?_eq_some_head hne]
    exact List.head_mem hne
  have hlast : prices.getLastD .zero ∈ prices := by
    rw [List.getLastD_eq_getLast?, List.getLast?_eq_some_getLast hne]
    exact List.getLast_mem hne
  simp only [List.mem_cons, List.not_mem_nil, or_false] at hp
  rcases hp with rfl | rfl | rfl | rfl
  · exact hread _ hhead
  · exact hread _ (bestDecimal_mem hne)
  · exact hread _ (bestDecimal_mem hne)
  · exact hread _ hlast

end CandleQuery

theorem exists_earliest {g : List Trade} (hg : g ≠ []) :
    ∃ t ∈ g, ∀ t' ∈ g, t.createdAt ≤ t'.createdAt := by
  induction g with
  | nil => exact absurd rfl hg
  | cons t g ih =>
    by_cases hnil : g = []
    · subst hnil
      exact ⟨t, List.mem_cons_self, by simp⟩
    · obtain ⟨e, he, hmin⟩ := ih hnil
      rcases le_total t.createdAt e.createdAt with hle | hge
      · refine ⟨t, List.mem_cons_self, List.forall_mem_cons.2 ⟨le_rfl, ?_⟩⟩
        intro t' ht'
        exact le_trans hle (hmin t' ht')
      · exact ⟨e, List.mem_cons_of_mem _ he, List.forall_mem_cons.2 ⟨hge, hmin⟩⟩

namespace Steady

variable {q : CandleQuery} {undefinedInt : String → Int} {k : CandleKey} {g g' : List Trade}

theorem perm (h : Steady undefinedInt g) (hp : g'.Perm g) : Steady undefinedInt g' where
  price t ht t' ht' hends := by
    simp only [hp.mem_iff] at ht ht' hends
    exact h.price t ht t' ht' hends
  volume g'' hp' := by
    rw [h.volume g'' (hp'.trans hp), h.volume g' hp]

theorem tick_eq (h : Steady undefinedInt g) {t : Trade} (ht : t ∈ g)
    (hends : (∀ x ∈ g, t.createdAt ≤ x.createdAt) ∨ ∀ x ∈ g, x.createdAt ≤ t.createdAt) :
    let c := q.tick undefinedInt k g
    c.openPrice = t.pricePoint ∧ c.high = t.pricePoint ∧ c.low = t.pricePoint ∧
      c.closePrice = t.pricePoint := by
  intro c
  have hall : ∀ p ∈ [c.openPrice, c.high, c.low, c.closePrice], p = t.pricePoint := by
    intro p hp
    obtain ⟨x, hx, rfl⟩ := CandleQuery.tick_price (List.ne_nil_of_mem ht) p hp
    exact h.price x hx t ht hends
  simpa using hall

theorem isCandle (h : Steady undefinedInt g) (hg : g ≠ []) :
    (q.tick undefinedInt k g).IsCandle g := by
  obtain ⟨e, he, hmin⟩ := exists_earliest hg
  obtain ⟨hopen, hhigh, hlow, hclose⟩ := h.tick_eq (q := q) (k := k) he (.inl hmin)
  refine ⟨?_, ?_, ?_, ?_⟩
  · intro t ht ht'
    exact (h.tick_eq ht (.inl ht')).1
  · intro t ht ht'
    exact (h.tick_eq ht (.inr ht')).2.2.2
  · omega
  · omega

theorem tick_perm (h : Steady undefinedInt g) (hg : g ≠ []) (hp : g'.Perm g) :
    q.tick undefinedInt k g' = q.tick undefinedInt k g := by
  obtain ⟨e, he, hmin⟩ := exists_earliest hg
  have hmin' : ∀ x ∈ g', e.createdAt ≤ x.createdAt := fun x hx => hmin x (hp.mem_iff.1 hx)
  obtain ⟨hopen, hhigh, hlow, hclose⟩ := h.tick_eq (q := q) (k := k) he (.inl hmin)
  obtain ⟨hopen', hhigh', hlow', hclose'⟩ :=
    (h.perm hp).tick_eq (q := q) (k := k) (hp.mem_iff.2 he) (.inl hmin')
  have hcount : decimalCount g' = decimalCount g := by
    unfold decimalCount
    rw [List.map_const', List.map_const', hp.length_eq]
  apply Tick.ext
  · rfl
  · rw [hclose, hclose']
  · show (AggValue.decimal (decimalCount g')).bigInt undefinedInt = _
    rw [hcount]
    rfl
  · rw [hhigh, hhigh']
  · rw [hlow, hlow']
  · rw [hopen, hopen']
  · exact h.volume g' hp
  · rfl

theorem of_small (hprice : ∀ t ∈ g, ∀ t' ∈ g, t.pricePoint = t'.pricePoint)
    (hsmall : ∀ t ∈ g, t.pricePoint.natAbs < 10 ^ 34) (hamount : ∀ t ∈ g, 0 ≤ t.amount)
    (htotal : (g.map Trade.amount).sum < 10 ^ 34) : Steady undefinedInt g where
  price t ht t' ht' _ := by
    rw [readBack, AggValue.bigInt_ofInt undefinedInt (hsmall t ht), hprice t ht t' ht']
  volume g' hp := by
    have hsum : ∀ l : List Trade, l.Perm g →
        Decimal128.sum (l.map fun t => .ofInt t.amount) = .ofInt (g.map Trade.amount).sum := by
      intro l hl
      have hnonneg : ∀ x ∈ l.map Trade.amount, 0 ≤ x := by
        intro x hx
        obtain ⟨t, ht, rfl⟩ := List.mem_map.1 hx
        exact hamount t (hl.mem_iff.1 ht)
      rw [← (hl.map Trade.amount).sum_eq, ← Decimal128.sum_ofInt, List.map_map]
      · rfl
      · intro l' hl'
        have hle := hl'.sum_le_sum hnonneg
        have hpos : 0 ≤ l'.sum := List.sum_nonneg fun x hx => hnonneg x (hl'.mem hx)
        rw [(hl.map Trade.amount).sum_eq] at hle
        omega
    rw [readVolume, hsum g' hp, readVolume, hsum g (List.Perm.refl g)]

end Steady

/-! ## Two scans -/

/-- The environment in which the store scans the trades in another order. -/
def Env.scanning (env : Env) (scan : List Trade → List Trade) (h : ∀ l, (scan l).Perm l) : Env :=
  { env with scanTrades := fun _ => scan, scanTrades_perm := fun _ => h }

theorem eq_of_map_perm {α β : Type} [DecidableEq α] {f f' : α → β} {l : List α}
    (hl : l.Nodup) {a : α} (ha : a ∈ l) (hf : ∀ x ∈ l, x ≠ a → f x = f' x)
    (h : (l.map f).Perm (l.map f')) : f a = f' a := by
  have hrest : (l.erase a).map f = (l.erase a).map f' := by
    apply List.map_congr_left
    intro x hx
    have hx := (hl.mem_erase_iff).1 hx
    exact hf x hx.2 hx.1
  have hsplit : ∀ f : α → β, (l.map f).Perm (f a :: (l.erase a).map f) := by
    intro f
    exact (List.perm_cons_erase ha).map f
  have hcons := ((hsplit f).symm.trans h).trans (hsplit f')
  rw [hrest] at hcons
  have hmultiset : f a ::ₘ ((l.erase a).map f' : Multiset β) =
      f' a ::ₘ ((l.erase a).map f' : Multiset β) :=
    Multiset.coe_eq_coe.2 hcons
  exact (Multiset.cons_inj_left _).1 hmultiset

namespace CandleQuery

variable {q : CandleQuery} {ts : List Trade} {k : CandleKey}

/-- A scan with the group of `k` first, in the order of `g`. -/
def groupFirst (q : CandleQuery) (ts g : List Trade) (k : CandleKey) (l : List Trade) :
    List Trade :=
  if g.Perm (q.group ts k) ∧ l = ts then g ++ l.filter fun t => ¬(q.Matches t ∧ q.key t = k) else l

theorem groupFirst_perm (g l : List Trade) : (q.groupFirst ts g k l).Perm l := by
  unfold groupFirst
  split
  case isTrue h =>
    obtain ⟨hg, rfl⟩ := h
    have hgroup : q.group l k = l.filter fun t => q.Matches t ∧ q.key t = k := by
      rw [group, List.filter_filter]
      apply List.filter_congr
      intro t _
      simp [Bool.and_comm]
    rw [hgroup] at hg
    refine (hg.append_right _).trans ?_
    have := List.filter_append_perm (fun t => decide (q.Matches t ∧ q.key t = k)) l
    simpa using this
  case isFalse => exact List.Perm.refl l

theorem group_groupFirst {g : List Trade} (hg : g.Perm (q.group ts k)) (k' : CandleKey) :
    q.group (q.groupFirst ts g k ts) k' = if k' = k then g else q.group ts k' := by
  have hmem : ∀ t ∈ g, q.Matches t ∧ q.key t = k := fun t ht => (mem_group.1 (hg.mem_iff.1 ht)).2
  rw [groupFirst, if_pos ⟨hg, rfl⟩, group_append]
  by_cases hk : k' = k
  · subst hk
    have hfirst : q.group g k' = g := by
      rw [group, List.filter_filter]
      apply List.filter_eq_self.2
      intro t ht
      simp [hmem t ht]
    have hrest : q.group (ts.filter fun t => ¬(q.Matches t ∧ q.key t = k')) k' = [] := by
      apply List.eq_nil_iff_forall_not_mem.2
      intro t ht
      obtain ⟨ht, hm⟩ := mem_group.1 ht
      have := (List.mem_filter.1 ht).2
      simp [hm] at this
    rw [if_pos rfl, hfirst, hrest, List.append_nil]
  · have hfirst : q.group g k' = [] := by
      apply List.eq_nil_iff_forall_not_mem.2
      intro t ht
      obtain ⟨ht, -, hkey⟩ := mem_group.1 ht
      exact hk (hkey.symm.trans (hmem t ht).2)
    have hrest : q.group (ts.filter fun t => ¬(q.Matches t ∧ q.key t = k)) k' = q.group ts k' := by
      simp only [group, List.filter_filter]
      apply List.filter_congr
      intro t _
      by_cases hkey : q.key t = k'
      · simp [hkey, hk]
      · simp [hkey]
    rw [if_neg hk, hfirst, hrest, List.nil_append]

/-- A candle in every order reads back the prices of its ends: the trade is scanned first, or
last. -/
theorem readBack_of_isCandle {undefinedInt : String → Int} {l : List Trade}
    (h : ∀ g : List Trade, g.Perm l → (q.tick undefinedInt k g).IsCandle l) {t t' : Trade}
    (ht : t ∈ l)
    (ht' : t' ∈ l)
    (hends : (∀ u ∈ l, t'.createdAt ≤ u.createdAt) ∨ ∀ u ∈ l, u.createdAt ≤ t'.createdAt) :
    readBack undefinedInt t.pricePoint = t'.pricePoint := by
  rcases hends with hmin | hmax
  · exact (h (t :: l.erase t) (List.perm_cons_erase ht).symm).openPrice t' ht' hmin
  · have hperm : (l.erase t ++ [t]).Perm l :=
      (List.perm_append_singleton t _).trans (List.perm_cons_erase ht).symm
    have hclose := (h _ hperm).closePrice t' ht' hmax
    simpa [tick, candle, TickDoc.setBSON, readBack] using hclose

theorem tick_eq_of_groupFirst {undefinedInt : String → Int} {g : List Trade}
    (hg : g.Perm (q.group ts k)) (hk : k ∈ q.keys ts)
    (h : ((q.keys ts).map fun k' => q.tick undefinedInt k'
      (q.group (q.groupFirst ts g k ts) k')).Perm
      ((q.keys ts).map fun k' => q.tick undefinedInt k' (q.group ts k'))) :
    q.tick undefinedInt k g = q.tick undefinedInt k (q.group ts k) := by
  have hothers : ∀ k' ∈ q.keys ts, k' ≠ k →
      q.tick undefinedInt k' (q.group (q.groupFirst ts g k ts) k') =
        q.tick undefinedInt k' (q.group ts k') := by
    intro k' _ hne
    rw [group_groupFirst hg, if_neg hne]
  have hsame := eq_of_map_perm (List.nodup_dedup _) hk hothers h
  rwa [group_groupFirst hg, if_pos rfl] at hsame

end CandleQuery

section
variable {env : Env} {w : World} {store : CandleOrder} {nan d : Int} {pairs : List PairTokens}
  {unit : TimeUnit} {timeInterval : List Int} {start stop : Time}

variable (store pairs) in
theorem getOHLCV_scanning (hf : env.fails w.calls = false) (hd : d ≠ 0)
    (hperiod : ohlcvPeriod nan (env.now w.calls).unix d (some unit) timeInterval =
      .ok (start, stop))
    (scan : List Trade → List Trade) (h : ∀ l, (scan l).Perm l) :
    let q : CandleQuery := ⟨env.eth, unit, d, start, stop, pairs⟩
    ∃ ticks, getOHLCV store nan pairs d unit.text timeInterval (env.scanning scan h) w =
      (.ok ticks, w.tick) ∧ ticks.Perm ((q.keys w.trades).map fun k =>
        q.tick env.undefinedInt k (q.group (scan w.trades) k)) := by
  intro q
  have hf : (env.scanning scan h).fails w.calls = false := hf
  obtain ⟨ticks, hrun, hperm, -⟩ := getOHLCV_eq store pairs hf hd hperiod
  refine ⟨ticks, hrun, hperm.trans ?_⟩
  exact (CandleQuery.keys_perm (h w.trades)).map _

variable (store pairs) in
/-- **Candles do not depend on storage order**, and open and close as they should, exactly if they
are steady. -/
theorem candles_order_free_iff (hf : env.fails w.calls = false) (hd : d ≠ 0)
    (hperiod : ohlcvPeriod nan (env.now w.calls).unix d (some unit) timeInterval =
      .ok (start, stop)) :
    let q : CandleQuery := ⟨env.eth, unit, d, start, stop, pairs⟩
    (∀ (scan scan' : List Trade → List Trade) (h : ∀ l, (scan l).Perm l)
      (h' : ∀ l, (scan' l).Perm l), ∃ ticks ticks',
        getOHLCV store nan pairs d unit.text timeInterval (env.scanning scan h) w =
          (.ok ticks, w.tick) ∧
        getOHLCV store nan pairs d unit.text timeInterval (env.scanning scan' h') w =
          (.ok ticks', w.tick) ∧
        ticks.Perm ticks' ∧
        ∀ k ∈ q.keys w.trades,
          let c := q.tick env.undefinedInt k (q.group (scan w.trades) k)
          c ∈ ticks ∧ c.IsCandle (q.group w.trades k)) ↔
      ∀ k ∈ q.keys w.trades, Steady env.undefinedInt (q.group w.trades k) := by
  intro q
  constructor
  · intro hall k hk
    have hfirst : ∀ g : List Trade, g.Perm (q.group w.trades k) →
        (q.tick env.undefinedInt k g).IsCandle (q.group w.trades k) := by
      intro g hg
      obtain ⟨_, _, -, -, -, hcandle⟩ := hall (q.groupFirst w.trades g k) id
        (CandleQuery.groupFirst_perm g) fun _ => List.Perm.refl _
      have h := (hcandle k hk).2
      rwa [CandleQuery.group_groupFirst hg, if_pos rfl] at h
    refine ⟨fun t ht t' ht' => CandleQuery.readBack_of_isCandle hfirst ht ht', ?_⟩
    intro g hg
    obtain ⟨ticks, ticks', hrun, hrun', hsame, -⟩ := hall (q.groupFirst w.trades g k) id
      (CandleQuery.groupFirst_perm g) fun _ => List.Perm.refl _
    obtain ⟨ticks₁, hrun₁, hticks⟩ := getOHLCV_scanning store pairs hf hd hperiod
      (q.groupFirst w.trades g k) (CandleQuery.groupFirst_perm g)
    obtain ⟨ticks₂, hrun₂, hticks'⟩ := getOHLCV_scanning store pairs hf hd hperiod
      id fun _ => List.Perm.refl _
    rw [hrun₁] at hrun
    rw [hrun₂] at hrun'
    cases hrun
    cases hrun'
    have htick := CandleQuery.tick_eq_of_groupFirst hg hk ((hticks.symm.trans hsame).trans hticks')
    exact congrArg Tick.volume htick
  · intro hsteady scan scan' h h'
    obtain ⟨ticks, hrun, hticks⟩ := getOHLCV_scanning store pairs hf hd hperiod scan h
    obtain ⟨ticks', hrun', hticks'⟩ := getOHLCV_scanning store pairs hf hd hperiod scan' h'
    have hne : ∀ k ∈ q.keys w.trades, q.group w.trades k ≠ [] := by
      intro k hk
      obtain ⟨t, ht⟩ := CandleQuery.mem_keys.1 hk
      exact List.ne_nil_of_mem ht
    have htick : ∀ (scan : List Trade → List Trade), (∀ l, (scan l).Perm l) → ∀ k ∈ q.keys w.trades,
        q.tick env.undefinedInt k (q.group (scan w.trades) k) =
          q.tick env.undefinedInt k (q.group w.trades k) := by
      intro scan h k hk
      exact (hsteady k hk).tick_perm (hne k hk) (CandleQuery.group_perm (h w.trades))
    refine ⟨ticks, ticks', hrun, hrun', ?_, ?_⟩
    · rw [List.map_congr_left (htick scan h)] at hticks
      rw [List.map_congr_left (htick scan' h')] at hticks'
      exact hticks.trans hticks'.symm
    · intro k hk c
      refine ⟨hticks.mem_iff.2 (List.mem_map.2 ⟨k, hk, rfl⟩), ?_⟩
      show (q.tick env.undefinedInt k (q.group (scan w.trades) k)).IsCandle _
      rw [htick scan h k hk]
      exact (hsteady k hk).isCandle (hne k hk)

end

/-- The groups come in the order of their first trades. -/
def CandleOrder.sample : CandleOrder := ⟨fun _ ks => ks, fun _ ks => List.Perm.refl ks⟩

/-- Trades of the pair `ZRX/WETH` in the first minute of 1970, one second apart. -/
def World.sampleCandle (price price' : Int) : World :=
  { World.empty with
    trades := [⟨1, 1, 3, 4, 1, 2, 3, 4, "ZRX/WETH", .ofUnix 1, price, .SUCCESS, 2⟩,
      ⟨1, 1, 3, 4, 5, 6, 7, 8, "ZRX/WETH", .ofUnix 2, price', .SUCCESS, 3⟩] }

/-- The candles of that minute. -/
def CandleQuery.sample : CandleQuery := ⟨.sampleFixed, .min, 1, .ofUnix 0, .ofUnix 60, []⟩

/-- Two trades at one price, scanned in both orders. -/
theorem candles_order_free_one_price : ∃ ticks ticks',
    getOHLCV .sample 0 [] 1 "min" [0, 60] (Env.sampleFixed.scanning id fun _ => .refl _)
      (.sampleCandle 5 5) = (.ok ticks, (World.sampleCandle 5 5).tick) ∧
    getOHLCV .sample 0 [] 1 "min" [0, 60] (Env.sampleFixed.scanning List.reverse List.reverse_perm)
      (.sampleCandle 5 5) = (.ok ticks', (World.sampleCandle 5 5).tick) ∧
    ticks.Perm ticks' := by
  have hiff := @candles_order_free_iff Env.sampleFixed (.sampleCandle 5 5) .sample 0 1
    [] .min [0, 60] (.ofUnix 0) (.ofUnix 60) rfl (by decide) rfl
  have hgroup : ∀ k ∈ CandleQuery.sample.keys (World.sampleCandle 5 5).trades,
      CandleQuery.sample.group (World.sampleCandle 5 5).trades k =
        (World.sampleCandle 5 5).trades := by
    decide +kernel
  have hsteady : ∀ k ∈ CandleQuery.sample.keys (World.sampleCandle 5 5).trades,
      Steady Env.sampleFixed.undefinedInt (CandleQuery.sample.group
        (World.sampleCandle 5 5).trades k) := by
    intro k hk
    rw [hgroup k hk]
    apply Steady.of_small <;> decide +kernel
  obtain ⟨ticks, ticks', hrun, hrun', hsame, -⟩ :=
    hiff.2 hsteady id List.reverse (fun _ => .refl _) List.reverse_perm
  exact ⟨ticks, ticks', hrun, hrun', hsame⟩

/-- **Either price is Open**: the trades at 5 and, a second later, at 7 are scanned in both
orders. -/
theorem candles_order_dependent :
    (getOHLCV .sample 0 [] 1 "min" [0, 60] (Env.sampleFixed.scanning id fun _ => .refl _)
      (.sampleCandle 5 7)).1 = .ok [⟨⟨"ZRX/WETH", 3, 4⟩, 7, 2, 7, 5, 5, 5, 0⟩] ∧
    (getOHLCV .sample 0 [] 1 "min" [0, 60] (Env.sampleFixed.scanning List.reverse List.reverse_perm)
      (.sampleCandle 5 7)).1 = .ok [⟨⟨"ZRX/WETH", 3, 4⟩, 5, 2, 7, 5, 7, 5, 0⟩] := by
  decide +kernel

end Dex
