import DexServer.Services.PairData
import DexServer.Services.Proof.Books
import DexServer.Services.Proof.Levels

/-!
# When the statistics of a pair are its numbers

The groups of a side that belong to a pair are `pairGroups`. The merge takes the best price from the
last of them and adds up the asks (`merged_eq`); together they are the open orders of the pair
(`pairGroups_perm`).

* `pair_statistics_iff`: the entry of a pair is right exactly if its bids have one pair name, the
  price with the greatest text is the greatest (the least, for the asks), the decimal totals are
  exact and the failed conversion of the trade prices happens to leave them.
* `pair_statistics_wrong`: bids at 9 and 10 have the best price 9.
-/

namespace Dex

open Lib

/-! ## The merge -/

/-- A loop that overwrites keeps what it has seen last. -/
theorem foldl_overwrites {α β : Type} (f : α → β → α) (hf : ∀ a b b', f (f a b) b' = f a b') (a : α)
    (bs : List β) : bs.foldl f a = (bs.getLast?.map (f a)).getD a := by
  induction bs using List.reverseRecOn with
  | nil => rfl
  | append_singleton bs b ih =>
    rw [List.foldl_append, ih]
    cases bs.getLast? with
    | none => simp
    | some b' => simp [hf]

theorem foldl_if {α β : Type} {f : α → β → α} {q : β → Prop} [DecidablePred q] (a : α)
    (bs : List β) : bs.foldl (fun a b => if q b then f a b else a) a = (bs.filter q).foldl f a := by
  rw [List.foldl_filter]
  simp

namespace PairData

variable {d : PairData} {trades : List Tick} {bids : List OrderData}

theorem foldl_addTrades : trades.foldl addTrades d = (trades.getLast?.map d.addTrades).getD d :=
  foldl_overwrites addTrades (fun _ _ _ => rfl) d trades

theorem foldl_addBids : bids.foldl addBids d = (bids.getLast?.map d.addBids).getD d :=
  foldl_overwrites addBids (fun _ _ _ => rfl) d bids

theorem foldl_addAsks (d : PairData) (asks : List OrderData) :
    (asks.foldl addAsks d).orderVolume = d.orderVolume + (asks.map (·.orderVolume)).sum ∧
    (asks.foldl addAsks d).orderCount = d.orderCount + (asks.map (·.orderCount)).sum ∧
    (asks.foldl addAsks d).askPrice = (asks.getLast?.map (·.bestPrice)).getD d.askPrice ∧
    (asks.foldl addAsks d).bidPrice = d.bidPrice ∧ (asks.foldl addAsks d).high = d.high ∧
    (asks.foldl addAsks d).low = d.low := by
  induction asks using List.reverseRecOn with
  | nil => simp
  | append_singleton asks o ih =>
    obtain ⟨hv, hc, -, hb, hh, hl⟩ := ih
    simp [addAsks, hv, hc, hb, hh, hl, Int.add_assoc]

/-- What is taken from the last result of a pair. -/
def lastOf {α : Type} (f : α → Int) (l : List α) : Int := (l.getLast?.map f).getD 0

/-- The entry of a pair, from the results with its code. -/
theorem merged_eq (eth : Eth) (trades : List Tick) (bids asks : List OrderData) (p : RawPair) :
    let code := (initial p).pair.addressCode eth
    let t := trades.filter fun t => t.pair.addressCode eth = code
    let b := bids.filter fun o => o.pair.addressCode eth = code
    let a := asks.filter fun o => o.pair.addressCode eth = code
    let d := merged eth trades bids asks p
    d.bidPrice = lastOf (·.bestPrice) b ∧ d.askPrice = lastOf (·.bestPrice) a ∧
      d.orderCount = lastOf (·.orderCount) b + (a.map (·.orderCount)).sum ∧
      d.orderVolume = lastOf (·.orderVolume) b + (a.map (·.orderVolume)).sum ∧
      d.high = lastOf (·.high) t ∧ d.low = lastOf (·.low) t := by
  intro code t b a d
  have hd : d = a.foldl addAsks (b.foldl addBids (t.foldl addTrades (initial p))) := by
    show merged eth trades bids asks p = _
    unfold merged
    simp only [foldl_if]
    rfl
  obtain ⟨hv, hc, hask, hbid, hhigh, hlow⟩ :=
    foldl_addAsks (b.foldl addBids (t.foldl addTrades (initial p))) a
  rw [hd, hv, hc, hask, hbid, hhigh, hlow, foldl_addBids, foldl_addTrades]
  unfold lastOf
  cases b.getLast? <;> cases t.getLast? <;> simp [addBids, addTrades, initial]

end PairData

/-! ## The groups of a pair -/

/-- The order has the tokens of the pair. -/
def Order.Of (p : RawPair) (o : Order) : Prop :=
  o.baseToken = p.baseTokenAddress ∧ o.quoteToken = p.quoteTokenAddress

instance (p : RawPair) (o : Order) : Decidable (o.Of p) := inferInstanceAs (Decidable (_ ∧ _))

def openOn (side : Side) (docs : List Order) : List Order :=
  docs.filter fun o => o.isOpen ∧ o.side = side

/-- The open orders of a side of a pair. -/
def pairOrders (p : RawPair) (side : Side) (docs : List Order) : List Order :=
  (openOn side docs).filter fun o => o.Of p

def Order.pairKey (eth : Eth) (o : Order) : PairKey :=
  ⟨o.pairName, eth.hex o.baseToken, eth.hex o.quoteToken⟩

section
variable (eth : Eth) (order : List PairKey → List PairKey) (p : RawPair) (side : Side)
    (docs : List Order)

/-- The keys of the groups of a side, as the store returns them. -/
def sideKeys : List PairKey := order ((openOn side docs).map (Order.pairKey eth)).dedup

/-- The group belongs to the pair, as the merge compares them. -/
def PairKey.Of (k : PairKey) : Prop :=
  (k.pairID eth).addressCode eth = (PairData.initial p).pair.addressCode eth

instance (k : PairKey) : Decidable (k.Of eth p) := inferInstanceAs (Decidable (_ = _))

/-- The groups of a pair, as the store returns them. -/
def pairGroups : List (List Order) :=
  ((sideKeys eth order side docs).filter fun k => k.Of eth p).map fun k =>
    (openOn side docs).filter (·.pairKey eth = k)

end

/-- The addresses of go-ethereum: their texts read back and have one length. -/
structure Eth.Codes (eth : Eth) : Prop extends eth.FixedHex where
  hexToAddress : ∀ a, eth.hexToAddress (eth.hex a) = a

theorem Eth.Codes.key_of_iff {eth : Eth} (h : eth.Codes) {p : RawPair} {name : String}
    {base quote : Address} : PairKey.Of eth p ⟨name, eth.hex base, eth.hex quote⟩ ↔
      base = p.baseTokenAddress ∧ quote = p.quoteTokenAddress := by
  unfold PairKey.Of
  simp only [PairKey.pairID, PairID.addressCode, PairData.initial, h.hexToAddress]
  constructor
  · intro he
    obtain ⟨hbase, hquote⟩ := h.append_inj he
    exact ⟨h.injective hbase, hquote⟩
  · intro he
    rw [he.1, he.2]

theorem Eth.Codes.of_iff {eth : Eth} (h : eth.Codes) {p : RawPair} {o : Order} :
    (o.pairKey eth).Of eth p ↔ o.Of p := h.key_of_iff

section
variable {eth : Eth} {order : List PairKey → List PairKey} {p : RawPair} {side : Side}
    {docs : List Order}

theorem sideKeys_nodup (horder : ∀ ks, (order ks).Perm ks) (eth : Eth) (side : Side)
    (docs : List Order) : (sideKeys eth order side docs).Nodup :=
  (horder _).nodup_iff.2 (List.nodup_dedup _)

theorem mem_sideKeys (horder : ∀ ks, (order ks).Perm ks) {k : PairKey} :
    k ∈ sideKeys eth order side docs ↔ ∃ o ∈ openOn side docs, o.pairKey eth = k := by
  rw [sideKeys, (horder _).mem_iff, List.mem_dedup, List.mem_map]

variable (heth : eth.Codes) (horder : ∀ ks, (order ks).Perm ks)
include heth horder

/-- Together the groups are the orders of the pair. -/
theorem pairGroups_perm :
    (pairGroups eth order p side docs).flatten.Perm (pairOrders p side docs) := by
  have hkeys := (sideKeys_nodup horder eth side docs).filter
    fun k => decide (k.Of eth p)
  have hflat := flatMap_filter_perm hkeys (Order.pairKey eth) (openOn side docs)
  rw [pairGroups, ← List.flatMap_def]
  refine hflat.trans (List.Perm.of_eq ?_)
  apply List.filter_congr
  intro o ho
  have hmem : o.pairKey eth ∈ sideKeys eth order side docs := (mem_sideKeys horder).2 ⟨o, ho, rfl⟩
  simp [hmem, heth.of_iff]

omit heth in
theorem pairGroups_ne_nil {g : List Order} (hg : g ∈ pairGroups eth order p side docs) :
    g ≠ [] := by
  obtain ⟨k, hk, rfl⟩ := List.mem_map.1 hg
  obtain ⟨o, ho, hkey⟩ := (mem_sideKeys horder).1 (List.mem_filter.1 hk).1
  exact List.ne_nil_of_mem (List.mem_filter.2 ⟨ho, by simpa using hkey⟩)

theorem pairGroups_length_le_one : (pairGroups eth order p side docs).length ≤ 1 ↔
    ∀ o ∈ pairOrders p side docs, ∀ o' ∈ pairOrders p side docs, o.pairName = o'.pairName := by
  have hnodup := (sideKeys_nodup horder eth side docs).filter
    fun k => decide (k.Of eth p)
  have hmem : ∀ k, k ∈ ((sideKeys eth order side docs).filter fun k => decide (k.Of eth p)) ↔
      ∃ o ∈ pairOrders p side docs, o.pairKey eth = k := by
    intro k
    rw [List.mem_filter, mem_sideKeys horder]
    constructor
    · intro h
      obtain ⟨⟨o, ho, rfl⟩, hof⟩ := h
      exact ⟨o, List.mem_filter.2 ⟨ho, by simpa [heth.of_iff] using hof⟩, rfl⟩
    · intro h
      obtain ⟨o, ho, rfl⟩ := h
      obtain ⟨hopen, hof⟩ := List.mem_filter.1 ho
      exact ⟨⟨o, hopen, rfl⟩, by simpa [heth.of_iff] using hof⟩
  rw [pairGroups, List.length_map]
  constructor
  · intro hlen o ho o' ho'
    have hk := (hmem _).2 ⟨o, ho, rfl⟩
    have hk' := (hmem _).2 ⟨o', ho', rfl⟩
    generalize ((sideKeys eth order side docs).filter fun k => decide (k.Of eth p)) =
      ks at hk hk' hlen
    cases ks with
    | nil => cases hk
    | cons k ks =>
      cases ks with
      | nil =>
        have hkey : o.pairKey eth = o'.pairKey eth := by
          rw [List.mem_singleton.1 hk, List.mem_singleton.1 hk']
        exact congrArg PairKey.pairName hkey
      | cons k' ks => simp at hlen
  · intro hname
    generalize hks : ((sideKeys eth order side docs).filter fun k => decide (k.Of eth p)) = ks
      at hmem hnodup
    cases ks with
    | nil => simp
    | cons k ks =>
      cases ks with
      | nil => simp
      | cons k' ks =>
        -- two keys of one pair have two names
        obtain ⟨o, ho, hk⟩ := (hmem k).1 (.head _)
        obtain ⟨o', ho', hk'⟩ := (hmem k').1 (.tail _ (.head _))
        have hof : o.Of p := by simpa using (List.mem_filter.1 ho).2
        have hof' : o'.Of p := by simpa using (List.mem_filter.1 ho').2
        have hkey : k = k' := by
          rw [← hk, ← hk', Order.pairKey, Order.pairKey, hname o ho o' ho', hof.1, hof.2,
            hof'.1, hof'.2]
        rw [hkey] at hnodup
        simp at hnodup

end

/-! ## The results for a pair -/

/-- What the store adds up for a group of orders. -/
def decimalRemaining (g : List Order) : Decimal128 :=
  .sum (g.map fun o => (Decimal128.ofInt o.amount).sub (.ofInt o.filledAmount))

/-- The total that is read from it. -/
def decimalTotal (undefinedInt : String → Int) (g : List Order) : Int :=
  (AggValue.decimal (decimalRemaining g)).bigInt undefinedInt

/-- Below `10 ^ 34` it is the total. -/
theorem decimalTotal_eq (undefinedInt : String → Int) {g : List Order}
    (ha : ∀ o ∈ g, o.amount.natAbs < 10 ^ 34) (hf : ∀ o ∈ g, o.filledAmount.natAbs < 10 ^ 34)
    (hs : ∀ l : List Order, l.Sublist g → (totalRemaining l).natAbs < 10 ^ 34) :
    decimalTotal undefinedInt g = totalRemaining g := by
  have hmap : (g.map fun o => (Decimal128.ofInt o.amount).sub (.ofInt o.filledAmount)) =
      (g.map Order.remainingAmount).map Decimal128.ofInt := by
    rw [List.map_map]
    apply List.map_congr_left
    intro o ho
    rw [Decimal128.sub_ofInt (ha o ho) (hf o ho)]
    rfl
  have hsum : decimalRemaining g = .ofInt (totalRemaining g) := by
    rw [decimalRemaining, hmap]
    apply Decimal128.sum_ofInt
    intro l hl
    obtain ⟨l', hl', rfl⟩ := List.sublist_map_iff.1 hl
    exact hs l' hl'
  rw [decimalTotal, hsum]
  exact AggValue.bigInt_ofInt undefinedInt (hs g (.refl g))

def groupCount (undefinedInt : String → Int) (g : List Order) : Int :=
  (AggValue.decimal (decimalCount g)).bigInt undefinedInt

theorem groupCount_eq (undefinedInt : String → Int) {g : List Order} (h : g.length < 10 ^ 34) :
    groupCount undefinedInt g = g.length := by
  have hsum : decimalCount g = .ofInt (g.length : Int) := by
    have hones : (g.map fun _ => decimalOne) = (g.map fun _ => (1 : Int)).map Decimal128.ofInt := by
      rw [List.map_map]
      rfl
    have hlen : (g.map fun _ => (1 : Int)).sum = g.length := by simp
    rw [decimalCount, hones, ← hlen]
    apply Decimal128.sum_ofInt
    intro l hl
    have hl1 : l.sum = l.length := by
      rw [List.sum_eq_card_nsmul l 1]
      · simp
      · intro x hx
        obtain ⟨o, -, rfl⟩ := List.mem_map.1 (hl.subset hx)
        rfl
    have hle := hl.length_le
    rw [List.length_map] at hle
    omega
  rw [groupCount, hsum]
  exact AggValue.bigInt_ofInt undefinedInt (by omega)

/-- The best price of a group: of its texts. -/
def groupBest (undefinedInt : String → Int) (best : List String → String) (g : List Order) : Int :=
  toBigInt undefinedInt (best (g.map fun o => toString o.pricePoint))

theorem greatestText_spec {l : List String} (hne : l ≠ []) :
    greatestText l ∈ l ∧ ∀ s ∈ l, s ≤ greatestText l := by
  cases hmax : l.max? with
  | none => exact absurd (List.max?_eq_none_iff.1 hmax) hne
  | some s =>
    rw [greatestText, hmax]
    exact List.max?_eq_some_iff.1 hmax

theorem leastText_spec {l : List String} (hne : l ≠ []) :
    leastText l ∈ l ∧ ∀ s ∈ l, leastText l ≤ s := by
  cases hmin : l.min? with
  | none => exact absurd (List.min?_eq_none_iff.1 hmin) hne
  | some s =>
    rw [leastText, hmin]
    exact List.min?_eq_some_iff.1 hmin

theorem groupBest_of_mem (undefinedInt : String → Int) {best : List String → String}
    {g : List Order}
    (hmem : best (g.map fun o => toString o.pricePoint) ∈ g.map fun o => toString o.pricePoint) :
    ∃ o ∈ g, groupBest undefinedInt best g = o.pricePoint ∧
      best (g.map fun o => toString o.pricePoint) = toString o.pricePoint := by
  obtain ⟨o, ho, htext⟩ := List.mem_map.1 hmem
  refine ⟨o, ho, ?_, htext.symm⟩
  rw [groupBest, ← htext, Int.toString_eq_repr, toBigInt_repr]

theorem groupBest_of_best (undefinedInt : String → Int) {best : List String → String}
    (r : String → String → Prop) {g : List Order}
    (h : best (g.map fun o => toString o.pricePoint) ∈ (g.map fun o => toString o.pricePoint) ∧
      ∀ s ∈ g.map fun o => toString o.pricePoint,
      r s (best (g.map fun o => toString o.pricePoint))) :
    ∃ o ∈ g, groupBest undefinedInt best g = o.pricePoint ∧
      ∀ o' ∈ g, r (toString o'.pricePoint) (toString o.pricePoint) := by
  obtain ⟨o, ho, hbest, htext⟩ := groupBest_of_mem undefinedInt h.1
  refine ⟨o, ho, hbest, ?_⟩
  intro o' ho'
  rw [← htext]
  exact h.2 _ (List.mem_map.2 ⟨o', ho', rfl⟩)

theorem groupBest_greatest (undefinedInt : String → Int) {g : List Order} (hne : g ≠ []) :
    ∃ o ∈ g, groupBest undefinedInt greatestText g = o.pricePoint ∧
      ∀ o' ∈ g, toString o'.pricePoint ≤ toString o.pricePoint :=
  groupBest_of_best undefinedInt (· ≤ ·) (greatestText_spec (by simpa using hne))

theorem groupBest_least (undefinedInt : String → Int) {g : List Order} (hne : g ≠ []) :
    ∃ o ∈ g, groupBest undefinedInt leastText g = o.pricePoint ∧
      ∀ o' ∈ g, toString o.pricePoint ≤ toString o'.pricePoint :=
  groupBest_of_best undefinedInt (fun s t => t ≤ s) (leastText_spec (by simpa using hne))

/-- The result for a group. -/
def groupData (eth : Eth) (undefinedInt : String → Int) (best : List String → String) (k : PairKey)
    (g : List Order) : OrderData :=
  ⟨k.pairID eth, decimalTotal undefinedInt g, groupCount undefinedInt g,
    groupBest undefinedInt best g⟩

section
variable {eth : Eth} {order : List PairKey → List PairKey} {side : Side}
    {best : List String → String}
  {docs : List Order}

theorem filter_openOn : (docs.map (Order.getBSON eth)).filter (fun r => r.OpenOn side.text) =
    (openOn side docs).map (Order.getBSON eth) := by
  have hrecord : ∀ o : Order, (o.getBSON eth).OpenOn side.text ↔ o.isOpen ∧ o.side = side := by
    intro o
    rw [OrderRecord.OpenOn, side_text_eq, isOpen_getBSON]
  simp only [List.filter_map, openOn, Function.comp_def, hrecord]

theorem orderDataDocs_getBSON (undefinedInt : String → Int) :
    (orderDataDocs order side.text best (docs.map (Order.getBSON eth))).map (fun ds =>
        ds.map (OrderDataDoc.setBSON eth undefinedInt)) =
      .ok ((sideKeys eth order side docs).map fun k =>
        groupData eth undefinedInt best k ((openOn side docs).filter (·.pairKey eth = k))) := by
  have hkeys : ((openOn side docs).map (Order.getBSON eth)).map OrderRecord.pairKey =
      (openOn side docs).map (Order.pairKey eth) := by
    rw [List.map_map]
    rfl
  unfold orderDataDocs
  simp only [filter_openOn, hkeys, groupsIn]
  have hdocs : ((sideKeys eth order side docs).map fun k =>
        (k, ((openOn side docs).map (Order.getBSON eth)).filter (·.pairKey = k))).mapM
        (orderDataDoc best) =
      .ok ((sideKeys eth order side docs).map fun k =>
        let g := (openOn side docs).filter (·.pairKey eth = k)
        ⟨k, .decimal (decimalCount g), .decimal (decimalRemaining g),
          best (g.map fun o => toString o.pricePoint)⟩) := by
    apply mapM_map_ok
    intro k _
    have hgroup : ((openOn side docs).map (Order.getBSON eth)).filter (·.pairKey = k) =
        ((openOn side docs).filter (·.pairKey eth = k)).map (Order.getBSON eth) := by
      rw [List.filter_map]
      rfl
    rw [orderDataDoc, hgroup, mapM_map_ok fun o _ => remaining_getBSON o]
    simp only [decimalCount, List.map_map]
    rfl
  rw [sideKeys] at hdocs ⊢
  rw [hdocs]
  simp only [Except.map, List.map_map]
  rfl

end

/-! ## Trades -/

/-- The trade has the tokens of the pair. -/
def Trade.Of (p : RawPair) (t : Trade) : Prop :=
  t.baseToken = p.baseTokenAddress ∧ t.quoteToken = p.quoteTokenAddress

instance (p : RawPair) (t : Trade) : Decidable (t.Of p) := inferInstanceAs (Decidable (_ ∧ _))

/-- The successful trades of a period. -/
def successes (start stop : Time) (ts : List Trade) : List Trade :=
  ts.filter fun t => (start ≤ t.createdAt ∧ t.createdAt < stop) ∧ t.status = .SUCCESS

/-- Those of a pair. -/
def pairTrades (p : RawPair) (start stop : Time) (ts : List Trade) : List Trade :=
  (successes start stop ts).filter fun t => t.Of p

def Trade.pairKey (eth : Eth) (t : Trade) : PairKey :=
  ⟨t.pairName, eth.hex t.baseToken, eth.hex t.quoteToken⟩

theorem Eth.Codes.trade_of_iff {eth : Eth} (h : eth.Codes) {p : RawPair} {t : Trade} :
    (t.pairKey eth).Of eth p ↔ t.Of p := h.key_of_iff

theorem bigInt_text (undefinedInt : String → Int) (s : String) :
    (AggValue.text s).bigInt undefinedInt = undefinedInt "0E-6176" := by
  have hnone : setString "0E-6176" = none := by decide
  rw [AggValue.bigInt, AggValue.decimalText, toBigInt, hnone]
  rfl

theorem filter_within {eth : Eth} {start stop : Time} {ts : List Trade} :
    (ts.map (Trade.doc eth)).filter (fun t => t.Within start stop) =
      (successes start stop ts).map (Trade.doc eth) := by
  simp only [List.filter_map, successes, Function.comp_def, TradeDoc.Within, Trade.doc,
    TradeStatus.text_eq_success]

theorem tradeDataDocs_doc (eth : Eth) (order : List PairKey → List PairKey) (start stop : Time)
    (ts : List Trade) (undefinedInt : String → Int) : ∃ tick : PairKey → Tick,
    (tradeDataDocs order start stop (ts.map (Trade.doc eth))).map (fun ds =>
        ds.map (TickDoc.setBSON eth undefinedInt)) =
      .ok ((order ((successes start stop ts).map (Trade.pairKey eth)).dedup).map tick) ∧
    ∀ k, (tick k).pair = k.pairID eth ∧ (tick k).high = undefinedInt "0E-6176" ∧
      (tick k).low = undefinedInt "0E-6176" := by
  have hkeys : ((successes start stop ts).map (Trade.doc eth)).map TradeDoc.pairKey =
      (successes start stop ts).map (Trade.pairKey eth) := by
    rw [List.map_map]
    rfl
  have hdoc : ∀ g : PairKey × List Trade, ∃ d : TickDoc,
      tradeDataDoc (g.1, g.2.map (Trade.doc eth)) = .ok d ∧ d.pair = g.1 ∧ (∃ s, d.high = .text s) ∧
        ∃ s, d.low = .text s := by
    intro g
    have hamounts : (g.2.map (Trade.doc eth)).mapM (fun t => toDecimal t.amount) =
        .ok (g.2.map fun t => Decimal128.ofInt t.amount) :=
      mapM_map_ok fun t _ => toDecimal_toString t.amount
    rw [tradeDataDoc, hamounts]
    exact ⟨_, rfl, rfl, ⟨_, rfl⟩, ⟨_, rfl⟩⟩
  choose doc hok hpair hhigh hlow using hdoc
  let group (k : PairKey) := (k, (successes start stop ts).filter (·.pairKey eth = k))
  refine ⟨fun k => (doc (group k)).setBSON eth undefinedInt, ?_, ?_⟩
  · unfold tradeDataDocs
    simp only [filter_within, hkeys, groupsIn]
    rw [mapM_map_ok (g := fun k => doc (group k))]
    · simp only [Except.map, List.map_map]
      rfl
    · intro k _
      rw [← hok (group k), List.filter_map]
      rfl
  · intro k
    obtain ⟨s, hs⟩ := hhigh (group k)
    obtain ⟨s', hs'⟩ := hlow (group k)
    refine ⟨?_, ?_, ?_⟩
    · show (doc (group k)).pair.pairID eth = k.pairID eth
      rw [hpair]
    · simp only [TickDoc.setBSON, hs, bigInt_text]
    · simp only [TickDoc.setBSON, hs', bigInt_text]

/-! ## The condition -/

/-- `x` is the greatest of the prices, or 0. -/
def IsGreatestPrice (prices : List Int) (x : Int) : Prop :=
  prices = [] ∧ x = 0 ∨ x ∈ prices ∧ ∀ y ∈ prices, y ≤ x

/-- `x` is the least of the prices, or 0. -/
def IsLeastPrice (prices : List Int) (x : Int) : Prop :=
  prices = [] ∧ x = 0 ∨ x ∈ prices ∧ ∀ y ∈ prices, x ≤ y

/-- The entry has the numbers of the pair's open orders and trades. -/
structure PairData.Numeric (bids asks : List Order) (trades : List Trade) (d : PairData) :
    Prop where
  bidPrice : IsGreatestPrice (bids.map (·.pricePoint)) d.bidPrice
  askPrice : IsLeastPrice (asks.map (·.pricePoint)) d.askPrice
  orderCount : d.orderCount = bids.length + asks.length
  orderVolume : d.orderVolume = totalRemaining bids + totalRemaining asks
  high : IsGreatestPrice (trades.map (·.pricePoint)) d.high
  low : IsLeastPrice (trades.map (·.pricePoint)) d.low
  low_le_high : d.low ≤ d.high
  bid_lt_ask : bids ≠ [] → asks ≠ [] → (∀ b ∈ bids, ∀ a ∈ asks, b.pricePoint < a.pricePoint) →
    d.bidPrice < d.askPrice

/-- The condition on the orders and trades of the pair. -/
structure NumericWhen (undefinedInt : String → Int) (bids asks : List Order)
    (bidGroups askGroups : List (List Order)) (trades : List Trade) : Prop where
  /-- the bids are one group -/
  bidName : ∀ o ∈ bids, ∀ o' ∈ bids, o.pairName = o'.pairName
  /-- the bid with the greatest text has the greatest price -/
  bidText : ∀ o ∈ bids, (∀ o' ∈ bids, toString o'.pricePoint ≤ toString o.pricePoint) →
    ∀ o' ∈ bids, o'.pricePoint ≤ o.pricePoint
  /-- the ask with the least text in the last group has the least price -/
  askText : ∀ g, askGroups.getLast? = some g → ∀ o ∈ g,
    (∀ o' ∈ g, toString o.pricePoint ≤ toString o'.pricePoint) →
    ∀ o' ∈ asks, o.pricePoint ≤ o'.pricePoint
  /-- the decimal totals are exact -/
  volume : ((bidGroups ++ askGroups).map (decimalTotal undefinedInt)).sum =
    totalRemaining bids + totalRemaining asks
  /-- the trades have the price that is left when the conversion of a text fails -/
  trades : ∀ t ∈ trades, t.pricePoint = undefinedInt "0E-6176"

theorem lastOf_eq_sum {gs : List (List Order)} (h : gs.length ≤ 1) (f : List Order → Int) :
    PairData.lastOf f gs = (gs.map f).sum := by
  cases gs with
  | nil => rfl
  | cons g gs =>
    cases gs with
    | nil => simp [PairData.lastOf]
    | cons g' gs => simp at h

theorem lastOf_some {gs : List (List Order)} {g : List Order} (h : gs.getLast? = some g)
    (f : List Order → Int) : PairData.lastOf f gs = f g := by
  simp [PairData.lastOf, h]

theorem sum_length {gs : List (List Order)} {os : List Order} (h : gs.flatten.Perm os) :
    (gs.map fun g => (g.length : Int)).sum = os.length := by
  rw [← h.length_eq]
  clear h
  induction gs with
  | nil => rfl
  | cons g gs ih =>
    rw [List.map_cons, List.sum_cons, ih, List.flatten_cons, List.length_append]
    omega

section
variable {undefinedInt : String → Int} {bids asks : List Order}
    {bidGroups askGroups : List (List Order)}
  {trades : List Trade} {d : PairData}

theorem length_le_one_of_last {gs : List (List Order)} {os : List Order}
    (hperm : gs.flatten.Perm os) (hne : ∀ g ∈ gs, g ≠ [])
    (hlast : PairData.lastOf (fun g => (g.length : Int)) gs = os.length) : gs.length ≤ 1 := by
  have hsum := sum_length hperm
  cases gs using List.reverseRecOn with
  | nil => simp
  | append_singleton gs g =>
    cases gs with
    | nil => simp
    | cons g' gs =>
      exfalso
      have hpos : 0 < g'.length := List.length_pos_iff.2 (hne g' (by simp))
      have hnonneg : 0 ≤ (gs.map fun g => (g.length : Int)).sum := by
        apply List.sum_nonneg
        intro x hx
        obtain ⟨g, -, rfl⟩ := List.mem_map.1 hx
        omega
      have hg : (g.length : Int) = os.length := by rw [← hlast, lastOf_some List.getLast?_concat]
      simp only [List.map_append, List.map_cons, List.map_nil, List.sum_append, List.sum_cons,
        List.sum_nil] at hsum
      omega

/-- What the code makes of the groups, pair by pair. -/
structure PairData.Merges (undefinedInt : String → Int) (bidGroups askGroups : List (List Order))
    (trades : List Trade) (d : PairData) : Prop where
  bidPrice : d.bidPrice = lastOf (groupBest undefinedInt greatestText) bidGroups
  askPrice : d.askPrice = lastOf (groupBest undefinedInt leastText) askGroups
  orderCount : d.orderCount =
    lastOf (groupCount undefinedInt) bidGroups + (askGroups.map (groupCount undefinedInt)).sum
  orderVolume : d.orderVolume =
    lastOf (decimalTotal undefinedInt) bidGroups + (askGroups.map (decimalTotal undefinedInt)).sum
  high : d.high = if trades = [] then 0 else undefinedInt "0E-6176"
  low : d.low = if trades = [] then 0 else undefinedInt "0E-6176"

/-- The groups of a side are its orders. -/
structure GroupsOf (gs : List (List Order)) (os : List Order) : Prop where
  perm : gs.flatten.Perm os
  ne_nil : ∀ g ∈ gs, g ≠ []
  names : gs.length ≤ 1 ↔ ∀ o ∈ os, ∀ o' ∈ os, o.pairName = o'.pairName
  small : os.length < 10 ^ 34

theorem GroupsOf.count {gs : List (List Order)} {os : List Order} (h : GroupsOf gs os)
    {g : List Order} (hg : g ∈ gs) : groupCount undefinedInt g = g.length := by
  apply groupCount_eq
  have hle := (List.sublist_flatten_of_mem hg).length_le
  have hlen := h.perm.length_eq
  have := h.small
  omega

theorem GroupsOf.sum_count (undefinedInt : String → Int) {gs : List (List Order)} {os : List Order}
    (h : GroupsOf gs os) : (gs.map (groupCount undefinedInt)).sum = os.length := by
  rw [← sum_length h.perm]
  congr 1
  exact List.map_congr_left fun g hg => h.count hg

theorem GroupsOf.single {gs : List (List Order)} {os : List Order} (h : GroupsOf gs os)
    (hlen : gs.length ≤ 1) : gs = [] ∧ os = [] ∨ ∃ g, gs = [g] ∧ g ≠ [] ∧ g.Perm os := by
  have hperm := h.perm
  cases gs with
  | nil => exact .inl ⟨rfl, List.nil_perm.1 hperm⟩
  | cons g gs =>
    cases gs with
    | nil => exact .inr ⟨g, rfl, h.ne_nil g (.head _), by simpa using hperm⟩
    | cons g' gs => simp at hlen

theorem GroupsOf.last {gs : List (List Order)} {os : List Order} (h : GroupsOf gs os) :
    gs = [] ∧ os = [] ∨ ∃ g, gs.getLast? = some g ∧ g ≠ [] ∧ ∀ o ∈ g, o ∈ os := by
  cases hlast : gs.getLast? with
  | none =>
    rw [List.getLast?_eq_none_iff] at hlast
    have hperm := h.perm
    rw [hlast] at hperm
    exact .inl ⟨hlast, List.nil_perm.1 hperm⟩
  | some g =>
    have hmem : g ∈ gs := List.mem_of_getLast? hlast
    refine .inr ⟨g, rfl, h.ne_nil g hmem, ?_⟩
    intro o ho
    exact h.perm.mem_iff.1 (List.mem_flatten.2 ⟨g, hmem, ho⟩)

theorem price_of_text {o o' : Order} (h : toString o.pricePoint ≤ toString o'.pricePoint)
    (h' : toString o'.pricePoint ≤ toString o.pricePoint) : o.pricePoint = o'.pricePoint :=
  toString_injective (le_antisymm h h')

theorem numericWhen_of_numeric (hm : d.Merges undefinedInt bidGroups askGroups trades)
    (hb : GroupsOf bidGroups bids) (ha : GroupsOf askGroups asks) (h : d.Numeric bids asks trades) :
    NumericWhen undefinedInt bids asks bidGroups askGroups trades := by
  have hasks := ha.sum_count undefinedInt
  have hlast : PairData.lastOf (fun g => (g.length : Int)) bidGroups = bids.length := by
    have hcount : PairData.lastOf (groupCount undefinedInt) bidGroups =
        PairData.lastOf (fun g => (g.length : Int)) bidGroups := by
      unfold PairData.lastOf
      cases hl : bidGroups.getLast? with
      | none => rfl
      | some g => simp [hb.count (List.mem_of_getLast? hl)]
    have := hm.orderCount
    have := h.orderCount
    omega
  have hone : bidGroups.length ≤ 1 := length_le_one_of_last hb.perm hb.ne_nil hlast
  refine ⟨hb.names.1 hone, ?_, ?_, ?_, ?_⟩
  · intro o ho htext o' ho'
    rcases hb.single hone with ⟨-, hnil⟩ | ⟨g, hg, hne, hperm⟩
    · rw [hnil] at ho
      cases ho
    · obtain ⟨o₁, ho₁, hbest, hgreatest⟩ := groupBest_greatest undefinedInt hne
      have hprice : o₁.pricePoint = o.pricePoint :=
        price_of_text (htext o₁ (hperm.mem_iff.1 ho₁)) (hgreatest o (hperm.mem_iff.2 ho))
      have hbid : d.bidPrice = o.pricePoint := by
        rw [hm.bidPrice, hg, lastOf_some List.getLast?_singleton, hbest, hprice]
      rcases h.bidPrice with ⟨hnil, -⟩ | ⟨-, hle⟩
      · rw [List.map_eq_nil_iff.1 hnil] at ho
        cases ho
      · rw [← hbid]
        exact hle _ (List.mem_map.2 ⟨o', ho', rfl⟩)
  · intro g hg o ho htext o' ho'
    have hne : g ≠ [] := List.ne_nil_of_mem ho
    obtain ⟨o₁, ho₁, hbest, hleast⟩ := groupBest_least undefinedInt hne
    have hask : d.askPrice = o.pricePoint := by
      rw [hm.askPrice, lastOf_some hg, hbest]
      exact price_of_text (hleast o ho) (htext o₁ ho₁)
    rcases h.askPrice with ⟨hnil, -⟩ | ⟨-, hle⟩
    · rw [List.map_eq_nil_iff.1 hnil] at ho'
      cases ho'
    · rw [← hask]
      exact hle _ (List.mem_map.2 ⟨o', ho', rfl⟩)
  · rw [List.map_append, List.sum_append, ← lastOf_eq_sum hone, ← hm.orderVolume, h.orderVolume]
  · intro t ht
    have hne : trades ≠ [] := List.ne_nil_of_mem ht
    have hmem : t.pricePoint ∈ trades.map (·.pricePoint) := List.mem_map.2 ⟨t, ht, rfl⟩
    have hhigh := hm.high
    have hlow := hm.low
    rw [if_neg hne] at hhigh hlow
    rcases h.high with ⟨hnil, -⟩ | ⟨-, hle⟩
    · exact absurd (List.map_eq_nil_iff.1 hnil) hne
    · rcases h.low with ⟨hnil, -⟩ | ⟨-, hge⟩
      · exact absurd (List.map_eq_nil_iff.1 hnil) hne
      · have := hle _ hmem
        have := hge _ hmem
        omega

theorem numeric_of_numericWhen (hm : d.Merges undefinedInt bidGroups askGroups trades)
    (hb : GroupsOf bidGroups bids) (ha : GroupsOf askGroups asks)
    (h : NumericWhen undefinedInt bids asks bidGroups askGroups trades) :
    d.Numeric bids asks trades := by
  have hone : bidGroups.length ≤ 1 := hb.names.2 h.bidName
  have hbid : IsGreatestPrice (bids.map (·.pricePoint)) d.bidPrice := by
    rw [hm.bidPrice]
    rcases hb.single hone with ⟨hg, hnil⟩ | ⟨g, hg, hne, hperm⟩
    · left
      rw [hg, hnil]
      exact ⟨rfl, rfl⟩
    · right
      obtain ⟨o, ho, hbest, hgreatest⟩ := groupBest_greatest undefinedInt hne
      rw [hg, lastOf_some List.getLast?_singleton, hbest]
      have hmem : o ∈ bids := hperm.mem_iff.1 ho
      refine ⟨List.mem_map.2 ⟨o, hmem, rfl⟩, ?_⟩
      intro y hy
      obtain ⟨o', ho', rfl⟩ := List.mem_map.1 hy
      exact h.bidText o hmem (fun o' ho' => hgreatest o' (hperm.mem_iff.2 ho')) o' ho'
  have hask : IsLeastPrice (asks.map (·.pricePoint)) d.askPrice := by
    rw [hm.askPrice]
    rcases ha.last with ⟨hg, hnil⟩ | ⟨g, hg, hne, hmem⟩
    · left
      rw [hg, hnil]
      exact ⟨rfl, rfl⟩
    · right
      obtain ⟨o, ho, hbest, hleast⟩ := groupBest_least undefinedInt hne
      rw [lastOf_some hg, hbest]
      refine ⟨List.mem_map.2 ⟨o, hmem o ho, rfl⟩, ?_⟩
      intro y hy
      obtain ⟨o', ho', rfl⟩ := List.mem_map.1 hy
      exact h.askText g hg o ho hleast o' ho'
  have hhigh : IsGreatestPrice (trades.map (·.pricePoint)) d.high := by
    rw [hm.high]
    cases trades with
    | nil => exact .inl ⟨rfl, rfl⟩
    | cons t ts =>
      right
      refine ⟨List.mem_map.2 ⟨t, .head _, h.trades t (.head _)⟩, ?_⟩
      intro y hy
      obtain ⟨t', ht', rfl⟩ := List.mem_map.1 hy
      exact Int.le_of_eq (h.trades t' ht')
  have hlow : IsLeastPrice (trades.map (·.pricePoint)) d.low := by
    rw [hm.low]
    cases trades with
    | nil => exact .inl ⟨rfl, rfl⟩
    | cons t ts =>
      right
      refine ⟨List.mem_map.2 ⟨t, .head _, h.trades t (.head _)⟩, ?_⟩
      intro y hy
      obtain ⟨t', ht', rfl⟩ := List.mem_map.1 hy
      exact Int.le_of_eq (h.trades t' ht').symm
  refine ⟨hbid, hask, ?_, ?_, hhigh, hlow, ?_, ?_⟩
  · rw [hm.orderCount, lastOf_eq_sum hone, hb.sum_count, ha.sum_count]
  · rw [hm.orderVolume, lastOf_eq_sum hone, ← List.sum_append, ← List.map_append, h.volume]
  · rw [hm.low, hm.high]
  · intro hbne hane hcross
    rcases hbid with ⟨hnil, -⟩ | ⟨hmem, -⟩
    · exact absurd (List.map_eq_nil_iff.1 hnil) hbne
    · rcases hask with ⟨hnil, -⟩ | ⟨hmem', -⟩
      · exact absurd (List.map_eq_nil_iff.1 hnil) hane
      · obtain ⟨b, hb, hbp⟩ := List.mem_map.1 hmem
        obtain ⟨a, ha, hap⟩ := List.mem_map.1 hmem'
        rw [← hbp, ← hap]
        exact hcross b hb a ha

end

/-! ## The run -/

section
variable {env : Env} {store : GroupOrder} {w : World}

variable (env store) in
/-- The results of a side at call `n`. -/
def sideData (best : List String → String) (side : Side) (n : Nat) (docs : List Order) :
    List OrderData :=
  (sideKeys env.eth (store.keys n) side (env.scanOrders n docs)).map fun k =>
    groupData env.eth env.undefinedInt best k
      ((openOn side (env.scanOrders n docs)).filter (·.pairKey env.eth = k))

theorem aggregateOrderData_eq (side : Side) (best : List String → String)
    (hf : env.fails w.calls = false) : aggregateOrderData store side.text best env w =
      (.ok (sideData env store best side w.calls w.orders.docs), w.tick) := by
  simp only [aggregateOrderData, call, hf, Bool.false_eq_true, if_false, World.tick_orders]
  rw [orderDataDocs_getBSON]
  rfl

theorem sideData_map {best : List String → String} {f : OrderData → Int} {h : List Order → Int}
    (hf : ∀ k g, f (groupData env.eth env.undefinedInt best k g) = h g) (side : Side) (n : Nat)
    (docs : List Order) (p : RawPair) :
    ((sideData env store best side n docs).filter fun o =>
        o.pair.addressCode env.eth = (PairData.initial p).pair.addressCode env.eth).map f =
      (pairGroups env.eth (store.keys n) p side (env.scanOrders n docs)).map h := by
  have hfun : (f ∘ fun k => groupData env.eth env.undefinedInt best k
      ((openOn side (env.scanOrders n docs)).filter (·.pairKey env.eth = k))) =
      h ∘ fun k => (openOn side (env.scanOrders n docs)).filter (·.pairKey env.eth = k) := by
    funext k
    exact hf k _
  rw [sideData, List.filter_map, List.map_map, pairGroups, List.map_map, hfun]
  rfl

theorem lastOf_map {α β : Type} {l : List α} {l' : List β} {f : α → Int} {g : β → Int}
    (h : l.map f = l'.map g) : PairData.lastOf f l = PairData.lastOf g l' := by
  unfold PairData.lastOf
  rw [← List.getLast?_map, ← List.getLast?_map, h]

theorem lastOf_ticks (heth : env.eth.Codes) {p : RawPair} {start stop : Time}
    {tick : PairKey → Tick} {f : Tick → Int} {x : Int}
    (hpair : ∀ k, (tick k).pair = k.pairID env.eth) (hf : ∀ k, f (tick k) = x) (n : Nat)
    (ts : List Trade) :
    PairData.lastOf f (((store.keys n ((successes start stop (env.scanTrades n ts)).map
        (Trade.pairKey env.eth)).dedup).map tick).filter fun t =>
          t.pair.addressCode env.eth = (PairData.initial p).pair.addressCode env.eth) =
      if pairTrades p start stop ts = [] then 0 else x := by
  have hscan : (successes start stop (env.scanTrades n ts)).Perm (successes start stop ts) :=
    (env.scanTrades_perm n ts).filter _
  have hmem : ∀ k, k ∈ store.keys n ((successes start stop (env.scanTrades n ts)).map
      (Trade.pairKey env.eth)).dedup ↔ ∃ t ∈ successes start stop ts, t.pairKey env.eth = k := by
    intro k
    rw [(store.keys_perm n _).mem_iff, List.mem_dedup, List.mem_map]
    simp only [hscan.mem_iff]
  unfold PairData.lastOf
  generalize hl : ((store.keys n ((successes start stop (env.scanTrades n ts)).map
    (Trade.pairKey env.eth)).dedup).map tick).filter (fun t =>
      t.pair.addressCode env.eth = (PairData.initial p).pair.addressCode env.eth) = l
  have hnil : l = [] ↔ pairTrades p start stop ts = [] := by
    rw [← hl, List.filter_eq_nil_iff, pairTrades, List.filter_eq_nil_iff]
    constructor
    · intro h t ht hof
      have hof : t.Of p := by simpa using hof
      refine h _ (List.mem_map.2 ⟨_, (hmem _).2 ⟨t, ht, rfl⟩, rfl⟩) ?_
      rw [hpair]
      exact decide_eq_true (heth.trade_of_iff.2 hof)
    · intro h r hr hcode
      obtain ⟨k, hk, rfl⟩ := List.mem_map.1 hr
      obtain ⟨t, ht, rfl⟩ := (hmem k).1 hk
      rw [hpair] at hcode
      refine h t ht ?_
      have hkey : (t.pairKey env.eth).Of env.eth p := of_decide_eq_true hcode
      simpa using heth.trade_of_iff.1 hkey
  by_cases h : pairTrades p start stop ts = []
  · rw [hnil.2 h, if_pos h]
    rfl
  · rw [if_neg h]
    cases hlast : l.getLast? with
    | none => exact absurd (hnil.1 (List.getLast?_eq_none_iff.1 hlast)) h
    | some r =>
      have hr : r ∈ l := List.mem_of_getLast? hlast
      rw [← hl] at hr
      obtain ⟨k, -, rfl⟩ := List.mem_map.1 (List.mem_filter.1 hr).1
      simp [hf]

variable (store) in
theorem aggregateTradeData_eq (heth : env.eth.Codes) (start stop : Time)
    (hf : env.fails w.calls = false) :
    ∃ ticks, aggregateTradeData store start stop env w = (.ok ticks, w.tick) ∧ ∀ p : RawPair,
      let ticks := ticks.filter fun t =>
        t.pair.addressCode env.eth = (PairData.initial p).pair.addressCode env.eth
      let x := if pairTrades p start stop w.trades = [] then 0 else env.undefinedInt "0E-6176"
      PairData.lastOf (·.high) ticks = x ∧ PairData.lastOf (·.low) ticks = x := by
  obtain ⟨tick, hticks, htick⟩ := tradeDataDocs_doc env.eth (store.keys w.calls) start stop
    (env.scanTrades w.calls w.trades) env.undefinedInt
  refine ⟨(store.keys w.calls ((successes start stop (env.scanTrades w.calls w.trades)).map
    (Trade.pairKey env.eth)).dedup).map tick, ?_, fun p => ⟨?_, ?_⟩⟩
  · simp only [aggregateTradeData, call, hf, Bool.false_eq_true, if_false, World.tick_trades]
    rw [hticks]
  · exact lastOf_ticks heth (fun k => (htick k).1) (fun k => (htick k).2.1) w.calls w.trades
  · exact lastOf_ticks heth (fun k => (htick k).1) (fun k => (htick k).2.2) w.calls w.trades

variable (env store w) in
/-- The groups of a pair's bids, as the store returns them. -/
def bidGroups (p : RawPair) : List (List Order) :=
  pairGroups env.eth (store.keys (w.calls + 2)) p .BUY (env.scanOrders (w.calls + 2) w.orders.docs)

variable (env store w) in
/-- The groups of a pair's asks. -/
def askGroups (p : RawPair) : List (List Order) :=
  pairGroups env.eth (store.keys (w.calls + 3)) p .SELL (env.scanOrders (w.calls + 3) w.orders.docs)

variable (store) in
theorem groupsOf (heth : env.eth.Codes) (hstore : w.orders.docs.length < 2 ^ 63) (p : RawPair)
    (side : Side)
    (n : Nat) : GroupsOf (pairGroups env.eth (store.keys n) p side (env.scanOrders n w.orders.docs))
      (pairOrders p side w.orders.docs) := by
  have hscan : (pairOrders p side (env.scanOrders n w.orders.docs)).Perm
      (pairOrders p side w.orders.docs) :=
    ((env.scanOrders_perm n w.orders.docs).filter _).filter _
  refine ⟨(pairGroups_perm heth (store.keys_perm n)).trans hscan, ?_, ?_, ?_⟩
  · intro g hg
    exact pairGroups_ne_nil (store.keys_perm n) hg
  · rw [pairGroups_length_le_one heth (store.keys_perm n)]
    simp only [hscan.mem_iff]
  · have hle : (pairOrders p side w.orders.docs).length ≤ w.orders.docs.length :=
      (List.filter_sublist.trans List.filter_sublist).length_le
    omega

variable (store) in
theorem getAllTokenPairData_eq (heth : env.eth.Codes) (hf : ¬env.FailsWithin w.calls 4)
    (pairs : List RawPair) : ∃ entry : RawPair → PairData,
      getAllTokenPairData store pairs env w = (.ok (pairs.map entry), w.tick.tick.tick.tick) ∧
      ∀ p, (entry p).Merges env.undefinedInt (bidGroups env store w p) (askGroups env store w p)
        (pairTrades p (env.now w.calls).weekBefore.toSecond
          (env.now w.calls).toSecond w.trades) := by
  simp only [Env.failsWithin_succ, not_or, Bool.not_eq_true] at hf
  obtain ⟨hf0, hf1, hf2, hf3, -⟩ := hf
  have hask : (Prog.ask : M Env) env w = (.ok env, w) := rfl
  have hpairs : call (fun env n w => (.ok (pairs, env.now n), w)) env w =
      (.ok (pairs, env.now w.calls), w.tick) := by
    simp [call, hf0]
  obtain ⟨ticks, hticks, htick⟩ := aggregateTradeData_eq store (w := w.tick) heth
    (env.now w.calls).weekBefore.toSecond (env.now w.calls).toSecond hf1
  have hbids : aggregateOrderData store "BUY" greatestText env w.tick.tick =
      (.ok (sideData env store greatestText .BUY (w.calls + 2) w.orders.docs), w.tick.tick.tick) :=
    aggregateOrderData_eq .BUY greatestText hf2
  have hasks : aggregateOrderData store "SELL" leastText env w.tick.tick.tick =
      (.ok (sideData env store leastText .SELL (w.calls + 3) w.orders.docs),
        w.tick.tick.tick.tick) :=
    aggregateOrderData_eq .SELL leastText hf3
  refine ⟨PairData.merged env.eth ticks (sideData env store greatestText .BUY
    (w.calls + 2) w.orders.docs)
    (sideData env store leastText .SELL (w.calls + 3) w.orders.docs), ?_, ?_⟩
  · unfold getAllTokenPairData
    rw [Prog.bind_ok hask, Prog.bind_ok hpairs]
    simp only
    rw [Prog.bind_ok hticks, Prog.bind_ok hbids, Prog.bind_ok hasks]
    rfl
  · intro p
    obtain ⟨hbid, hask, hcount, hvolume, hhigh, hlow⟩ := PairData.merged_eq env.eth ticks
      (sideData env store greatestText .BUY (w.calls + 2) w.orders.docs)
      (sideData env store leastText .SELL (w.calls + 3) w.orders.docs) p
    refine ⟨?_, ?_, ?_, ?_, ?_, ?_⟩
    · rw [hbid]
      exact lastOf_map (sideData_map (fun _ _ => rfl) _ _ _ _)
    · rw [hask]
      exact lastOf_map (sideData_map (fun _ _ => rfl) _ _ _ _)
    · rw [hcount, lastOf_map (sideData_map (h := groupCount env.undefinedInt)
        (fun _ _ => rfl) _ _ _ _), sideData_map (h := groupCount env.undefinedInt) fun _ _ => rfl]
      rfl
    · rw [hvolume, lastOf_map (sideData_map (h := decimalTotal env.undefinedInt)
        (fun _ _ => rfl) _ _ _ _), sideData_map (h := decimalTotal env.undefinedInt) fun _ _ => rfl]
      rfl
    · rw [hhigh]
      exact (htick p).1
    · rw [hlow]
      exact (htick p).2

/-- **The statistics of a pair are its numbers** exactly under `NumericWhen`. -/
theorem pair_statistics_iff (heth : env.eth.Codes) (hstore : w.orders.docs.length < 2 ^ 63)
    (hf : ¬env.FailsWithin w.calls 4) (pairs : List RawPair) :
    ∃ data w', getAllTokenPairData store pairs env w = (.ok data, w') ∧ data.length = pairs.length ∧
      ∀ (i : Nat) (p : RawPair) (d : PairData), pairs[i]? = some p → data[i]? = some d →
        let bids := pairOrders p .BUY w.orders.docs
        let asks := pairOrders p .SELL w.orders.docs
        let trades := pairTrades p (env.now w.calls).weekBefore.toSecond
          (env.now w.calls).toSecond w.trades
        (d.Numeric bids asks trades ↔ NumericWhen env.undefinedInt bids asks
          (bidGroups env store w p) (askGroups env store w p) trades) := by
  obtain ⟨entry, hrun, hentry⟩ := getAllTokenPairData_eq store heth hf pairs
  refine ⟨pairs.map entry, _, hrun, List.length_map _, ?_⟩
  intro i p d hp hd bids asks trades
  rw [List.getElem?_map, hp] at hd
  cases hd
  have hb := groupsOf store heth hstore p .BUY (w.calls + 2)
  have ha := groupsOf store heth hstore p .SELL (w.calls + 3)
  constructor
  · exact numericWhen_of_numeric (hentry p) hb ha
  · exact numeric_of_numericWhen (hentry p) hb ha

end

/-- The groups come in the order of their first orders. -/
def GroupOrder.sample : GroupOrder := ⟨fun _ ks => ks, fun _ ks => List.Perm.refl ks⟩

/-- Orders and a trade of the pair `ZRX/WETH`. -/
def World.sampleStatistics (orders : List Order) (trades : List Trade) : World :=
  { World.empty with orders := Coll.empty.putAll orders, trades := trades }

theorem Eth.sampleFixed_codes : Eth.sampleFixed.Codes where
  toFixedHex := Eth.sampleFixed_fixedHex
  hexToAddress a := by
    have hread : (pad 49 a.toNat).foldl (fun a c => a * 10 + (c.toNat - '0'.toNat)) 0 =
        a.toNat := by
      conv_rhs => rw [← ofDigitChars_pad 49 a.toNat]
      unfold Nat.ofDigitChars
      simp only [Nat.mul_comm]
    show BitVec.ofNat 160 ((String.ofList (pad 49 a.toNat)).toList.foldl _ 0) = a
    rw [String.toList_ofList, hread, BitVec.ofNat_toNat, BitVec.setWidth_eq]

/-- Bids at 8 and 9, an ask at 10: within each side the texts compare as the numbers do. -/
theorem pair_statistics_one_digit :
    let w := World.sampleStatistics
      [.sample 1 .BUY 8 4, .sample 2 .BUY 9 5, .sample 3 .SELL 10 6] []
    ∃ (d : PairData) (w' : World),
      getAllTokenPairData .sample [PairStore.samplePair] Env.sampleFixed w = (.ok [d], w') ∧
      d.Numeric (pairOrders PairStore.samplePair .BUY w.orders.docs)
        (pairOrders PairStore.samplePair .SELL w.orders.docs) [] := by
  intro w
  obtain ⟨data, w', hrun, hlen, hdata⟩ := @pair_statistics_iff Env.sampleFixed .sample w
    Eth.sampleFixed_codes (by decide +kernel) (fun h => h.not_faultless fun _ => rfl)
      [PairStore.samplePair]
  obtain ⟨d, rfl⟩ := List.length_eq_one_iff.1 hlen
  refine ⟨d, w', hrun, (hdata 0 _ d rfl rfl).2 ⟨?_, ?_, ?_, ?_, ?_⟩⟩
  · decide +kernel
  · decide +kernel
  · have hgroups : askGroups Env.sampleFixed .sample w PairStore.samplePair =
        [[.sample 3 .SELL 10 6]] := by
      decide +kernel
    intro g hg
    rw [hgroups] at hg
    cases hg
    decide +kernel
  · decide +kernel
  · intro t ht
    cases ht

/-- **A best bid that is not the best**: of bids at 9 and 10 the price of the entry is 9, and a
trade at 7 leaves its high at 0. -/
theorem pair_statistics_wrong :
    let w := World.sampleStatistics [.sample 1 .BUY 9 4, .sample 2 .BUY 10 5]
      [⟨1, 1, 3, 4, 1, 2, 3, 4, "ZRX/WETH", 0, 7, .SUCCESS, 1⟩]
    let env := { Env.sampleFixed with now := fun _ => 10 ^ 9 }
    ∃ (d : PairData) (w' : World),
      getAllTokenPairData .sample [PairStore.samplePair] env w = (.ok [d], w') ∧ d.bidPrice = 9 ∧
      d.high = 0 ∧
      ¬d.Numeric (pairOrders PairStore.samplePair .BUY w.orders.docs)
        (pairOrders PairStore.samplePair .SELL w.orders.docs) (pairTrades PairStore.samplePair
          (env.now 0).weekBefore.toSecond (env.now 0).toSecond w.trades) := by
  intro w env
  have hrun : (getAllTokenPairData .sample [PairStore.samplePair] env w).1 =
      .ok [⟨⟨"ZRX/WETH", 3, 4⟩, 0, 0, 0, 1, 0, 1, 9, 2, 9, 0, 0⟩] := by decide +kernel
  refine ⟨_, _, Prod.ext hrun rfl, rfl, rfl, ?_⟩
  intro h
  rcases h.bidPrice with ⟨hnil, -⟩ | ⟨-, hle⟩
  · exact absurd hnil (by decide +kernel)
  · exact absurd (hle 10 (by decide +kernel)) (by decide)

end Dex
