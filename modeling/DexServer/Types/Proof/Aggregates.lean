import DexServer.Sample
import DexServer.Types.Tick

/-!
# What survives of aggregation results

A number of at most 34 digits is parsed to a `Decimal128` and read back from its text. A `Tick`
reads back; of an `OrderData` the volume and the count change places.

* `aggregates_round_trip_iff`: so it reads back exactly if the two are equal.
-/

namespace Dex

open Lib

/-- A number of at most 34 digits. -/
def InDecimal (n : Int) : Prop := 0 ≤ n ∧ n < 10 ^ 34

instance (n : Int) : Decidable (InDecimal n) := inferInstanceAs (Decidable (_ ∧ _))

theorem InDecimal.natAbs_lt {n : Int} (h : InDecimal n) : n.natAbs < 10 ^ 34 := by
  obtain ⟨h0, hlt⟩ := h
  omega

theorem InDecimal.parseDecimal128 {n : Int} (h : InDecimal n) :
    parseDecimal128 (toString n) = .ok (.ofInt n) := by
  rw [Dex.parseDecimal128, setString_toString]
  exact if_pos h.natAbs_lt

theorem InDecimal.bigInt {n : Int} (h : InDecimal n) (undefinedInt : String → Int) :
    (AggValue.decimal (.ofInt n)).bigInt undefinedInt = n :=
  AggValue.bigInt_ofInt undefinedInt h.natAbs_lt

theorem PairID.pairID_key {eth : Eth} (heth : eth.ReadsBack) (p : PairID) :
    (p.key eth).pairID eth = p := by
  rw [PairKey.pairID, PairID.key, heth.hex, heth.hex]

/-- The numbers of a tick. -/
structure Tick.InRange (t : Tick) : Prop where
  count : InDecimal t.count
  openPrice : InDecimal t.openPrice
  high : InDecimal t.high
  low : InDecimal t.low
  closePrice : InDecimal t.closePrice
  volume : InDecimal t.volume

/-- The numbers of an aggregation of orders. -/
structure OrderData.InRange (o : OrderData) : Prop where
  orderVolume : InDecimal o.orderVolume
  orderCount : InDecimal o.orderCount
  bestPrice : InDecimal o.bestPrice

section
variable {eth : Eth} (heth : eth.ReadsBack) (undefinedInt : String → Int)
include heth

theorem Tick.setBSON_getBSON {t : Tick} (h : t.InRange) :
    (t.getBSON eth).map (·.setBSON eth undefinedInt) = .ok t := by
  simp only [getBSON, h.count.parseDecimal128, h.openPrice.parseDecimal128, h.high.parseDecimal128,
    h.low.parseDecimal128, h.closePrice.parseDecimal128, h.volume.parseDecimal128, ok_bind,
    Except.map,
    TickDoc.setBSON, h.count.bigInt, h.openPrice.bigInt, h.high.bigInt, h.low.bigInt,
    h.closePrice.bigInt,
    h.volume.bigInt, PairID.pairID_key heth]

theorem OrderData.setBSON_getBSON {o : OrderData} (h : o.InRange) :
    (o.getBSON eth).map (·.setBSON eth undefinedInt) =
      .ok { o with orderVolume := o.orderCount, orderCount := o.orderVolume } := by
  have hprice : toBigInt undefinedInt (toString o.bestPrice) = o.bestPrice := by
    rw [Int.toString_eq_repr, toBigInt_repr]
  simp only [getBSON, h.orderCount.parseDecimal128, h.orderVolume.parseDecimal128, ok_bind,
    Except.map,
    OrderDataDoc.setBSON, h.orderCount.bigInt, h.orderVolume.bigInt, PairID.pairID_key heth, hprice]

/-- **Aggregated records read back** exactly if the volume and the count of the orders are equal. -/
theorem aggregates_round_trip_iff {o : OrderData} {t : Tick} (ho : o.InRange) (ht : t.InRange) :
    (o.getBSON eth).map (·.setBSON eth undefinedInt) = .ok o ∧
      (t.getBSON eth).map (·.setBSON eth undefinedInt) = .ok t ↔ o.orderVolume = o.orderCount := by
  rw [OrderData.setBSON_getBSON heth undefinedInt ho, Tick.setBSON_getBSON heth undefinedInt ht]
  obtain ⟨pair, orderVolume, orderCount, bestPrice⟩ := o
  simp [eq_comm]

end

/-- A volume and a count of 3 each, and a tick. -/
theorem aggregates_round_trip_equal :
    (OrderData.getBSON .sample ⟨⟨"ZRX/WETH", 3, 4⟩, 3, 3, 7⟩).map (·.setBSON .sample fun _ => 0) =
        .ok ⟨⟨"ZRX/WETH", 3, 4⟩, 3, 3, 7⟩ ∧
      (Tick.getBSON .sample ⟨⟨"ZRX/WETH", 3, 4⟩, 5, 2, 9, 4, 6, 100, 0⟩).map
      (·.setBSON .sample fun _ => 0) =
        .ok ⟨⟨"ZRX/WETH", 3, 4⟩, 5, 2, 9, 4, 6, 100, 0⟩ := by
  refine (aggregates_round_trip_iff Eth.sample_readsBack _ ⟨?_, ?_, ?_⟩
    ⟨?_, ?_, ?_, ?_, ?_, ?_⟩).2 rfl
  all_goals decide

/-- A volume of 100 in 2 orders reads back as a volume of 2 in 100 orders. -/
theorem aggregates_crossed :
    (OrderData.getBSON .sample ⟨⟨"ZRX/WETH", 3, 4⟩, 100, 2, 7⟩).map (·.setBSON .sample fun _ => 0) =
        .ok ⟨⟨"ZRX/WETH", 3, 4⟩, 2, 100, 7⟩ ∧
      (OrderData.getBSON .sample ⟨⟨"ZRX/WETH", 3, 4⟩, 100, 2, 7⟩).map
      (·.setBSON .sample fun _ => 0) ≠
        .ok ⟨⟨"ZRX/WETH", 3, 4⟩, 100, 2, 7⟩ := by
  have hread : (OrderData.getBSON .sample ⟨⟨"ZRX/WETH", 3, 4⟩, 100, 2, 7⟩).map
      (·.setBSON .sample fun _ => 0) = .ok ⟨⟨"ZRX/WETH", 3, 4⟩, 2, 100, 7⟩ := by
    rw [OrderData.setBSON_getBSON Eth.sample_readsBack]
    refine ⟨?_, ?_, ?_⟩
    all_goals decide
  rw [hread]
  decide

end Dex
