import DexServer.Lib.Decimal128
import DexServer.Types.Crypto
import DexServer.Types.Json

/-!
# Aggregation results (`types/ohlcv.go`, `types/order.go`)

`Tick` and `OrderData` are decoded from the documents of an aggregation. Their numbers are decoded
into fields of the type `bson.Decimal128`, then read from the text of these. A value of another type
is skipped by the decoder and leaves such a field as it was: unset.
-/

namespace Dex

open Lib

/-- A value in an aggregation result. -/
inductive AggValue
  | decimal (d : Decimal128)
  | text (s : String)
  deriving DecidableEq, Repr

/-- `String` of the `bson.Decimal128` field that the value is decoded into. -/
def AggValue.decimalText : AggValue → String
  | decimal d => d.text
  | text _ => "0E-6176"

/-- The number that is read from the field. -/
def AggValue.bigInt (undefinedInt : String → Int) (v : AggValue) : Int :=
  toBigInt undefinedInt v.decimalText

/-- The part of a group's `_id` that names the pair. -/
structure PairKey where
  pairName : String
  baseToken : String
  quoteToken : String
  deriving DecidableEq, Repr

/-- `PairID`. -/
structure PairID where
  pairName : String
  baseToken : Address
  quoteToken : Address
  deriving DecidableEq, Repr

def PairKey.pairID (eth : Eth) (k : PairKey) : PairID :=
  ⟨k.pairName, eth.hexToAddress k.baseToken, eth.hexToAddress k.quoteToken⟩

/-- `AddressCode`. -/
def PairID.addressCode (eth : Eth) (p : PairID) : String :=
  eth.hex p.baseToken ++ "::" ++ eth.hex p.quoteToken

/-- The document of a `Tick`; a missing timestamp is 0. -/
structure TickDoc where
  pair : PairKey
  count : AggValue
  openPrice : AggValue
  high : AggValue
  low : AggValue
  closePrice : AggValue
  volume : AggValue
  timestamp : Int

/-- `Tick`. -/
@[ext] structure Tick where
  pair : PairID
  closePrice : Int
  count : Int
  high : Int
  low : Int
  openPrice : Int
  volume : Int
  timestamp : Int
  deriving DecidableEq, Repr

/-- `Tick.SetBSON`. -/
def TickDoc.setBSON (eth : Eth) (undefinedInt : String → Int) (d : TickDoc) : Tick where
  pair := d.pair.pairID eth
  closePrice := d.closePrice.bigInt undefinedInt
  count := d.count.bigInt undefinedInt
  high := d.high.bigInt undefinedInt
  low := d.low.bigInt undefinedInt
  openPrice := d.openPrice.bigInt undefinedInt
  volume := d.volume.bigInt undefinedInt
  timestamp := d.timestamp

/-- The document of an `OrderData`. -/
structure OrderDataDoc where
  pair : PairKey
  orderCount : AggValue
  orderVolume : AggValue
  bestPrice : String

/-- `OrderData`. -/
structure OrderData where
  pair : PairID
  orderVolume : Int
  orderCount : Int
  bestPrice : Int
  deriving DecidableEq, Repr

/-- `OrderData.SetBSON`: the price is decoded as a text. -/
def OrderDataDoc.setBSON (eth : Eth) (undefinedInt : String → Int) (d : OrderDataDoc) :
    OrderData where
  pair := d.pair.pairID eth
  orderVolume := d.orderVolume.bigInt undefinedInt
  orderCount := d.orderCount.bigInt undefinedInt
  bestPrice := toBigInt undefinedInt d.bestPrice

/-! ## Encoding -/

/-- `bson.ParseDecimal128` of the text of an integer: it takes 34 digits. -/
def parseDecimal128 (s : String) : Except String Decimal128 :=
  match setString s with
  | some n =>
    if n.natAbs < 10 ^ 34 then .ok (.ofInt n)
    else .error ("cannot parse \"" ++ s ++ "\" as a decimal128")
  | none => .error ("cannot parse \"" ++ s ++ "\" as a decimal128")

/-- The texts of a pair. -/
def PairID.key (eth : Eth) (p : PairID) : PairKey :=
  ⟨p.pairName, eth.hex p.baseToken, eth.hex p.quoteToken⟩

/-- `Tick.GetBSON`. -/
def Tick.getBSON (eth : Eth) (t : Tick) : Except String TickDoc := do
  let count ← parseDecimal128 (toString t.count)
  let o ← parseDecimal128 (toString t.openPrice)
  let h ← parseDecimal128 (toString t.high)
  let l ← parseDecimal128 (toString t.low)
  let c ← parseDecimal128 (toString t.closePrice)
  let v ← parseDecimal128 (toString t.volume)
  .ok {
    pair := t.pair.key eth
    openPrice := .decimal o
    high := .decimal h
    low := .decimal l
    closePrice := .decimal c
    volume := .decimal v
    count := .decimal count
    timestamp := t.timestamp }

/-- `OrderData.GetBSON`: its field `OrderVolume` is tagged `orderCount`, and the other way round. -/
def OrderData.getBSON (eth : Eth) (o : OrderData) : Except String OrderDataDoc := do
  let count ← parseDecimal128 (toString o.orderCount)
  let volume ← parseDecimal128 (toString o.orderVolume)
  .ok {
    pair := o.pair.key eth
    orderCount := .decimal volume
    orderVolume := .decimal count
    bestPrice := toString o.bestPrice }

/-- A decimal below `10 ^ 34` is read as it is. -/
theorem AggValue.bigInt_ofInt (undefinedInt : String → Int) {n : Int} (h : n.natAbs < 10 ^ 34) :
    (AggValue.decimal (.ofInt n)).bigInt undefinedInt = n := by
  rw [bigInt, decimalText, Decimal128.text_ofInt h, Int.toString_eq_repr, toBigInt_repr]

end Dex
