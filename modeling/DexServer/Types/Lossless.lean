import DexServer.Sample
import DexServer.Types.Time
import DexServer.Types.TradeJson

/-!
# What a message of the queues conveys

Orders, trades and matches are written by `MarshalJSON` and read by `UnmarshalJSON` at the other
end. A creation time is an instant here; the text that is written also depends on its location, so a
record is written together with the offset of that location (`Zoned`).

* `messages_lossless`: every field reads back, creation times included as long as RFC 3339 can
  express them.
* `message_loses_time`: a creation time after the year 9999, or one of a location whose clock is off
  by a part of a minute or by 25 hours, does not.
-/

namespace Dex

/-- The codec with the times of the standard library, written in a location of the given offset. -/
def Codec.inZone (c : Codec) (zone : Int) : Codec :=
  { c with
    formatTime := fun t => String.ofList (Time.format zone t)
    parseTime := fun s => (Time.parse s.toList).getD 0 }

/-- A record with the offset of its creation time's location. -/
structure Zoned (α : Type) where
  record : α
  zone : Int

/-- `Order.MarshalJSON`. -/
def Zoned.marshalOrder (c : Codec) (o : Zoned RawOrder) : Json :=
  o.record.marshalJSON (c.inZone o.zone)

/-- `Trade.MarshalJSON`. -/
def Zoned.marshalTrade (c : Codec) (t : Zoned RawTrade) : Json :=
  t.record.marshalJSON (c.inZone t.zone)

/-- `Matches`, of records that may have been created in different locations. -/
structure ZonedMatches where
  makerOrders : List (Option (Zoned RawOrder))
  takerOrder : Option (Zoned RawOrder)
  trades : List (Option (Zoned RawTrade))

namespace ZonedMatches

/-- The encoding of `Matches`, by its field tags. -/
def marshalJSON (c : Codec) (m : ZonedMatches) : Json :=
  .obj [("makerOrders", .arr (m.makerOrders.map (Json.ofPointer (Zoned.marshalOrder c)))),
    ("takerOrder", Json.ofPointer (Zoned.marshalOrder c) m.takerOrder),
    ("trades", .arr (m.trades.map (Json.ofPointer (Zoned.marshalTrade c))))]

/-- The matches, without the locations. -/
def records (m : ZonedMatches) : RawMatches where
  makerOrders := m.makerOrders.map (Option.map Zoned.record)
  takerOrder := m.takerOrder.map Zoned.record
  trades := m.trades.map (Option.map Zoned.record)

end ZonedMatches

/-- What an order needs in order to read back. -/
structure Zoned.OrderReads (o : Zoned RawOrder) : Prop where
  numbered : o.record.Numbered
  createdAt : Time.Expressible o.zone o.record.createdAt

/-- What a trade needs in order to read back. -/
structure Zoned.TradeReads (t : Zoned RawTrade) : Prop where
  complete : t.record.Complete
  createdAt : Time.Expressible t.zone t.record.createdAt

/-- The orders and trades of the matches read back. -/
structure ZonedMatches.Reads (m : ZonedMatches) : Prop where
  makerOrders : ∀ o, some o ∈ m.makerOrders → o.OrderReads
  takerOrder : ∀ o, m.takerOrder = some o → o.OrderReads
  trades : ∀ t, some t ∈ m.trades → t.TradeReads

section
variable {c : Codec}

theorem Codec.parseTime_formatTime (zone : Int) (t : Time) :
    (c.inZone zone).parseTime ((c.inZone zone).formatTime t) =
      (Time.parse (Time.format zone t)).getD 0 := by
  simp only [Codec.inZone, String.toList_ofList]

/-- Reading does not look at the location of the codec. -/
theorem RawOrder.unmarshalJSON_inZone (zone : Int) :
    RawOrder.unmarshalJSON (c.inZone zone) = RawOrder.unmarshalJSON (c.inZone 0) := by
  have htexts : RawOrder.ofTexts (c.inZone zone) = RawOrder.ofTexts (c.inZone 0) := by
    funext t sig
    simp only [RawOrder.ofTexts, Codec.inZone]
  have hsig : Json.optSignature (c.inZone zone) = Json.optSignature (c.inZone 0) := by
    funext m key
    simp only [Json.optSignature, Codec.inZone]
  funext b
  simp only [RawOrder.unmarshalJSON, RawOrder.ofMap, htexts, hsig]

@[inherit_doc RawOrder.unmarshalJSON_inZone]
theorem RawTrade.unmarshalJSON_inZone (zone : Int) :
    RawTrade.unmarshalJSON (c.inZone zone) = RawTrade.unmarshalJSON (c.inZone 0) := by
  have htexts : RawTrade.ofTexts (c.inZone zone) = RawTrade.ofTexts (c.inZone 0) := by
    have hnumber : unmarshalBigInt (c.inZone zone) = unmarshalBigInt (c.inZone 0) := by
      funext s
      simp only [unmarshalBigInt, Codec.inZone]
    funext t
    rw [RawTrade.ofTexts, RawTrade.ofTexts, hnumber]
    simp only [Codec.inZone]
  have hsprint : Json.sprint (c.inZone zone) = Json.sprint (c.inZone 0) := by
    funext m key
    simp only [Json.sprint, Codec.inZone]
  funext b
  simp only [RawTrade.unmarshalJSON, RawTrade.ofMap, htexts, hsprint]

theorem Zoned.TradeReads.conveyed {t : Zoned RawTrade} (h : t.TradeReads) :
    t.record.conveyed (c.inZone t.zone) = t.record := by
  rw [RawTrade.conveyed, Codec.parseTime_formatTime, Time.parse_format h.createdAt,
    Option.getD_some]

variable (hc : c.eth.ReadsBack)
include hc

theorem Zoned.unmarshalOrder {o : Zoned RawOrder} (h : o.record.Numbered) {t : Option Time}
    (ht : Time.parse (Time.format o.zone o.record.createdAt) = t) :
    RawOrder.unmarshalJSON (c.inZone 0) (o.marshalOrder c) =
      .ok (.ok { o.record with createdAt := t.getD 0 }) := by
  rw [← RawOrder.unmarshalJSON_inZone o.zone, Zoned.marshalOrder,
    RawOrder.unmarshalJSON_marshalJSON (c := c.inZone o.zone) hc h, RawOrder.conveyed,
    Codec.parseTime_formatTime, ht]

theorem Zoned.unmarshalTrade {t : Zoned RawTrade} (h : t.TradeReads) :
    RawTrade.unmarshalJSON (c.inZone 0) (t.marshalTrade c) = .ok t.record := by
  rw [← RawTrade.unmarshalJSON_inZone t.zone, Zoned.marshalTrade,
    RawTrade.unmarshalJSON_marshalJSON (c := c.inZone t.zone) hc h.complete, h.conveyed]

theorem Zoned.OrderReads.pointer {o : Zoned RawOrder} (h : o.OrderReads) :
    Json.toPointer (RawOrder.decodeJSON (c.inZone 0)) (o.marshalOrder c) = .ok (some o.record) := by
  show (RawOrder.decodeJSON (c.inZone 0) (o.marshalOrder c)).map some = _
  rw [RawOrder.decodeJSON, Zoned.unmarshalOrder hc h.numbered (Time.parse_format h.createdAt)]
  rfl

theorem Zoned.TradeReads.pointer {t : Zoned RawTrade} (h : t.TradeReads) :
    Json.toPointer (RawTrade.unmarshalJSON (c.inZone 0)) (t.marshalTrade c) =
      .ok (some t.record) := by
  show (RawTrade.unmarshalJSON (c.inZone 0) (t.marshalTrade c)).map some = _
  rw [Zoned.unmarshalTrade hc h]
  rfl

theorem ZonedMatches.Reads.unmarshalJSON {m : ZonedMatches} (h : m.Reads) :
    RawMatches.unmarshalJSON (c.inZone 0) (m.marshalJSON c) = .ok m.records := by
  refine RawMatches.unmarshalJSON_eq (Json.toPointers_ofPointer fun o ho => ?_) ?_
    (Json.toPointers_ofPointer fun t ht => ?_)
  · exact (h.makerOrders o ho).pointer hc
  · show Json.toPointer _ (Json.ofPointer (Zoned.marshalOrder c) m.takerOrder) =
      .ok (m.takerOrder.map Zoned.record)
    cases ho : m.takerOrder with
    | none => rfl
    | some o => exact (h.takerOrder o ho).pointer hc
  · exact (h.trades t ht).pointer hc

/-- Orders, trades and matches read back. -/
theorem messages_lossless :
    (∀ o : Zoned RawOrder, o.record.Numbered → Time.Expressible o.zone o.record.createdAt →
      RawOrder.unmarshalJSON (c.inZone 0) (o.marshalOrder c) = .ok (.ok o.record)) ∧
    (∀ t : Zoned RawTrade, t.record.Complete → Time.Expressible t.zone t.record.createdAt →
      RawTrade.unmarshalJSON (c.inZone 0) (t.marshalTrade c) = .ok t.record) ∧
    ∀ m : ZonedMatches, m.Reads →
      RawMatches.unmarshalJSON (c.inZone 0) (m.marshalJSON c) = .ok m.records := by
  refine ⟨fun o hn ht => ?_, fun t hn ht => ?_, fun m hm => hm.unmarshalJSON hc⟩
  · exact Zoned.unmarshalOrder hc hn (Time.parse_format ht)
  · exact Zoned.unmarshalTrade hc ⟨hn, ht⟩

end

/-! ## A message -/

def Codec.sample : Codec := (Env.sample .stored).codec

/-- An order that was created at the zero time. -/
def Zoned.sampleOrder (zone : Int) : Zoned RawOrder := ⟨.sample 1 .BUY 5 (-3), zone⟩

/-- A trade, not yet sent. -/
def Zoned.sampleTrade : Zoned RawTrade where
  record :=
    { taker := 1, maker := 2, baseToken := 3, quoteToken := 4, makerOrderHash := 5
      takerOrderHash := 6, hash := 7, txHash := 0, pairName := "ZRX/WETH", createdAt := 0
      pricePoint := some 5, status := "PENDING", amount := some 3 }
  zone := 0

theorem Time.zero_expressible {zone : Int} (h : zone = 0 ∨ zone = 19800) :
    Time.Expressible zone 0 := by
  rcases h with rfl | rfl <;> constructor <;> decide +kernel

theorem RawOrder.sample_numbered (nonce : Int) (side : Side) (pricePoint amount : Int) :
    (RawOrder.sample nonce side pricePoint amount).Numbered := ⟨rfl, rfl, rfl, rfl⟩

theorem Zoned.sampleTrade_complete : Zoned.sampleTrade.record.Complete :=
  ⟨rfl, rfl, by decide, by decide, by decide⟩

/-- An order, a trade, and a match of them with a maker's order that is missing. -/
theorem messages_lossless_sample :
    RawOrder.unmarshalJSON (Codec.sample.inZone 0)
      ((Zoned.sampleOrder 19800).marshalOrder .sample) = .ok (.ok (.sample 1 .BUY 5 (-3))) ∧
    RawTrade.unmarshalJSON (Codec.sample.inZone 0) (Zoned.sampleTrade.marshalTrade .sample) =
      .ok Zoned.sampleTrade.record ∧
    RawMatches.unmarshalJSON (Codec.sample.inZone 0)
      (ZonedMatches.marshalJSON .sample
        ⟨[some (.sampleOrder 0), none], some (.sampleOrder 19800), [some .sampleTrade]⟩) =
      .ok ⟨[some (.sample 1 .BUY 5 (-3)), none], some (.sample 1 .BUY 5 (-3)),
        [some Zoned.sampleTrade.record]⟩ := by
  have hutc := Time.zero_expressible (.inl rfl)
  have heast := Time.zero_expressible (.inr rfl)
  have hnumbered := RawOrder.sample_numbered 1 .BUY 5 (-3)
  obtain ⟨horder, htrade, hmatches⟩ := messages_lossless (c := .sample) Eth.sample_readsBack
  refine ⟨horder _ hnumbered heast, htrade _ Zoned.sampleTrade_complete hutc,
    hmatches _ ⟨?_, ?_, ?_⟩⟩
  · intro o ho
    simp only [List.mem_cons, Option.some.injEq, reduceCtorEq, List.not_mem_nil, or_false] at ho
    subst ho
    exact ⟨hnumbered, hutc⟩
  · intro o ho
    rw [← Option.some.inj ho]
    exact ⟨hnumbered, heast⟩
  · intro t ht
    rw [Option.some.inj (List.mem_singleton.1 ht)]
    exact ⟨Zoned.sampleTrade_complete, hutc⟩

/-- An order that was created at the given time. -/
def RawOrder.sampleAt (t : Time) : RawOrder := { RawOrder.sample 1 .BUY 5 3 with createdAt := t }

theorem RawOrder.sampleAt_numbered (t : Time) : (RawOrder.sampleAt t).Numbered :=
  ⟨rfl, rfl, rfl, rfl⟩

theorem RawOrder.sampleAt_unmarshalJSON {zone : Int} {t : Time} {t' : Option Time}
    (h : Time.parse (Time.format zone t) = t') :
    RawOrder.unmarshalJSON (Codec.sample.inZone 0)
      (Zoned.marshalOrder .sample ⟨.sampleAt t, zone⟩) = .ok (.ok (.sampleAt (t'.getD 0))) :=
  Zoned.unmarshalOrder (c := .sample) Eth.sample_readsBack (RawOrder.sampleAt_numbered t) h

/-- The first instant of the year 10000. -/
def Time.late : Time := 315537897600 * second

/-- The first instant of the year 10000 reads as the zero time; the zero time of a location that is
ahead by half a minute reads as half a minute later; the second after it, where the clock is ahead
by 25 hours, as the zero time again. -/
theorem message_loses_time :
    ((RawOrder.sampleAt Time.late).Numbered ∧
      RawOrder.unmarshalJSON (Codec.sample.inZone 0)
        (Zoned.marshalOrder .sample ⟨.sampleAt Time.late, 0⟩) = .ok (.ok (.sampleAt 0)) ∧
      Time.late ≠ 0) ∧
    ((RawOrder.sampleAt 0).Numbered ∧
      RawOrder.unmarshalJSON (Codec.sample.inZone 0)
        (Zoned.marshalOrder .sample ⟨.sampleAt 0, 30⟩) = .ok (.ok (.sampleAt (30 * Time.second))) ∧
      30 * Time.second ≠ 0) ∧
    (RawOrder.sampleAt Time.second).Numbered ∧
      RawOrder.unmarshalJSON (Codec.sample.inZone 0)
        (Zoned.marshalOrder .sample ⟨.sampleAt Time.second, 90000⟩) = .ok (.ok (.sampleAt 0)) ∧
      Time.second ≠ 0 := by
  have hlate : Time.parse (Time.format 0 Time.late) = none := by decide +kernel
  have hodd : Time.parse (Time.format 30 0) = some (30 * Time.second) := by decide +kernel
  have hfar : Time.parse (Time.format 90000 Time.second) = none := by decide +kernel
  refine ⟨⟨RawOrder.sampleAt_numbered _, ?_, by decide⟩,
    ⟨RawOrder.sampleAt_numbered _, ?_, by decide⟩, RawOrder.sampleAt_numbered _, ?_, by decide⟩
  · exact RawOrder.sampleAt_unmarshalJSON hlate
  · exact RawOrder.sampleAt_unmarshalJSON hodd
  · exact RawOrder.sampleAt_unmarshalJSON hfar

end Dex
