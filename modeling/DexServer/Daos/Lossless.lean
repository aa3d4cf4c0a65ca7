import DexServer.Daos.Document
import DexServer.Sample

/-!
# What the store keeps

* `store_lossless`: both ways of writing an order, and the writing of a trade, keep every field.
-/

namespace Dex

open Lib

/-- The order read from either document is the order that was written; an upsert leaves the id, the
hash and the creation time of a document alone; a trade reads back, its times as BSON datetimes. -/
theorem store_lossless {c : Codec} (hc : c.eth.ReadsBack) :
    (∀ o : RawOrder, o.Whole → ∀ (id : Option ObjectId) (newObjectId : ObjectId)
      (updatedAt now : Time) (old : Option (Fields Bson)),
      (∀ d ∈ old, Fields.get d "hash" = some (.str (c.eth.hashHex o.hash))) →
        (RawOrder.ofDocument c (o.document c.eth id newObjectId updatedAt)).SameBut o ∧
        (RawOrder.ofDocument c (o.upsert c.eth newObjectId now old)).SameBut o) ∧
    (∀ (o : RawOrder) (newObjectId : ObjectId) (now : Time) (d : Fields Bson),
      ∀ k ∈ ["_id", "hash", "createdAt"],
        Fields.get (o.upsert c.eth newObjectId now (some d)) k = Fields.get d k) ∧
    ∀ t : StoredTrade, t.amount.isSome = true → t.pricePoint.isSome = true → t.id.isSome = true →
      ∃ d u, (t.getBSON c.eth).document = .ok d ∧ (TradeRecord.ofDocument d).setBSON c = u ∧
        u = { t with createdAt := u.createdAt, updatedAt := u.updatedAt } ∧
        u.createdAt.toBSON = t.createdAt.toBSON ∧ u.updatedAt.toBSON = t.updatedAt.toBSON := by
  refine ⟨fun o ho id newObjectId updatedAt now old hold => ⟨?_, ?_⟩,
    fun o newObjectId now d k hk => ?_, fun t hamount hprice hid => ?_⟩
  · rw [RawOrder.ofDocument_document hc ho]
    rfl
  · obtain ⟨t, ht⟩ := RawOrder.ofDocument_upsert hc ho newObjectId now hold
    rw [ht]
    rfl
  · exact o.upsert_keeps c.eth newObjectId now d (by simpa using hk)
  · obtain ⟨id, hid⟩ := Option.isSome_iff_exists.1 hid
    obtain ⟨d, hd, hread⟩ := StoredTrade.setBSON_getBSON hc hamount hprice hid
    exact ⟨d, _, hd, hread, rfl, Time.toBSON_stored t.createdAt, Time.toBSON_stored t.updatedAt⟩

/-- An order that lacks nothing. -/
def RawOrder.sampleWhole : RawOrder := { RawOrder.sample 1 .BUY 5 (-3) with filledAmount := some 2 }

/-- A trade created a little after the zero time. -/
def StoredTrade.sample : StoredTrade where
  taker := 1
  maker := 2
  baseToken := 3
  quoteToken := 4
  makerOrderHash := 5
  takerOrderHash := 6
  hash := 7
  txHash := 0
  pairName := "ZRX/WETH"
  createdAt := 1234567
  pricePoint := some 5
  status := "PENDING"
  amount := some 3
  id := some 9
  updatedAt := 0

/-- A document with the hash of an order and an id and a time of its own. -/
def Fields.sample (hash : Hash) : Fields Bson :=
  [("_id", .objectId 8), ("hash", .str (Eth.sample.hashHex hash)), ("createdAt", .datetime 7)]

theorem store_lossless_sample :
    ((RawOrder.ofDocument (Env.sample .stored).codec
        (RawOrder.sampleWhole.document Eth.sample none 1 0)).SameBut RawOrder.sampleWhole ∧
      (RawOrder.ofDocument (Env.sample .stored).codec
        (RawOrder.sampleWhole.upsert Eth.sample 1 0 (some (Fields.sample 0)))).SameBut
          RawOrder.sampleWhole) ∧
    (∀ k ∈ ["_id", "hash", "createdAt"],
      Fields.get (RawOrder.sampleWhole.upsert Eth.sample 1 0 (some (Fields.sample 0))) k =
        Fields.get (Fields.sample 0) k) ∧
    ∃ d u, (StoredTrade.sample.getBSON Eth.sample).document = .ok d ∧
      (TradeRecord.ofDocument d).setBSON (Env.sample .stored).codec = u ∧
      u = { StoredTrade.sample with createdAt := u.createdAt, updatedAt := u.updatedAt } ∧
      u.createdAt.toBSON = StoredTrade.sample.createdAt.toBSON ∧
      u.updatedAt.toBSON = StoredTrade.sample.updatedAt.toBSON := by
  obtain ⟨horder, hkeeps, htrade⟩ :=
    store_lossless (c := (Env.sample .stored).codec) Eth.sample_readsBack
  refine ⟨horder _ ⟨⟨rfl, rfl, rfl, rfl⟩, rfl, rfl, rfl⟩ none 1 0 0 _ fun d hd => ?_,
    hkeeps RawOrder.sampleWhole 1 0 (Fields.sample 0), htrade StoredTrade.sample rfl rfl rfl⟩
  rw [← Option.mem_some_iff.1 hd]
  rfl

end Dex
