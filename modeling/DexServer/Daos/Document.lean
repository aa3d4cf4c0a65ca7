import DexServer.Daos.OrderRecord
import DexServer.Lib.Fields
import DexServer.Types.TradeJson

/-!
# Documents of the store (`types/order.go`, `types/trade.go`)

What `bson.Marshal` makes of a record, by its field tags, what `raw.Unmarshal` reads of a document,
and the update of `OrderBSONUpdate`. Reading a document leaves a field that is missing, or of
another kind, at its zero value. A time is stored in milliseconds.

* `RawOrder.ofDocument_document`, `RawOrder.ofDocument_upsert`: an order that lacks nothing reads
  back from the document of `GetBSON`, and from what `OrderBSONUpdate` makes of any document with
  its hash or of none.
* `OrderRecord.ofDocument_upsert`: the update of records (`OrderRecord.update`) is the update of
  documents.
* `StoredTrade.setBSON_getBSON`: a trade reads back.
-/

namespace Dex

open Lib

/-- `bson.ObjectId`, of exactly 12 bytes. -/
abbrev ObjectId := BitVec 96

/-- A BSON value. -/
inductive Bson
  | null
  | int (n : Int)
  | str (s : String)
  | datetime (ms : BitVec 64)
  | objectId (id : ObjectId)
  | doc (fields : List (String × Bson))
  | other (kind : Byte) (data : List Byte)

/-! ## Times -/

/-- The milliseconds from the zero time to the Unix epoch. -/
def unixEpoch : Int := 62135596800000

/-- A time as a BSON datetime: milliseconds from the Unix epoch, in 64 bits. -/
def Time.toBSON (t : Time) : BitVec 64 := BitVec.ofInt 64 (t / 10 ^ 6 - unixEpoch)

def Time.ofBSON (ms : BitVec 64) : Time := (ms.toInt + unixEpoch) * 10 ^ 6

/-- The time that is read where `t` was stored. -/
def Time.stored (t : Time) : Time := .ofBSON t.toBSON

theorem Time.toBSON_stored (t : Time) : t.stored.toBSON = t.toBSON := by
  have hdiv : (t.toBSON.toInt + unixEpoch) * 10 ^ 6 / 10 ^ 6 = t.toBSON.toInt + unixEpoch :=
    Int.mul_ediv_cancel _ (by decide)
  rw [Time.stored, Time.ofBSON, Time.toBSON, hdiv, Int.add_sub_cancel, BitVec.ofInt_toInt]

/-! ## Reading a field -/

/-- A field of type `string`. -/
def Bson.text : Option Bson → String
  | some (.str s) => s
  | _ => ""

/-- A field of type `byte`: a number out of its range is dropped. -/
def Bson.byte : Option Bson → Byte
  | some (.int n) => if 0 ≤ n ∧ n < 256 then BitVec.ofInt 8 n else 0
  | _ => 0

/-- A field of type `time.Time`. -/
def Bson.time : Option Bson → Time
  | some (.datetime ms) => .ofBSON ms
  | _ => 0

/-- A field of type `bson.ObjectId`; `none` is the empty one. -/
def Bson.id : Option Bson → Option ObjectId
  | some (.objectId id) => some id
  | _ => none

/-- A field of type `*SignatureRecord`: a value that is not null makes a record, whatever it is. -/
def Bson.signature : Option Bson → Option SignatureRecord
  | none => none
  | some .null => none
  | some (.doc s) =>
    some ⟨byte (Fields.get s "V"), text (Fields.get s "R"), text (Fields.get s "S")⟩
  | some _ => some ⟨0, "", ""⟩

/-! ## Orders -/

/-- `GetBSON` of an order that may lack numbers. -/
def RawOrder.getBSON (eth : Eth) (o : RawOrder) : OrderRecord where
  userAddress := eth.hex o.userAddress
  exchangeAddress := eth.hex o.exchangeAddress
  baseToken := eth.hex o.baseToken
  quoteToken := eth.hex o.quoteToken
  status := o.status.text
  side := o.side.text
  hash := eth.hashHex o.hash
  pricepoint := bigString o.pricePoint
  amount := bigString o.amount
  filledAmount := (o.filledAmount.map toString).getD ""
  nonce := bigString o.nonce
  makeFee := bigString o.makeFee
  takeFee := bigString o.takeFee
  signature := o.signature.map (·.getRecord eth)
  pairName := o.pairName
  createdAt := o.createdAt

theorem Order.getBSON_raw (eth : Eth) (o : Order) : o.raw.getBSON eth = o.getBSON eth := rfl

/-- A signature as it is written. -/
def SignatureRecord.bson (s : SignatureRecord) : Bson :=
  .doc [("V", .int s.V.toNat), ("R", .str s.R), ("S", .str s.S)]

/-- The document of an `OrderRecord`, by its tags. -/
def OrderRecord.document (id : ObjectId) (updatedAt : Time) (r : OrderRecord) : Fields Bson :=
  [("_id", .objectId id),
    ("userAddress", .str r.userAddress),
    ("exchangeAddress", .str r.exchangeAddress),
    ("baseToken", .str r.baseToken),
    ("quoteToken", .str r.quoteToken),
    ("status", .str r.status),
    ("side", .str r.side),
    ("hash", .str r.hash),
    ("pricepoint", .str r.pricepoint),
    ("amount", .str r.amount),
    ("filledAmount", .str r.filledAmount),
    ("nonce", .str r.nonce),
    ("makeFee", .str r.makeFee),
    ("takeFee", .str r.takeFee),
    ("signature", (r.signature.map SignatureRecord.bson).getD .null),
    ("pairName", .str r.pairName),
    ("createdAt", .datetime r.createdAt.toBSON),
    ("updatedAt", .datetime updatedAt.toBSON)]

/-- The struct that `SetBSON` decodes a document into. -/
def OrderRecord.ofDocument (d : Fields Bson) : OrderRecord where
  userAddress := Bson.text (Fields.get d "userAddress")
  exchangeAddress := Bson.text (Fields.get d "exchangeAddress")
  baseToken := Bson.text (Fields.get d "baseToken")
  quoteToken := Bson.text (Fields.get d "quoteToken")
  status := Bson.text (Fields.get d "status")
  side := Bson.text (Fields.get d "side")
  hash := Bson.text (Fields.get d "hash")
  pricepoint := Bson.text (Fields.get d "pricepoint")
  amount := Bson.text (Fields.get d "amount")
  filledAmount := Bson.text (Fields.get d "filledAmount")
  nonce := Bson.text (Fields.get d "nonce")
  makeFee := Bson.text (Fields.get d "makeFee")
  takeFee := Bson.text (Fields.get d "takeFee")
  signature := Bson.signature (Fields.get d "signature")
  pairName := Bson.text (Fields.get d "pairName")
  createdAt := Bson.time (Fields.get d "createdAt")

/-- `SetBSON` of a document. -/
def RawOrder.ofDocument (c : Codec) (d : Fields Bson) : RawOrder :=
  (OrderRecord.ofDocument d).setBSON c

/-- The document of an order: one without an id gets a new one. -/
def RawOrder.document (eth : Eth) (id : Option ObjectId) (newObjectId : ObjectId) (updatedAt : Time)
    (o : RawOrder) : Fields Bson :=
  (o.getBSON eth).document (id.getD newObjectId) updatedAt

/-- `$set` of `OrderBSONUpdate.GetBSON`. The fill and the signature are written only if they are
there. -/
def RawOrder.set (eth : Eth) (now : Time) (o : RawOrder) : Fields Bson :=
  [("pairName", .str o.pairName),
    ("exchangeAddress", .str (eth.hex o.exchangeAddress)),
    ("userAddress", .str (eth.hex o.userAddress)),
    ("baseToken", .str (eth.hex o.baseToken)),
    ("quoteToken", .str (eth.hex o.quoteToken)),
    ("status", .str o.status.text),
    ("side", .str o.side.text),
    ("pricepoint", .str (bigString o.pricePoint)),
    ("amount", .str (bigString o.amount)),
    ("nonce", .str (bigString o.nonce)),
    ("makeFee", .str (bigString o.makeFee)),
    ("takeFee", .str (bigString o.takeFee)),
    ("updatedAt", .datetime now.toBSON)] ++
    (o.filledAmount.map fun n => ("filledAmount", Bson.str (toString n))).toList ++
    (o.signature.map fun s => ("signature", (s.getRecord eth).bson)).toList

/-- `$setOnInsert` of `OrderBSONUpdate.GetBSON`. -/
def RawOrder.setOnInsert (eth : Eth) (newObjectId : ObjectId) (now : Time) (o : RawOrder) :
    Fields Bson :=
  [("_id", .objectId newObjectId), ("hash", .str (eth.hashHex o.hash)),
    ("createdAt", .datetime now.toBSON)]

/-- `FindAndModify(o.Hash, o)`, `UpsertByHash(o.Hash, o)`: what becomes of the document that the
query for the hash finds. -/
def RawOrder.upsert (eth : Eth) (newObjectId : ObjectId) (now : Time) (o : RawOrder) :
    Option (Fields Bson) → Fields Bson :=
  Fields.upsert [("hash", .str (eth.hashHex o.hash))] (o.set eth now)
    (o.setOnInsert eth newObjectId now)

/-! ## Trades -/

/-- A trade with its id and the time of its last update. -/
structure StoredTrade extends RawTrade where
  id : Option ObjectId
  updatedAt : Time

/-- `TradeRecord`. -/
structure TradeRecord where
  id : Option ObjectId
  taker : String
  maker : String
  baseToken : String
  quoteToken : String
  makerOrderHash : String
  takerOrderHash : String
  hash : String
  txHash : String
  pairName : String
  createdAt : Time
  updatedAt : Time
  pricepoint : String
  amount : String
  status : String

/-- `Trade.GetBSON`. -/
def StoredTrade.getBSON (eth : Eth) (t : StoredTrade) : TradeRecord where
  id := t.id
  pairName := t.pairName
  maker := eth.hex t.maker
  taker := eth.hex t.taker
  baseToken := eth.hex t.baseToken
  quoteToken := eth.hex t.quoteToken
  makerOrderHash := eth.hashHex t.makerOrderHash
  hash := eth.hashHex t.hash
  txHash := eth.hashHex t.txHash
  takerOrderHash := eth.hashHex t.takerOrderHash
  createdAt := t.createdAt
  updatedAt := t.updatedAt
  pricepoint := bigString t.pricePoint
  status := t.status
  amount := bigString t.amount

/-- The document of a `TradeRecord`, by its tags. There is none without an id. -/
def TradeRecord.document (r : TradeRecord) : Except String (Fields Bson) :=
  match r.id with
  | none => .error "ObjectIDs must be exactly 12 bytes long (got 0)"
  | some id => .ok
    [("_id", .objectId id),
      ("taker", .str r.taker),
      ("maker", .str r.maker),
      ("baseToken", .str r.baseToken),
      ("quoteToken", .str r.quoteToken),
      ("makerOrderHash", .str r.makerOrderHash),
      ("takerOrderHash", .str r.takerOrderHash),
      ("hash", .str r.hash),
      ("txHash", .str r.txHash),
      ("pairName", .str r.pairName),
      ("createdAt", .datetime r.createdAt.toBSON),
      ("updatedAt", .datetime r.updatedAt.toBSON),
      ("pricepoint", .str r.pricepoint),
      ("amount", .str r.amount),
      ("status", .str r.status)]

/-- The struct that `SetBSON` decodes a document into. -/
def TradeRecord.ofDocument (d : Fields Bson) : TradeRecord where
  id := Bson.id (Fields.get d "_id")
  pairName := Bson.text (Fields.get d "pairName")
  taker := Bson.text (Fields.get d "taker")
  maker := Bson.text (Fields.get d "maker")
  baseToken := Bson.text (Fields.get d "baseToken")
  quoteToken := Bson.text (Fields.get d "quoteToken")
  makerOrderHash := Bson.text (Fields.get d "makerOrderHash")
  takerOrderHash := Bson.text (Fields.get d "takerOrderHash")
  hash := Bson.text (Fields.get d "hash")
  txHash := Bson.text (Fields.get d "txHash")
  createdAt := Bson.time (Fields.get d "createdAt")
  updatedAt := Bson.time (Fields.get d "updatedAt")
  pricepoint := Bson.text (Fields.get d "pricepoint")
  status := Bson.text (Fields.get d "status")
  amount := Bson.text (Fields.get d "amount")

/-- `Trade.SetBSON`. -/
def TradeRecord.setBSON (c : Codec) (r : TradeRecord) : StoredTrade where
  id := r.id
  pairName := r.pairName
  taker := c.eth.hexToAddress r.taker
  maker := c.eth.hexToAddress r.maker
  baseToken := c.eth.hexToAddress r.baseToken
  quoteToken := c.eth.hexToAddress r.quoteToken
  makerOrderHash := c.eth.hexToHash r.makerOrderHash
  takerOrderHash := c.eth.hexToHash r.takerOrderHash
  hash := c.eth.hexToHash r.hash
  txHash := c.eth.hexToHash r.txHash
  status := r.status
  amount := some (toBigInt c.undefinedInt r.amount)
  pricePoint := some (toBigInt c.undefinedInt r.pricepoint)
  createdAt := r.createdAt
  updatedAt := r.updatedAt

/-! ## Reading back -/

/-- The numbers and the signature are set. -/
structure RawOrder.Whole (o : RawOrder) : Prop extends o.Numbered where
  nonce : o.nonce.isSome = true
  filledAmount : o.filledAmount.isSome = true
  signature : o.signature.isSome = true

/-- The same order, created at another time perhaps. -/
def RawOrder.SameBut (o o' : RawOrder) : Prop := { o with createdAt := o'.createdAt } = o'

theorem Bson.byte_toNat (b : Byte) : Bson.byte (some (.int b.toNat)) = b := by
  have hlt : b.toNat < 256 := b.isLt
  have hrange : 0 ≤ (b.toNat : Int) ∧ (b.toNat : Int) < 256 := by omega
  rw [Bson.byte, if_pos hrange]
  simp

theorem Bson.signature_bson (s : SignatureRecord) : Bson.signature (some s.bson) = some s := by
  simp [SignatureRecord.bson, Bson.signature, Fields.get_cons_ne, Bson.text, Bson.byte_toNat]

theorem recordNumber_bigString {c : Codec} {n : Option Int} (h : n.isSome = true) :
    recordNumber c (bigString n) = n := by
  obtain ⟨n, rfl⟩ := Option.isSome_iff_exists.1 h
  exact recordNumber_repr c n

theorem OrderRecord.ofDocument_document (id : ObjectId) (updatedAt : Time) (r : OrderRecord) :
    OrderRecord.ofDocument (r.document id updatedAt) =
      { r with createdAt := r.createdAt.stored } := by
  have hsig : Bson.signature (some ((r.signature.map SignatureRecord.bson).getD .null)) =
      r.signature := by
    cases r.signature with
    | none => rfl
    | some s => exact Bson.signature_bson s
  simp [OrderRecord.ofDocument, OrderRecord.document, Fields.get_cons_ne, Bson.text,
    Bson.time, hsig, Time.stored]

theorem RawOrder.names_set {eth : Eth} {now : Time} (o : RawOrder) :
    (o.set eth now).names.Nodup := by
  cases hf : o.filledAmount <;> cases hs : o.signature <;> simp [Fields.names, RawOrder.set, hf, hs]

/-- What `$set` makes of a document: the record of the order, but for the hash and the creation
time, which are left as they were (`g`), and so is the signature if the order has none. -/
theorem OrderRecord.ofDocument_set {eth : Eth} {now : Time} {o : RawOrder}
    (h : o.filledAmount.isSome = true) {d : Fields Bson} {g : String → Option Bson}
    (hd : ∀ k, Fields.get d k = ((o.set eth now).get k).or (g k)) :
    OrderRecord.ofDocument d = { o.getBSON eth with
      hash := Bson.text (g "hash")
      createdAt := Bson.time (g "createdAt")
      signature := (o.getBSON eth).signature.or (Bson.signature (g "signature")) } := by
  obtain ⟨f, hf⟩ := Option.isSome_iff_exists.1 h
  cases hs : o.signature <;>
    simp [OrderRecord.ofDocument, hd, RawOrder.set, RawOrder.getBSON, Fields.get_cons_ne, Bson.text,
      Bson.signature_bson, hf, hs]

theorem RawOrder.get_set_key {eth : Eth} {now : Time} (o : RawOrder) {k : String}
    (hk : k = "_id" ∨ k = "hash" ∨ k = "createdAt") : (o.set eth now).get k = none := by
  cases hf : o.filledAmount <;> cases hs : o.signature <;> rcases hk with rfl | rfl | rfl <;>
    simp [RawOrder.set, Fields.get_cons_ne, hf, hs]

section
variable (eth : Eth) (newObjectId : ObjectId) (now : Time)

theorem RawOrder.get_upsert_some (o : RawOrder) (d : Fields Bson) (k : String) :
    Fields.get (o.upsert eth newObjectId now (some d)) k =
      ((o.set eth now).get k).or (Fields.get d k) :=
  Fields.get_upsert_some o.names_set d k

theorem RawOrder.get_upsert_none (o : RawOrder) (k : String) :
    Fields.get (o.upsert eth newObjectId now none) k =
      ((o.set eth now).get k).or (((o.setOnInsert eth newObjectId now).get k).or
        (Fields.get [("hash", .str (eth.hashHex o.hash))] k)) := by
  have hinsert : (o.setOnInsert eth newObjectId now).names.Nodup := by
    simp [RawOrder.setOnInsert, Fields.names]
  refine (Fields.get_upsert_none o.names_set hinsert k).trans ?_
  -- no name is both in `$set` and in `$setOnInsert`
  by_cases hk : k = "_id" ∨ k = "hash" ∨ k = "createdAt"
  · rw [o.get_set_key hk]
    rfl
  · have hnone : (o.setOnInsert eth newObjectId now).get k = none := by
      refine Fields.get_eq_none fun hmem => hk ?_
      simpa [RawOrder.setOnInsert, Fields.names] using hmem
    rw [hnone]
    rfl

/-- The update of records is the update of their documents. -/
theorem OrderRecord.ofDocument_upsert (o : Order) (old : Option (Fields Bson)) :
    OrderRecord.ofDocument (o.raw.upsert eth newObjectId now old) =
      OrderRecord.update eth now.stored (old.map OrderRecord.ofDocument) o := by
  cases old with
  | none =>
    rw [OrderRecord.ofDocument_set (o := o.raw) rfl (o.raw.get_upsert_none eth newObjectId now),
      Order.getBSON_raw]
    cases hs : o.signature <;> simp [OrderRecord.update, Order.getBSON, RawOrder.setOnInsert,
      Fields.get_cons_ne, Bson.text, Bson.time, Bson.signature, Time.stored, Order.raw, hs]
  | some d =>
    rw [OrderRecord.ofDocument_set (o := o.raw) rfl (o.raw.get_upsert_some eth newObjectId now d),
      Order.getBSON_raw]
    rfl

theorem RawOrder.upsert_keeps (o : RawOrder) (d : Fields Bson) {k : String}
    (hk : k = "_id" ∨ k = "hash" ∨ k = "createdAt") :
    Fields.get (o.upsert eth newObjectId now (some d)) k = Fields.get d k := by
  rw [o.get_upsert_some, o.get_set_key hk]
  rfl

end

section
variable {c : Codec} (hc : c.eth.ReadsBack)
include hc

theorem RawOrder.setBSON_getBSON {o : RawOrder} (h : o.Whole) (t : Time) :
    OrderRecord.setBSON c { o.getBSON c.eth with createdAt := t } = { o with createdAt := t } := by
  obtain ⟨f, hf⟩ := Option.isSome_iff_exists.1 h.filledAmount
  obtain ⟨s, hs⟩ := Option.isSome_iff_exists.1 h.signature
  simp only [OrderRecord.setBSON, RawOrder.getBSON, recordNumber_bigString h.amount,
    recordNumber_bigString h.pricePoint, RawOrder.toBigInt_bigString h.nonce,
    RawOrder.toBigInt_bigString h.makeFee, RawOrder.toBigInt_bigString h.takeFee]
  simp [Signature.getRecord, hc.hex, hc.hashHex, hf, hs]

/-- The document of `GetBSON` reads back. -/
theorem RawOrder.ofDocument_document {o : RawOrder} (h : o.Whole) (id : Option ObjectId)
    (newObjectId : ObjectId) (updatedAt : Time) :
    RawOrder.ofDocument c (o.document c.eth id newObjectId updatedAt) =
      { o with createdAt := o.createdAt.stored } := by
  rw [RawOrder.ofDocument, RawOrder.document, OrderRecord.ofDocument_document]
  exact RawOrder.setBSON_getBSON hc h o.createdAt.stored

/-- So does the document that an upsert leaves, whatever was there under the hash. -/
theorem RawOrder.ofDocument_upsert {o : RawOrder} (h : o.Whole) (newObjectId : ObjectId)
    (now : Time) {old : Option (Fields Bson)}
    (hold : ∀ d ∈ old, Fields.get d "hash" = some (.str (c.eth.hashHex o.hash))) :
    ∃ t, RawOrder.ofDocument c (o.upsert c.eth newObjectId now old) =
      { o with createdAt := t } := by
  obtain ⟨s, hs⟩ := Option.isSome_iff_exists.1 h.signature
  have hsig : ∀ x, (o.getBSON c.eth).signature.or x = (o.getBSON c.eth).signature := by
    intro x
    simp [RawOrder.getBSON, hs]
  cases old with
  | none =>
    refine ⟨now.stored, ?_⟩
    rw [RawOrder.ofDocument,
      OrderRecord.ofDocument_set h.filledAmount (o.get_upsert_none c.eth newObjectId now), hsig]
    exact RawOrder.setBSON_getBSON hc h now.stored
  | some d =>
    refine ⟨Bson.time (Fields.get d "createdAt"), ?_⟩
    rw [RawOrder.ofDocument,
      OrderRecord.ofDocument_set h.filledAmount (o.get_upsert_some c.eth newObjectId now d), hsig,
      hold d rfl]
    exact RawOrder.setBSON_getBSON hc h _

theorem StoredTrade.setBSON_getBSON {t : StoredTrade} (hamount : t.amount.isSome = true)
    (hprice : t.pricePoint.isSome = true) {id : ObjectId} (hid : t.id = some id) :
    ∃ d, (t.getBSON c.eth).document = .ok d ∧ (TradeRecord.ofDocument d).setBSON c =
      { t with createdAt := t.createdAt.stored, updatedAt := t.updatedAt.stored } := by
  rw [TradeRecord.document]
  simp only [StoredTrade.getBSON, hid]
  refine ⟨_, rfl, ?_⟩
  simp [TradeRecord.ofDocument, TradeRecord.setBSON, Fields.get_cons_ne, Bson.text,
    Bson.time, Bson.id,
    hc.hex, hc.hashHex, RawOrder.toBigInt_bigString hamount, RawOrder.toBigInt_bigString hprice,
    Time.stored]

end

end Dex
