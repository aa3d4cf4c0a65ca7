import DexServer.Daos.Order

/-!
# Orders as documents (`types/order.go`)

The store holds an order as an `OrderRecord`, whose numbers, addresses and hashes are texts.
`getBSON` writes one, `setBSON` reads one back, `OrderRecord.update` is the update of
`OrderBSONUpdate`.

* `getBSON_updatedDoc`: the collection of orders is the collection of records, read: an update of
  the one is the update of the other.
* `setBSON_getBSON`: a record reads back as the order it was written for.
-/

namespace Dex

open Lib

/-- `SignatureRecord`. -/
structure SignatureRecord where
  V : Byte
  R : String
  S : String

/-- `OrderRecord`, without `_id` and `updatedAt`. -/
structure OrderRecord where
  userAddress : String
  exchangeAddress : String
  baseToken : String
  quoteToken : String
  status : String
  side : String
  hash : String
  pricepoint : String
  amount : String
  filledAmount : String
  nonce : String
  makeFee : String
  takeFee : String
  signature : Option SignatureRecord
  pairName : String
  createdAt : Time

/-- `GetRecord`. -/
def Signature.getRecord (eth : Eth) (s : Signature) : SignatureRecord :=
  ⟨s.v, eth.hashHex s.r, eth.hashHex s.s⟩

/-- `GetBSON`. -/
def Order.getBSON (eth : Eth) (o : Order) : OrderRecord where
  userAddress := eth.hex o.userAddress
  exchangeAddress := eth.hex o.exchangeAddress
  baseToken := eth.hex o.baseToken
  quoteToken := eth.hex o.quoteToken
  status := o.status.text
  side := o.side.text
  hash := eth.hashHex o.hash
  pricepoint := toString o.pricePoint
  amount := toString o.amount
  filledAmount := toString o.filledAmount
  nonce := toString o.nonce
  makeFee := toString o.makeFee
  takeFee := toString o.takeFee
  signature := o.signature.map (·.getRecord eth)
  pairName := o.pairName
  createdAt := o.createdAt

/-- The update of `OrderBSONUpdate{o}` on the record under the hash of `o`: `$set` writes the
signature only if there is one, `$setOnInsert` writes the hash and the creation time. -/
def OrderRecord.update (eth : Eth) (now : Time) (old : Option OrderRecord) (o : Order) :
    OrderRecord :=
  let set := o.getBSON eth
  match old with
  | some d => { set with hash := d.hash, createdAt := d.createdAt,
                         signature := set.signature.or d.signature }
  | none => { set with createdAt := now }

/-- A number of a record; an empty text leaves it nil. -/
def recordNumber (c : Codec) (s : String) : Option Int :=
  if s = "" then none else some (toBigInt c.undefinedInt s)

/-- `SetBSON`. The fees, the nonce and the fill are read whatever their text is. -/
def OrderRecord.setBSON (c : Codec) (r : OrderRecord) : RawOrder where
  userAddress := c.eth.hexToAddress r.userAddress
  exchangeAddress := c.eth.hexToAddress r.exchangeAddress
  baseToken := c.eth.hexToAddress r.baseToken
  quoteToken := c.eth.hexToAddress r.quoteToken
  status := .ofText r.status
  side := .ofText r.side
  hash := c.eth.hexToHash r.hash
  signature := r.signature.map fun s => ⟨s.V, c.eth.hexToHash s.R, c.eth.hexToHash s.S⟩
  pricePoint := recordNumber c r.pricepoint
  amount := recordNumber c r.amount
  filledAmount := some (toBigInt c.undefinedInt r.filledAmount)
  nonce := some (toBigInt c.undefinedInt r.nonce)
  makeFee := some (toBigInt c.undefinedInt r.makeFee)
  takeFee := some (toBigInt c.undefinedInt r.takeFee)
  pairName := r.pairName
  createdAt := r.createdAt

/-- The order read from the record of `o`; a number that is nil would be 0. -/
def Order.readBack (c : Codec) (o : Order) : Order := ((o.getBSON c.eth).setBSON c).order

/-- The orders as a query reads them, record by record. -/
def World.readBack (c : Codec) (w : World) : World :=
  { w with orders := Coll.empty.putAll (w.orders.docs.map (Order.readBack c)) }

/-! ## Updates and reads -/

theorem getBSON_updatedDoc (eth : Eth) (now : Time) {old : Option Order} {o : Order}
    (h : ∀ d ∈ old, d.hash = o.hash) :
    (updatedDoc now old o).getBSON eth = OrderRecord.update eth now
    (old.map (·.getBSON eth)) o := by
  cases old with
  | none => rfl
  | some d =>
    have hd : d.hash = o.hash := h d rfl
    cases hs : o.signature with
    | none => simp [updatedDoc, Order.getBSON, OrderRecord.update, hd, hs]
    | some s => simp [updatedDoc, Order.getBSON, OrderRecord.update, hd, hs]

theorem recordNumber_repr (c : Codec) (n : Int) : recordNumber c n.repr = some n := by
  have hne : n.repr ≠ "" := by
    intro h
    have := setString_toString n
    rw [Int.toString_eq_repr, h] at this
    exact absurd this (by simp [setString, digits])
  rw [recordNumber, if_neg hne, toBigInt_repr]

section
variable {c : Codec} (hc : c.eth.ReadsBack)
include hc

theorem setBSON_getBSON (o : Order) : (o.getBSON c.eth).setBSON c = o.raw := by
  cases hs : o.signature with
  | none =>
    simp [OrderRecord.setBSON, Order.getBSON, Order.raw, recordNumber_repr, hc.hex, hc.hashHex, hs]
  | some s =>
    simp [OrderRecord.setBSON, Order.getBSON, Order.raw, Signature.getRecord, recordNumber_repr,
      hc.hex, hc.hashHex, hs]

/-- The order that is read from the store in the place of `o`. -/
theorem Order.readBack_eq (o : Order) : o.readBack c = o := by
  rw [readBack, setBSON_getBSON hc]
  rfl

theorem World.readBack_eq (w : World) : w.readBack c = w := by
  have hmap : w.orders.docs.map (Order.readBack c) = w.orders.docs := by
    conv_rhs => rw [← List.map_id w.orders.docs]
    exact List.map_congr_left fun o _ => o.readBack_eq hc
  rw [readBack, hmap, Coll.empty_putAll]

end

end Dex
