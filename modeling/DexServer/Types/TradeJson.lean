import DexServer.Types.Matches
import DexServer.Types.Operator
import DexServer.Types.OrderJson

/-!
# Trades and matches as JSON (`types/trade.go`, `types/engine.go`)

The queues between the engine, the order service and the operator carry `Matches` as JSON. Decoding
fills pointers, which a message may leave nil: `RawTrade`, `RawMatches`. An error that is returned
is `Err.msg`, a failed type assertion or a nil dereference is `Err.panic`.

* `Matches.unmarshalJSON_marshalJSON`: matches whose trades name their tokens and their maker's
  order read back, but for the creation times.
-/

namespace Dex

/-- `Trade` as it is decoded. -/
structure RawTrade where
  taker : Address
  maker : Address
  baseToken : Address
  quoteToken : Address
  makerOrderHash : Hash
  takerOrderHash : Hash
  hash : Hash
  txHash : Hash
  pairName : String
  createdAt : Time
  pricePoint : Option Int
  status : String
  amount : Option Int

/-- `Matches` as they are decoded. -/
structure RawMatches where
  makerOrders : List (Option RawOrder)
  takerOrder : Option RawOrder
  trades : List (Option RawTrade)

def TradeStatus.text : TradeStatus → String
  | .PENDING => "PENDING"
  | .SUCCESS => "SUCCESS"
  | .ERROR => "ERROR"
  | .CANCELLED => "CANCELLED"

/-- A trade whose numbers are set. -/
def Trade.raw (t : Trade) : RawTrade where
  taker := t.taker
  maker := t.maker
  baseToken := t.baseToken
  quoteToken := t.quoteToken
  makerOrderHash := t.makerOrderHash
  takerOrderHash := t.takerOrderHash
  hash := t.hash
  txHash := t.txHash
  pairName := t.pairName
  createdAt := t.createdAt
  pricePoint := some t.pricePoint
  status := t.status.text
  amount := some t.amount

theorem TradeStatus.text_injective : Function.Injective TradeStatus.text := by
  intro s s' h
  cases s <;> cases s' <;> first | rfl | exact absurd h (by decide)

theorem TradeStatus.text_eq_success (s : TradeStatus) : s.text = "SUCCESS" ↔ s = .SUCCESS :=
  text_injective.eq_iff' rfl

theorem Trade.raw_injective {t t' : Trade} (h : t.raw = t'.raw) : t = t' := by
  cases t
  cases t'
  simp only [raw, RawTrade.mk.injEq, Option.some.injEq, TradeStatus.text_injective.eq_iff] at h
  simp [h]

/-- Matches without a nil pointer. -/
def Matches.raw (m : Matches) : RawMatches where
  makerOrders := m.makerOrders.map fun o => some o.raw
  takerOrder := some m.takerOrder.raw
  trades := m.trades.map fun t => some t.raw

theorem Matches.raw_injective {m m' : Matches} (h : m.raw = m'.raw) : m = m' := by
  have horder : Function.Injective fun o : Order => some o.raw := fun o o' h =>
    Order.raw_injective (Option.some.inj h)
  have htrade : Function.Injective fun t : Trade => some t.raw := fun t t' h =>
    Trade.raw_injective (Option.some.inj h)
  cases m
  cases m'
  simp only [Matches.raw, RawMatches.mk.injEq] at h
  obtain ⟨h1, h2, h3⟩ := h
  rw [List.map_injective_iff.2 horder h1, horder h2, List.map_injective_iff.2 htrade h3]

/-! ## Encoding -/

/-- A hash or an address that is written only if it is not zero. -/
def nonzero {n : Nat} (key : String) (text : BitVec n → String) (x : BitVec n) :
    List (String × Json) :=
  if x ≠ 0 then [(key, .str (text x))] else []

/-- The fields of `Trade.MarshalJSON`. -/
def RawTrade.fields (c : Codec) (t : RawTrade) : List (String × Json) :=
  [("taker", .str (c.eth.marshalAddress t.taker)),
    ("maker", .str (c.eth.marshalAddress t.maker)),
    ("status", .str t.status),
    ("hash", .str (c.eth.marshalHash t.hash)),
    ("pairName", .str t.pairName),
    ("pricepoint", .str (bigString t.pricePoint)),
    ("amount", .str (bigString t.amount)),
    ("createdAt", .str (c.formatTime t.createdAt))] ++
    nonzero "baseToken" c.eth.hex t.baseToken ++
    nonzero "quoteToken" c.eth.hex t.quoteToken ++
    nonzero "txHash" c.eth.hashHex t.txHash ++
    nonzero "takerOrderHash" c.eth.hashHex t.takerOrderHash ++
    nonzero "makerOrderHash" c.eth.hashHex t.makerOrderHash

/-- `Trade.MarshalJSON`. -/
def RawTrade.marshalJSON (c : Codec) (t : RawTrade) : Json := .obj (t.fields c)

/-- A pointer: nil is `null`. -/
def Json.ofPointer {α : Type} (marshal : α → Json) : Option α → Json
  | some a => marshal a
  | none => .null

/-- The encoding of `Matches`, by its field tags. -/
def RawMatches.marshalJSON (c : Codec) (m : RawMatches) : Json :=
  .obj [("makerOrders", .arr (m.makerOrders.map (Json.ofPointer (RawOrder.marshalJSON c)))),
    ("takerOrder", Json.ofPointer (RawOrder.marshalJSON c) m.takerOrder),
    ("trades", .arr (m.trades.map (Json.ofPointer (RawTrade.marshalJSON c))))]

/-! ## Decoding -/

/-- A failed type assertion panics. -/
def asserted {α : Type} (x : Except String α) : Except Err α := x.mapError .panic

/-- `if m[key] == nil { return errors.New(err) }`. -/
def Json.notNil (m : List (String × Json)) (key err : String) : Except Err Unit :=
  match Json.get m key with
  | .null => .error (.msg err)
  | _ => .ok ()

/-- `m[key].(string)`. -/
def Json.text (m : List (String × Json)) (key : String) : Except Err String :=
  asserted (Json.get m key).asString

/-- `fmt.Sprintf("%v", m[key])` of a value that is not nil. -/
def Json.sprint (c : Codec) (m : List (String × Json)) (key : String) : Option String :=
  match Json.get m key with
  | .null => none
  | .str s => some s
  | v => some (c.sprint v)

/-- `big.Int.UnmarshalJSON`. -/
def unmarshalBigInt (c : Codec) (s : String) : Int :=
  match setString s with
  | some n => if toString n = s then n else c.basedInt s
  | none => c.basedInt s

/-- The texts of a trade message. -/
structure TradeTexts where
  makerOrderHash : String
  takerOrderHash : Option String
  hash : String
  quoteToken : String
  baseToken : String
  taker : String
  maker : String
  txHash : Option String
  pairName : Option String
  status : Option String
  pricepoint : Option String
  amount : Option String
  createdAt : Option String

/-- The trade with these texts; what is missing keeps its zero value. -/
def RawTrade.ofTexts (c : Codec) (t : TradeTexts) : RawTrade where
  taker := c.eth.hexToAddress t.taker
  maker := c.eth.hexToAddress t.maker
  baseToken := c.eth.hexToAddress t.baseToken
  quoteToken := c.eth.hexToAddress t.quoteToken
  makerOrderHash := c.eth.hexToHash t.makerOrderHash
  takerOrderHash := (t.takerOrderHash.map c.eth.hexToHash).getD 0
  hash := c.eth.hexToHash t.hash
  txHash := (t.txHash.map c.eth.hexToHash).getD 0
  pairName := t.pairName.getD ""
  createdAt := (t.createdAt.map c.parseTime).getD 0
  pricePoint := t.pricepoint.map (toBigInt c.undefinedInt)
  status := t.status.getD ""
  amount := t.amount.map (unmarshalBigInt c)

/-- The fields of `Trade.UnmarshalJSON`. The maker is looked at before the taker is read, and the
taker before the maker. -/
def RawTrade.ofMap (c : Codec) (trade : List (String × Json)) : Except Err RawTrade := do
  Json.notNil trade "makerOrderHash" "Order Hash is not set"
  let makerOrderHash ← Json.text trade "makerOrderHash"
  let takerOrderHash ← asserted (Json.optString trade "takerOrderHash")
  Json.notNil trade "hash" "Hash is not set"
  let hash ← Json.text trade "hash"
  Json.notNil trade "quoteToken" "Quote token is not set"
  let quoteToken ← Json.text trade "quoteToken"
  Json.notNil trade "baseToken" "Base token is not set"
  let baseToken ← Json.text trade "baseToken"
  Json.notNil trade "maker" "Maker is not set"
  let taker ← Json.text trade "taker"
  Json.notNil trade "taker" "Taker is not set"
  let maker ← Json.text trade "maker"
  let _ ← asserted (Json.optString trade "id")
  let txHash ← asserted (Json.optString trade "txHash")
  let pairName ← asserted (Json.optString trade "pairName")
  let status ← asserted (Json.optString trade "status")
  let createdAt ← asserted (Json.optString trade "createdAt")
  pure (ofTexts c ⟨makerOrderHash, takerOrderHash, hash, quoteToken, baseToken, taker, maker,
    txHash, pairName, status, Json.sprint c trade "pricepoint", Json.sprint c trade "amount",
    createdAt⟩)

/-- `Trade.UnmarshalJSON`. -/
def RawTrade.unmarshalJSON (c : Codec) (b : Json) : Except Err RawTrade :=
  match b.toMap with
  | .error err => .error (.msg err)
  | .ok trade => ofMap c trade

/-- An order of a message. -/
def RawOrder.decodeJSON (c : Codec) (b : Json) : Except Err RawOrder :=
  match RawOrder.unmarshalJSON c b with
  | .error s => .error (.panic s)
  | .ok (.error s) => .error (.msg s)
  | .ok (.ok o) => .ok o

/-- A pointer: `null` is nil. -/
def Json.toPointer {α : Type} (unmarshal : Json → Except Err α) : Json → Except Err (Option α)
  | .null => .ok none
  | v => (unmarshal v).map some

/-- A slice of pointers. -/
def Json.toPointers {α : Type} (unmarshal : Json → Except Err α) : Json →
    Except Err (List (Option α))
  | .null => .ok []
  | .arr xs => xs.mapM (Json.toPointer unmarshal)
  | _ => .error (.msg "json: cannot unmarshal into Go struct field of type Matches")

/-- The decoding of `Matches`, by its field tags. A message that is `null` leaves a nil pointer,
which is dereferenced next. -/
def RawMatches.unmarshalJSON (c : Codec) : Json → Except Err RawMatches
  | .obj fields => do
    let makerOrders ← Json.toPointers (RawOrder.decodeJSON c) (Json.get fields "makerOrders")
    let takerOrder ← Json.toPointer (RawOrder.decodeJSON c) (Json.get fields "takerOrder")
    let trades ← Json.toPointers (RawTrade.unmarshalJSON c) (Json.get fields "trades")
    pure ⟨makerOrders, takerOrder, trades⟩
  | .null => .error (.panic "nil pointer dereference")
  | _ => .error (.msg "json: cannot unmarshal into Go value of type types.Matches")

/-- A status the server writes. -/
def TradeStatus.ofText (s : String) : Option TradeStatus :=
  [PENDING, SUCCESS, ERROR, CANCELLED].find? (·.text = s)

/-- The trade, a missing number being 0. -/
def RawTrade.trade? (t : RawTrade) : Option Trade := do
  let status ← TradeStatus.ofText t.status
  pure {
    taker := t.taker
    maker := t.maker
    baseToken := t.baseToken
    quoteToken := t.quoteToken
    makerOrderHash := t.makerOrderHash
    takerOrderHash := t.takerOrderHash
    hash := t.hash
    txHash := t.txHash
    pairName := t.pairName
    createdAt := t.createdAt
    pricePoint := t.pricePoint.getD 0
    status := status
    amount := t.amount.getD 0 }

/-- The matches, if no pointer is nil. -/
def RawMatches.matches? (m : RawMatches) : Option Matches := do
  let makerOrders ← m.makerOrders.mapM (Option.map RawOrder.order)
  let takerOrder ← m.takerOrder.map RawOrder.order
  let trades ← m.trades.mapM fun t => t.bind RawTrade.trade?
  pure ⟨makerOrders, takerOrder, trades⟩

/-! ## Validation -/

/-- A pointer that is dereferenced. -/
def nonNil {α : Type} : Option α → Except Err α
  | some a => .ok a
  | none => .error (.panic "nil pointer dereference")

/-- `Trade.Validate`. -/
def RawTrade.validate (eth : Eth) (t : RawTrade) : Except String Unit := do
  require (t.taker ≠ 0) "Trade 'taker' parameter is required'"
  require (t.maker ≠ 0) "Trade 'maker' parameter is required"
  require (t.takerOrderHash ≠ 0) "Trade 'takerOrderHash' parameter is required"
  require (t.makerOrderHash ≠ 0) "Trade 'makerOrderHash' parameter is required"
  require (t.baseToken ≠ 0) "Trade 'baseToken' parameter is required"
  require (t.quoteToken ≠ 0) "Trade 'quoteToken' parameter is required"
  let amount ← required t.amount "Trade 'amount' parameter is required"
  let pricePoint ← required t.pricePoint "Trade 'pricepoint' paramter is required"
  require (¬pricePoint ≤ 0) "Trade 'pricepoint' parameter should be positive"
  require (¬amount ≤ 0) "Trade 'amount' parameter should be positive"
  require (t.hash = Trade.computeHash eth t.makerOrderHash t.takerOrderHash)
    "Trade 'hash' is incorrect"

/-- `Matches.Validate` of decoded matches. -/
def RawMatches.validate (exchangeAddress : Address) (eth : Eth) (m : RawMatches) :
    Except Err Unit := do
  (require (m.trades ≠ []) "Matches should contain at least one trade").mapError .msg
  (require (m.makerOrders ≠ []) "Matches should contain at least one makerOrder").mapError .msg
  let takerOrder ← (required m.takerOrder "takerOrder is required").mapError .msg
  m.trades.forM fun t => do
    let t ← nonNil t
    (t.validate eth).mapError .msg
  m.makerOrders.forM fun o => do
    let o ← nonNil o
    let _ ← (o.validate exchangeAddress eth).mapError .msg
  let _ ← (takerOrder.validate exchangeAddress eth).mapError .msg

/-! ## Reading back -/

/-- The value under a key that may be missing. -/
def Json.ofText : Option String → Json
  | some s => .str s
  | none => .null

section
variable {c : Codec} {m : List (String × Json)} {key : String}

theorem Json.optString_eq {t : Option String} (h : Json.get m key = .ofText t) :
    asserted (Json.optString m key) = .ok t := by
  rw [optString, h]
  cases t <;> rfl

theorem Json.text_eq {s : String} (h : Json.get m key = .str s) : Json.text m key = .ok s := by
  rw [Json.text, h]
  rfl

theorem Json.notNil_eq {s err : String} (h : Json.get m key = .str s) :
    Json.notNil m key err = .ok () := by
  rw [notNil, h]

theorem Json.sprint_eq {t : Option String} (h : Json.get m key = .ofText t) :
    Json.sprint c m key = t := by
  rw [sprint, h]
  cases t <;> rfl

theorem unmarshalBigInt_repr (n : Int) : unmarshalBigInt c n.repr = n := by
  have h := setString_toString n
  rw [Int.toString_eq_repr] at h
  rw [unmarshalBigInt, h]
  exact if_pos rfl

end

/-- The message holds the texts `t`. -/
structure TradeTexts.Of (m : List (String × Json)) (t : TradeTexts) : Prop where
  makerOrderHash : Json.get m "makerOrderHash" = .str t.makerOrderHash
  takerOrderHash : Json.get m "takerOrderHash" = .ofText t.takerOrderHash
  hash : Json.get m "hash" = .str t.hash
  quoteToken : Json.get m "quoteToken" = .str t.quoteToken
  baseToken : Json.get m "baseToken" = .str t.baseToken
  taker : Json.get m "taker" = .str t.taker
  maker : Json.get m "maker" = .str t.maker
  id : Json.get m "id" = .ofText none
  txHash : Json.get m "txHash" = .ofText t.txHash
  pairName : Json.get m "pairName" = .ofText t.pairName
  status : Json.get m "status" = .ofText t.status
  pricepoint : Json.get m "pricepoint" = .ofText t.pricepoint
  amount : Json.get m "amount" = .ofText t.amount
  createdAt : Json.get m "createdAt" = .ofText t.createdAt

theorem RawTrade.ofMap_eq {c : Codec} {m : List (String × Json)} {t : TradeTexts} (h : t.Of m) :
    RawTrade.ofMap c m = .ok (.ofTexts c t) := by
  simp only [ofMap, Json.notNil_eq h.makerOrderHash, Json.text_eq h.makerOrderHash,
    Json.optString_eq h.takerOrderHash, Json.notNil_eq h.hash, Json.text_eq h.hash,
    Json.notNil_eq h.quoteToken, Json.text_eq h.quoteToken, Json.notNil_eq h.baseToken,
    Json.text_eq h.baseToken, Json.notNil_eq h.maker, Json.text_eq h.taker, Json.notNil_eq h.taker,
    Json.text_eq h.maker, Json.optString_eq h.id, Json.optString_eq h.txHash,
    Json.optString_eq h.pairName, Json.optString_eq h.status, Json.sprint_eq h.pricepoint,
    Json.sprint_eq h.amount, Json.optString_eq h.createdAt, ok_bind]
  rfl

/-- The trade names its two tokens and the order of its maker. -/
structure Trade.Named (t : Trade) : Prop where
  baseToken : t.baseToken ≠ 0
  quoteToken : t.quoteToken ≠ 0
  makerOrderHash : t.makerOrderHash ≠ 0

/-- The text of a hash that is written only if it is not zero. -/
def hashText (c : Codec) (h : Hash) : Option String :=
  if h ≠ 0 then some (c.eth.hashHex h) else none

theorem nonzero_eq {n : Nat} {key : String} {text : BitVec n → String} {x : BitVec n} (h : x ≠ 0) :
    nonzero key text x = [(key, .str (text x))] := if_pos h

theorem nonzero_hash (key : String) (c : Codec) (h : Hash) :
    nonzero key c.eth.hashHex h = ((hashText c h).map fun s => (key, Json.str s)).toList := by
  unfold nonzero hashText
  split <;> rfl

namespace RawTrade

/-- The numbers are set, and the trade names its two tokens and the order of its maker. -/
structure Complete (t : RawTrade) : Prop where
  amount : t.amount.isSome = true
  pricePoint : t.pricePoint.isSome = true
  baseToken : t.baseToken ≠ 0
  quoteToken : t.quoteToken ≠ 0
  makerOrderHash : t.makerOrderHash ≠ 0

/-- The texts of an encoded trade. -/
def texts (c : Codec) (t : RawTrade) : TradeTexts where
  makerOrderHash := c.eth.hashHex t.makerOrderHash
  takerOrderHash := hashText c t.takerOrderHash
  hash := c.eth.marshalHash t.hash
  quoteToken := c.eth.hex t.quoteToken
  baseToken := c.eth.hex t.baseToken
  taker := c.eth.marshalAddress t.taker
  maker := c.eth.marshalAddress t.maker
  txHash := hashText c t.txHash
  pairName := some t.pairName
  status := some t.status
  pricepoint := some (bigString t.pricePoint)
  amount := some (bigString t.amount)
  createdAt := some (c.formatTime t.createdAt)

/-- The trade as it reads back. -/
def conveyed (c : Codec) (t : RawTrade) : RawTrade :=
  { t with createdAt := c.parseTime (c.formatTime t.createdAt) }

theorem texts_of {c : Codec} {t : RawTrade} (h : t.Complete) : (t.texts c).Of (t.fields c) := by
  unfold fields
  rw [nonzero_eq h.baseToken, nonzero_eq h.quoteToken, nonzero_eq h.makerOrderHash, nonzero_hash,
    nonzero_hash]
  cases htx : hashText c t.txHash <;> cases htaker : hashText c t.takerOrderHash <;> constructor <;>
    simp [texts, Json.ofText, Json.get, Json.lookup_ne, htx, htaker]

end RawTrade

@[inherit_doc RawTrade.conveyed]
def Trade.conveyed (c : Codec) (t : Trade) : Trade :=
  { t with createdAt := c.parseTime (c.formatTime t.createdAt) }

/-- The matches as they read back. -/
def Matches.conveyed (c : Codec) (m : Matches) : Matches :=
  ⟨m.makerOrders.map (·.conveyed c), m.takerOrder.conveyed c, m.trades.map (·.conveyed c)⟩

theorem Trade.Named.complete {t : Trade} (h : t.Named) : t.raw.Complete :=
  ⟨rfl, rfl, h.baseToken, h.quoteToken, h.makerOrderHash⟩

theorem Json.toPointers_ofPointer {α β : Type} {marshal : α → Json}
    {unmarshal : Json → Except Err β} {read : α → β} {xs : List (Option α)}
    (h : ∀ x, some x ∈ xs → Json.toPointer unmarshal (marshal x) = .ok (some (read x))) :
    Json.toPointers unmarshal (.arr (xs.map (Json.ofPointer marshal))) =
      .ok (xs.map (Option.map read)) := by
  rw [Json.toPointers, List.mapM_map]
  refine mapM_eq_ok fun x hx => ?_
  cases x with
  | none => rfl
  | some x => exact h x hx

theorem Json.get_matches (a b d : Json) :
    Json.get [("makerOrders", a), ("takerOrder", b), ("trades", d)] "makerOrders" = a ∧
      Json.get [("makerOrders", a), ("takerOrder", b), ("trades", d)] "takerOrder" = b ∧
      Json.get [("makerOrders", a), ("takerOrder", b), ("trades", d)] "trades" = d := by
  simp [Json.get, Json.lookup_ne]

theorem RawMatches.unmarshalJSON_eq {c : Codec} {a b d : Json} {m : RawMatches}
    (ha : Json.toPointers (RawOrder.decodeJSON c) a = .ok m.makerOrders)
    (hb : Json.toPointer (RawOrder.decodeJSON c) b = .ok m.takerOrder)
    (hd : Json.toPointers (RawTrade.unmarshalJSON c) d = .ok m.trades) :
    RawMatches.unmarshalJSON c (.obj [("makerOrders", a), ("takerOrder", b), ("trades", d)]) =
      .ok m := by
  obtain ⟨h1, h2, h3⟩ := Json.get_matches a b d
  simp only [RawMatches.unmarshalJSON, h1, h2, h3, ha, hb, hd, ok_bind]
  rfl

theorem Matches.marshalJSON_eq {c : Codec} (m : Matches) : m.raw.marshalJSON c =
    .obj [("makerOrders", .arr (m.makerOrders.map fun o => o.raw.marshalJSON c)),
      ("takerOrder", m.takerOrder.raw.marshalJSON c),
      ("trades", .arr (m.trades.map fun t => t.raw.marshalJSON c))] := by
  simp [RawMatches.marshalJSON, Matches.raw, Json.ofPointer, Function.comp_def]

section
variable {c : Codec} (hc : c.eth.ReadsBack)
include hc

theorem hashText_read (h : Hash) : ((hashText c h).map c.eth.hexToHash).getD 0#256 = h := by
  unfold hashText
  split
  · exact hc.hashHex h
  · rename_i hz
    exact (not_not.1 hz).symm

theorem RawTrade.ofTexts_texts {t : RawTrade} (h : t.Complete) :
    ofTexts c (t.texts c) = t.conveyed c := by
  obtain ⟨amount, hamount⟩ := Option.isSome_iff_exists.1 h.amount
  obtain ⟨pricePoint, hpricePoint⟩ := Option.isSome_iff_exists.1 h.pricePoint
  simp [ofTexts, texts, conveyed, hamount, hpricePoint, bigString, hashText_read hc, hc.hex,
    hc.marshalAddress, hc.hashHex, hc.marshalHash, unmarshalBigInt_repr]

/-- A complete trade reads back, but for its creation time. -/
theorem RawTrade.unmarshalJSON_marshalJSON {t : RawTrade} (h : t.Complete) :
    RawTrade.unmarshalJSON c (t.marshalJSON c) = .ok (t.conveyed c) := by
  simp only [unmarshalJSON, marshalJSON, Json.toMap, ofMap_eq (texts_of h), ofTexts_texts hc h]

theorem RawOrder.toPointer_marshalJSON {o : RawOrder} (h : o.Numbered) :
    Json.toPointer (RawOrder.decodeJSON c) (o.marshalJSON c) = .ok (some (o.conveyed c)) := by
  show (RawOrder.decodeJSON c (o.marshalJSON c)).map some = _
  rw [RawOrder.decodeJSON, unmarshalJSON_marshalJSON hc h]
  rfl

theorem RawTrade.toPointer_marshalJSON {t : RawTrade} (h : t.Complete) :
    Json.toPointer (RawTrade.unmarshalJSON c) (t.marshalJSON c) = .ok (some (t.conveyed c)) := by
  show (RawTrade.unmarshalJSON c (t.marshalJSON c)).map some = _
  rw [unmarshalJSON_marshalJSON hc h]
  rfl

theorem Matches.unmarshalJSON_marshalJSON {m : Matches} (h : ∀ t ∈ m.trades, t.Named) :
    RawMatches.unmarshalJSON c (m.raw.marshalJSON c) = .ok (m.conveyed c).raw := by
  have hmakers : Json.toPointers (RawOrder.decodeJSON c)
      (.arr (m.raw.makerOrders.map (Json.ofPointer (RawOrder.marshalJSON c)))) =
        .ok (m.raw.makerOrders.map (Option.map (RawOrder.conveyed c))) := by
    refine Json.toPointers_ofPointer fun o ho => ?_
    obtain ⟨o', -, ho'⟩ := List.mem_map.1 ho
    rw [← Option.some.inj ho']
    exact RawOrder.toPointer_marshalJSON hc o'.numbered
  have htrades : Json.toPointers (RawTrade.unmarshalJSON c)
      (.arr (m.raw.trades.map (Json.ofPointer (RawTrade.marshalJSON c)))) =
        .ok (m.raw.trades.map (Option.map (RawTrade.conveyed c))) := by
    refine Json.toPointers_ofPointer fun t ht => ?_
    obtain ⟨t', hmem, ht'⟩ := List.mem_map.1 ht
    rw [← Option.some.inj ht']
    exact RawTrade.toPointer_marshalJSON hc (h t' hmem).complete
  refine RawMatches.unmarshalJSON_eq (hmakers.trans ?_)
    (RawOrder.toPointer_marshalJSON hc m.takerOrder.numbered) (htrades.trans ?_)
  · simp only [Matches.raw, Matches.conveyed, List.map_map]
    rfl
  · simp only [Matches.raw, Matches.conveyed, List.map_map]
    rfl

end

/-! ## What does not read back -/

section
variable {c : Codec} {m : List (String × Json)}

theorem Json.notNil_ne {key err : String} {u : Unit} (h : Json.notNil m key err = .ok u) :
    Json.get m key ≠ .null := by
  intro hnull
  rw [notNil, hnull] at h
  cases h

theorem RawTrade.ofMap_named {r : RawTrade} (h : RawTrade.ofMap c m = .ok r) :
    Json.get m "makerOrderHash" ≠ .null ∧ Json.get m "quoteToken" ≠ .null ∧
      Json.get m "baseToken" ≠ .null := by
  unfold ofMap at h
  simp only [bind_eq_ok] at h
  obtain ⟨_, hmaker, _, -, _, -, _, -, _, -, _, hquote, _, -, _, hbase, -⟩ := h
  exact ⟨Json.notNil_ne hmaker, Json.notNil_ne hquote, Json.notNil_ne hbase⟩

theorem mem_nonzero {n : Nat} {key : String} {text : BitVec n → String} {x : BitVec n}
    {p : String × Json} (h : p ∈ nonzero key text x) : p.1 = key ∧ x ≠ 0 := by
  unfold nonzero at h
  split at h
  · rename_i hx
    exact ⟨by rw [List.mem_singleton.1 h], hx⟩
  · cases h

theorem Json.get_ne_null {key : String} (h : Json.get m key ≠ .null) : ∃ p ∈ m, p.1 = key := by
  by_contra hn
  refine h ?_
  have hnone : m.reverse.lookup key = none := by
    rw [List.lookup_eq_none_iff]
    intro p hp
    have hne : key ≠ p.1 := fun e => hn ⟨p, List.mem_reverse.1 hp, e.symm⟩
    simpa using hne
  rw [Json.get, hnone]
  rfl

theorem Trade.named_of_unmarshalJSON {t : Trade} {r : RawTrade}
    (h : RawTrade.unmarshalJSON c (t.raw.marshalJSON c) = .ok r) : t.Named := by
  have hkey : ∀ {key : String}, Json.get (t.raw.fields c) key ≠ .null →
      (key = "baseToken" → t.baseToken ≠ 0) ∧ (key = "quoteToken" → t.quoteToken ≠ 0) ∧
        (key = "makerOrderHash" → t.makerOrderHash ≠ 0) := by
    intro key hne
    obtain ⟨p, hp, rfl⟩ := Json.get_ne_null hne
    simp only [RawTrade.fields, List.mem_append] at hp
    rcases hp with ((((hp | hp) | hp) | hp) | hp) | hp
    · simp only [List.mem_cons, List.not_mem_nil, or_false] at hp
      rcases hp with rfl | rfl | rfl | rfl | rfl | rfl | rfl | rfl <;> simp
    all_goals
      obtain ⟨hk, hx⟩ := mem_nonzero hp
      rw [hk]
      refine ⟨fun he => ?_, fun he => ?_, fun he => ?_⟩ <;>
        first | exact hx | exact absurd he (by decide)
  obtain ⟨hm, hq, hb⟩ := RawTrade.ofMap_named (c := c) h
  exact ⟨(hkey hb).1 rfl, (hkey hq).2.1 rfl, (hkey hm).2.2 rfl⟩

theorem Matches.named_of_unmarshalJSON {m : Matches} {r : RawMatches}
    (h : RawMatches.unmarshalJSON c (m.raw.marshalJSON c) = .ok r) : ∀ t ∈ m.trades, t.Named := by
  rw [m.marshalJSON_eq] at h
  obtain ⟨-, -, htrades⟩ := Json.get_matches (.arr (m.makerOrders.map fun o => o.raw.marshalJSON c))
    (m.takerOrder.raw.marshalJSON c) (.arr (m.trades.map fun t => t.raw.marshalJSON c))
  simp only [RawMatches.unmarshalJSON, bind_eq_ok, htrades] at h
  obtain ⟨_, -, _, -, ts, hts, -⟩ := h
  rw [Json.toPointers, List.mapM_map] at hts
  intro t ht
  obtain ⟨p, hp⟩ := mapM_isOk.1 ⟨ts, hts⟩ t ht
  have hp : (RawTrade.unmarshalJSON c (t.raw.marshalJSON c)).map some = .ok p := hp
  cases hr : RawTrade.unmarshalJSON c (t.raw.marshalJSON c) with
  | error e => rw [hr] at hp; cases hp
  | ok r => exact Trade.named_of_unmarshalJSON hr

theorem Trade.raw_trade (t : Trade) : t.raw.trade? = some t := by
  have hstatus : TradeStatus.ofText t.status.text = some t.status := by
    cases t.status <;> decide
  show (TradeStatus.ofText t.status.text).bind _ = _
  rw [hstatus]
  rfl

theorem Matches.raw_matches (m : Matches) : m.raw.matches? = some m := by
  have hmakers : (m.makerOrders.map fun o => some o.raw).mapM (Option.map RawOrder.order) =
      some m.makerOrders := by
    rw [List.mapM_map]
    refine (List.mapM_pure (m := Option) (f := id)).trans ?_
    rw [List.map_id]
    rfl
  have htrades : (m.trades.map fun t => some t.raw).mapM (fun t => t.bind RawTrade.trade?) =
      some m.trades := by
    have hf : ((fun t : Option RawTrade => t.bind RawTrade.trade?) ∘ fun t : Trade => some t.raw) =
        fun t => pure (id t) := funext Trade.raw_trade
    rw [List.mapM_map, hf, List.mapM_pure, List.map_id]
    rfl
  simp only [RawMatches.matches?, Matches.raw, hmakers, htrades]
  rfl

end

/-! ## The check of matches without a nil pointer -/

section
variable {x : Address} {eth : Eth}

theorem Trade.validate_raw (t : Trade) : t.raw.validate eth = t.validate eth := by
  simp only [RawTrade.validate, Trade.validate, Trade.raw, required, ok_bind]
  rfl

theorem forM_trades (ts : List Trade) :
    (ts.map fun t => some t.raw).forM (fun t => do
      let t ← nonNil t
      (t.validate eth).mapError Err.msg) = (ts.forM (Trade.validate eth)).mapError .msg := by
  induction ts with
  | nil => rfl
  | cons t ts ih =>
    simp only [List.map_cons, List.forM, ih]
    simp only [nonNil, ok_bind, t.validate_raw]
    cases t.validate eth <;> rfl

theorem forM_orders (os : List Order) :
    (os.map fun o => some o.raw).forM (fun o => do
      let o ← nonNil o
      let _ ← (o.validate x eth).mapError Err.msg) =
      ((os.mapM (Order.validate x eth)).map fun _ => ()).mapError .msg := by
  induction os with
  | nil => rfl
  | cons o os ih =>
    simp only [List.map_cons, List.forM, List.mapM_cons, ih]
    simp only [nonNil, ok_bind, Order.validate]
    cases o.raw.validate x eth with
    | error e => rfl
    | ok v => cases os.mapM (Order.validate x eth) <;> rfl

/-- Decoded matches without a nil pointer pass if and only if the matches do. -/
theorem Matches.validate_raw (m : Matches) :
    m.raw.validate x eth = ((m.validate x eth).map fun _ => ()).mapError .msg := by
  unfold RawMatches.validate Matches.validate
  simp only [Matches.raw, required, forM_trades, forM_orders, require, ne_eq, List.map_eq_nil_iff]
  by_cases ht : m.trades = []
  · rw [if_neg (not_not.2 ht)]
    rfl
  · by_cases hm : m.makerOrders = []
    · rw [if_neg (not_not.2 hm), if_pos ht]
      rfl
    · rw [if_pos ht, if_pos hm]
      cases m.trades.forM (Trade.validate eth) with
      | error e => rfl
      | ok u =>
        cases m.makerOrders.mapM (Order.validate x eth) with
        | error e => rfl
        | ok os =>
          simp only [Order.validate, Except.mapError, ok_bind]
          cases m.takerOrder.raw.validate x eth <;> rfl

end

end Dex
