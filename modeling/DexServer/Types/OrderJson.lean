import DexServer.Types.Json
import DexServer.Types.RawOrder

/-!
# Orders as JSON (`types/order.go`)

`UnmarshalJSON` decodes into the struct that the engine uses: every field is taken from the client
if it is there, `filledAmount`, `status` and `hash` included. A value of an unexpected type panics.
-/

namespace Dex

/-- The text of a status. -/
def Status.text : Status → String
  | .OPEN => "OPEN"
  | .PARTIAL_FILLED => "PARTIAL_FILLED"
  | .FILLED => "FILLED"
  | .CANCELLED => "CANCELLED"
  | .INVALIDATED => "INVALIDATED"
  | .ERROR => "ERROR"
  | .other s _ => s

def Side.text : Side → String
  | .BUY => "BUY"
  | .SELL => "SELL"
  | .other s _ => s

def Status.ofText (s : String) : Status :=
  if h : s ∈ statusNames then
    if s = "OPEN" then .OPEN
    else if s = "PARTIAL_FILLED" then .PARTIAL_FILLED
    else if s = "FILLED" then .FILLED
    else if s = "CANCELLED" then .CANCELLED
    else if s = "INVALIDATED" then .INVALIDATED
    else .ERROR
  else .other s h

def Side.ofText (s : String) : Side :=
  if h : s ≠ "BUY" ∧ s ≠ "SELL" then .other s h else if s = "BUY" then .BUY else .SELL

/-- The functions that read and write texts and JSON numbers. -/
structure Codec where
  eth : Eth
  /-- `byte(f)` of a JSON number -/
  byteOf : Decimal → Byte
  byteOf_byte : ∀ b : Byte, byteOf ⟨b.toNat, 0⟩ = b
  /-- the value of a number whose text is not one -/
  undefinedInt : String → Int
  /-- `big.Int.UnmarshalJSON` of a text that is not a plain decimal number: a prefix may choose
  another base, an error is dropped -/
  basedInt : String → Int
  /-- `Time.Format(time.RFC3339Nano)` -/
  formatTime : Time → String
  /-- `time.Parse(time.RFC3339Nano, s)`, its error dropped -/
  parseTime : String → Time
  /-- `fmt.Sprintf("%v", v)` of a value that is not a string -/
  sprint : Json → String

/-- `if m[key] != nil { … m[key].(string) … }`. -/
def Json.optString (m : List (String × Json)) (key : String) : Except String (Option String) :=
  match Json.get m key with
  | .null => .ok none
  | v => v.asString.map some

/-- `if m[key] != nil`: a signature under the keys `V`, `R`, `S`. -/
def Json.optSignature (c : Codec) (m : List (String × Json)) (key : String) :
    Except String (Option Signature) :=
  match Json.get m key with
  | .null => .ok none
  | sig => (sig.asSignature "V" "R" "S" c.eth c.byteOf).map some

/-- The texts of an order message. -/
structure OrderTexts where
  pairName : Option String
  exchangeAddress : Option String
  userAddress : Option String
  baseToken : Option String
  quoteToken : Option String
  pricepoint : Option String
  amount : Option String
  filledAmount : Option String
  nonce : Option String
  makeFee : Option String
  takeFee : Option String
  hash : Option String
  side : Option String
  status : Option String
  createdAt : Option String

namespace RawOrder

/-- The order with these texts; what is missing keeps its zero value. -/
def ofTexts (c : Codec) (t : OrderTexts) (signature : Option Signature) : RawOrder where
  userAddress := (t.userAddress.map c.eth.hexToAddress).getD 0
  exchangeAddress := (t.exchangeAddress.map c.eth.hexToAddress).getD 0
  baseToken := (t.baseToken.map c.eth.hexToAddress).getD 0
  quoteToken := (t.quoteToken.map c.eth.hexToAddress).getD 0
  status := .ofText (t.status.getD "")
  side := .ofText (t.side.getD "")
  hash := (t.hash.map c.eth.hexToHash).getD 0
  signature := signature
  pricePoint := t.pricepoint.map (toBigInt c.undefinedInt)
  amount := t.amount.map (toBigInt c.undefinedInt)
  filledAmount := t.filledAmount.map (toBigInt c.undefinedInt)
  nonce := t.nonce.map (toBigInt c.undefinedInt)
  makeFee := t.makeFee.map (toBigInt c.undefinedInt)
  takeFee := t.takeFee.map (toBigInt c.undefinedInt)
  pairName := t.pairName.getD ""
  createdAt := (t.createdAt.map c.parseTime).getD 0

/-- The fields of `UnmarshalJSON`. -/
def ofMap (c : Codec) (order : List (String × Json)) : Except String RawOrder := do
  let text := Json.optString order
  let _ ← text "id"
  let pairName ← text "pairName"
  let exchangeAddress ← text "exchangeAddress"
  let userAddress ← text "userAddress"
  let baseToken ← text "baseToken"
  let quoteToken ← text "quoteToken"
  let pricepoint ← text "pricepoint"
  let amount ← text "amount"
  let filledAmount ← text "filledAmount"
  let nonce ← text "nonce"
  let makeFee ← text "makeFee"
  let takeFee ← text "takeFee"
  let hash ← text "hash"
  let side ← text "side"
  let status ← text "status"
  let signature ← Json.optSignature c order "signature"
  let createdAt ← text "createdAt"
  let _ ← text "updatedAt"
  pure (ofTexts c ⟨pairName, exchangeAddress, userAddress, baseToken, quoteToken, pricepoint,
    amount, filledAmount, nonce, makeFee, takeFee, hash, side, status, createdAt⟩ signature)

/-- `UnmarshalJSON`: the outer error is a panic, the inner one is returned. -/
def unmarshalJSON (c : Codec) (b : Json) : Except String (Except String RawOrder) :=
  match b.toMap with
  | .error err => .ok (.error err)
  | .ok order => (ofMap c order).map .ok

/-- The fields of `MarshalJSON`. -/
def fields (c : Codec) (o : RawOrder) : List (String × Json) :=
  [("exchangeAddress", .str (c.eth.marshalAddress o.exchangeAddress)),
    ("userAddress", .str (c.eth.marshalAddress o.userAddress)),
    ("baseToken", .str (c.eth.marshalAddress o.baseToken)),
    ("quoteToken", .str (c.eth.marshalAddress o.quoteToken)),
    ("side", .str o.side.text),
    ("status", .str o.status.text),
    ("pairName", .str o.pairName),
    ("amount", .str (bigString o.amount)),
    ("pricepoint", .str (bigString o.pricePoint)),
    ("makeFee", .str (bigString o.makeFee)),
    ("takeFee", .str (bigString o.takeFee)),
    ("createdAt", .str (c.formatTime o.createdAt)),
    ("hash", .str (c.eth.hashHex o.hash))] ++
    (o.filledAmount.map fun n => ("filledAmount", .str (toString n))).toList ++
    (o.nonce.map fun n => ("nonce", .str (toString n))).toList ++
    (o.signature.map fun s => ("signature", .obj [("V", .num ⟨s.v.toNat, 0⟩),
      ("R", .str (c.eth.marshalHash s.r)), ("S", .str (c.eth.marshalHash s.s))])).toList

/-- `MarshalJSON`. -/
def marshalJSON (c : Codec) (o : RawOrder) : Json := .obj (o.fields c)

/-- `ComputeHash` of an order that may lack numbers: a nil number is dereferenced. -/
def computeHash (eth : Eth) (o : RawOrder) : Except String Hash :=
  match o.amount, o.pricePoint, o.nonce, o.takeFee, o.makeFee with
  | some amount, some pricePoint, some nonce, some takeFee, some makeFee =>
    .ok (Order.computeHash eth
      { userAddress := o.userAddress, exchangeAddress := o.exchangeAddress,
        baseToken := o.baseToken,
        quoteToken := o.quoteToken, status := o.status, side := o.side, hash := o.hash,
        signature := o.signature, pricePoint := pricePoint, amount := amount,
        filledAmount := o.filledAmount.getD 0, nonce := nonce, makeFee := makeFee,
        takeFee := takeFee, pairName := o.pairName, createdAt := o.createdAt })
  | _, _, _, _, _ => .error "invalid memory address or nil pointer dereference"

end RawOrder

/-! ## An order reads back -/

@[simp] theorem Status.ofText_text (s : Status) : Status.ofText s.text = s := by
  cases s with
  | other s h => simp [ofText, text, h]
  | _ => rfl

@[simp] theorem Side.ofText_text (s : Side) : Side.ofText s.text = s := by
  cases s with
  | other s h => simp [ofText, text, h]
  | _ => rfl

/-- The message holds the texts `t`, and neither an id nor a time of update. -/
structure OrderTexts.Of (m : List (String × Json)) (t : OrderTexts) : Prop where
  id : Json.optString m "id" = .ok none
  pairName : Json.optString m "pairName" = .ok t.pairName
  exchangeAddress : Json.optString m "exchangeAddress" = .ok t.exchangeAddress
  userAddress : Json.optString m "userAddress" = .ok t.userAddress
  baseToken : Json.optString m "baseToken" = .ok t.baseToken
  quoteToken : Json.optString m "quoteToken" = .ok t.quoteToken
  pricepoint : Json.optString m "pricepoint" = .ok t.pricepoint
  amount : Json.optString m "amount" = .ok t.amount
  filledAmount : Json.optString m "filledAmount" = .ok t.filledAmount
  nonce : Json.optString m "nonce" = .ok t.nonce
  makeFee : Json.optString m "makeFee" = .ok t.makeFee
  takeFee : Json.optString m "takeFee" = .ok t.takeFee
  hash : Json.optString m "hash" = .ok t.hash
  side : Json.optString m "side" = .ok t.side
  status : Json.optString m "status" = .ok t.status
  createdAt : Json.optString m "createdAt" = .ok t.createdAt
  updatedAt : Json.optString m "updatedAt" = .ok none

section
variable {c : Codec} (hc : c.eth.ReadsBack)

theorem RawOrder.ofMap_eq {m : List (String × Json)} {t : OrderTexts} {sig : Option Signature}
    (h : t.Of m) (hs : Json.optSignature c m "signature" = .ok sig) :
    RawOrder.ofMap c m = .ok (.ofTexts c t sig) := by
  simp only [ofMap, h.id, h.pairName, h.exchangeAddress, h.userAddress, h.baseToken, h.quoteToken,
    h.pricepoint, h.amount, h.filledAmount, h.nonce, h.makeFee, h.takeFee, h.hash, h.side, h.status,
    h.createdAt, h.updatedAt, hs, ok_bind]
  rfl

/-- The order as it reads back. -/
def Order.conveyed (c : Codec) (o : Order) : Order :=
  { o with createdAt := c.parseTime (c.formatTime o.createdAt) }

namespace RawOrder

@[inherit_doc Order.conveyed]
def conveyed (c : Codec) (o : RawOrder) : RawOrder :=
  { o with createdAt := c.parseTime (c.formatTime o.createdAt) }

/-- The numbers that `MarshalJSON` takes to be set. -/
structure Numbered (o : RawOrder) : Prop where
  amount : o.amount.isSome = true
  pricePoint : o.pricePoint.isSome = true
  makeFee : o.makeFee.isSome = true
  takeFee : o.takeFee.isSome = true

/-- The texts of an encoded order. -/
def texts (c : Codec) (o : RawOrder) : OrderTexts where
  pairName := some o.pairName
  exchangeAddress := some (c.eth.marshalAddress o.exchangeAddress)
  userAddress := some (c.eth.marshalAddress o.userAddress)
  baseToken := some (c.eth.marshalAddress o.baseToken)
  quoteToken := some (c.eth.marshalAddress o.quoteToken)
  pricepoint := some (bigString o.pricePoint)
  amount := some (bigString o.amount)
  filledAmount := o.filledAmount.map toString
  nonce := o.nonce.map toString
  makeFee := some (bigString o.makeFee)
  takeFee := some (bigString o.takeFee)
  hash := some (c.eth.hashHex o.hash)
  side := some o.side.text
  status := some o.status.text
  createdAt := some (c.formatTime o.createdAt)

theorem texts_of (o : RawOrder) : (o.texts c).Of (o.fields c) := by
  constructor
  case filledAmount =>
    rw [fields, Json.optString, Json.get_optional_ne (by decide), Json.get_optional_ne (by decide),
      Json.get_optional]
    cases h : o.filledAmount <;>
      simp [texts, Json.get, Json.lookup_ne, Json.asString, Except.map, h]
  case nonce =>
    rw [fields, Json.optString, Json.get_optional_ne (by decide), Json.get_optional]
    cases h : o.nonce with
    | none => cases o.filledAmount <;> simp [texts, Json.get, Json.lookup_ne, h]
    | some n => simp [texts, Json.asString, Except.map, h]
  all_goals
    rw [fields, Json.optString, Json.get_optional_ne (by decide), Json.get_optional_ne (by decide),
      Json.get_optional_ne (by decide)]
    simp [texts, Json.get, Json.lookup_ne, Json.asString, Except.map]

theorem toBigInt_bigString {n : Option Int} (h : n.isSome = true) :
    some (toBigInt c.undefinedInt (bigString n)) = n := by
  obtain ⟨n, rfl⟩ := Option.isSome_iff_exists.1 h
  simp [bigString]

include hc

theorem asSignature_marshal (s : Signature) :
    (Json.obj [("V", .num ⟨s.v.toNat, 0⟩), ("R", .str (c.eth.marshalHash s.r)),
      ("S", .str (c.eth.marshalHash s.s))]).asSignature "V" "R" "S" c.eth c.byteOf = .ok s := by
  simp [Json.asSignature, Json.asMap, Json.get, Json.lookup_ne, Json.asFloat64, Json.asString, bind,
    Except.bind, hc.marshalHash, c.byteOf_byte, pure, Except.pure]

theorem optSignature_fields (o : RawOrder) :
    Json.optSignature c (o.fields c) "signature" = .ok o.signature := by
  cases hs : o.signature with
  | none =>
    rw [fields, Json.optSignature, Json.get_optional, hs]
    dsimp only
    rw [Json.get_optional_ne (by decide), Json.get_optional_ne (by decide)]
    simp [Json.get, Json.lookup_ne]
  | some s =>
    rw [fields, Json.optSignature, Json.get_optional, hs]
    dsimp only
    rw [asSignature_marshal hc s]
    rfl

theorem ofTexts_texts {o : RawOrder} (h : o.Numbered) :
    ofTexts c (o.texts c) o.signature = o.conveyed c := by
  have hnumber : ∀ n : Option Int, (n.map toString).map (toBigInt c.undefinedInt) = n := by
    intro n
    cases n <;> simp
  simp only [ofTexts, texts, conveyed, hnumber, Option.map_some, Option.getD_some,
    toBigInt_bigString h.amount, toBigInt_bigString h.pricePoint, toBigInt_bigString h.makeFee,
    toBigInt_bigString h.takeFee, hc.marshalAddress, hc.hashHex, Status.ofText_text,
    Side.ofText_text]

/-- An order whose amount, price and fees are set reads back, but for its creation time. -/
theorem unmarshalJSON_marshalJSON {o : RawOrder} (h : o.Numbered) :
    RawOrder.unmarshalJSON c (o.marshalJSON c) = .ok (.ok (o.conveyed c)) := by
  simp only [unmarshalJSON, marshalJSON, Json.toMap, ofMap_eq o.texts_of (optSignature_fields hc o),
    ofTexts_texts hc h, Except.map]

end RawOrder

omit hc in
theorem Order.numbered (o : Order) : o.raw.Numbered := ⟨rfl, rfl, rfl, rfl⟩

end

end Dex
