import DexServer.Lib.Bytes
import DexServer.Types.Dynamic
import DexServer.Types.OrderJson

/-!
# Pairs and tokens as JSON (`types/pair.go`, `types/token.go`)

`PairValue` and `TokenValue` have all the fields of the structs. They are written with their
decimals and their rank as numbers, and read with the type assertion `.(int)`, which no number
passes.

* `PairValue.numbers_unmarshalJSON`: what is decoded has the numbers that were there before.
-/

namespace Dex

open Lib

/-! ## Pairs -/

/-- `Pair`. -/
structure PairValue where
  /-- `bson.ObjectId`, a string of bytes -/
  id : List Byte
  baseTokenSymbol : String
  baseTokenAddress : Address
  baseTokenDecimals : Int
  quoteTokenSymbol : String
  quoteTokenAddress : Address
  quoteTokenDecimals : Int
  listed : Bool
  active : Bool
  rank : Int
  makeFee : Option Int
  takeFee : Option Int
  createdAt : Time
  updatedAt : Time
  deriving DecidableEq, Repr

/-- `&types.Pair{}`. -/
def PairValue.zero : PairValue := ⟨[], "", 0, 0, "", 0, 0, false, false, 0, none, none, 0, 0⟩

/-- A number that is not nil, as its text. -/
def optionalNumber (key : String) (n : Option Int) : List (String × Json) :=
  (n.map fun n => (key, .str (toString n))).toList

namespace PairValue

/-- `Pair.MarshalJSON`. -/
def marshalJSON (c : Codec) (p : PairValue) : Json :=
  .obj ([("baseTokenSymbol", .str p.baseTokenSymbol),
    ("baseTokenDecimals", .num ⟨p.baseTokenDecimals, 0⟩),
    ("quoteTokenSymbol", .str p.quoteTokenSymbol),
    ("quoteTokenDecimals", .num ⟨p.quoteTokenDecimals, 0⟩),
    ("baseTokenAddress", .str (c.eth.marshalAddress p.baseTokenAddress)),
    ("quoteTokenAddress", .str (c.eth.marshalAddress p.quoteTokenAddress)),
    ("rank", .num ⟨p.rank, 0⟩),
    ("active", .bool p.active),
    ("listed", .bool p.listed)] ++
    optionalNumber "makeFee" p.makeFee ++
    optionalNumber "takeFee" p.takeFee)

/-- `Pair.UnmarshalJSON`, into the pair `p`. -/
def unmarshalJSON (eth : Eth) (p : PairValue) (b : Json) : Except Err PairValue := do
  let pair ← b.dynMap
  let p ← (Dyn.get pair "baseTokenAddress").ifSet Dyn.asString p fun s =>
    { p with baseTokenAddress := eth.hexToAddress s }
  let p ← (Dyn.get pair "quoteTokenAddress").ifSet Dyn.asString p fun s =>
    { p with quoteTokenAddress := eth.hexToAddress s }
  let p ← (Dyn.get pair "baseTokenSymbol").ifSet Dyn.asString p
    fun s => { p with baseTokenSymbol := s }
  let p ← (Dyn.get pair "quoteTokenSymbol").ifSet Dyn.asString p
    fun s => { p with quoteTokenSymbol := s }
  let p ← (Dyn.get pair "baseTokenDecimals").ifSet Dyn.asInt p
    fun n => { p with baseTokenDecimals := n }
  let p ← (Dyn.get pair "quoteTokenDecimals").ifSet Dyn.asInt p
    fun n => { p with quoteTokenDecimals := n }
  (Dyn.get pair "rank").ifSet Dyn.asInt p fun n => { p with rank := n }

/-- The decimals, the rank and the fees. -/
def numbers (p : PairValue) : Int × Int × Int × Option Int × Option Int :=
  (p.baseTokenDecimals, p.quoteTokenDecimals, p.rank, p.makeFee, p.takeFee)

theorem numbers_unmarshalJSON {eth : Eth} {p p' : PairValue} {b : Json}
    (h : p.unmarshalJSON eth b = .ok p') : p'.numbers = p.numbers := by
  unfold unmarshalJSON at h
  simp only [bind_eq_ok] at h
  obtain ⟨pair, hpair, p₁, h₁, p₂, h₂, p₃, h₃, p₄, h₄, p₅, h₅, p₆, h₆, h₇⟩ := h
  obtain ⟨m, rfl⟩ := Json.dynMap_eq_ok hpair
  have hn₁ := Dyn.ifSet_keeps (fun q => q.numbers = p.numbers) rfl (fun _ => rfl) h₁
  have hn₂ := Dyn.ifSet_keeps (fun q => q.numbers = p.numbers) hn₁ (fun _ => hn₁) h₂
  have hn₃ := Dyn.ifSet_keeps (fun q => q.numbers = p.numbers) hn₂ (fun _ => hn₂) h₃
  have hn₄ := Dyn.ifSet_keeps (fun q => q.numbers = p.numbers) hn₃ (fun _ => hn₃) h₄
  rw [Json.get_dynFields] at h₅ h₆ h₇
  rw [Json.ifSet_asInt_eq h₇, Json.ifSet_asInt_eq h₆, Json.ifSet_asInt_eq h₅, hn₄]

end PairValue

/-! ## Tokens -/

/-- `Image`; the map may be nil. -/
structure Image where
  url : String
  /-- `Meta` -/
  metadata : Option (List (String × Dyn))

/-- `Token`. -/
structure TokenValue where
  id : List Byte
  name : String
  symbol : String
  address : Address
  image : Image
  contractAddress : Address
  decimals : Int
  active : Bool
  listed : Bool
  quote : Bool
  makeFee : Option Int
  takeFee : Option Int
  createdAt : Time
  updatedAt : Time

/-- The encoding of `Image`, by its field tags. -/
def Image.marshalJSON (i : Image) : Json :=
  .obj [("url", .str i.url),
    ("meta", match i.metadata with
      | some m => .obj (Dyn.jsonFields m)
      | none => .null)]

/-- `bson.ObjectIdHex`. -/
def objectIdHex (s : String) : Except Err (List Byte) :=
  match hexBytes s with
  | some d =>
    if d.length = 12 then .ok d else .error (.panic ("invalid input to ObjectIdHex: " ++ s.quote))
  | none => .error (.panic ("invalid input to ObjectIdHex: " ++ s.quote))

namespace TokenValue

/-- `Token.MarshalJSON`; the text of the id is its bytes in hexadecimal. -/
def marshalJSON (c : Codec) (t : TokenValue) : Json :=
  .obj ([("id", .str (hexText t.id)),
    ("symbol", .str t.symbol),
    ("contractAddress", .str (c.eth.hex t.contractAddress)),
    ("decimals", .num ⟨t.decimals, 0⟩),
    ("image", t.image.marshalJSON),
    ("active", .bool t.active),
    ("quote", .bool t.quote),
    ("createdAt", .str (c.formatTime t.createdAt)),
    ("updatedAt", .str (c.formatTime t.updatedAt))] ++
    optionalNumber "makeFee" t.makeFee ++
    optionalNumber "takeFee" t.takeFee)

/-- `Token.UnmarshalJSON`, into the token `t`. The contract address is not read. -/
def unmarshalJSON (c : Codec) (t : TokenValue) (b : Json) : Except Err TokenValue := do
  let token ← b.dynMap
  let id ← (Dyn.get token "id").asString
  let id ← objectIdHex id
  let symbol ← (Dyn.get token "symbol").asString
  let decimals ← (Dyn.get token "decimals").asInt
  let active ← (Dyn.get token "active").asBool
  let quote ← (Dyn.get token "quote").asBool
  let t := { t with id, symbol, decimals, active, quote }
  let t ← (Dyn.get token "createdAt").ifSet Dyn.asString t
    fun s => { t with createdAt := c.parseTime s }
  let t ← (Dyn.get token "updatedAt").ifSet Dyn.asString t
    fun s => { t with updatedAt := c.parseTime s }
  let t ← (Dyn.get token "makeFee").ifSet Dyn.asString t fun s =>
    { t with makeFee := some (toBigInt c.undefinedInt s) }
  let t ← (Dyn.get token "takeFee").ifSet Dyn.asString t fun s =>
    { t with takeFee := some (toBigInt c.undefinedInt s) }
  match Dyn.get token "image" with
  | .map image => do
    let url ← (Dyn.get image "url").asString
    let metadata ← (Dyn.get image "meta").asMap
    pure { t with image := ⟨url, some metadata⟩ }
  | _ => pure t

end TokenValue

end Dex
