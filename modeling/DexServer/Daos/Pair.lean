import DexServer.Daos.Document
import DexServer.Types.PairJson

/-!
# Pairs and tokens in the store (`types/pair.go`, `types/token.go`, `daos/pair.go`, `daos/token.go`)

The store keeps records, in which addresses and fees are texts. A fee that is nil is stored as
`<nil>` with a pair, and not at all with a token; of a text that is no number, `Pair.SetBSON` makes
nil.

`Market` is the two collections.
-/

namespace Dex

open Lib

/-! ## Records -/

/-- `PairRecord`. -/
structure PairRecord where
  id : List Byte
  baseTokenSymbol : String
  baseTokenAddress : String
  baseTokenDecimals : Int
  quoteTokenSymbol : String
  quoteTokenAddress : String
  quoteTokenDecimals : Int
  active : Bool
  listed : Bool
  makeFee : String
  takeFee : String
  rank : Int
  createdAt : Time
  updatedAt : Time
  deriving DecidableEq, Repr

/-- `Pair.GetBSON`. -/
def PairValue.getBSON (eth : Eth) (p : PairValue) : PairRecord where
  id := p.id
  baseTokenSymbol := p.baseTokenSymbol
  baseTokenAddress := eth.hex p.baseTokenAddress
  baseTokenDecimals := p.baseTokenDecimals
  quoteTokenSymbol := p.quoteTokenSymbol
  quoteTokenAddress := eth.hex p.quoteTokenAddress
  quoteTokenDecimals := p.quoteTokenDecimals
  active := p.active
  listed := p.listed
  makeFee := bigString p.makeFee
  takeFee := bigString p.takeFee
  rank := p.rank
  createdAt := p.createdAt
  updatedAt := p.updatedAt

/-- `Pair.SetBSON`. A time comes out of the store in milliseconds. -/
def PairRecord.setBSON (eth : Eth) (r : PairRecord) : PairValue where
  id := r.id
  baseTokenSymbol := r.baseTokenSymbol
  baseTokenAddress := eth.hexToAddress r.baseTokenAddress
  baseTokenDecimals := r.baseTokenDecimals
  quoteTokenSymbol := r.quoteTokenSymbol
  quoteTokenAddress := eth.hexToAddress r.quoteTokenAddress
  quoteTokenDecimals := r.quoteTokenDecimals
  listed := r.listed
  active := r.active
  rank := r.rank
  makeFee := setString r.makeFee
  takeFee := setString r.takeFee
  createdAt := r.createdAt.stored
  updatedAt := r.updatedAt.stored

/-- `TokenRecord`. -/
structure TokenRecord where
  id : List Byte
  name : String
  symbol : String
  image : Image
  contractAddress : String
  decimals : Int
  active : Bool
  quote : Bool
  makeFee : String
  takeFee : String
  createdAt : Time
  updatedAt : Time

/-- `Token.GetBSON`; `Address` and `Listed` are not stored. -/
def TokenValue.getBSON (eth : Eth) (t : TokenValue) : TokenRecord where
  id := t.id
  name := t.name
  symbol := t.symbol
  image := t.image
  contractAddress := eth.hex t.contractAddress
  decimals := t.decimals
  active := t.active
  quote := t.quote
  makeFee := (t.makeFee.map toString).getD ""
  takeFee := (t.takeFee.map toString).getD ""
  createdAt := t.createdAt
  updatedAt := t.updatedAt

/-- A fee of a token: nil if there is no text. -/
def tokenFee (c : Codec) (s : String) : Option Int :=
  if s ≠ "" then some (toBigInt c.undefinedInt s) else none

/-- `Token.SetBSON`, into a new token. -/
def TokenRecord.setBSON (c : Codec) (r : TokenRecord) : TokenValue where
  id := r.id
  name := r.name
  symbol := r.symbol
  address := 0
  image := r.image
  contractAddress := if isHexAddress r.contractAddress then c.eth.hexToAddress r.contractAddress
    else 0
  decimals := r.decimals
  active := r.active
  listed := false
  quote := r.quote
  makeFee := tokenFee c r.makeFee
  takeFee := tokenFee c r.takeFee
  createdAt := r.createdAt.stored
  updatedAt := r.updatedAt.stored

/-! ## Collections -/

/-- The collections `pairs` and `tokens`. -/
structure Market where
  pairs : List PairRecord
  tokens : List TokenRecord

/-- The calls of `PairService.Create`: which of them fail, and the id and the times of a new
pair. -/
structure PairCalls where
  fails : Nat → Bool
  newObjectId : List Byte
  createdAt : Time
  updatedAt : Time

namespace Market

/-- `PairDao.GetByTokenAddress`. -/
def getByTokenAddress (eth : Eth) (m : Market) (baseToken quoteToken : Address) :
    Option PairValue :=
  (m.pairs.find? fun r =>
    r.baseTokenAddress = eth.hex baseToken ∧ r.quoteTokenAddress = eth.hex quoteToken).map
      (·.setBSON eth)

/-- `TokenDao.GetByAddress`. -/
def getByAddress (c : Codec) (m : Market) (a : Address) : Option TokenValue :=
  (m.tokens.find? fun r => r.contractAddress = c.eth.hex a).map (·.setBSON c)

/-- `PairDao.Create`. -/
def createPair (eth : Eth) (calls : PairCalls) (pair : PairValue) (m : Market) :
    PairValue × Market :=
  let pair := { pair with
    id := calls.newObjectId, createdAt := calls.createdAt, updatedAt := calls.updatedAt }
  (pair, { m with pairs := m.pairs ++ [pair.getBSON eth] })

end Market

end Dex
