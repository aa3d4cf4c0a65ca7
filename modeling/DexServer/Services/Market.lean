import DexServer.Daos.Pair
import DexServer.Services.Pair

/-!
# Creating pairs in the store (`services/pair.go`)

`Market.create` is `PairService.Create` on records. `Market.store` is what the server reads of them,
the `PairStore` that orders are checked against.
-/

namespace Dex

/-- The pair with what is stored of its tokens. The fees are not set. -/
def PairValue.filled (pair : PairValue) (bt st : TokenValue) : PairValue :=
  { pair with
    quoteTokenSymbol := st.symbol
    quoteTokenAddress := st.contractAddress
    quoteTokenDecimals := st.decimals
    baseTokenSymbol := bt.symbol
    baseTokenAddress := bt.contractAddress
    baseTokenDecimals := bt.decimals }

/-- `PairService.Create`. -/
def Market.create (c : Codec) (calls : PairCalls) (pair : PairValue) (m : Market) :
    Except PairError PairValue × Market :=
  if calls.fails 0 then (.error .store, m)
  else match m.getByTokenAddress c.eth pair.baseTokenAddress pair.quoteTokenAddress with
  | some _ => (.error .pairExists, m)
  | none =>
    if calls.fails 1 then (.error .store, m)
    else match m.getByAddress c pair.baseTokenAddress with
    | none => (.error .baseTokenNotFound, m)
    | some bt =>
      if calls.fails 2 then (.error .store, m)
      else match m.getByAddress c pair.quoteTokenAddress with
      | none => (.error .quoteTokenNotFound, m)
      | some st =>
        if ¬st.quote then (.error .quoteTokenInvalid, m)
        else if calls.fails 3 then (.error .store, m)
        else
          let (pair, m) := m.createPair c.eth calls (pair.filled bt st)
          (.ok pair, m)

/-! ## What is read of them -/

/-- The fields of a pair that orders are checked against. `Exp` of a negative number of decimals is
1. -/
def PairValue.raw (p : PairValue) : RawPair where
  baseTokenSymbol := p.baseTokenSymbol
  baseTokenAddress := p.baseTokenAddress
  baseTokenDecimals := p.baseTokenDecimals.toNat
  quoteTokenSymbol := p.quoteTokenSymbol
  quoteTokenAddress := p.quoteTokenAddress
  quoteTokenDecimals := p.quoteTokenDecimals.toNat
  makeFee := p.makeFee
  takeFee := p.takeFee

def TokenValue.token (t : TokenValue) : Token :=
  ⟨t.symbol, t.contractAddress, t.decimals.toNat, t.quote⟩

def Market.store (c : Codec) (m : Market) : PairStore where
  pairs := m.pairs.map fun r => (r.setBSON c.eth).raw
  tokens := m.tokens.map fun r => (r.setBSON c).token

end Dex
