import DexServer.Daos.Association
import DexServer.Services.Messages
import DexServer.Types.Json
import DexServer.Types.RawOrder

/-!
# The deposit service (`services/deposit.go`)

The base tokens a deposit buys are computed from the best bid of the pair, or from the last price of
an exchange outside (`utils/binance`).
-/

namespace Dex

open Lib

/-- A pair with the decimals of its quote token. -/
structure TokenPair extends Pair where
  quoteTokenDecimals : Nat
  deriving DecidableEq, Repr

/-- `PricepointMultiplier`. -/
def TokenPair.pricepointMultiplier (p : TokenPair) : Int :=
  10 ^ p.baseTokenDecimals * 10 ^ 9 / 10 ^ p.quoteTokenDecimals

/-- What the deposit service is configured with, and what it asks. -/
structure DepositService where
  minimumValueWei : Int
  minimumValueSat : Int
  signerPublicKey : Address
  /-- the `pairs` collection -/
  pairs : List TokenPair
  /-- the prices of the rows that `GetSideOrderBook(pair, BUY, -1, 1)` answers call `n` with, given
  the orders of the store -/
  sideOrderBook : Nat → List Order → TokenPair → List Int
  /-- the answer of the exchange to call `n`; one without a price panics -/
  lastPrice : Nat → Except Err String
  /-- `big.Rat.SetString` -/
  ratOf : String → Option Rat
  /-- `strings.ToUpper`, by the tables of Unicode -/
  toUpper : List Char → String

/-- `ethereum.AddressGenerator`, which serves both chains. -/
structure AddressGenerator where
  /-- the address of the child key of the master public key with that number -/
  childAddress : BitVec 32 → Except String Address

/-- `Generate`: of the index only the lower 32 bits are used. -/
def AddressGenerator.generate (g : AddressGenerator) (index : Nat) : Except String Address :=
  g.childAddress (.ofNat 32 index)

namespace DepositService

variable (s : DepositService)

/-- `GenerateAddress`. -/
def generateAddress (g : AddressGenerator) (chain : Chain) : M (Address × Nat) := do
  incrementAddressIndex chain
  let index ← getAddressIndex chain
  let address ← checked (g.generate index)
  pure (address, index)

/-- `SaveAssociationByChainAddress`. -/
def saveAssociationByChainAddress (chain : Chain) (address : Address) (associatedAddress : Address)
    (pairAddresses : Option PairAddresses) : M Unit := do
  let pairAddresses ← deref pairAddresses
  saveAssociation ⟨chain, address, .PENDING, associatedAddress, [], pairAddresses.name,
    pairAddresses.baseToken⟩

/-- `QueueAdd`: `PublishDepositTransaction`. -/
def queueAdd (t : DepositTransaction) : M Unit := call fun _ _ w =>
  (.ok (), { w with depositQueue := w.depositQueue ++ [t] })

/-- `SaveAssociationStatusByChainAddress`; what is sent to the user's websockets is left out. -/
def saveAssociationStatusByChainAddress (a : AddressAssociationRecord) (status : DepositStatus) :
    M Unit :=
  saveAssociationStatus a.chain a.address status

/-- `binance.GetLastPrice`: its arguments are not looked at. -/
def getLastPrice (_baseTokenSymbol _quoteTokenSymbol : String) : M String := call fun _ n w =>
  (s.lastPrice n, w)

/-- `getTokenAmountFromOracle`. -/
def getTokenAmountFromOracle (baseTokenSymbol quoteTokenSymbol : String) (quoteAmount : Int) :
    M Int := do
  match ← attempted (s.getLastPrice baseTokenSymbol quoteTokenSymbol) with
  | .error _ => pure quoteAmount
  | .ok lastPrice =>
    match setString lastPrice with
    | none => pure quoteAmount
    | some exchangeRate => pure (quoteAmount * exchangeRate)

/-- `GetBaseTokenAmount`. -/
def getBaseTokenAmount (pairName : String) (quoteAmount : Int) : M Int := do
  match pairName.toList.splitOn '/' with
  | [base, quote] =>
    let baseTokenSymbol := s.toUpper base
    let quoteTokenSymbol := s.toUpper quote
    if baseTokenSymbol = quoteTokenSymbol then pure quoteAmount
    else
      let pair ← call fun _ _ w => (.ok (s.pairs.find? fun p =>
        p.baseTokenSymbol = baseTokenSymbol ∧ p.quoteTokenSymbol = quoteTokenSymbol), w)
      match pair with
      | none => s.getTokenAmountFromOracle baseTokenSymbol quoteTokenSymbol quoteAmount
      | some pair =>
        let bids ← call fun _ n w => (.ok (s.sideOrderBook n w.orders.docs pair), w)
        match bids with
        | [] => s.getTokenAmountFromOracle baseTokenSymbol quoteTokenSymbol quoteAmount
        | pricepoint :: _ =>
          if pricepoint = 0 then Prog.throw (.msg "Pricepoint is zero")
          else pure (quoteAmount * pair.pricepointMultiplier / pricepoint)
  | _ => Prog.throw (.msg ("Pair name is wrong format: " ++ pairName))

/-- `bitcoin.Transaction.ValueToWei`: no text if there is no rate. A rate of zero is divided by. -/
def valueToWei (t : Bitcoin.Transaction) : M String := do
  match ← attempted (s.getLastPrice "ETH" "BTC") with
  | .error _ => pure ""
  | .ok lastPrice =>
    match s.ratOf lastPrice with
    | none => pure ""
    | some exchangeRate =>
      if exchangeRate = 0 then Prog.throw (.panic "division by zero")
      else pure (t.weiAt exchangeRate)

end DepositService

end Dex
