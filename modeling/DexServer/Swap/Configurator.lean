import DexServer.Endpoints.Deposit

/-!
# The configurator of accounts (`swap/tomochain`)

Each entry taken from the queue `deposit` is handled by `ConfigureAccount` in a goroutine of its
own, which waits for the user's association, submits a CreateOffer for the entry and then removes
the signer. `AccountConfigurator.work` is its next step; its stages are those the code reports, with
one more between the transfer of the tokens and what follows it.
-/

namespace Dex

open Lib

structure AccountConfigurator where
  enabled : Bool
  signerPublicKey : Address
  tokenPriceETH : String
  lockUnixTimestamp : Nat
  /-- `signer.Sign`, with the signer's private key -/
  sign : Hash → Except String (List Byte)

/-- `tomochain.Status`. -/
inductive Stage
  | creatingAccount
  | waitingForSigner
  | configuringAccount
  /-- within `configureAccountTransaction`: the tokens have been sent -/
  | transferring (a : AddressAssociationRecord) (tokenAmount : Int)
  | removingSigner
  | finished
  deriving DecidableEq, Repr

namespace AccountConfigurator

variable (ac : AccountConfigurator)

/-- `buildTransaction`. -/
def buildTransaction (source : String) (transactionType : TransactionType) (params : List String) :
    M AssociationTransaction := do
  let env ← Prog.ask
  let t : AssociationTransaction := ⟨source, [], 0, transactionType, params⟩
  let hash := t.computeHash env.eth
  let signature ← checked (ac.sign hash)
  pure { t with hash, signature }

/-- The price that goes with an asset code. -/
def tokenPrice : AssetCode → Except String String
  | .ETH => .ok ac.tokenPriceETH
  | code => .error ("Invalid intermediateAssetCode: $" ++ code.text)

/-- `configureAccountTransaction`, with the handler that transactions are submitted to. -/
def configureAccountTransaction {α : Type}
    (onSubmitTransaction : Chain → Address → AssociationTransaction → M α)
    (t : DepositTransaction) :
    M α := do
  let tokenPrice ← checked (ac.tokenPrice t.assetCode)
  let env ← Prog.ask
  let transaction ← ac.buildTransaction (env.eth.marshalAddress t.associatedAddress) .CreateOffer
    [t.amount, tokenPrice, t.pairName]
  onSubmitTransaction t.chain t.associatedAddress transaction

/-- `removeTemporarySigner`. -/
def removeTemporarySigner (e : DepositEndpoint) (t : DepositTransaction) : M Unit := do
  let env ← Prog.ask
  let transaction ←
    ac.buildTransaction (env.eth.marshalAddress t.associatedAddress) .RemoveSigner []
  e.onSubmitTransaction t.chain t.associatedAddress transaction

/-- `buildUnlockAccountTransaction`. -/
def buildUnlockAccountTransaction (t : DepositTransaction) : M AssociationTransaction := do
  let env ← Prog.ask
  ac.buildTransaction (env.eth.marshalAddress t.associatedAddress) .RemoveSigner
    [toString ac.lockUnixTimestamp]

/-- The next step of `ConfigureAccount`; a loop that waits is left or stays. `getAccount` reports
every account as existing, so none is created. -/
def work (e : DepositEndpoint) (t : DepositTransaction) : Stage → M Stage
  | .creatingAccount => do
    if ac.enabled = false then pure .waitingForSigner
    else
      match ← attempted (e.getAssociationByUserAddress t.chain t.associatedAddress) with
      | .error _ => pure .creatingAccount
      | .ok _ => pure .waitingForSigner
  | .waitingForSigner => do
    if ac.enabled = false then pure .configuringAccount
    else
      match ← attempted (e.getAssociationByUserAddress t.chain t.associatedAddress) with
      | .error _ => pure .waitingForSigner
      | .ok account =>
        if account = some ac.signerPublicKey then pure .configuringAccount
        else pure .waitingForSigner
  | .configuringAccount => do
    match ← attempted (ac.configureAccountTransaction e.submitOffer t) with
    | .error _ => pure .finished
    | .ok (some (a, tokenAmount)) => pure (.transferring a tokenAmount)
    | .ok none => pure .removingSigner
  | .transferring a tokenAmount => do
    match ← attempted (e.completeOffer a tokenAmount) with
    | .error _ => pure .finished
    | .ok () => pure .removingSigner
  | .removingSigner => do
    if ac.lockUnixTimestamp = 0 then
      let _ ← attempted (ac.removeTemporarySigner e t)
      pure .finished
    else
      match ← attempted (ac.buildUnlockAccountTransaction t) with
      | .error _ => pure .finished
      | .ok transaction =>
        let _ ← attempted (e.onExchangedTimelocked t.chain t.associatedAddress transaction)
        pure .finished
  | .finished => pure .finished

end AccountConfigurator

end Dex
