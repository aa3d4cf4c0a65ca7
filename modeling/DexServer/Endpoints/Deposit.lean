import DexServer.Services.Deposit
import DexServer.Services.Messages

/-!
# Deposits (`endpoints/deposit.go`)

The listeners hand over the transactions of the other chains; one to an address that was given to a
user is queued. For a queued entry the configurator of accounts submits transactions, of which a
CreateOffer pays tokens out.

A failed call is `Err.io`, whatever text it is wrapped in.
-/

namespace Dex

open Lib

/-- `contractsinterfaces.TokenTransfer`: the log of a transfer. -/
structure TransferEvent where
  receiver : Address
  value : Int
  deriving DecidableEq, Repr

structure DepositEndpoint where
  depositService : DepositService
  /-- `rlp.EncodeToBytes`, as a hexadecimal text -/
  encode : AssociationTransaction → Except String String
  /-- the events that have come in when `processTokenTransaction` looks at them, after call `n` -/
  transferEvents : Nat → List TransferEvent

namespace DepositEndpoint

variable (e : DepositEndpoint)

/-! ## New transactions -/

/-- `processTransaction`. -/
def processTransaction (a : AddressAssociationRecord) : M Unit :=
  DepositService.saveAssociationStatusByChainAddress a .PENDING

/-- `processNewTransaction`. -/
def processNewTransaction (queueTx : DepositTransaction) (a : AddressAssociationRecord) :
    M Unit := do
  if a.status = .SUCCESS then pure ()
  else
    processTransaction a
    DepositService.queueAdd queueTx

/-- The entry of an ethereum transaction. -/
def ethereumEntry (t : Ethereum.Transaction) (a : AddressAssociationRecord) :
    DepositTransaction where
  chain := .ethereum
  transactionID := t.hash
  assetCode := .ETH
  pairName := a.pairName
  amount := t.valueToWei
  associatedAddress := a.associatedAddress

/-- The entry of a bitcoin transaction. -/
def bitcoinEntry (t : Bitcoin.Transaction) (a : AddressAssociationRecord) (amount : String) :
    DepositTransaction where
  chain := .bitcoin
  transactionID := t.hash
  assetCode := .BTC
  pairName := a.pairName
  amount := amount
  associatedAddress := a.associatedAddress

/-- `OnNewBitcoinTransaction`. -/
def onNewBitcoinTransaction (t : Bitcoin.Transaction) : M Unit := do
  if t.valueSat < e.depositService.minimumValueSat then pure ()
  else
    let env ← Prog.ask
    let addressTo := env.eth.hexToAddress t.recipient
    match ← attempted (getAssociationByChainAddress .bitcoin addressTo) with
    | .error _ | .ok none => pure ()
    | .ok (some a) =>
      let amount ← e.depositService.valueToWei t
      processNewTransaction (bitcoinEntry t a amount) a

/-- `OnNewEthereumTransaction`. -/
def onNewEthereumTransaction (t : Ethereum.Transaction) : M Unit := do
  if t.valueWei < e.depositService.minimumValueWei then pure ()
  else
    let env ← Prog.ask
    let addressTo := env.eth.hexToAddress t.recipient
    match ← attempted (getAssociationByChainAddress .ethereum addressTo) with
    | .error _ | .ok none => pure ()
    | .ok (some a) => processNewTransaction (ethereumEntry t a) a

/-! ## Submitted transactions -/

/-- The association is marked as failed when `m` returns an error. -/
def orFailed {α : Type} (a : AddressAssociationRecord) (m : M α) : M α := do
  match ← attempted m with
  | .ok x => pure x
  | .error err =>
    let _ ← attempted (DepositService.saveAssociationStatusByChainAddress a .FAILED)
    Prog.throw err

/-- `processTokenTransaction` up to the transfer: the contract is bound, the events are subscribed
to, and the tokens are sent. -/
def transferTokens (a : AddressAssociationRecord) (quoteAmount : Int) : M Int := do
  call fun _ _ w => (.ok (), w)
  let tokenAmount ← e.depositService.getBaseTokenAmount a.pairName quoteAmount
  call fun _ _ w => (.ok (), w)
  call fun _ _ w => (.ok (), { w with
    transfers := w.transfers ++ [⟨a.baseTokenAddress, a.associatedAddress, tokenAmount⟩] })
  pure tokenAmount

/-- `processTokenTransaction` after the transfer: it waits for an event and looks at what came
in. -/
def checkTransfer (a : AddressAssociationRecord) (tokenAmount : Int) : M Unit := do
  let w ← Prog.get
  match e.transferEvents w.calls with
  | [parsedTransfer] => do
    checked (require (parsedTransfer.receiver = a.associatedAddress)
      "Event 'To' field is not correct")
    checked (require (parsedTransfer.value = tokenAmount) "Event 'Amount' field is not correct")
  | _ => Prog.throw (.msg "Events log has not the correct length")

/-- `OnSubmitTransaction` up to the transfer, if there is one. -/
def submitOffer (chain : Chain) (destination : Address) (t : AssociationTransaction) :
    M (Option (AddressAssociationRecord × Int)) := do
  let a ← deref (← getAssociationByChainAssociatedAddress chain destination)
  let transaction ← orFailed a (checked (e.encode t))
  orFailed a (saveDepositTransaction chain a.address transaction)
  if t.transactionType = .CreateOffer then
    let amount ← index t.params 0
    let quoteAmount ← orFailed a (checked (required (setString amount)
      ("Could not convert to token amount: " ++ amount)))
    let tokenAmount ← orFailed a (e.transferTokens a quoteAmount)
    pure (some (a, tokenAmount))
  else pure none

/-- `OnSubmitTransaction` after the transfer. -/
def completeOffer (a : AddressAssociationRecord) (tokenAmount : Int) : M Unit := do
  orFailed a (e.checkTransfer a tokenAmount)
  let _ ← attempted (DepositService.saveAssociationStatusByChainAddress a .SUCCESS)

/-- `OnSubmitTransaction`. -/
def onSubmitTransaction (chain : Chain) (destination : Address) (t : AssociationTransaction) :
    M Unit := do
  match ← e.submitOffer chain destination t with
  | some (a, tokenAmount) => e.completeOffer a tokenAmount
  | none => pure ()

/-! ## The other events of the configurator -/

/-- `getAssociationByUserAddress`: the public key of the association, which is the signer's. -/
def getAssociationByUserAddress (chain : Chain) (publicKey : Address) : M (Option Address) := do
  let record ← getAssociationByChainAssociatedAddress chain publicKey
  pure (record.map fun _ => e.depositService.signerPublicKey)

/-- `OnExchangedTimelocked`. The association is looked up by the user's address here. -/
def onExchangedTimelocked (chain : Chain) (publicKey : Address) (t : AssociationTransaction) :
    M Unit := do
  let some _ ← e.getAssociationByUserAddress chain publicKey | pure ()
  let transaction ← checked (e.encode t)
  saveDepositTransaction chain publicKey transaction

end DepositEndpoint

end Dex
