import DexServer.Daos.Session

/-!
# Associations, the last blocks and the numbers of addresses (`daos/association.go`,
`daos/config.go`)
-/

namespace Dex

open Lib

/-- `GetAssociationByChainAddress`: nil if there is none. -/
def getAssociationByChainAddress (chain : Chain) (address : Address) :
    M (Option AddressAssociationRecord) :=
  call fun _ _ w => (.ok (w.associations.getByAddress chain address), w)

/-- `GetAssociationByChainAssociatedAddress`. -/
def getAssociationByChainAssociatedAddress (chain : Chain) (associatedAddress : Address) :
    M (Option AddressAssociationRecord) :=
  call fun _ _ w => (.ok (w.associations.getByAssociatedAddress chain associatedAddress), w)

/-- `db.Update` of the association of an address: it fails if there is none. -/
def updateAssociation (chain : Chain) (address : Address)
    (f : AddressAssociationRecord → AddressAssociationRecord) (hk : ∀ a, (f a).key = a.key)
    (ho : ∀ a, (f a).owner = a.owner) : M Unit := call fun _ _ w =>
  match w.associations.getByAddress chain address with
  | none => (.error .notFound, w)
  | some _ => (.ok (), { w with associations := w.associations.update chain address f hk ho })

/-- `SaveAssociationStatus`. -/
def saveAssociationStatus (chain : Chain) (address : Address) (status : DepositStatus) : M Unit :=
  updateAssociation chain address (fun a => { a with status }) (fun _ => rfl) (fun _ => rfl)

/-- `SaveDepositTransaction`: `$addToSet`. -/
def saveDepositTransaction (chain : Chain) (address : Address) (txEnvelope : String) : M Unit :=
  updateAssociation chain address
    (fun a => { a with txEnvelopes :=
      if txEnvelope ∈ a.txEnvelopes then a.txEnvelopes else a.txEnvelopes ++ [txEnvelope] })
    (fun _ => rfl) (fun _ => rfl)

/-- `SaveAssociation`. -/
def saveAssociation (record : AddressAssociationRecord) : M Unit := call fun _ _ w =>
  match w.associations.upsert record with
  | none => (.error .io, w)
  | some c => (.ok (), { w with associations := c })

/-- The key under which the last block of a chain is kept. -/
def lastBlockKey (chain : Chain) : Except String String :=
  if chain = .ethereum then .ok "ethereum_last_block"
  else if chain = .bitcoin then .ok "bitcoin_last_block"
  else .error "Invalid chain"

def BlockConfig.lastBlock (c : BlockConfig) (chain : Chain) : Option Nat :=
  if chain = .ethereum then c.ethereumLastBlock else c.bitcoinLastBlock

/-- `GetBlockToProcess`: whatever goes wrong, the key is reported as not found. -/
def getBlockToProcess (chain : Chain) : M Nat := do
  let key ← checked (lastBlockKey chain)
  let value ← Prog.attempt (call fun _ _ w =>
    match w.config.lastBlock chain with
    | some block => (.ok block, w)
    | none => (.error .notFound, w))
  match value with
  | .ok block => pure block
  | .error _ => Prog.throw (.msg ("Value not found for key: " ++ key))

/-- `SaveLastProcessedBlock`. -/
def saveLastProcessedBlock (chain : Chain) (block : Nat) : M Unit := do
  let _ ← checked (lastBlockKey chain)
  call fun _ _ w => (.ok (), { w with config :=
    if chain = .ethereum then { w.config with ethereumLastBlock := some block }
    else { w.config with bitcoinLastBlock := some block } })

/-- `getAddressIndexKey`. -/
def addressIndexKey (chain : Chain) : Except String String :=
  if chain = .ethereum then .ok "ethereum_address_index"
  else if chain = .bitcoin then .ok "bitcoin_address_index"
  else .error "Invalid chain"

/-- `IncrementAddressIndex`: `$inc`, which fails where there is no number to increment or where it
overflows. -/
def incrementAddressIndex (chain : Chain) : M Unit := do
  let _ ← checked (addressIndexKey chain)
  call fun _ _ w =>
    match w.addressIndices.get chain with
    | none => (.error .notFound, w)
    | some v =>
      if v.toInt = 2 ^ 63 - 1 then (.error .io, w)
      else (.ok (), { w with addressIndices := w.addressIndices.set chain (v + 1) })

/-- `GetAddressIndex`: the signed number is converted to an unsigned one. -/
def getAddressIndex (chain : Chain) : M Nat := do
  let key ← checked (addressIndexKey chain)
  let value ← Prog.attempt (call fun _ _ w =>
    match w.addressIndices.get chain with
    | some v => (.ok v.toNat, w)
    | none => (.error .notFound, w))
  match value with
  | .ok index => pure index
  | .error _ => Prog.throw (.msg ("Value not found for key: " ++ key))

end Dex
