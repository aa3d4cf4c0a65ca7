import DexServer.Endpoints.Deposit

/-!
# Addresses for deposits (`endpoints/deposit.go`)

A user asks over HTTP or over a websocket for an address to pay to. Unless an association of theirs
is pending, a new address is generated and stored with the user, in place of the one before.

Requests run in goroutines of their own. `AddressRequest.work` is the next step of one, a single
call to the store; one that nobody interrupts does what `giveAddress` says. `AddressDesk` is all of
them with the state of the server, `AddressOp` the steps they take next to each other.
-/

namespace Dex

open Lib

namespace DepositEndpoint

/-- A new address is generated and stored. -/
def newAddress (g : AddressGenerator) (chain : Chain) (associatedAddress : Address)
    (pairAddresses : Option PairAddresses) : M Address := do
  let (address, _index) ← DepositService.generateAddress g chain
  DepositService.saveAssociationByChainAddress chain address associatedAddress pairAddresses
  pure address

/-- What `handleGenerateAddress` and `handleNewDeposit` have in common; an error of the look-up is
dropped. -/
def giveAddress (g : AddressGenerator) (chain : Chain) (associatedAddress : Address)
    (pairAddresses : Option PairAddresses) : M Address := do
  match ← attempted (getAssociationByChainAssociatedAddress chain associatedAddress) with
  | .ok (some a) =>
    if a.status = .PENDING then pure a.address
    else newAddress g chain associatedAddress pairAddresses
  | _ => newAddress g chain associatedAddress pairAddresses

end DepositEndpoint

/-! ## Requests -/

/-- What a user asks for. A pointer that was not sent is nil. -/
structure AddressQuery where
  chain : Chain
  associatedAddress : Address
  pairAddresses : Option PairAddresses
  deriving DecidableEq, Repr

/-- The query of `handleGenerateAddress`; `body` is what the body of the request decodes to. -/
def handleGenerateAddress (eth : Eth) (chain userAddress : String) (body : Option PairAddresses) :
    Except String AddressQuery := do
  let pairAddresses ← required body "Invalid pair addresses"
  require (userAddress ≠ "") "address Parameter missing"
  require (isHexAddress userAddress = true) "Invalid User Address"
  pure ⟨⟨chain⟩, eth.hexToAddress userAddress, some pairAddresses⟩

/-- Where a request stands. -/
inductive AddressStage
  /-- before the look-up of the association -/
  | looking
  /-- before the index is incremented -/
  | incrementing
  /-- before the index is read back -/
  | reading
  /-- before the association is stored -/
  | saving (address : Address) (index : Nat)
  /-- the address has been returned -/
  | returned (address : Address)
  /-- an error has been returned -/
  | failed
  deriving DecidableEq, Repr

structure AddressRequest extends AddressQuery where
  stage : AddressStage
  deriving DecidableEq, Repr

namespace AddressRequest

/-- `GenerateAddress` from the second call on. -/
def readAddress (g : AddressGenerator) (chain : Chain) : M (Address × Nat) := do
  let index ← getAddressIndex chain
  let address ← checked (g.generate index)
  pure (address, index)

/-- The next step of a request. -/
def work (g : AddressGenerator) (r : AddressRequest) : M AddressStage :=
  match r.stage with
  | .looking => do
    match ← attempted (getAssociationByChainAssociatedAddress r.chain r.associatedAddress) with
    | .ok (some a) => if a.status = .PENDING then pure (.returned a.address) else pure .incrementing
    | _ => pure .incrementing
  | .incrementing => do
    match ← attempted (incrementAddressIndex r.chain) with
    | .ok () => pure .reading
    | .error _ => pure .failed
  | .reading => do
    match ← attempted (readAddress g r.chain) with
    | .ok (address, index) => pure (.saving address index)
    | .error _ => pure .failed
  | .saving address _ => do
    match ← attempted (DepositService.saveAssociationByChainAddress r.chain address
      r.associatedAddress r.pairAddresses) with
    | .ok () => pure (.returned address)
    | .error _ => pure .failed
  | .returned address => pure (.returned address)
  | .failed => pure .failed

end AddressRequest

/-! ## All requests -/

/-- A successful call of `GenerateAddress`. -/
structure GeneratedAddress where
  chain : Chain
  index : Nat
  address : Address
  deriving DecidableEq, Repr

/-- An address a user was given. -/
structure GivenAddress where
  chain : Chain
  user : Address
  address : Address
  deriving DecidableEq, Repr

structure AddressDesk where
  world : World
  requests : List AddressRequest
  /-- what `GenerateAddress` has returned -/
  generated : List GeneratedAddress
  /-- what users have been given -/
  given : List GivenAddress

inductive AddressOp
  /-- a request over HTTP -/
  | http (chain userAddress : String) (body : Option PairAddresses)
  /-- a message over a websocket; `none` is one that cannot be decoded -/
  | ws (payload : Option AddressQuery)
  /-- the `i`-th request takes its next step -/
  | work (i : Nat)
  /-- the status of an association is changed -/
  | status (chain : Chain) (address : Address) (status : DepositStatus)
  /-- the server ends -/
  | crash
  deriving DecidableEq, Repr

namespace AddressDesk

/-- A request begins, if it could be read. -/
def receive (σ : AddressDesk) (q : Option AddressQuery) : AddressDesk :=
  { σ with requests := σ.requests ++ (q.map fun q => ⟨q, .looking⟩).toList }

/-- What a step of the request `r` to `stage` has generated. -/
def newlyGenerated (r : AddressRequest) (stage : AddressStage) : List GeneratedAddress :=
  match r.stage, stage with
  | .reading, .saving address index => [⟨r.chain, index, address⟩]
  | _, _ => []

theorem newlyGenerated_eq_nil {r : AddressRequest} {stage : AddressStage}
    (h : ∀ address index, stage ≠ .saving address index) : newlyGenerated r stage = [] := by
  unfold newlyGenerated
  split
  · exact absurd rfl (h _ _)
  · rfl

/-- What a step of the request `r` to `stage` has given to the user. -/
def newlyGiven (r : AddressRequest) (stage : AddressStage) : List GivenAddress :=
  match r.stage, stage with
  | .looking, .returned address | .saving _ _, .returned address =>
    [⟨r.chain, r.associatedAddress, address⟩]
  | _, _ => []

theorem newlyGiven_eq_nil {r : AddressRequest} {stage : AddressStage}
    (h : ∀ address, stage ≠ .returned address) : newlyGiven r stage = [] := by
  unfold newlyGiven
  split
  · exact absurd rfl (h _)
  · exact absurd rfl (h _)
  · rfl

end AddressDesk

/-- A panic of a goroutine ends the server. -/
def AddressOp.step (g : AddressGenerator) (env : Env) (σ : AddressDesk) : AddressOp → AddressDesk
  | http chain userAddress body =>
    σ.receive (handleGenerateAddress env.eth chain userAddress body).toOption
  | ws payload => σ.receive payload
  | work i =>
    match σ.requests[i]? with
    | none => σ
    | some r =>
      match r.work g env σ.world with
      | (.ok stage, w) =>
        { world := w
          requests := σ.requests.set i { r with stage }
          generated := σ.generated ++ AddressDesk.newlyGenerated r stage
          given := σ.given ++ AddressDesk.newlyGiven r stage }
      | (.error _, w) => { σ with world := w, requests := [] }
  | status chain address s =>
    { σ with world := (saveAssociationStatus chain address s env σ.world).2 }
  | crash => { σ with requests := [] }

end Dex
