import DexServer.Types.Json
import DexServer.Types.Order

/-!
# Cancellation requests (`types/order_cancel.go`)

A payload is JSON a client sent, already decoded once by the websocket. `UnmarshalJSON` returns an
error for a missing hash and panics on every value of an unexpected type, a missing signature
included: a panic is the outer error of `unmarshalJSON`, and an error of the function leaves the
fields set so far.
-/

namespace Dex

/-- `OrderCancel`. The three fields are the client's, independently of each other. -/
structure OrderCancel where
  orderHash : Hash := 0
  hash : Hash := 0
  signature : Option Signature := none
  deriving DecidableEq, Repr

namespace OrderCancel

/-- The signature of `UnmarshalJSON`. -/
def parsedSignature : Eth → (Decimal → Byte) → Json → Except String Signature :=
  Json.asSignature "v" "r" "s"

/-- `UnmarshalJSON`: the request, and the error returned with it. -/
def unmarshalJSON (eth : Eth) (byteOf : Decimal → Byte) (b : Json) :
    Except String (OrderCancel × Option String) :=
  match b.toMap with
  | .error err => .ok ({}, some err)
  | .ok parsed =>
    match Json.get parsed "orderHash" with
    | .null => .ok ({}, some "Order Hash is missing")
    | orderHash => do
      let oc : OrderCancel := { orderHash := eth.hexToHash (← orderHash.asString) }
      match Json.get parsed "hash" with
      | .null => .ok (oc, some "Hash is missing")
      | hash =>
        let oc := { oc with hash := eth.hexToHash (← hash.asString) }
        let sig ← parsedSignature eth byteOf (Json.get parsed "signature")
        .ok ({ oc with signature := some sig }, none)

/-- The signature is set last: it is missing exactly when an error is returned. -/
theorem unmarshalJSON_signature {eth : Eth} {byteOf : Decimal → Byte} {b : Json} {oc : OrderCancel}
    {err : Option String} (h : unmarshalJSON eth byteOf b = .ok (oc, err)) :
    oc.signature.isSome ↔ err = none := by
  unfold unmarshalJSON at h
  split at h
  · cases h
    simp
  · split at h
    · cases h
      simp
    · simp only [bind, Except.bind] at h
      split at h
      · cases h
      · split at h
        · cases h
          simp
        · split at h
          · cases h
          · split at h
            · cases h
            · cases h
              simp

/-- `GetSenderAddress`: who signed the client's `Hash`. Without a signature it panics. -/
def getSenderAddress (eth : Eth) (oc : OrderCancel) : Except String (Except String Address) :=
  match oc.signature with
  | some sig => .ok (sig.verify eth (signedMessage eth oc.hash))
  | none => .error "invalid memory address or nil pointer dereference"

/-- `ComputeHash`. -/
def computeHash (eth : Eth) (oc : OrderCancel) : Hash := eth.keccak256 oc.orderHash.bytes

/-- The signature is the owner's of `o`, over the hash of this very request. -/
def Authorises (eth : Eth) (oc : OrderCancel) (o : Order) : Prop :=
  ∃ sig ∈ oc.signature, sig.verify eth (signedMessage eth (oc.computeHash eth)) = .ok o.userAddress

instance (eth : Eth) (oc : OrderCancel) (o : Order) : Decidable (oc.Authorises eth o) :=
  match h : oc.signature with
  | none => isFalse (by simp [Authorises, h])
  | some sig => decidable_of_iff
      (sig.verify eth (signedMessage eth (oc.computeHash eth)) = .ok o.userAddress)
      (by simp [Authorises, h])

end OrderCancel

end Dex
