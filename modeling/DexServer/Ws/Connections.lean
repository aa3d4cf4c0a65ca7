import DexServer.Types.Signature
import Mathlib.Data.List.AList

/-!
# The connections of an address (`ws/orders.go`, `ws/deposit.go`, `ws/main.go`)

The order socket and the deposit socket each have a map from the text of an address to a slice of
clients. A client is appended to the slice, and is removed from it in place, in the loop that ranges
over it. Map and slices may be nil.

`RegisterConnectionUnsubscribeHandler` keeps a handler for each client that is appended; `handlers`
are those of both sockets, in the order in which they were kept.
-/

namespace Dex

open Lib

/-- The order socket and the deposit socket. -/
inductive ConnectionKind
  | order
  | deposit
  deriving DecidableEq, Repr

/-- `OrderConnection`, `DepositConnection`: `none` is nil. -/
abbrev ConnectionSlice := Option (Slice Nat)

/-- `orderConnections`, `depositConnections`: `none` is nil. -/
abbrev ConnectionMap := Option (AList fun _ : String => ConnectionSlice)

namespace ConnectionMap

/-- `m[key]`. -/
def get (m : ConnectionMap) (key : String) : ConnectionSlice := ((m.getD ∅).lookup key).join

/-- The clients under a key. -/
def clients (m : ConnectionMap) (key : String) : List Nat := ((m.get key).map Slice.toList).getD []

/-- `m[key] = s`. -/
def set (m : ConnectionMap) (key : String) (s : ConnectionSlice) : Except Err ConnectionMap :=
  match m with
  | some m => .ok (some (m.insert key s))
  | none => .error (.panic "assignment to entry in nil map")

end ConnectionMap

/-- The variables of the package. -/
structure Connections where
  map : ConnectionKind → ConnectionMap
  handlers : List (Nat × ConnectionKind × Address)

/-- `isClientConnected`. -/
def isClientConnected (clients : Slice Nat) (client : Nat) : Bool := clients.toList.any (· = client)

/-- A round of the loop of an unsubscribe handler. The first `i` elements have room for those that
are appended to them, so that this happens in place: the loop, which ranges over the slice as it
was, reads on in the same array. -/
def removeAt (client : Nat) (s : Slice Nat) (i : Nat) : Except Err (Slice Nat) := do
  let c ← match s.array[i]? with
    | some c => pure c
    | none => .error (.panic "index out of range")
  if client = c then
    let front ← slicing s 0 i
    let back ← slicing s (i + 1) s.len
    pure (front.append back.toList [])
  else pure s

/-- The loop of an unsubscribe handler. -/
def removeClient (client : Nat) (s : Slice Nat) : Except Err (Slice Nat) :=
  (List.range s.len).foldlM (removeAt client) s

namespace Connections

/-- What `RegisterOrderConnection` and `RegisterDepositConnection` have in common; `spare` is what
an array that is allocated for one more client goes on with. -/
def register (eth : Eth) (k : ConnectionKind) (spare : List Nat) (a : Address) (c : Nat)
    (σ : Connections) : Except Err Connections := do
  let m : ConnectionMap := some ((σ.map k).getD ∅)
  let (m, handlers) ← match m.get (eth.hex a) with
    | none => do
      let m ← m.set (eth.hex a) (some (.ofList [c] []))
      pure (m, σ.handlers ++ [(c, k, a)])
    | some _ => pure (m, σ.handlers)
  let (m, handlers) ← match m.get (eth.hex a) with
    | none => pure (m, handlers)
    | some s =>
      if isClientConnected s c then pure (m, handlers)
      else do
        let m ← m.set (eth.hex a) (some (s.append [c] spare))
        pure (m, handlers ++ [(c, k, a)])
  pure ⟨Function.update σ.map k m, handlers⟩

/-- What the unsubscribe handlers have in common. -/
def unsubscribe (eth : Eth) (k : ConnectionKind) (a : Address) (client : Nat) (σ : Connections) :
    Except Err Connections := do
  let s ← match (σ.map k).get (eth.hex a) with
    | some s => do
      let s ← removeClient client s
      pure (some s)
    | none => pure none
  let m ← (σ.map k).set (eth.hex a) s
  pure { σ with map := Function.update σ.map k m }

def registerOrderConnection (eth : Eth) (spare : List Nat) : Address → Nat → Connections →
    Except Err Connections :=
  register eth .order spare

def orderSocketUnsubscribeHandler (eth : Eth) : Address → Nat → Connections →
    Except Err Connections :=
  unsubscribe eth .order

def registerDepositConnection (eth : Eth) (spare : List Nat) : Address → Nat → Connections →
    Except Err Connections :=
  register eth .deposit spare

def depositSocketUnsubscribeHandler (eth : Eth) : Address → Nat → Connections →
    Except Err Connections :=
  unsubscribe eth .deposit

end Connections

/-! ## Sequences of calls -/

inductive ConnectionOp
  | register (k : ConnectionKind) (a : Address) (c : Nat) (spare : List Nat)
  | unsubscribe (k : ConnectionKind) (a : Address) (c : Nat)
  deriving DecidableEq, Repr

namespace ConnectionOp

/-- The call that an operation is. -/
def call (eth : Eth) : ConnectionOp → Connections → Except Err Connections
  | register .order a c spare => Connections.registerOrderConnection eth spare a c
  | register .deposit a c spare => Connections.registerDepositConnection eth spare a c
  | unsubscribe .order a c => Connections.orderSocketUnsubscribeHandler eth a c
  | unsubscribe .deposit a c => Connections.depositSocketUnsubscribeHandler eth a c

end ConnectionOp

namespace Connections

/-- A call that panics leaves the variables as they are. -/
def step (eth : Eth) (σ : Connections) (op : ConnectionOp) : Connections :=
  (op.call eth σ).toOption.getD σ

/-- The package before the first call. -/
def start : Connections := ⟨fun _ => none, []⟩

def run (eth : Eth) (ops : List ConnectionOp) : Connections := ops.foldl (step eth) start

/-- The clients of an address. -/
def list (eth : Eth) (σ : Connections) (k : ConnectionKind) (a : Address) : List Nat :=
  (σ.map k).clients (eth.hex a)

end Connections

end Dex
