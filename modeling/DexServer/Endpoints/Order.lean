import DexServer.Services.Account
import DexServer.Services.Order

/-!
# The order endpoint (`endpoints/order.go`)

`handleNewOrder` reports what it finds and goes on, for an account that is blocked too.
`handleCancelOrder` goes on after each of its errors but the last. The signature only tells whose
connection to register: whom the order belongs to is not looked at.
-/

namespace Dex

open Lib

/-- `SendOrderErrorMessage`. -/
def sendOrderErrorMessage (client : Nat) (err : Err) (h : Hash) : M Unit :=
  Prog.modify fun w => { w with ws := w.ws ++ [.orderError client err h] }

/-- `RegisterOrderConnection`. -/
def registerOrderConnection (a : Address) (client : Nat) : M Unit :=
  Prog.modify fun w => { w with ws := w.ws ++ [.register a client] }

/-- The error of a result, or `nil`. -/
def errOf {ε α : Type} : Except ε α → Option ε
  | .ok _ => none
  | .error err => some err

/-- `if err != nil`: the client is told, and the handler goes on. -/
def reportError (client : Nat) (err : Option Err) (h : Hash) : M Unit :=
  match err with
  | some err => sendOrderErrorMessage client err h
  | none => pure ()

/-- A function that panics ends the handler. -/
def unpanicked {α : Type} (x : Except String α) : M α := .ofExcept (x.mapError .panic)

/-- `handleCancelOrder`. -/
def handleCancelOrder (client : Nat) (payload : Json) : M Unit := do
  let env ← Prog.ask
  let (oc, err) ← unpanicked (OrderCancel.unmarshalJSON env.eth env.byteOf payload)
  reportError client (err.map .msg) oc.hash
  let sender ← unpanicked (oc.getSenderAddress env.eth)
  reportError client ((errOf sender).map .msg) oc.hash
  -- on an error the address is the zero address
  registerOrderConnection (sender.toOption.getD 0) client
  let orderErr ← Prog.attempt (Services.cancelOrder oc.orderHash)
  reportError client (errOf orderErr) oc.hash

/-- `handleNewOrder`; `newOrder` is the `NewOrder` of the order service. An account that is blocked
is told so, and its order goes on. An account that could not be loaded is nil, and is
dereferenced. -/
def handleNewOrder (newOrder : RawOrder → M Unit) (client : Nat) : Json → M Unit
  | .null => Prog.throw (.panic "nil pointer dereference")
  | payload => do
    let env ← Prog.ask
    match ← unpanicked (RawOrder.unmarshalJSON env.codec payload) with
    | .error err => sendOrderErrorMessage client (.msg err) 0
    | .ok o => do
      let hash ← unpanicked (o.computeHash env.eth)
      let o := { o with hash := hash }
      registerOrderConnection o.userAddress client
      match ← attempted (findOrCreate o.userAddress) with
      | .error err => do
        sendOrderErrorMessage client err o.hash
        Prog.throw (.panic "nil pointer dereference")
      | .ok acc => do
        if acc.isBlocked then
          Prog.modify fun w => { w with ws := w.ws ++ [.clientError client "Account is blocked"] }
        let err ← attempted (newOrder o)
        reportError client (errOf err) o.hash

/-- `WebsocketEvent`, as the socket hands it over. -/
structure WebsocketEvent where
  type : String
  payload : Json

/-- `ws`: a message of another type is only logged. -/
def OrderEndpoint.ws (newOrder : RawOrder → M Unit) (client : Nat) (msg : WebsocketEvent) :
    M Unit :=
  if msg.type = "NEW_ORDER" then handleNewOrder newOrder client msg.payload
  else if msg.type = "CANCEL_ORDER" then handleCancelOrder client msg.payload
  else pure ()

/-! ## Rules -/

section
variable {α : Type} {env : Env} {w : World} {E : Err → World → Prop}

theorem wp_unpanicked {Q : α → World → Prop} {x : Except String α} (h : ∀ a, x = .ok a → Q a w)
    (hE : ∀ e, x = .error e → E (.panic e) w) : Prog.wp (unpanicked x) env w Q E := by
  cases x with
  | ok a => exact h a rfl
  | error e => exact hE e rfl

theorem wp_reportError {Q : Unit → World → Prop} {client : Nat} {err : Option Err} {h : Hash}
    (hQ : ∀ ws, Q () { w with ws := ws }) : Prog.wp (reportError client err h) env w Q E := by
  cases err with
  | none => exact hQ w.ws
  | some err => exact hQ _

end

end Dex
