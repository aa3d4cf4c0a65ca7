import DexServer.Rabbitmq.Orders
import DexServer.Daos.Order
import DexServer.Services.Validator
import DexServer.Types.OrderJson

/-!
# Requests of clients (`services/order.go`)
-/

namespace Dex

open Lib

namespace Services

variable (s : Services)

/-- `NewOrder`. Nothing is looked up under the order's hash. -/
def newOrder (r : RawOrder) : M Unit := do
  let env ← Prog.ask
  let (o, signature) ← checked (r.validate s.exchangeAddress env.eth)
  -- the second verification: its error is logged and replaced
  let o ← checked ((o.verifySignature env.eth signature).mapError fun _ => "Invalid Signature")
  let p ← s.getByTokenAddress o.baseToken o.quoteToken
  let p ← checked (required p "Pair not found")
  checked (require (¬o.quoteAmount p < p.minQuoteAmount) "Order amount too low")
  let w ← Prog.get
  let o ← checked (o.process p (env.now w.calls))
  s.validateAvailableBalance o
  publishNewOrderMessage o

/-- `NewOrder` up to its last check. -/
def checkOrder (r : RawOrder) : M Order := do
  let env ← Prog.ask
  let (o, signature) ← checked (r.validate s.exchangeAddress env.eth)
  let o ← checked ((o.verifySignature env.eth signature).mapError fun _ => "Invalid Signature")
  let p ← s.getByTokenAddress o.baseToken o.quoteToken
  let p ← checked (required p "Pair not found")
  checked (require (¬o.quoteAmount p < p.minQuoteAmount) "Order amount too low")
  let w ← Prog.get
  let o ← checked (o.process p (env.now w.calls))
  s.validateAvailableBalance o
  pure o

theorem newOrder_eq (r : RawOrder) : s.newOrder r = s.checkOrder r >>= publishNewOrderMessage := by
  simp only [newOrder, checkOrder, Prog.bind_assoc, Prog.pure_bind]

end Services

/-- `CancelOrder`: the status is checked here, and not again when the message is handled. -/
def Services.cancelOrder (orderHash : Hash) : M Unit := do
  match ← getByHash orderHash with
  | none => Prog.throw (.msg "No order with corresponding hash")
  | some o =>
    if o.status = .FILLED ∨ o.status = .ERROR ∨ o.status = .CANCELLED then
      Prog.throw (.msg ("Cannot cancel order. Status is " ++ o.status.text))
    else publishCancelOrderMessage o

end Dex
