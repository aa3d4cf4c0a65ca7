import DexServer.Daos.Session

/-!
# Publishing (`rabbitmq/orders.go`, `rabbitmq/engine.go`)

A message carries its order or matches by value: it is serialised when it is published. The
serialisation itself is not modelled.
-/

namespace Dex

open Lib

/-- `PublishOrder`: append to the queue `order`. -/
def publishOrder (m : Message) : M Unit := call fun _ _ w =>
  (.ok (), { w with orderQueue := w.orderQueue ++ [m] })

/-- `PublishNewOrderMessage`. -/
def publishNewOrderMessage (o : Order) : M Unit := publishOrder (.NEW_ORDER o)

/-- `PublishCancelOrderMessage`. -/
def publishCancelOrderMessage (o : Order) : M Unit := publishOrder (.CANCEL_ORDER o)

/-- `PublishInvalidateMakerOrdersMessage`. -/
def publishInvalidateMakerOrdersMessage (m : Matches) : M Unit :=
  publishOrder (.INVALIDATE_MAKER_ORDERS m)

/-- `PublishEngineResponse`. -/
def publishEngineResponse (res : EngineResponse) : M Unit := call fun _ _ w =>
  (.ok (), { w with engineResponses := w.engineResponses ++ [res] })

/-- `PublishTrades`. -/
def publishTrades (m : Matches) : M Unit := call fun _ _ w =>
  (.ok (), { w with tradeQueue := w.tradeQueue ++ [m] })

end Dex
