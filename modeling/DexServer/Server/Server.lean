import DexServer.Engine.Engine
import DexServer.Operator.Operator
import DexServer.Operator.TxQueue
import DexServer.Services.Messages
import DexServer.Services.Order

/-!
# The server (`server/server.go`)

Each queue has a consumer that hands every message to a handler in a goroutine of its own, so the
message that is handled next may be any message of any queue. `Server.step` is one of these, a
request, or an error that the exchange contract reports; `Server.Step.execute` comes with what the
chain answers.
-/

namespace Dex

open Lib

structure Server where
  services : Services
  engine : Engine
  operator : Operator

namespace Server

inductive Step
  /-- a client submits an order -/
  | newOrder (r : RawOrder)
  /-- a client asks for a cancellation -/
  | cancelOrder (h : Hash)
  /-- the engine takes the `i`-th message of `order` -/
  | order (i : Nat)
  /-- the order service takes the `i`-th message of `engineResponse` -/
  | engineResponse (i : Nat)
  /-- the operator takes the `i`-th batch of `trades` -/
  | trades (i : Nat)
  /-- the `i`-th of the batches in the transaction queues is executed -/
  | execute (i : Nat) (v : Verdict)
  /-- the order service takes the `i`-th message of `TX_MESSAGES` -/
  | txMessage (i : Nat)
  /-- the operator takes an error of the exchange contract -/
  | errorEvent (e : ErrorEvent)

/-- The message `i` of a queue is handled in the state without it; without such a message nothing
happens. -/
def handle {α : Type} (queue : List α) (i : Nat) (take : World) (handler : α → M Unit) (env : Env)
    (w : World) : World :=
  match queue[i]? with
  | some m => (handler m env take).2
  | none => w

def step (s : Server) (env : Env) (w : World) : Step → World
  | .newOrder r => (s.services.newOrder r env w).2
  | .cancelOrder h => (Services.cancelOrder h env w).2
  | .order i => s.engine.deliver env i w
  | .engineResponse i =>
    handle w.engineResponses i { w with engineResponses := w.engineResponses.eraseIdx i }
      s.services.handleEngineResponse env w
  | .trades i =>
    handle w.tradeQueue i { w with tradeQueue := w.tradeQueue.eraseIdx i }
      s.operator.queueTrade env w
  | .execute i v =>
    handle w.txQueue i { w with txQueue := w.txQueue.eraseIdx i }
      (fun b => TxQueue.consume s.services.exchangeAddress v b.2) env w
  | .txMessage i =>
    handle w.txMessages i { w with txMessages := w.txMessages.eraseIdx i }
      Services.handleOperatorMessages env w
  -- `NewOperator` sets no `Broker`: there is no channel for the message
  | .errorEvent e => (Operator.handleEvent false e env w).2

end Server

end Dex
