import DexServer.Endpoints.Order

/-!
# The order sockets (`ws/orders.go`, `ws/connection.go`)

A client is registered for addresses, and receives what is sent to them until its connection is
closed. The handlers run in goroutines of their own; a panic ends the server and the connections
with it.
-/

namespace Dex

/-- `orderConnections`: the clients of each address. The keys `a.Hex()` are one to one. -/
abbrev OrderConnections := Address → List Nat

namespace OrderConnections

/-- `RegisterOrderConnection`. -/
def register (m : OrderConnections) (a : Address) (client : Nat) : OrderConnections := fun b =>
  if b = a ∧ client ∉ m a then m a ++ [client] else m b

/-- `OrderSocketUnsubscribeHandler`. -/
def unsubscribe (m : OrderConnections) (a : Address) (client : Nat) : OrderConnections := fun b =>
  if b = a then (m a).erase client else m b

end OrderConnections

structure Sockets where
  world : World
  connections : OrderConnections
  /-- the messages that have come in, each with its client -/
  received : List (Nat × WebsocketEvent)
  /-- the clients to which a message for an address has been sent, with the address -/
  delivered : List (Nat × Address)

namespace Sockets

/-- `SendOrderMessage`. -/
def sendOrderMessage (σ : Sockets) (a : Address) : Sockets :=
  { σ with delivered := σ.delivered ++ (σ.connections a).map fun client => (client, a) }

/-- What a handler does on the sockets. -/
def apply (σ : Sockets) : WsEvent → Sockets
  | .register a client => { σ with connections := σ.connections.register a client }
  | .order _ a _ | .matched _ a _ | .error a => σ.sendOrderMessage a
  | .orderError _ _ _ | .clientError _ _ => σ

end Sockets

inductive SocketOp
  /-- a message on the order channel -/
  | message (client : Nat) (msg : WebsocketEvent)
  /-- the services send a message to an address -/
  | send (a : Address)
  /-- what else happens in the server -/
  | other (w : World)
  /-- a handler of `closeConnection` -/
  | unsubscribe (a : Address) (client : Nat)
  /-- the server ends and starts again -/
  | crash

def SocketOp.step (s : Services) (env : Env) (σ : Sockets) : SocketOp → Sockets
  | message client msg =>
    match OrderEndpoint.ws s.newOrder client msg env { σ.world with ws := [] } with
    | (x, w) =>
      let σ := w.ws.foldl Sockets.apply { σ with
        world := w
        received := σ.received ++ [(client, msg)] }
      match x with
      | .error (.panic _) => { σ with connections := fun _ => [] }
      | _ => σ
  | send a => σ.sendOrderMessage a
  | other w => { σ with world := w }
  | unsubscribe a client => { σ with connections := σ.connections.unsubscribe a client }
  | crash => { σ with connections := fun _ => [] }

end Dex
