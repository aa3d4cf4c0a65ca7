import DexServer.Types.Operator
import Mathlib.Data.List.AList

/-!
# The sockets of the channels (`ws/orderbook.go`, `ws/raw_orderbook.go`, `ws/trades.go`,
`ws/ohlcv.go`)

The four sockets keep the clients of each channel id, and for each client the ids it has subscribed
to. The second list only grows: an id stays in it when the client unsubscribes from it, and may be
in it more than once.

Each socket is a variable of the package, which its `Get…Socket` sets when it is called for the
first time. `TradeSocket.BroadcastMessage` sends in a goroutine, and to the clients of that
variable, not of its receiver: a broadcast of the model is what the goroutine does when it runs.
-/

namespace Dex

/-- `*Client`: `none` is nil. -/
abbrev ClientRef := Option Nat

/-- The order in which the entries of a map are ranged over. -/
structure MapRange where
  range : {α : Type} → List α → List α
  perm : ∀ {α : Type} (l : List α), (range l).Perm l

/-- `types.SubscriptionEvent`. -/
inductive SubscriptionEvent
  | SUBSCRIBE
  | UNSUBSCRIBE
  | Fetch
  | UPDATE
  | ERROR
  | SUCCESS_EVENT
  | INIT
  | CANCEL
  deriving DecidableEq, Repr

/-- A message that is sent to a client. -/
structure ClientMessage (P : Type) where
  client : ClientRef
  channel : String
  type : SubscriptionEvent
  payload : P

/-- The fields of `OrderBookSocket`, `RawOrderBookSocket`, `TradeSocket` and `OHLCVSocket`. -/
structure ChannelSocket where
  subscriptions : AList fun _ : String => AList fun _ : ClientRef => Bool
  subscriptionsList : AList fun _ : ClientRef => List String

namespace ChannelSocket

/-- `New…Socket`. -/
def new : ChannelSocket := ⟨∅, ∅⟩

/-- The map `subscriptions[channelID]`; a nil map reads as an empty one. -/
def clients (s : ChannelSocket) (channelID : String) : AList fun _ : ClientRef => Bool :=
  (s.subscriptions.lookup channelID).getD ∅

/-- `Subscribe`. -/
def subscribe (channelID : String) (c : ClientRef) (s : ChannelSocket) :
    Except String ChannelSocket :=
  if c = none then .error "No connection found"
  else .ok {
    subscriptions := s.subscriptions.insert channelID ((s.clients channelID).insert c true)
    subscriptionsList := s.subscriptionsList.insert c
      ((s.subscriptionsList.lookup c).getD [] ++ [channelID]) }

/-- `UnsubscribeChannel`. -/
def unsubscribeChannel (channelID : String) (c : ClientRef) (s : ChannelSocket) : ChannelSocket :=
  if (s.clients channelID).lookup c = some true then
    { s with subscriptions :=
      s.subscriptions.insert channelID (((s.clients channelID).insert c false).erase c) }
  else s

/-- `Unsubscribe`. -/
def unsubscribe (c : ClientRef) (s : ChannelSocket) : ChannelSocket :=
  match s.subscriptionsList.lookup c with
  | none => s
  | some channelIDs => channelIDs.foldl (fun s id => s.unsubscribeChannel id c) s

/-- The loop of a broadcast: `SendUpdateMessage` to the clients whose status is true. -/
def updates {P : Type} (r : MapRange) (channel : String) (channelID : String) (p : P)
    (s : ChannelSocket) : List (ClientMessage P) :=
  ((r.range (s.clients channelID).entries).filter (·.2)).map fun e => ⟨e.1, channel, .UPDATE, p⟩

end ChannelSocket

/-! ## The package -/

/-- The four sockets. -/
inductive SocketKind
  | orderBook
  | rawOrderBook
  | trade
  | ohlcv
  deriving DecidableEq, Repr

def SocketKind.channel : SocketKind → String
  | orderBook => "orderbook"
  | rawOrderBook => "raw_orderbook"
  | trade => "trades"
  | ohlcv => "ohlcv"

/-- The variables `orderbook`, `rawOrderBookSocket`, `tradeSocket` and `ohlcvSocket`. -/
abbrev ChannelSockets := SocketKind → Option ChannelSocket

namespace ChannelSockets

/-- `Get…Socket`: the socket, and the variables after the call. -/
def get (σ : ChannelSockets) (k : SocketKind) : ChannelSocket × ChannelSockets :=
  match σ k with
  | some s => (s, σ)
  | none => (.new, Function.update σ k (some .new))

/-- A broadcast to the clients of the socket. -/
def broadcastOn {P : Type} (r : MapRange) (k : SocketKind) (channelID : String) (p : P)
    (σ : ChannelSockets) : Except Err (List (ClientMessage P)) :=
  .ok ((σ.get k).1.updates r k.channel channelID p)

end ChannelSockets

section
variable {P : Type} (r : MapRange)

/-- `OrderBookSocket.BroadcastMessage`. -/
def OrderBookSocket.broadcastMessage : String → P → ChannelSockets →
    Except Err (List (ClientMessage P)) :=
  ChannelSockets.broadcastOn r .orderBook

/-- `RawOrderBookSocket.BroadcastMessage`. -/
def RawOrderBookSocket.broadcastMessage : String → P → ChannelSockets →
    Except Err (List (ClientMessage P)) :=
  ChannelSockets.broadcastOn r .rawOrderBook

/-- `OHLCVSocket.BroadcastOHLCV`. -/
def OHLCVSocket.broadcastOHLCV : String → P → ChannelSockets →
    Except Err (List (ClientMessage P)) :=
  ChannelSockets.broadcastOn r .ohlcv

/-- `TradeSocket.BroadcastMessage`: the receiver is only used to send. -/
def TradeSocket.broadcastMessage (channelID : String) (p : P) (σ : ChannelSockets) :
    Except Err (List (ClientMessage P)) :=
  match (σ.get .trade).2 .trade with
  | some tradeSocket => .ok (tradeSocket.updates r SocketKind.trade.channel channelID p)
  | none => .error (.panic "nil pointer dereference")

/-- The broadcast of a socket. -/
def ChannelSockets.broadcast : SocketKind → String → P → ChannelSockets →
    Except Err (List (ClientMessage P))
  | .orderBook => OrderBookSocket.broadcastMessage r
  | .rawOrderBook => RawOrderBookSocket.broadcastMessage r
  | .trade => TradeSocket.broadcastMessage r
  | .ohlcv => OHLCVSocket.broadcastOHLCV r

end

/-- A call on a socket. -/
inductive ChannelOp
  | subscribe (channelID : String) (c : ClientRef)
  | unsubscribeChannel (channelID : String) (c : ClientRef)
  | unsubscribe (c : ClientRef)
  deriving DecidableEq, Repr

/-- What a call does to its socket; an error of `Subscribe` leaves it as it is. -/
def ChannelSocket.step (s : ChannelSocket) : ChannelOp → ChannelSocket
  | .subscribe channelID c => ((s.subscribe channelID c).toOption).getD s
  | .unsubscribeChannel channelID c => s.unsubscribeChannel channelID c
  | .unsubscribe c => s.unsubscribe c

/-- A call on the socket that `Get…Socket` returns. -/
def ChannelSockets.step (σ : ChannelSockets) (op : SocketKind × ChannelOp) : ChannelSockets :=
  Function.update (σ.get op.1).2 op.1 (some ((σ.get op.1).1.step op.2))

/-- The package before the first call. -/
def ChannelSockets.start : ChannelSockets := fun _ => none

def ChannelSockets.run (ops : List (SocketKind × ChannelOp)) : ChannelSockets :=
  ops.foldl step start

end Dex
