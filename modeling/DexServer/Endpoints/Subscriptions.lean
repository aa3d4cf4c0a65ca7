import DexServer.Endpoints.Order
import DexServer.Services.Ohlcv
import DexServer.Ws.Channels
import DexServer.Ws.Connections

/-!
# Subscriptions (`endpoints/orderbook.go`, `endpoints/trade.go`, `endpoints/ohlcv.go`,
`ws/client.go`)

A client sends `SUBSCRIBE` and `UNSUBSCRIBE` on four channels, and is connected to its addresses by
what it sends on the channels of the orders and the deposits. When its connection is closed, the
handlers that `RegisterConnectionUnsubscribeHandler` has kept for it are started, each in a
goroutine of its own.

A message is handled in a goroutine too. What a `SUBSCRIBE` does after `Subscribe`, to keep the
handler and to send the first data, is a step of its own (`Hub.Step.opened`), so that the connection
may be closed in between. A message that is sent is taken; `SendMessage` waits for that.

`Answers` are what the queries of the services come to. What `encoding/json` makes of a payload
other than `null` is a parameter.
-/

namespace Dex

open Lib

/-! ## Channel ids (`utils/common.go`) -/

def getPairKey (eth : Eth) (bt qt : Address) : String := (eth.hex bt ++ "::" ++ eth.hex qt).toLower

def getTradeChannelID (eth : Eth) (bt qt : Address) : String :=
  (eth.hex bt ++ "::" ++ eth.hex qt).toLower

def getOrderBookChannelID (eth : Eth) (bt qt : Address) : String :=
  (eth.hex bt ++ "::" ++ eth.hex qt).toLower

def getOHLCVChannelID (eth : Eth) (bt qt : Address) (unit : String) (duration : Int) : String :=
  getPairKey eth bt qt ++ "::" ++ toString duration ++ "::" ++ unit

/-! ## Messages -/

/-- `SubscriptionPayload`, as far as it is read. -/
structure SubscriptionPayload where
  quoteToken : Address
  baseToken : Address
  fromTime : Int
  toTime : Int
  duration : Int
  units : String
  deriving DecidableEq, Repr

/-- The payload that `encoding/json` reads from a value, and its error. -/
abbrev PayloadDecoder := Json → SubscriptionPayload × Option String

/-- `json.Unmarshal` into a pointer that is nil: `null` leaves it so, an error does not. -/
def PayloadDecoder.unmarshal (decode : PayloadDecoder) : Json →
    Option SubscriptionPayload × Option String
  | .null => (none, none)
  | v => (some (decode v).1, (decode v).2)

/-- What a query of a service comes to. -/
inductive Fetched
  | found (data : Json)
  | failed (err : String)
  | panics (text : String)

/-- The queries of the services. -/
structure Answers where
  getOrderBook : Address → Address → Fetched
  getRawOrderBook : Address → Address → Fetched
  getSortedTrades : Address → Address → Nat → Fetched
  getOHLCV : List PairTokens → Int → String → Int → Int → Fetched

/-- `map[string]string{"Message": text}`. -/
def Json.message (text : String) : Json := .obj [("Message", .str text)]

/-- `t.AddDate(-1, 0, 0)` in UTC: a day that the month does not have is carried into the next
one. -/
def Time.yearBefore (t : Time) : Time :=
  let n := t / (24 * 60 * 60 * 10 ^ 9)
  (monthStart (monthOf n - 12) + ((Date.ofNumber n).day - 1)) * (24 * 60 * 60 * 10 ^ 9) +
  t % (24 * 60 * 60 * 10 ^ 9)

/-! ## The package `ws`, and the goroutines -/

/-- An unsubscribe handler. -/
inductive UnsubscribeHandler
  /-- `UnsubscribeChannelHandler(id)`, `UnsubscribeHandler(id)` of the order book -/
  | channel (k : SocketKind) (id : String)
  /-- `OrderSocketUnsubscribeHandler(a)`, `DepositSocketUnsubscribeHandler(a)` -/
  | connection (k : ConnectionKind) (a : Address)
  deriving DecidableEq, Repr

/-- A `SUBSCRIBE` that has subscribed the client, and goes on with `data`. -/
structure Opening where
  client : Nat
  kind : SocketKind
  id : String
  data : Json

/-- `unsubscribeHandlers` are `handlers` and those of `connections`; `closing` are the handlers that
have been started and have not run. -/
structure Hub where
  sockets : ChannelSockets
  connections : Connections
  handlers : List (Nat × SocketKind × String)
  opening : List Opening
  closing : List (Nat × UnsubscribeHandler)
  sent : List (ClientMessage Json)

namespace Hub

def start : Hub := ⟨.start, .start, [], [], [], []⟩

/-- `SendMessage`. -/
def sendMessage (k : SocketKind) (c : Nat) (type : SubscriptionEvent) (p : Json) (h : Hub) : Hub :=
  { h with sent := h.sent ++ [⟨some c, k.channel, type, p⟩] }

/-- `SendErrorMessage`. -/
def sendErrorMessage (k : SocketKind) (c : Nat) (p : Json) (h : Hub) : Hub :=
  h.sendMessage k c .ERROR p

/-- A call on a socket. -/
def onSocket (k : SocketKind) (op : ChannelOp) (h : Hub) : Hub :=
  { h with sockets := h.sockets.step (k, op) }

/-- The handlers that are kept for a client. -/
def unsubscribeHandlers (h : Hub) (c : Nat) : List UnsubscribeHandler :=
  ((h.handlers.filter (·.1 = c)).map fun x => .channel x.2.1 x.2.2) ++
    (h.connections.handlers.filter (·.1 = c)).map fun x => .connection x.2.1 x.2.2

/-- `closeConnection`. -/
def closeConnection (c : Nat) (h : Hub) : Hub :=
  { h with closing := h.closing ++ (h.unsubscribeHandlers c).map fun fn => (c, fn) }

/-- What the services do to subscribe a client, up to the call of `Subscribe`; `wrap` is what they
make of its error. -/
def subscribe (k : SocketKind) (id : String) (wrap : String → Json) (fetched : Fetched) (c : Nat)
    (h : Hub) : Except Err Hub :=
  match fetched with
  | .panics text => .error (.panic text)
  | .failed err => .ok (h.sendErrorMessage k c (.str err))
  | .found data =>
    match (h.sockets.get k).1.subscribe id (some c) with
    | .error err => .ok (h.sendErrorMessage k c (wrap err))
    | .ok _ =>
      let h := h.onSocket k (.subscribe id (some c))
      .ok { h with opening := h.opening ++ [⟨c, k, id, data⟩] }

/-- What they do then. -/
def opened (x : Opening) (h : Hub) : Hub :=
  { h with handlers := h.handlers ++ [(x.client, x.kind, x.id)] }.sendMessage x.kind x.client
    .INIT x.data

end Hub

/-! ## The services -/

section
variable (eth : Eth) (db : Answers) (c : Nat)

def OrderBookService.subscribeOrderBook (bt qt : Address) : Hub → Except Err Hub :=
  Hub.subscribe .orderBook (getOrderBookChannelID eth bt qt) .message (db.getOrderBook bt qt) c

def OrderBookService.subscribeRawOrderBook (bt qt : Address) : Hub → Except Err Hub :=
  Hub.subscribe .rawOrderBook (getOrderBookChannelID eth bt qt) .message
    (db.getRawOrderBook bt qt) c

def TradeService.subscribe (bt qt : Address) : Hub → Except Err Hub :=
  Hub.subscribe .trade (getTradeChannelID eth bt qt) .str (db.getSortedTrades bt qt 40) c

def OHLCVService.subscribe (p : SubscriptionPayload) : Hub → Except Err Hub :=
  Hub.subscribe .ohlcv (getOHLCVChannelID eth p.baseToken p.quoteToken p.units p.duration) .str
    (db.getOHLCV [⟨p.baseToken, p.quoteToken⟩] p.duration p.units p.fromTime p.toTime) c

def OrderBookService.unsubscribeOrderBook : Hub → Hub :=
  Hub.onSocket .orderBook (.unsubscribe (some c))

def OrderBookService.unsubscribeRawOrderBook : Hub → Hub :=
  Hub.onSocket .rawOrderBook (.unsubscribe (some c))

def TradeService.unsubscribeChannel (bt qt : Address) : Hub → Hub :=
  Hub.onSocket .trade (.unsubscribeChannel (getTradeChannelID eth bt qt) (some c))

def TradeService.unsubscribe : Hub → Hub := Hub.onSocket .trade (.unsubscribe (some c))

def OHLCVService.unsubscribe : Hub → Hub := Hub.onSocket .ohlcv (.unsubscribe (some c))

end

/-! ## The endpoints -/

section
variable (eth : Eth) (decode : PayloadDecoder) (db : Answers) (ev : WebsocketEvent) (c : Nat)

/-- What the endpoints of the two order books have in common: `undecoded` is what they do about a
payload that is not read, before they go on. -/
def OrderBookEndpoint.bookWebSocket (k : SocketKind) (undecoded : Hub → Hub)
    (noBase noQuote : String) (unsubscribe : Hub → Hub)
    (subscribe : Address → Address → Hub → Except Err Hub) (h : Hub) : Except Err Hub :=
  let (p, err) := decode.unmarshal ev.payload
  let h := if err.isSome then undecoded h else h
  if ev.type = "UNSUBSCRIBE" then .ok (unsubscribe h)
  else
    match p with
    | none => .error (.panic "nil pointer dereference")
    | some p =>
      if p.baseToken = 0 then .ok (h.sendErrorMessage k c (.message noBase))
      else if p.quoteToken = 0 then .ok (h.sendErrorMessage k c (.message noQuote))
      else if ev.type = "SUBSCRIBE" then subscribe p.baseToken p.quoteToken h
      else .ok h

def OrderBookEndpoint.orderBookWebSocket : Hub → Except Err Hub :=
  bookWebSocket decode ev c .orderBook (Hub.sendErrorMessage .orderBook c
    (.message "Internal server error"))
    "Invalid base token" "Invalid quote token" (OrderBookService.unsubscribeOrderBook c)
    (OrderBookService.subscribeOrderBook eth db c)

def OrderBookEndpoint.rawOrderBookWebSocket : Hub → Except Err Hub :=
  bookWebSocket decode ev c .rawOrderBook id "Invalid Base Token" "Invalid Quote Token"
    (OrderBookService.unsubscribeRawOrderBook c) (OrderBookService.subscribeRawOrderBook eth db c)

def TradeEndpoint.tradeWebsocket (h : Hub) : Except Err Hub :=
  if ev.type ≠ "SUBSCRIBE" ∧ ev.type ≠ "UNSUBSCRIBE" then
    .ok (h.sendErrorMessage .trade c (.message "Invalid payload"))
  else
    match decode.unmarshal ev.payload with
    | (_, some _) => .ok h
    | (p, none) =>
      if ev.type = "SUBSCRIBE" then
        match p with
        | none => .error (.panic "nil pointer dereference")
        | some p =>
          if p.baseToken = 0 then .ok (h.sendErrorMessage .trade c (.message "Invalid base token"))
          else if p.quoteToken =
            0 then .ok (h.sendErrorMessage .trade c (.message "Invalid quote token"))
          else TradeService.subscribe eth db c p.baseToken p.quoteToken h
      else
        match p with
        | none => .ok (TradeService.unsubscribe c h)
        | some p => .ok (TradeService.unsubscribeChannel eth c p.baseToken p.quoteToken h)

/-- The defaults of a subscription to candles. -/
def SubscriptionPayload.withDefaults (now : Time) (p : SubscriptionPayload) : SubscriptionPayload :=
  { p with
    fromTime := if p.fromTime = 0 then now.yearBefore.unix else p.fromTime
    toTime := if p.toTime = 0 then now.unix else p.toTime
    duration := if p.duration = 0 then 24 else p.duration
    units := if p.units = "" then "hour" else p.units }

def OHLCVEndpoint.ohlcvWebSocket (now : Time) (h : Hub) : Except Err Hub :=
  if ev.type ≠ "SUBSCRIBE" ∧ ev.type ≠ "UNSUBSCRIBE" then .ok
    (h.sendErrorMessage .ohlcv c (.str "Invalid payload"))
  else if ev.type = "SUBSCRIBE" then
    match (decode.unmarshal ev.payload).1 with
    | none => .error (.panic "nil pointer dereference")
    | some p =>
      if p.baseToken = 0 then .ok (h.sendErrorMessage .ohlcv c (.str "Invalid base token"))
      else if p.quoteToken = 0 then .ok (h.sendErrorMessage .ohlcv c (.str "Invalid Quote Token"))
      else OHLCVService.subscribe eth db c (p.withDefaults now) h
  else .ok (OHLCVService.unsubscribe c h)

end

/-! ## Steps -/

/-- What happens next. Goroutines are taken in any order. -/
inductive Hub.Step
  /-- a message of a client is handled, the services answering `db` at the time `now` -/
  | message (c : Nat) (k : SocketKind) (ev : WebsocketEvent) (db : Answers) (now : Time)
  /-- a `SUBSCRIBE` under way is finished -/
  | opened (i : Nat)
  /-- an endpoint registers a client for an address -/
  | connect (k : ConnectionKind) (a : Address) (c : Nat) (spare : List Nat)
  /-- `closeConnection`, which the reader, the writer and the close handler of a connection call -/
  | close (c : Nat)
  /-- an unsubscribe handler runs -/
  | handler (i : Nat)

namespace Hub

section
variable (eth : Eth) (decode : PayloadDecoder)

/-- The endpoint of a channel. -/
def webSocket (c : Nat) (ev : WebsocketEvent) (db : Answers) (now : Time) : SocketKind → Hub →
    Except Err Hub
  | .orderBook => OrderBookEndpoint.orderBookWebSocket eth decode db ev c
  | .rawOrderBook => OrderBookEndpoint.rawOrderBookWebSocket eth decode db ev c
  | .trade => TradeEndpoint.tradeWebsocket eth decode db ev c
  | .ohlcv => OHLCVEndpoint.ohlcvWebSocket eth decode db ev c now

/-- A call that changes the connections. -/
def onConnections (op : ConnectionOp) (h : Hub) : Except Err Hub := do
  let connections ← op.call eth h.connections
  pure { h with connections }

/-- The body of a handler. -/
def runHandler (c : Nat) : UnsubscribeHandler → Hub → Except Err Hub
  | .channel k id, h => .ok (h.onSocket k (.unsubscribeChannel id (some c)))
  | .connection k a, h => h.onConnections eth (.unsubscribe k a c)

/-- A panic ends the process. -/
def step (h : Hub) : Step → Except Err Hub
  | .message c k ev db now => webSocket eth decode c ev db now k h
  | .opened i =>
    match h.opening[i]? with
    | none => .ok h
    | some x => .ok ({ h with opening := h.opening.eraseIdx i }.opened x)
  | .connect k a c spare => h.onConnections eth (.register k a c spare)
  | .close c => .ok (h.closeConnection c)
  | .handler i =>
    match h.closing[i]? with
    | none => .ok h
    | some (c, fn) => { h with closing := h.closing.eraseIdx i }.runHandler eth c fn

/-- The state after a step; there is none after a panic. -/
def next (h : Hub) (s : Step) : Hub := (h.step eth decode s).toOption.getD h

/-- The step does not panic. -/
def Goes (h : Hub) (s : Step) : Prop := (h.step eth decode s).toOption.isSome

instance decidableGoes (h : Hub) (s : Step) : Decidable (h.Goes eth decode s) :=
  inferInstanceAs (Decidable ((h.step eth decode s).toOption.isSome = true))

end

end Hub

end Dex
