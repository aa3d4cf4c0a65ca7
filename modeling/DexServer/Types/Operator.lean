import DexServer.Types.OrderCancel
import DexServer.Types.Trade

/-!
# Operator and websocket messages (`types/operator.go`, `types/wsmsg.go`)

An operator message is decoded from JSON written by the operator, where a trade that could not be
updated or an order that could not be found is `null`: its pointers are `Option`s.
-/

namespace Dex

/-- `OperatorMessage.MessageType` of the `TX_MESSAGES` queue. -/
inductive OperatorMessageType
  | TRADE_ERROR
  | TRADE_TX_PENDING
  | TRADE_TX_SUCCESS
  | TRADE_TX_ERROR
  | TRADE_INVALID
  | unknown (type : String)
  deriving DecidableEq, Repr

/-- `Matches` as they are sent. -/
structure SentMatches where
  makerOrders : List (Option Order)
  takerOrder : Option Order
  trades : List (Option Trade)
  deriving DecidableEq, Repr

/-- `OperatorMessage`, its `Matches` in line. -/
structure OperatorMessage extends SentMatches where
  messageType : OperatorMessageType
  errorType : String := ""
  deriving DecidableEq, Repr

def Matches.sent (m : Matches) : SentMatches :=
  { makerOrders := m.makerOrders.map some, takerOrder := some m.takerOrder,
    trades := m.trades.map some }

/-- A message about `m`. -/
def Matches.message (m : Matches) (type : OperatorMessageType) (errorType : String := "") :
    OperatorMessage :=
  { m.sent with messageType := type, errorType := errorType }

/-- The type of a message to an order socket. -/
inductive OrderEvent
  | ORDER_ADDED
  | ORDER_MATCHED
  | ORDER_CANCELLED
  | ORDER_INVALIDATED
  | ORDER_PENDING
  | ORDER_SUCCESS
  | ORDER_ERROR
  | ERROR
  deriving DecidableEq, Repr

/-- How a handler can fail. -/
inductive Err
  /-- a call to the store or the broker failed -/
  | io
  /-- the store found no document to update -/
  | notFound
  /-- an error made by the code -/
  | msg (s : String)
  /-- a run-time panic: an index out of range, a nil dereference -/
  | panic (s : String)
  deriving DecidableEq, Repr

/-- What the server does on its order websockets. -/
inductive WsEvent
  /-- `RegisterOrderConnection`. -/
  | register (a : Address) (client : Nat)
  /-- `SendOrderErrorMessage` to one client. -/
  | orderError (client : Nat) (err : Err) (hash : Hash)
  /-- `SendMessage` of an error to one client. -/
  | clientError (client : Nat) (text : String)
  /-- `SendOrderMessage` to the connections of an address, about an order. -/
  | order (event : OrderEvent) (addr : Address) (o : Order)
  /-- The same, about matches. -/
  | matched (event : OrderEvent) (addr : Address) (m : SentMatches)
  /-- The same, with an error or no payload. -/
  | error (addr : Address)
  deriving DecidableEq, Repr

end Dex
