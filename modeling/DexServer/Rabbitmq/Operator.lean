import DexServer.Daos.Session

/-!
# Messages of the operator (`rabbitmq/operator.go`)

A reverted transaction is published as TRADE_ERROR, like an error of the server:
`PublishTxErrorMessage` does not use TRADE_TX_ERROR.
-/

namespace Dex

open Lib

/-- Append to the queue `TX_MESSAGES`. -/
def publishTxMessage (msg : OperatorMessage) : M Unit := call fun _ _ w =>
  (.ok (), { w with txMessages := w.txMessages ++ [msg] })

/-- `PublishTradeSuccessMessage`, with the trades the batch holds by then. -/
def publishTradeSuccessMessage (m : Matches) (trades : List (Option Trade)) : M Unit :=
  publishTxMessage { m.message .TRADE_TX_SUCCESS with trades := trades }

/-- `PublishErrorMessage`. -/
def publishErrorMessage (m : Matches) (errType : String) : M Unit :=
  publishTxMessage (m.message .TRADE_ERROR errType)

/-- `PublishTxErrorMessage`. -/
def publishTxErrorMessage (m : Matches) (trades : List (Option Trade)) (errType : String) :
    M Unit :=
  publishTxMessage { m.message .TRADE_ERROR errType with trades := trades }

/-- `PublishTradeInvalidMessage`. -/
def publishTradeInvalidMessage (m : Matches) : M Unit := publishTxMessage (m.message .TRADE_INVALID)

/-- `PublishTradeSentMessage`. -/
def publishTradeSentMessage (m : Matches) (trades : List (Option Trade)) : M Unit :=
  publishTxMessage { m.message .TRADE_TX_PENDING with trades := trades }

end Dex
