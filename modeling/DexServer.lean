import DexServer.Lib.Coll
import DexServer.Lib.Prog
import DexServer.Lib.Run
import DexServer.Types.Trade
import DexServer.Daos.Session
import DexServer.Daos.Order
import DexServer.Daos.Trade
import DexServer.Engine.Engine
import DexServer.Engine.Proof.Match
import DexServer.Engine.Proof.Fill
import DexServer.Engine.Proof.Effect
import DexServer.Types.RawOrder
import DexServer.Services.Order
import DexServer.Services.Proof.Request
import DexServer.Services.Proof.Resubmit
import DexServer.Engine.Proof.Invalidate
import DexServer.Engine.Proof.Handle
import DexServer.Engine.Proof.Republish
import DexServer.Engine.Proof.Bounds
import DexServer.Engine.Proof.Cancel
import DexServer.Services.Proof.CancelRequest
import DexServer.Engine.Proof.Cross
import DexServer.Engine.Proof.Priority
import DexServer.Endpoints.Order
import DexServer.Endpoints.Proof.Cancel
import DexServer.Operator.Operator
import DexServer.Operator.TxQueue
import DexServer.Server.Server
import DexServer.Services.Proof.Messages
import DexServer.Operator.Proof.Execute
import DexServer.Server.Proof.Ledger
import DexServer.Server.Proof.Settle
import DexServer.Endpoints.Proof.Admit
import DexServer.Engine.Proof.Pairing
import DexServer.Daos.OrderRecord
import DexServer.Types.TradeJson
import DexServer.Operator.Proof.Accept
import DexServer.Operator.Proof.Verdict
import DexServer.Services.Proof.Funds
import DexServer.Services.Proof.Solvency
import DexServer.Services.Proof.Commit
import DexServer.Services.Proof.Maker
import DexServer.Daos.Association
import DexServer.Services.Deposit
import DexServer.Endpoints.Deposit
import DexServer.Swap.Configurator
import DexServer.Swap.Listener
import DexServer.Swap.Swap
import DexServer.Endpoints.Proof.Deposit
import DexServer.Swap.Proof.Moves
import DexServer.Swap.Proof.Payout
import DexServer.Swap.Proof.Kept
import DexServer.Endpoints.Address
import DexServer.Endpoints.Proof.Address
import DexServer.Swap.Proof.Blocks
import DexServer.Swap.Proof.Confirm
import DexServer.Endpoints.Proof.Transfer
import DexServer.Endpoints.Proof.Reply
import DexServer.Endpoints.Proof.Register
import DexServer.Lib.Calendar
import DexServer.Types.Time
import DexServer.Types.Lossless
import DexServer.Daos.Document
import DexServer.Daos.Lossless
import DexServer.Services.Pair
import DexServer.Services.Proof.Books
import DexServer.Engine.Proof.Refill
import DexServer.Engine.Proof.GiveBack
import DexServer.Engine.Proof.AtFault
import DexServer.Engine.Proof.Atomic
import DexServer.Engine.Proof.Report
import DexServer.Server.Proof.ErrorEvent
import DexServer.Services.Proof.Locked
import DexServer.Swap.Proof.Crash
import DexServer.Services.Proof.Pricing
import DexServer.Engine.Proof.Mirror
import DexServer.Services.Proof.Dispatch
import DexServer.Contracts.Exchange
import DexServer.Contracts.Proof.Batch
import DexServer.Lib.Decimal128
import DexServer.Lib.Group
import DexServer.Daos.OrderBook
import DexServer.Services.Proof.Levels
import DexServer.Types.Tick
import DexServer.Services.PairData
import DexServer.Services.Proof.Statistics
import DexServer.Lib.Double
import DexServer.Services.Ohlcv
import DexServer.Services.Proof.Buckets
import DexServer.Services.Proof.Candles
import DexServer.Services.Proof.Window
import DexServer.Types.Proof.Commitment
import DexServer.Lib.Bytes
import DexServer.Swap.Generator
import DexServer.Swap.Proof.Generator
import DexServer.Lib.Slice
import DexServer.Types.Signature
import DexServer.Daos.Wallet
import DexServer.Types.Proof.Keys
import DexServer.Types.Proof.Aggregates
import DexServer.Daos.Balances
import DexServer.Daos.Proof.Balances
import DexServer.Types.Dynamic
import DexServer.Types.PairJson
import DexServer.Types.Proof.PairJson
import DexServer.Daos.Pair
import DexServer.Endpoints.Pair
import DexServer.Services.Proof.Market
import DexServer.Endpoints.Proof.Pair
import DexServer.Operator.Proof.Shortest
import DexServer.Lib.Latest
import DexServer.Ws.Channels
import DexServer.Ws.Proof.Channels
import DexServer.Ws.Connections
import DexServer.Ws.Proof.Connections
import DexServer.Lib.Numeral
import DexServer.Types.Rational
import DexServer.Types.Proof.Rational
import DexServer.Swap.Amount
import DexServer.Swap.Proof.Amount
import DexServer.Server.Proof.Lasting
import DexServer.Server.Proof.Replica
import DexServer.Server.Proof.Mined
import DexServer.Server.Proof.Once
import DexServer.Lib.Auction
import DexServer.Engine.Proof.Refine
import DexServer.Endpoints.Proof.Lifecycle
