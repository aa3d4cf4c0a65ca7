import DexServer.Types.TradeJson

/-!
# The exchange contract (`contracts/exchange.go`)

The operator settles a batch in two calls: `CallBatchTrades` estimates the gas of the transaction,
and `ExecuteBatchTrades` sends it. Each has its own loop, which writes the arguments of the
contract's `executeBatchTrades`; `Trade` writes the arguments of `executeSingleTrade`. A nil pointer
is copied as it is, and panics where it is dereferenced.

The ABI packing and the node are go-ethereum's: `Exchange` holds the functions the code calls, for
fixed transaction options and a fixed call message.
-/

namespace Dex

/-- The arguments of `executeSingleTrade`. -/
structure SingleArgs where
  orderValues : Vector (Option Int) 10
  orderAddresses : Vector Address 4
  amount : Option Int
  vValues : Vector Byte 2
  rsValues : Vector Hash 4
  deriving DecidableEq, Repr

/-- The arguments of `executeBatchTrades`. -/
structure BatchArgs where
  orderValues : List (Vector (Option Int) 10)
  orderAddresses : List (Vector Address 4)
  amounts : List (Option Int)
  vValues : List (Vector Byte 2)
  rsValues : List (Vector Hash 4)
  deriving DecidableEq, Repr

def BatchArgs.empty : BatchArgs := ⟨[], [], [], [], []⟩

/-- One `append` to each slice. -/
def BatchArgs.append (args : BatchArgs) (e : SingleArgs) : BatchArgs where
  orderValues := args.orderValues ++ [e.orderValues]
  orderAddresses := args.orderAddresses ++ [e.orderAddresses]
  amounts := args.amounts ++ [e.amount]
  vValues := args.vValues ++ [e.vValues]
  rsValues := args.rsValues ++ [e.rsValues]

/-- `EncodedSide`. -/
def RawOrder.encodedSide (o : RawOrder) : Int := if o.side = .BUY then 0 else 1

/-- The ten numbers, which all three functions write in this order. -/
def orderValues (mo taker : RawOrder) : Vector (Option Int) 10 :=
  #v[mo.amount, mo.pricePoint, some mo.encodedSide, mo.nonce, taker.amount, taker.pricePoint,
    some taker.encodedSide, taker.nonce, mo.makeFee, mo.takeFee]

def vValues (mo taker : Signature) : Vector Byte 2 := #v[mo.v, taker.v]

def rsValues (mo taker : Signature) : Vector Hash 4 := #v[mo.r, mo.s, taker.r, taker.s]

/-- `xs[i]` of a slice. -/
def indexed {α : Type} (xs : List α) (i : Nat) : Except Err α :=
  match xs[i]? with
  | some x => .ok x
  | none => .error (.panic "index out of range")

namespace RawMatches

/-- One turn of the loop of `ExecuteBatchTrades`. -/
def executeStep (m : RawMatches) (args : BatchArgs) (i : Nat) : Except Err BatchArgs := do
  let mo ← indexed m.makerOrders i
  let t ← indexed m.trades i
  let mo ← nonNil mo
  let taker ← nonNil m.takerOrder
  let moSignature ← nonNil mo.signature
  let takerSignature ← nonNil taker.signature
  let t ← nonNil t
  pure (args.append
    { orderValues := Dex.orderValues mo taker
      orderAddresses := #v[mo.userAddress, taker.userAddress, mo.baseToken, taker.quoteToken]
      amount := t.amount
      vValues := Dex.vValues moSignature takerSignature
      rsValues := Dex.rsValues moSignature takerSignature })

/-- The arguments `ExecuteBatchTrades` builds. -/
def executeArgs (m : RawMatches) : Except Err BatchArgs :=
  (List.range m.makerOrders.length).foldlM m.executeStep .empty

/-- One turn of the loop of `CallBatchTrades`: the quote token is the maker's, and a missing
signature is an error that is returned. -/
def callStep (m : RawMatches) (args : BatchArgs) (i : Nat) : Except Err BatchArgs := do
  let mo ← indexed m.makerOrders i
  let t ← indexed m.trades i
  let mo ← nonNil mo
  let taker ← nonNil m.takerOrder
  let t ← nonNil t
  let moSignature ← (required mo.signature "Maker order is not signed").mapError .msg
  let takerSignature ← (required taker.signature "Taker order is not signed").mapError .msg
  pure (args.append
    { orderValues := Dex.orderValues mo taker
      orderAddresses := #v[mo.userAddress, taker.userAddress, mo.baseToken, mo.quoteToken]
      amount := t.amount
      vValues := Dex.vValues moSignature takerSignature
      rsValues := Dex.rsValues moSignature takerSignature })

/-- The arguments `CallBatchTrades` builds. -/
def callArgs (m : RawMatches) : Except Err BatchArgs :=
  (List.range m.makerOrders.length).foldlM m.callStep .empty

/-- The arguments `Trade` builds. -/
def tradeArgs (m : RawMatches) : Except Err SingleArgs := do
  let mo ← indexed m.makerOrders 0
  let t ← indexed m.trades 0
  let mo ← nonNil mo
  let taker ← nonNil m.takerOrder
  let moSignature ← nonNil mo.signature
  let takerSignature ← nonNil taker.signature
  let t ← nonNil t
  pure
    { orderValues := Dex.orderValues mo taker
      orderAddresses := #v[mo.userAddress, taker.userAddress, mo.baseToken, taker.quoteToken]
      amount := t.amount
      vValues := Dex.vValues moSignature takerSignature
      rsValues := Dex.rsValues moSignature takerSignature }

end RawMatches

/-- What the code calls on the contract and on the node. -/
structure Exchange where
  /-- `exchangeABI.Pack("executeBatchTrades", …)`; the generated binding packs its arguments so,
  too -/
  pack : BatchArgs → Except Err (List Byte)
  /-- the same for `executeSingleTrade` -/
  packSingle : SingleArgs → Except Err (List Byte)
  /-- the sending of a transaction with this data: its hash -/
  transact : List Byte → Except Err Hash
  /-- `EstimateGas` of a call with this data -/
  estimateGas : List Byte → Except Err Nat

namespace Exchange

/-- `ExecuteBatchTrades`. -/
def executeBatchTrades (e : Exchange) (m : RawMatches) : Except Err Hash := do
  let args ← m.executeArgs
  let data ← e.pack args
  e.transact data

/-- `Trade`. -/
def trade (e : Exchange) (m : RawMatches) : Except Err Hash := do
  let args ← m.tradeArgs
  let data ← e.packSingle args
  e.transact data

/-- The gas limit `CallBatchTrades` returns for its data: a failed estimate is not an error. -/
def gasLimit (e : Exchange) (data : List Byte) : Except Err Nat :=
  match e.estimateGas data with
  | .ok gasLimit => .ok gasLimit
  | .error _ => .ok 2000000

/-- `CallBatchTrades`. -/
def callBatchTrades (e : Exchange) (m : RawMatches) : Except Err Nat := do
  let args ← m.callArgs
  let data ← e.pack args
  e.gasLimit data

end Exchange

end Dex
