import DexServer.Types.Rational

/-!
# Amounts of coins (`swap/bitcoin/main.go`, `swap/ethereum/main.go`)

The minimum values of the configuration are texts, in BTC and ETH. `Engine.Start` converts them to
satoshi and wei, with which the values of deposits are compared.
-/

namespace Dex

/-- An amount in the smallest unit of a coin, of which the coin has `unit`; `precision` is the error
for a part of that unit. -/
def toSmallestUnit (unit : Rat) (precision text : String) : Except String Int :=
  match ratSetString text with
  | none => .error "Could not convert to *big.Rat"
  | some valueRat =>
    let value := valueRat * unit
    if value.den ≠ 1 then .error precision
    else .ok value.num

/-- `big.Int.Int64`: the lower 64 bits of the absolute value, with the sign. -/
def bigInt64 (n : Int) : BitVec 64 :=
  let v := BitVec.ofNat 64 n.natAbs
  if n < 0 then -v else v

/-- `BtcToSat` -/
def Bitcoin.btcToSat (btc : String) : Except String (BitVec 64) :=
  (toSmallestUnit (10 ^ 8) "Invalid precision, is value smaller than 1 satoshi?" btc).map bigInt64

/-- `EthToWei` -/
def Ethereum.ethToWei (eth : String) : Except String Int :=
  toSmallestUnit (10 ^ 18) "Invalid precision, is value smaller than 1 Wei?" eth

end Dex
