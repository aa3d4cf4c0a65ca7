import DexServer.Daos.Document
import DexServer.Lib.Bytes

/-!
# Wallets (`types/wallet.go`)

A wallet is stored with the hexadecimal text of its private key. `hexToECDSA` follows go-ethereum's
`HexToECDSA`: it takes the text of exactly 32 bytes.
-/

namespace Dex

open Lib

/-- The order of the group of secp256k1. -/
def curveOrder : Nat := 0xfffffffffffffffffffffffffffffffebaaedce6af48a03bbfd25e8cd0364141

/-- `ecdsa.PrivateKey`; the public key is computed from the scalar. -/
structure PrivateKey where
  d : Nat
  pos : 0 < d
  lt : d < curveOrder
  deriving DecidableEq, Repr

/-- `crypto.ToECDSA`. -/
def toECDSA (bs : List Byte) : Except String PrivateKey :=
  if 8 * bs.length ≠ 256 then .error "invalid length, need 256 bits"
  else if hlt : curveOrder ≤ beNat bs then .error "invalid private key, >=N"
  else if hpos : beNat bs = 0 then .error "invalid private key, zero or negative"
  else .ok ⟨beNat bs, Nat.pos_of_ne_zero hpos, Nat.lt_of_not_le hlt⟩

/-- `crypto.HexToECDSA`. -/
def hexToECDSA (s : String) : Except String PrivateKey :=
  match hexBytes s with
  | none => .error "invalid hex string"
  | some bs => toECDSA bs

/-- `Wallet`. -/
structure Wallet where
  id : ObjectId
  address : Address
  privateKey : PrivateKey
  admin : Bool
  operator : Bool
  deriving DecidableEq, Repr

/-- `WalletRecord`. -/
structure WalletRecord where
  id : ObjectId
  address : String
  privateKey : String
  admin : Bool
  operator : Bool
  deriving DecidableEq, Repr

/-- `Wallet.GetBSON`; `Operator` is not set. -/
def Wallet.getBSON (eth : Eth) (w : Wallet) : WalletRecord where
  id := w.id
  address := eth.hex w.address
  privateKey := hexText (beBytes w.privateKey.d)
  admin := w.admin
  operator := false

/-- `Wallet.SetBSON`. -/
def WalletRecord.setBSON (eth : Eth) (r : WalletRecord) : Except String Wallet := do
  let privateKey ← hexToECDSA r.privateKey
  .ok ⟨r.id, eth.hexToAddress r.address, privateKey, r.admin, r.operator⟩

end Dex
