import DexServer.Lib.Bytes
import DexServer.Services.Deposit
import DexServer.Types.TradeJson

/-!
# The addresses of child keys (`swap/ethereum/address_generator.go`)

`Generate` derives a child of the master public key, and hashes the two coordinates of its point.
The derivation (`go-bip32`) and the decompression of a point (`secp256k1`) are outside this
repository.
-/

namespace Dex

open Lib

/-- Go's `copy` into `dst`: what does not fit is not copied, what is not covered stays. -/
def copyInto {α : Type} (dst src : List α) : List α := src.take dst.length ++ dst.drop src.length

/-- A master public key. -/
structure MasterPublicKey where
  /-- `NewChildKey`: the compressed public key of the child -/
  newChildKey : BitVec 32 → Except String (List Byte)
  /-- `secp256k1.DecompressPubkey`: nothing if the bytes are not a point -/
  decompressPubkey : List Byte → Option (Nat × Nat)

/-- The 64 bytes that are hashed. -/
def uncompressed (x y : Nat) : List Byte :=
  copyInto (List.replicate 32 0) (beBytes x) ++ copyInto (List.replicate 32 0) (beBytes y)

/-- `common.BytesToAddress` of the bytes of a hash from the 12th on. -/
def addressOfHash (h : Hash) : Address := h.setWidth 160

/-- The address of a child key. The coordinates of what is no point are nil. -/
def MasterPublicKey.childAddress (eth : Eth) (key : MasterPublicKey) (index : BitVec 32) :
    Except Err Address := do
  let accountKey ← (key.newChildKey index).mapError
      fun e => .msg ("Error creating new child key: " ++ e)
  let (x, y) ← nonNil (key.decompressPubkey accountKey)
  .ok (addressOfHash (eth.keccak256 (uncompressed x y)))

/-- `AddressGenerator.Generate`: of the index only the lower 32 bits are used. -/
def generate (eth : Eth) (masterPublicKey : Option MasterPublicKey) (index : BitVec 64) :
    Except Err Address :=
  match masterPublicKey with
  | none => .error (.msg "No master public key set")
  | some key => key.childAddress eth (index.setWidth 32)

/-- The generator that serves the deposits. -/
def MasterPublicKey.generator (eth : Eth) (key : MasterPublicKey) : AddressGenerator where
  childAddress index := (key.childAddress eth index).mapError fun
    | .msg s | .panic s => s
    | _ => ""

/-- It generates the same addresses. -/
theorem generator_generate_eq_ok {eth : Eth} {key : MasterPublicKey} {index : Nat} {a : Address} :
    (key.generator eth).generate index = .ok a ↔
      generate eth (some key) (.ofNat 64 index) = .ok a := by
  have hindex : (BitVec.ofNat 64 index).setWidth 32 = BitVec.ofNat 32 index := by
    apply BitVec.eq_of_toNat_eq
    simp
  simp only [AddressGenerator.generate, MasterPublicKey.generator, generate, hindex]
  cases key.childAddress eth (BitVec.ofNat 32 index) with
  | ok a' => simp [Except.mapError]
  | error e => simp [Except.mapError]

end Dex
