import Mathlib.Algebra.Order.Ring.Int
import Mathlib.Tactic.Common

/-!
# Hashes, addresses and signatures (`types/signature.go`)

The cryptography is go-ethereum's, outside this repository: `Eth` holds the functions the code
calls. Nothing is assumed about them here; a result that needs more says so.
-/

namespace Dex

abbrev Byte := BitVec 8

/-- `common.Hash`. -/
abbrev Hash := BitVec 256

instance : LawfulBEq Hash := inferInstance

/-- `common.Address`. -/
abbrev Address := BitVec 160

/-- The bytes of a value, most significant first. -/
def bytesOf {n : Nat} (k : Nat) (x : BitVec n) : List Byte :=
  (List.range k).map fun i => x.extractLsb' (8 * (k - 1 - i)) 8

/-- `Hash.Bytes`. -/
def Hash.bytes (h : Hash) : List Byte := bytesOf 32 h

/-- The functions of go-ethereum the code calls. -/
structure Eth where
  /-- `crypto.Keccak256` of the concatenation of its arguments, `sha3.NewKeccak256`. -/
  keccak256 : List Byte → Hash
  /-- `crypto.SigToPub` of a message hash and 65 signature bytes, then `PubkeyToAddress`. -/
  recover : Hash → List Byte → Except String Address
  /-- `Address.Hex`. -/
  hex : Address → String
  /-- `common.HexToHash`. -/
  hexToHash : String → Hash
  /-- `common.HexToAddress`. -/
  hexToAddress : String → Address
  /-- `Hash.Hex`. -/
  hashHex : Hash → String
  /-- `Address.MarshalText`, which `encoding/json` calls. -/
  marshalAddress : Address → String
  /-- `Hash.MarshalText`. -/
  marshalHash : Hash → String

/-- The texts of addresses and hashes read back. -/
structure Eth.ReadsBack (eth : Eth) : Prop where
  hex : ∀ a, eth.hexToAddress (eth.hex a) = a
  marshalAddress : ∀ a, eth.hexToAddress (eth.marshalAddress a) = a
  hashHex : ∀ h, eth.hexToHash (eth.hashHex h) = h
  marshalHash : ∀ h, eth.hexToHash (eth.marshalHash h) = h

theorem hex_injective {eth : Eth} (heth : eth.ReadsBack) {t u : Address}
    (h : eth.hex t = eth.hex u) : t = u := by
  rw [← heth.hex t, h, heth.hex]

/-- `common.IsHexAddress`. -/
def isHexAddress (s : String) : Bool :=
  let digits := match s.toList with
    | '0' :: 'x' :: cs | '0' :: 'X' :: cs => cs
    | cs => cs
  digits.length = 40 && digits.all fun c =>
    c.isDigit || ('a' ≤ c && c ≤ 'f') || ('A' ≤ c && c ≤ 'F')

/-- `Signature`. -/
structure Signature where
  v : Byte
  r : Hash
  s : Hash
  deriving DecidableEq, Repr

/-- `MarshalSignature`: the two halves and the recovery id. -/
def Signature.marshalSignature (s : Signature) : List Byte := s.r.bytes ++ s.s.bytes ++ [s.v - 27]

/-- `Signature.Verify`: the address that signed `hash`. -/
def Signature.verify (eth : Eth) (s : Signature) (hash : Hash) : Except String Address :=
  eth.recover hash s.marshalSignature

/-- The prefix of a signed message (EIP 191). -/
def signedMessagePrefix : List Byte :=
  "\x19Ethereum Signed Message:\n32".toList.map fun c => BitVec.ofNat 8 c.toNat

/-- The hash that is signed for `hash`. -/
def signedMessage (eth : Eth) (hash : Hash) : Hash :=
  eth.keccak256 (signedMessagePrefix ++ hash.bytes)

end Dex
