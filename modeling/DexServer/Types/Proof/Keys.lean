import DexServer.Daos.Wallet
import DexServer.Sample
import DexServer.Types.Signature

/-!
# What survives of wallets and signatures

* `wallet_survives_iff`: a wallet reads back exactly if its key needs 32 bytes and it is no
  operator's.
* `signature_bytes_never_read`: `NewSignature` takes no bytes that `MarshalSignature` makes; of 64
  bytes it panics.
-/

namespace Dex

open Lib

/-! ## Wallets -/

theorem toECDSA_of_length {bs : List Byte} (h : bs.length ≠ 32) :
    toECDSA bs = .error "invalid length, need 256 bits" := by
  rw [toECDSA, if_pos (by omega)]

theorem toECDSA_beBytes (k : PrivateKey) :
    toECDSA (beBytes k.d) =
      if byteLength k.d = 32 then .ok k else .error "invalid length, need 256 bits" := by
  have hpos := k.pos
  have hlt := k.lt
  split
  case isTrue h =>
    unfold toECDSA
    simp only [length_beBytes, h, beNat_beBytes]
    rw [if_neg (by decide), dif_neg (by omega), dif_neg (by omega)]
  case isFalse h =>
    apply toECDSA_of_length
    rwa [length_beBytes]

theorem hexToECDSA_hexText (k : PrivateKey) :
    hexToECDSA (hexText (beBytes k.d)) =
      if byteLength k.d = 32 then .ok k else .error "invalid length, need 256 bits" := by
  rw [hexToECDSA, hexBytes_hexText]
  exact toECDSA_beBytes k

theorem PrivateKey.byteLength_eq_iff (k : PrivateKey) : byteLength k.d = 32 ↔ 2 ^ 248 ≤ k.d := by
  have hlt := k.lt
  have hmax : k.d < 256 ^ 32 := by
    unfold curveOrder at hlt
    omega
  have hle : byteLength k.d ≤ 32 := byteLength_le_iff.2 hmax
  have hshort : byteLength k.d ≤ 31 ↔ k.d < 256 ^ 31 := byteLength_le_iff
  omega

/-- **A wallet reads back from its record** exactly if its private key needs all of its 32 bytes and
it is not an operator's. -/
theorem wallet_survives_iff {eth : Eth} (heth : eth.ReadsBack) (w : Wallet) :
    (w.getBSON eth).setBSON eth = .ok w ↔ 2 ^ 248 ≤ w.privateKey.d ∧ w.operator = false := by
  rw [← w.privateKey.byteLength_eq_iff]
  unfold WalletRecord.setBSON Wallet.getBSON
  simp only [hexToECDSA_hexText, heth.hex]
  split
  case isTrue h =>
    obtain ⟨id, address, privateKey, admin, operator⟩ := w
    simp [h, ok_bind, eq_comm]
  case isFalse h =>
    simp [h, bind_eq_ok]

/-- A key with the scalar `2 ^ 255`. -/
def PrivateKey.sample : PrivateKey := ⟨2 ^ 255, by decide, by decide⟩

/-- A wallet that survives. -/
theorem wallet_survives_user :
    ((⟨1, 2, .sample, true, false⟩ : Wallet).getBSON .sample).setBSON .sample =
      .ok ⟨1, 2, .sample, true, false⟩ :=
  (wallet_survives_iff Eth.sample_readsBack ⟨1, 2, .sample, true, false⟩).2 (by decide)

/-- **Two that do not**: the text of the key `2 ^ 247` has 31 bytes, and the flag of an operator is
lost. -/
theorem wallet_lost :
    ((⟨1, 2, ⟨2 ^ 247, by decide, by decide⟩, true, false⟩ : Wallet).getBSON .sample).setBSON
      .sample = .error "invalid length, need 256 bits" ∧
    ((⟨1, 2, .sample, true, true⟩ : Wallet).getBSON .sample).setBSON .sample =
      .ok ⟨1, 2, .sample, true, false⟩ := by
  decide +kernel

/-! ## Signatures -/

theorem length_marshalSignature (s : Signature) : s.marshalSignature.length = 65 := by
  simp [Signature.marshalSignature, Hash.bytes, bytesOf]

theorem newSignature_panics {b : Slice Byte} (h : b.len = 64) :
    ∃ text, newSignature b = .error (.panic text) := by
  have hindex : indexing b 64 = .error (.panic "index out of range") := by
    rw [indexing, Slice.get?, if_neg (by omega)]
  unfold newSignature
  rw [if_neg (by omega), hindex]
  unfold slicing
  cases b.sub? 0 32 with
  | none => exact ⟨_, rfl⟩
  | some r =>
    cases b.sub? 32 65 with
    | none => exact ⟨_, rfl⟩
    | some s => exact ⟨_, rfl⟩

/-- What the bytes `b` should be decoded to: an error, or a signature with these bytes. -/
def Decodes (b : Slice Byte) : Prop :=
  match newSignature b with
  | .ok s => s.marshalSignature = b.toList
  | .error (.panic _) => False
  | .error _ => True

theorem decodes_iff (b : Slice Byte) : Decodes b ↔ b.len ≠ 64 := by
  unfold Decodes
  by_cases h : b.len = 64
  · obtain ⟨text, hpanic⟩ := newSignature_panics h
    rw [hpanic]
    simp [h]
  · rw [newSignature, if_pos h]
    simp [h]

/-- **The bytes of a signature are never read back**: they are refused, whatever follows them in
memory. All byte strings but those of length 64 are refused, these are a panic. -/
theorem signature_bytes_never_read (s : Signature) (spare : List Byte) (b : Slice Byte) :
    newSignature (.ofList s.marshalSignature spare) =
      .error (.msg "Signature length should be 64 bytes") ∧
    newSignature (.ofList s.marshalSignature spare) ≠ .ok s ∧ (Decodes b ↔ b.len ≠ 64) := by
  have hrefused : newSignature (.ofList s.marshalSignature spare) =
      .error (.msg "Signature length should be 64 bytes") := by
    rw [newSignature, if_pos]
    rw [Slice.len_ofList, length_marshalSignature]
    decide
  refine ⟨hrefused, ?_, decodes_iff b⟩
  rw [hrefused]
  exact fun h => nomatch h

/-- A signature that is refused, and 64 bytes that are a panic. -/
theorem signature_bytes_refused :
    newSignature (.ofList (Signature.marshalSignature ⟨27, 1, 2⟩) []) ≠ .ok ⟨27, 1, 2⟩ ∧
    newSignature (.ofList (List.replicate 64 0) []) =
      .error (.panic "slice bounds out of range") := by
  decide +kernel

end Dex
