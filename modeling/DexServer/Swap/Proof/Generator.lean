import DexServer.Sample
import DexServer.Swap.Generator

/-!
# Which generated addresses are those of their keys

The address of a public key is computed from its coordinates in 32 bytes each (`pubkeyToAddress`).
`Generate` copies the bytes of a coordinate to the left of its 32 bytes, so one that needs fewer is
followed by zeros.

* `generated_address_of_key_iff`: the hashed bytes are the coordinates exactly if neither is short.
-/

namespace Dex

open Lib

/-- `crypto.PubkeyToAddress`. -/
def pubkeyToAddress (eth : Eth) (x y : Nat) : Address :=
  addressOfHash (eth.keccak256 (beWord 32 x ++ beWord 32 y))

theorem copyInto_zeros {n : Nat} (h : n < 256 ^ 32) :
    copyInto (List.replicate 32 0) (beBytes n) =
      beBytes n ++ List.replicate (32 - byteLength n) 0 := by
  have hlen : (beBytes n).length ≤ 32 := by
    rw [length_beBytes]
    exact byteLength_le_iff.2 h
  rw [copyInto, List.length_replicate, List.take_of_length_le hlen, List.drop_replicate,
    length_beBytes]

theorem length_copyInto {α : Type} (dst src : List α) : (copyInto dst src).length = dst.length := by
  rw [copyInto, List.length_append, List.length_take, List.length_drop]
  omega

theorem copyInto_eq_beWord_iff {n : Nat} (h : n < 2 ^ 256) :
    copyInto (List.replicate 32 0) (beBytes n) = beWord 32 n ↔ n = 0 ∨ 2 ^ 248 ≤ n := by
  have hlt : n < 256 ^ 32 := h
  rw [copyInto_zeros hlt]
  exact leftAligned_eq_iff hlt

theorem uncompressed_eq_iff {x y : Nat} (hx : x < 2 ^ 256) (hy : y < 2 ^ 256) :
    uncompressed x y = beWord 32 x ++ beWord 32 y ↔
      (x = 0 ∨ 2 ^ 248 ≤ x) ∧ (y = 0 ∨ 2 ^ 248 ≤ y) := by
  rw [← copyInto_eq_beWord_iff hx, ← copyInto_eq_beWord_iff hy]
  constructor
  · intro h
    apply List.append_inj h
    rw [length_copyInto, List.length_replicate, length_beWord]
  · rintro ⟨hleft, hright⟩
    rw [uncompressed, hleft, hright]

section
variable {key : MasterPublicKey} {index : BitVec 64} {accountKey : List Byte} {x y : Nat}

/-- **The hashed bytes are the coordinates of the child key** exactly if each of them needs 32 bytes
(zero apart); the address is then the one of the key. -/
theorem generated_address_of_key_iff (eth : Eth)
    (hkey : key.newChildKey (index.setWidth 32) = .ok accountKey)
    (hpoint : key.decompressPubkey accountKey = some (x, y)) (hx : x < 2 ^ 256) (hy : y < 2 ^ 256) :
    generate eth (some key) index = .ok (addressOfHash (eth.keccak256 (uncompressed x y))) ∧
    (uncompressed x y).length = 64 ∧
    (uncompressed x y = beWord 32 x ++ beWord 32 y ↔
      (x = 0 ∨ 2 ^ 248 ≤ x) ∧ (y = 0 ∨ 2 ^ 248 ≤ y)) ∧
    (uncompressed x y = beWord 32 x ++ beWord 32 y →
      generate eth (some key) index = .ok (pubkeyToAddress eth x y)) := by
  have hrun : generate eth (some key) index =
      .ok (addressOfHash (eth.keccak256 (uncompressed x y))) := by
    simp only [generate, MasterPublicKey.childAddress, hkey, Except.mapError, ok_bind,
      hpoint, nonNil]
  refine ⟨hrun, ?_, uncompressed_eq_iff hx hy, ?_⟩
  · rw [uncompressed, List.length_append, length_copyInto, length_copyInto, List.length_replicate]
  · intro h
    rw [hrun, h, pubkeyToAddress]

end

/-- Two children of the master key of the first test vector of BIP 32: number 0, and number 161,
whose first coordinate has 31 bytes. -/
def MasterPublicKey.sample : MasterPublicKey where
  newChildKey index :=
    if index = 0 then
      .ok (2 :: beWord 32 0x7c4b09ffb985c298afe7e5813266cbfcb7780b480ac294b0b43dc21f2be3d13c)
    else if index = 161 then
      .ok (2 :: beWord 32 0xac291fddc1665092489834e67636c66de5e4975c84ca4b64923145929be5be)
    else .error ""
  decompressPubkey key :=
    if key = 2 :: beWord 32 0x7c4b09ffb985c298afe7e5813266cbfcb7780b480ac294b0b43dc21f2be3d13c then
      some (0x7c4b09ffb985c298afe7e5813266cbfcb7780b480ac294b0b43dc21f2be3d13c,
        0x68de1f2ca693a5da35b1e2e79b44bcc4fa6a48739f6fb7235b00695a6054a88c)
    else if key =
      2 :: beWord 32 0xac291fddc1665092489834e67636c66de5e4975c84ca4b64923145929be5be then
      some (0xac291fddc1665092489834e67636c66de5e4975c84ca4b64923145929be5be,
        0xa2b928c7dc4d625aa0d2bc1a04ed84bf4c60bdc4c6bc398ce5aa7175f9a82d2a)
    else none

/-- Number 0 gets its own address. -/
theorem generated_address_of_key_first :
    generate .sample (some .sample) 0 = .ok (pubkeyToAddress .sample
      0x7c4b09ffb985c298afe7e5813266cbfcb7780b480ac294b0b43dc21f2be3d13c
      0x68de1f2ca693a5da35b1e2e79b44bcc4fa6a48739f6fb7235b00695a6054a88c) := by
  have hchild : MasterPublicKey.sample.newChildKey (BitVec.setWidth 32 0#64) =
      .ok (2 :: beWord 32 0x7c4b09ffb985c298afe7e5813266cbfcb7780b480ac294b0b43dc21f2be3d13c) := rfl
  have hpoint : MasterPublicKey.sample.decompressPubkey
      (2 :: beWord 32 0x7c4b09ffb985c298afe7e5813266cbfcb7780b480ac294b0b43dc21f2be3d13c) =
        some (0x7c4b09ffb985c298afe7e5813266cbfcb7780b480ac294b0b43dc21f2be3d13c,
          0x68de1f2ca693a5da35b1e2e79b44bcc4fa6a48739f6fb7235b00695a6054a88c) := rfl
  obtain ⟨-, -, hiff, hown⟩ := generated_address_of_key_iff .sample hchild hpoint (by decide)
    (by decide)
  exact hown (hiff.2 (by decide))

/-- Number 161 does not: the bytes that are hashed are others. -/
theorem generated_address_short_coordinate :
    let x := 0xac291fddc1665092489834e67636c66de5e4975c84ca4b64923145929be5be
    let y := 0xa2b928c7dc4d625aa0d2bc1a04ed84bf4c60bdc4c6bc398ce5aa7175f9a82d2a
    generate .sample (some .sample) 161 = .ok
      (addressOfHash (Eth.sample.keccak256 (uncompressed x y))) ∧
    uncompressed x y ≠ beWord 32 x ++ beWord 32 y ∧
    generate .sample (some .sample) 161 ≠ .ok (pubkeyToAddress .sample x y) := by
  decide +kernel

end Dex
