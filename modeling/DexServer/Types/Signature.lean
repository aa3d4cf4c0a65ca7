import DexServer.Lib.Bytes
import DexServer.Lib.Slice
import DexServer.Types.Operator

/-!
# Signatures as bytes (`types/signature.go`)
-/

namespace Dex

open Lib

/-- `common.BytesToHash`: the last 32 bytes. -/
def bytesToHash (bs : List Byte) : Hash := BitVec.ofNat 256 (beNat bs)

/-- `b[lo:hi]`. -/
def slicing {α : Type} (b : Slice α) (lo hi : Nat) : Except Err (Slice α) :=
  match b.sub? lo hi with
  | some s => .ok s
  | none => .error (.panic "slice bounds out of range")

/-- `b[i]`. -/
def indexing {α : Type} (b : Slice α) (i : Nat) : Except Err α :=
  match b.get? i with
  | some x => .ok x
  | none => .error (.panic "index out of range")

/-- `NewSignature`. -/
def newSignature (b : Slice Byte) : Except Err Signature :=
  if b.len ≠ 64 then .error (.msg "Signature length should be 64 bytes")
  else do
    let r ← slicing b 0 32
    let s ← slicing b 32 65
    let v ← indexing b 64
    pure { r := bytesToHash r.toList, s := bytesToHash s.toList, v := v + 27 }

end Dex
