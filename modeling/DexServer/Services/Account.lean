import DexServer.Daos.Session

/-!
# Accounts (`services/account.go`, `daos/account.go`)
-/

namespace Dex

open Lib

/-- `AccountDao.GetByAddress`. -/
def getByAddress (addr : Address) : M (Option Account) := call fun _ _ w =>
  (.ok (w.accounts.get addr), w)

/-- `AccountDao.Create`: the address has a unique index. -/
def createAccount (a : Account) : M Unit := call fun _ _ w =>
  if (w.accounts.get a.address).isSome then (.error .io, w)
  else (.ok (), { w with accounts := w.accounts.put a })

/-- `FindOrCreate`. The tokens are read for the balances of the new account. -/
def findOrCreate (addr : Address) : M Account := do
  match ← getByAddress addr with
  | some a => pure a
  | none => do
    call fun _ _ w => (.ok (), w)
    let a : Account := ⟨addr, false⟩
    createAccount a
    pure a

/-- The account is found, or made: in both cases it is the stored one afterwards. -/
theorem findOrCreate_wp (addr : Address) (env : Env) (w : World) : Prog.wp (findOrCreate addr) env w
    (fun a w' => w'.accounts.get addr = some a ∧ (∀ b ∈ w.accounts.get addr, b = a) ∧
      (w.accounts.get addr = none → a.isBlocked = false) ∧
      w'.calls = w.calls + (if (w.accounts.get addr).isSome then 1 else 3) ∧
      w' = { w with accounts := w'.accounts, calls := w'.calls })
    (fun _ w' => w' = { w with accounts := w'.accounts, calls := w'.calls }) := by
  unfold findOrCreate getByAddress
  rw [Prog.wp_bind]
  refine wp_call (fun _ => rfl) fun _ => ?_
  simp only [Prog.Ends]
  cases hg : w.accounts.get addr with
  | some a =>
    have ht : w.tick.accounts.get addr = some a := hg
    simp only [ht]
    exact ⟨hg, by simp, by simp, rfl, rfl⟩
  | none =>
    have ht : w.tick.accounts.get addr = none := hg
    simp only [ht, Prog.wp_bind]
    refine wp_call (fun _ => rfl) fun _ => ?_
    rw [Prog.ends_ok]
    unfold createAccount
    refine wp_call (fun _ => rfl) fun _ => ?_
    have hnew : ¬(w.tick.tick.tick.accounts.get addr).isSome := by
      rw [show w.tick.tick.tick.accounts.get addr = none from hg]
      exact Bool.false_ne_true
    rw [if_neg hnew, Prog.ends_ok]
    exact ⟨Coll.get_put_self .., by simp, fun _ => rfl, rfl, rfl⟩

end Dex
