import DexServer.Lib.Run
import DexServer.Sample
import DexServer.Swap.Proof.Moves

/-!
# A deposit is paid out once

An entry of the queue is taken once and its goroutine sends tokens once (`Swap.Moved`), so a deposit
is paid out as often as it is queued. Blocks are processed again, and the handlers tell a deposit
that has been queued before only by the status of its association: one that is still PENDING, or
FAILED, is queued again (`deposit_paid_twice`).

`deposits_paid_once`: as long as the listeners hand over no deposit that has been queued before,
except where the association has succeeded, every deposit is paid out at most once.
-/

namespace Dex

open Lib

/-! ## One element of a list is replaced -/

section
variable {α β : Type} {l : List α} {i : Nat} {a b : α} {f : α → β} {p : α → Bool}

theorem exists_set_eq (h : l[i]? = some a) : ∃ l₁ l₂, l = l₁ ++ a :: l₂ ∧
    l.set i b = l₁ ++ b :: l₂ := by
  obtain ⟨hi, rfl⟩ := List.getElem?_eq_some_iff.1 h
  refine ⟨l.take i, l.drop (i + 1), ?_, ?_⟩
  · rw [← List.drop_eq_getElem_cons hi, List.take_append_drop]
  · rw [List.set_eq_take_append_cons_drop, if_pos hi]

theorem filter_set_sublist (h : l[i]? = some a) (hf : f b = f a) (hp : p b = true → p a = true) :
    (((l.set i b).filter p).map f).Sublist ((l.filter p).map f) := by
  obtain ⟨l₁, l₂, hl, hs⟩ := exists_set_eq (b := b) h
  rw [hs, hl]
  simp only [List.filter_append, List.map_append, List.filter_cons]
  refine (List.Sublist.refl _).append ?_
  by_cases hb : p b = true
  · rw [if_pos hb, if_pos (hp hb), List.map_cons, List.map_cons, hf]
  · rw [if_neg hb]
    split
    · rw [List.map_cons]
      exact List.sublist_cons_self _ _
    · exact .refl _

theorem filter_set_perm (h : l[i]? = some a) (ha : p a = true) (hb : p b = false) :
    (f a :: ((l.set i b).filter p).map f).Perm ((l.filter p).map f) := by
  obtain ⟨l₁, l₂, hl, hs⟩ := exists_set_eq (b := b) h
  rw [hs, hl]
  simp only [List.filter_append, List.map_append, List.filter_cons, ha, hb, if_true, List.map_cons]
  exact List.perm_middle.symm

end

/-! ## The invariant -/

/-- The deposits whose tokens a goroutine has still to send. -/
def Swap.unpaid (σ : Swap) : List Deposit :=
  (σ.workers.filter (·.stage.isUnpaid)).map (·.deposit)

/-- Every deposit was queued once; it is in the queue, with a goroutine, or paid, if it is not
lost. -/
structure PaidOnce (σ : Swap) : Prop where
  once : (σ.queued.map (·.1)).Nodup
  covered : (σ.awaiting ++ σ.unpaid ++ σ.paid).Subperm (σ.queued.map (·.1))

/-- The deposit has not been queued before, or its association has succeeded. -/
def Swap.Unseen (σ : Swap) (d : Deposit) (address : Address) : Prop :=
  d ∉ σ.queued.map (·.1) ∨
    (σ.world.associations.getByAddress d.chain address).map (·.status) = some .SUCCESS

instance (σ : Swap) (d : Deposit) (address : Address) : Decidable (σ.Unseen d address) :=
  inferInstanceAs (Decidable (_ ∨ _))

/-- What a listener hands over in the step is unseen. -/
def SwapOp.Unseen (env : Env) (σ : Swap) : SwapOp → Prop
  | ethereum _ _ =>
    ∀ t ∈ σ.ethereum.next env.eth, σ.Unseen t.deposit (env.eth.hexToAddress t.recipient)
  | bitcoin _ => ∀ t ∈ σ.bitcoin.next, σ.Unseen t.deposit (env.eth.hexToAddress t.recipient)
  | _ => True

instance (env : Env) (σ : Swap) : (op : SwapOp) → Decidable (op.Unseen env σ)
  | .ethereum _ _ | .bitcoin _ => inferInstanceAs (Decidable (∀ t ∈ _, _))
  | .consume _ | .work _ | .associate _ | .crash | .startEthereum _ | .startBitcoin _ _ =>
    inferInstanceAs (Decidable True)

section
variable {env : Env} {σ σ' : Swap} {op : SwapOp}

theorem SwapOp.Unseen.queueable (h : op.Unseen env σ) {d : Deposit} {t : DepositTransaction}
    (hq : σ.Queueable env op d t) : d ∉ σ.queued.map (·.1) := by
  have key : ∀ {d : Deposit} {address : Address} {a : AddressAssociationRecord},
      σ.Unseen d address →
      σ.world.associations.getByAddress d.chain address = some a → a.status ≠ .SUCCESS →
      d ∉ σ.queued.map (·.1) := by
    intro d address a h ha hs
    rcases h with h | h
    · exact h
    · rw [ha] at h
      exact absurd (Option.some.inj h) hs
  cases hq with
  | ethereum next found status => exact key (h _ next) found status
  | bitcoin amount next found status => exact key (h _ next) found status

theorem unpaid_sublist (h : σ'.workers = σ.workers ∨ σ'.workers = []) :
    σ'.unpaid.Sublist σ.unpaid := by
  unfold Swap.unpaid
  rcases h with h | h
  · rw [h]
  · rw [h]
    exact List.nil_sublist _

theorem PaidOnce.moved (hi : PaidOnce σ) (hu : op.Unseen env σ) (hm : σ.Moved env op σ') :
    PaidOnce σ' := by
  have hcovered := hi.covered
  cases hm with
  | idle world workers awaiting queued paid =>
    refine ⟨queued ▸ hi.once, ?_⟩
    rw [awaiting, queued, paid]
    exact (((unpaid_sublist workers).append_left _).append_right _).subperm.trans hcovered
  | @queue d t handed world workers awaiting queued paid =>
    have hnew := hu.queueable handed
    have hmap : σ'.queued.map (·.1) = σ.queued.map (·.1) ++ [d] := by
      rw [queued, List.map_append]
      rfl
    refine ⟨?_, ?_⟩
    · rw [hmap]
      exact (List.nodup_append.2 ⟨hi.once, List.nodup_singleton d, by
        intro x hx y hy e
        rw [List.mem_singleton.1 hy] at e
        exact hnew (e ▸ hx)⟩)
    · have hsub := ((unpaid_sublist workers).append_left σ.awaiting).append_right σ.paid
      have hperm : (σ.awaiting ++ [d] ++ σ'.unpaid ++ σ.paid).Perm
          (σ.awaiting ++ σ'.unpaid ++ σ.paid ++ [d]) := by
        simp only [List.append_assoc]
        exact (List.perm_append_comm.trans
          (.of_eq (by simp only [List.append_assoc]))).append_left _
      rw [hmap, awaiting, paid]
      exact hperm.subperm.trans ((hsub.subperm.trans hcovered).append (.refl _))
  | @consume i d t entry deposit world workers awaiting queued paid =>
    refine ⟨queued ▸ hi.once, ?_⟩
    have hunpaid : σ'.unpaid = σ.unpaid ++ [d] := by
      unfold Swap.unpaid
      rw [workers, List.filter_append, List.map_append]
      rfl
    obtain ⟨hlt, rfl⟩ := List.getElem?_eq_some_iff.1 deposit
    have hperm : (σ.awaiting.eraseIdx i ++ (σ.unpaid ++ [σ.awaiting[i]]) ++ σ.paid).Perm
        (σ.awaiting ++ σ.unpaid ++ σ.paid) := by
      refine List.Perm.append_right _ ?_
      rw [← List.append_assoc]
      refine List.perm_append_comm.trans ?_
      exact (List.getElem_cons_eraseIdx_perm hlt).append_right σ.unpaid
    rw [awaiting, queued, paid, hunpaid]
    exact hperm.subperm.trans hcovered
  | work worker unpaid world workers awaiting queued paid =>
    refine ⟨queued ▸ hi.once, ?_⟩
    have hsub : σ'.unpaid.Sublist σ.unpaid := by
      unfold Swap.unpaid
      rw [workers]
      exact filter_set_sublist worker rfl unpaid
    rw [awaiting, queued, paid]
    exact ((hsub.append_left _).append_right _).subperm.trans hcovered
  | @pay i wk stage worker unpaid now world workers awaiting queued paid =>
    refine ⟨queued ▸ hi.once, ?_⟩
    have hperm : (wk.deposit :: σ'.unpaid).Perm σ.unpaid := by
      unfold Swap.unpaid
      rw [workers]
      exact filter_set_perm worker unpaid now
    have hall : (σ.awaiting ++ σ'.unpaid ++ (σ.paid ++ [wk.deposit])).Perm
        (σ.awaiting ++ σ.unpaid ++ σ.paid) := by
      rw [← List.append_assoc]
      refine List.perm_append_comm.trans ?_
      show (wk.deposit :: (σ.awaiting ++ σ'.unpaid ++ σ.paid)).Perm _
      rw [List.append_assoc, List.append_assoc]
      refine List.perm_middle.symm.trans (List.Perm.append_left _ ?_)
      exact hperm.append_right σ.paid
    rw [awaiting, queued, paid]
    exact hall.subperm.trans hcovered

end

/-- **Every deposit is paid out at most once**, whatever fails and however the listeners, the
goroutines and restarts come between each other, as long as the listeners hand over no deposit that
has been queued before and whose association has not succeeded. -/
theorem deposits_paid_once {engine : SwapEngine} {env : Env} {σ₀ : Swap}
    (hworkers : σ₀.workers = []) (hawaiting : σ₀.awaiting = []) (hqueued : σ₀.queued = [])
    (hpaid : σ₀.paid = []) {ops : List SwapOp} {σ : Swap}
    (h : Run (fun _ σ op => op.Unseen env σ) (SwapOp.step engine env) σ₀ ops σ) (d : Deposit) :
    σ.paid.count d ≤ 1 := by
  have hstart : PaidOnce σ₀ := by
    refine ⟨by rw [hqueued]; exact List.nodup_nil, ?_⟩
    unfold Swap.unpaid
    rw [hawaiting, hworkers, hpaid]
    exact List.nil_subperm
  have hi : PaidOnce σ := h.invariant (I := fun _ σ => PaidOnce σ) hstart
    fun _ σ op _ hi hu => hi.moved hu (op.step_moved engine env σ)
  have hsub : σ.paid.Subperm (σ.queued.map (·.1)) :=
    (List.sublist_append_right _ _).subperm.trans hi.covered
  calc σ.paid.count d ≤ (σ.queued.map (·.1)).count d := hsub.count_le d
    _ ≤ 1 := List.nodup_iff_count_le_one.1 hi.once d

/-! ## Two runs -/

/-- Everything paid in is paid out one to one; the transfers are reported back as they were made. -/
def SwapEngine.sample : SwapEngine where
  endpoint :=
    { depositService :=
        { minimumValueWei := 1
          minimumValueSat := 1
          signerPublicKey := 9
          pairs := []
          sideOrderBook := fun _ _ _ => []
          lastPrice := fun _ => .error .io
          ratOf := fun _ => none
          toUpper := .ofList }
      encode := fun _ => .ok ""
      transferEvents := fun _ => [⟨1, 50⟩] }
  configurator := ⟨true, 9, "1", 0, fun _ => .ok []⟩

/-- The addresses 7 and 8 were given to the users 1 and 2; the last block is the fifth. -/
def Swap.sample : Swap where
  world :=
    { World.empty with
      associations :=
        { coll := ⟨[⟨.ethereum, 7, .PENDING, 1, [], "ETH/ETH", 3⟩,
            ⟨.ethereum, 8, .PENDING, 2, [], "ETH/ETH", 3⟩], by decide⟩
          unique := by decide }
      config := ⟨some 5, none⟩ }
  ethereum := ⟨true, true, "1", 0, 5, .idle⟩
  bitcoin := ⟨true, 0, 0, .stopped⟩
  workers := []
  awaiting := []
  queued := []
  paid := []

/-- A block with a payment to each of the two addresses. -/
def Ethereum.Block.sample : Ethereum.Block := ⟨5, [⟨21, 50, some 7⟩, ⟨22, 60, some 8⟩]⟩

/-- A step of the ethereum listener on that block. -/
def SwapOp.listen : SwapOp := .ethereum (.ok (some .sample)) (.ok (some .sample))

/-- The first deposit is paid out; the server then ends and processes the block again. -/
theorem deposits_paid_once_restart :
    let env := Env.sample .stored
    let ops := [.listen, .listen, .consume 0, .work 0, .work 0, .work 0, .work 0, .listen, .listen,
      .crash, .startEthereum (.ok "1"), .listen, .listen]
    ∃ σ, Run (fun _ σ op => op.Unseen env σ) (SwapOp.step .sample env) .sample ops σ ∧
      σ.paid = [⟨.ethereum, "21", 0⟩] ∧ σ.paid.count ⟨.ethereum, "21", 0⟩ ≤ 1 := by
  intro env ops
  have hrun : Run (fun _ σ op => op.Unseen env σ) (SwapOp.step .sample env) .sample ops _ :=
    Run.of_check _ (by decide +kernel)
  exact ⟨_, hrun, by decide +kernel, deposits_paid_once rfl rfl rfl rfl hrun _⟩

/-- The second deposit of the block cannot be queued, so the block is processed again, and the first
deposit is queued and paid out a second time. -/
theorem deposit_paid_twice :
    let env := { Env.sample .stored with fails := fun n => n = 5 }
    let ops := [.listen, .listen, .listen, .listen, .listen, .consume 0, .consume 0,
      .work 0, .work 0, .work 0, .work 1, .work 1, .work 1]
    ∃ σ, Run (fun _ _ _ => True) (SwapOp.step .sample env) .sample ops σ ∧
      σ.paid = [⟨.ethereum, "21", 0⟩, ⟨.ethereum, "21", 0⟩] ∧
      σ.world.transfers = [⟨3, 1, 50⟩, ⟨3, 1, 50⟩] ∧ ¬σ.paid.count ⟨.ethereum, "21", 0⟩ ≤ 1 :=
  ⟨_, Run.of_check _ (by decide +kernel), by decide +kernel, by decide +kernel, by decide +kernel⟩

end Dex
