import DexServer.Endpoints.Proof.Deposit
import DexServer.Swap.Swap

/-!
# What a step of the swap engine can do

`Swap.Moved` lists it: nothing that concerns entries and tokens, or one entry is queued for the
transaction a listener hands over, or one entry is taken, or a goroutine of the configurator goes
on, sending its tokens or not. `SwapOp.step_moved` says that this is all, whatever fails.
-/

namespace Dex

open Lib

namespace Swap

/-- The step hands the deposit `d` over, and the handler may queue `t` for it. -/
inductive Queueable (env : Env) (σ : Swap) : SwapOp → Deposit → DepositTransaction → Prop
  | ethereum {ahead block : Answer Ethereum.Block} {t : Ethereum.Transaction}
      {a : AddressAssociationRecord} (next : σ.ethereum.next env.eth = some t)
      (found : σ.world.associations.getByAddress .ethereum (env.eth.hexToAddress t.recipient) =
        some a)
      (status : a.status ≠ .SUCCESS) :
      Queueable env σ (.ethereum ahead block) t.deposit (DepositEndpoint.ethereumEntry t a)
  | bitcoin {ahead : Answer Bitcoin.Block} {t : Bitcoin.Transaction} {a : AddressAssociationRecord}
      (amount : String) (next : σ.bitcoin.next = some t)
      (found : σ.world.associations.getByAddress .bitcoin (env.eth.hexToAddress t.recipient) =
        some a)
      (status : a.status ≠ .SUCCESS) :
      Queueable env σ (.bitcoin ahead) t.deposit (DepositEndpoint.bitcoinEntry t a amount)

/-- What the step `op` can do. The goroutines are lost when the server ends. -/
inductive Moved (env : Env) (σ : Swap) (op : SwapOp) : Swap → Prop
  | idle {σ' : Swap} (world : σ.world.Still σ'.world)
      (workers : σ'.workers = σ.workers ∨ σ'.workers = [])
      (awaiting : σ'.awaiting = σ.awaiting) (queued : σ'.queued = σ.queued)
      (paid : σ'.paid = σ.paid) :
      Moved env σ op σ'
  | queue {σ' : Swap} {d : Deposit} {t : DepositTransaction} (handed : σ.Queueable env op d t)
      (world : σ'.world.depositQueue = σ.world.depositQueue ++ [t])
      (workers : σ'.workers = σ.workers ∨ σ'.workers = [])
      (awaiting : σ'.awaiting = σ.awaiting ++ [d])
      (queued : σ'.queued = σ.queued ++ [(d, t)]) (paid : σ'.paid = σ.paid) : Moved env σ op σ'
  | consume {σ' : Swap} {i : Nat} {d : Deposit} {t : DepositTransaction}
      (entry : σ.world.depositQueue[i]? = some t) (deposit : σ.awaiting[i]? = some d)
      (world : σ'.world.depositQueue = σ.world.depositQueue.eraseIdx i)
      (workers : σ'.workers = σ.workers ++ [⟨d, t, .creatingAccount⟩])
      (awaiting : σ'.awaiting = σ.awaiting.eraseIdx i) (queued : σ'.queued = σ.queued)
      (paid : σ'.paid = σ.paid) : Moved env σ op σ'
  | work {σ' : Swap} {i : Nat} {wk : Worker} {stage : Stage} (worker : σ.workers[i]? = some wk)
      (unpaid : stage.isUnpaid = true → wk.stage.isUnpaid = true) (world : σ.world.Still σ'.world)
      (workers : σ'.workers = σ.workers.set i { wk with stage })
      (awaiting : σ'.awaiting = σ.awaiting)
      (queued : σ'.queued = σ.queued) (paid : σ'.paid = σ.paid) : Moved env σ op σ'
  | pay {σ' : Swap} {i : Nat} {wk : Worker} {stage : Stage} (worker : σ.workers[i]? = some wk)
      (unpaid : wk.stage.isUnpaid = true) (now : stage.isUnpaid = false)
      (world : σ'.world.depositQueue = σ.world.depositQueue)
      (workers : σ'.workers = σ.workers.set i { wk with stage })
      (awaiting : σ'.awaiting = σ.awaiting)
      (queued : σ'.queued = σ.queued) (paid : σ'.paid = σ.paid ++ [wk.deposit]) : Moved env σ op σ'

section
variable {env : Env} {σ : Swap} {op : SwapOp}

theorem record_workers (d : Option Deposit) (w : World) : (σ.record d w).workers = σ.workers := by
  cases d <;> rfl

theorem Moved.record {d : Option Deposit} {w : World}
    (h : σ.world.Queues (fun t => ∃ d', d = some d' ∧ σ.Queueable env op d' t) w) {σ' : Swap}
    (hw : σ'.world = (σ.record d w).world) (hworkers : σ'.workers = σ.workers ∨ σ'.workers = [])
    (ha : σ'.awaiting = (σ.record d w).awaiting) (hq : σ'.queued = (σ.record d w).queued)
    (hp : σ'.paid = (σ.record d w).paid) : σ.Moved env op σ' := by
  rcases h with h | ⟨t, ⟨d', rfl, ht⟩, hqueue, htransfers⟩
  · have hdrop : w.depositQueue.drop σ.world.depositQueue.length = [] := by
      rw [h.depositQueue, List.drop_length]
    cases d with
    | none => exact .idle (hw ▸ h) hworkers ha hq hp
    | some d' =>
      simp only [Swap.record, hdrop, List.map_nil, List.append_nil] at hw ha hq hp
      exact .idle (hw ▸ h) hworkers ha hq hp
  · have hdrop : w.depositQueue.drop σ.world.depositQueue.length = [t] := by
      rw [hqueue, List.drop_left]
    simp only [Swap.record, hdrop, List.map_cons, List.map_nil] at hw ha hq hp
    exact .queue ht (by rw [hw, hqueue]) hworkers ha hq hp

theorem pay_still {d : Deposit} {w : World} (h : σ.world.Still w) : (σ.pay d w).paid = σ.paid := by
  simp [Swap.pay, h.transfers]

theorem pay_pays {d : Deposit} {w : World} (h : σ.world.Pays w) :
    (σ.pay d w).paid = σ.paid ++ [d] := by
  obtain ⟨-, t, ht⟩ := h
  simp [Swap.pay, ht]

end

end Swap

/-! ## The listeners -/

section
variable {env : Env} {w : World}

/-- A step of the ethereum listener does what the handler does with the transaction handed over. -/
theorem Ethereum.Listener.step_queues {handler : Ethereum.Transaction → M Unit}
    {P : Ethereum.Transaction → DepositTransaction → Prop}
    (hh : ∀ t, w.Queues (P t) (handler t env w).2) (ahead block : Answer Ethereum.Block)
    (l : Ethereum.Listener) :
    w.Queues (fun t' => ∃ t, l.next env.eth = some t ∧ P t t')
      (l.step handler ahead block env w).2 := by
  refine Prog.wp_state (P := w.Queues _) ?_
  unfold step next
  cases l.position with
  | stopped => exact .inl w.still_rfl
  | idle =>
    dsimp only
    split
    · exact .inl w.still_rfl
    · split
      · exact .inl w.still_rfl
      · exact .inl w.still_rfl
      · split
        · exact .inl w.still_rfl
        · split
          · exact .inl w.still_rfl
          · split <;> exact .inl w.still_rfl
  | processing b rest =>
    cases rest with
    | nil =>
      simp only [Prog.wp_bind, Prog.wp_pure]
      exact (saveLastProcessedBlock_still _ _).attempted.wp (fun _ _ h => .inl h)
        fun _ _ h => .inl h
    | cons t rest =>
      simp only [Prog.wp_bind, Prog.wp_ask]
      cases handed env.eth t with
      | none => exact .inl w.still_rfl
      | some t₀ =>
        have hq := (hh t₀).mono fun t' ht' => (⟨t₀, rfl, ht'⟩ : ∃ t, some t₀ = some t ∧ P t t')
        rw [Prog.wp_bind]
        exact wp_attempted (Prog.wp_mono (Prog.wp_of_state hq) (fun _ _ h => h) fun _ _ h => ⟨h, h⟩)

theorem Bitcoin.Listener.step_queues {handler : Bitcoin.Transaction → M Unit}
    {P : Bitcoin.Transaction → DepositTransaction → Prop}
    (hh : ∀ t, w.Queues (P t) (handler t env w).2) (ahead : Answer Bitcoin.Block)
    (l : Bitcoin.Listener) :
    w.Queues (fun t' => ∃ t, l.next = some t ∧ P t t') (l.step handler ahead env w).2 := by
  refine Prog.wp_state (P := w.Queues _) ?_
  unfold step next
  cases l.position with
  | stopped => exact .inl w.still_rfl
  | idle =>
    dsimp only
    split <;> exact .inl w.still_rfl
  | processing b rest =>
    cases rest with
    | nil =>
      simp only [Prog.wp_bind, Prog.wp_pure]
      exact (saveLastProcessedBlock_still _ _).attempted.wp (fun _ _ h => .inl h)
        fun _ _ h => .inl h
    | cons o rest =>
      dsimp only
      cases handed o with
      | none => exact .inl w.still_rfl
      | some t₀ =>
        have hq := (hh t₀).mono fun t' ht' => (⟨t₀, rfl, ht'⟩ : ∃ t, some t₀ = some t ∧ P t t')
        dsimp only
        split
        · exact .inl w.still_rfl
        · rw [Prog.wp_bind]
          exact wp_attempted (Prog.wp_mono (Prog.wp_of_state hq) (fun _ _ h => h)
            fun _ _ h => ⟨h, h⟩)

theorem Ethereum.Listener.start_still (l : Ethereum.Listener) (id : Except String String) :
    KeepsStill (l.start id) :=
  (getBlockToProcess_still _).bind fun _ => (KeepsStill.checked _).bind fun _ =>
    (KeepsStill.checked _).bind fun _ => .pure _

theorem Bitcoin.Listener.start_still (l : Bitcoin.Listener) (genesis : Except String Bool)
    (blockCount : Except String Nat) : KeepsStill (l.start genesis blockCount) := by
  refine (KeepsStill.checked _).bind fun _ => (KeepsStill.checked _).bind fun _ => ?_
  refine (getBlockToProcess_still _).bind fun n => ?_
  exact .ite ((KeepsStill.checked _).bind fun _ => .pure _) (.pure _)

end

/-! ## Every step -/

/-- **A step of the swap engine** is one of `Swap.Moved`. -/
theorem SwapOp.step_moved (engine : SwapEngine) (env : Env) (σ : Swap) (op : SwapOp) :
    σ.Moved env op (op.step engine env σ) := by
  cases op with
  | ethereum ahead block =>
    have hq := Ethereum.Listener.step_queues
      (fun t => engine.endpoint.onNewEthereumTransaction_queues t env σ.world) ahead
        block σ.ethereum
    unfold step
    dsimp only
    generalize
      σ.ethereum.step engine.endpoint.onNewEthereumTransaction ahead block env σ.world = x at hq
    have hq' : σ.world.Queues (fun t => ∃ d, (σ.ethereum.next env.eth).map (·.deposit) = some d ∧
        σ.Queueable env (.ethereum ahead block) d t) x.2 := by
      refine hq.mono fun t' ht' => ?_
      obtain ⟨t, hn, a, ha, hs, rfl⟩ := ht'
      exact ⟨t.deposit, by rw [hn]; rfl, .ethereum hn ha hs⟩
    match x, hq' with
    | (.ok l, w), hq' => exact .record hq' rfl (.inl (Swap.record_workers _ w)) rfl rfl rfl
    | (.error _, w), hq' => exact .record hq' rfl (.inr rfl) rfl rfl rfl
  | bitcoin ahead =>
    have hq := Bitcoin.Listener.step_queues
      (fun t => engine.endpoint.onNewBitcoinTransaction_queues t env σ.world) ahead σ.bitcoin
    unfold step
    dsimp only
    generalize σ.bitcoin.step engine.endpoint.onNewBitcoinTransaction ahead env σ.world = x at hq
    have hq' : σ.world.Queues (fun t => ∃ d, σ.bitcoin.next.map (·.deposit) = some d ∧
        σ.Queueable env (.bitcoin ahead) d t) x.2 := by
      refine hq.mono fun t' ht' => ?_
      obtain ⟨t, hn, a, ha, hs, amount, rfl⟩ := ht'
      exact ⟨t.deposit, by rw [hn]; rfl, .bitcoin amount hn ha hs⟩
    match x, hq' with
    | (.ok l, w), hq' => exact .record hq' rfl (.inl (Swap.record_workers _ w)) rfl rfl rfl
    | (.error _, w), hq' => exact .record hq' rfl (.inr rfl) rfl rfl rfl
  | consume i =>
    unfold step
    dsimp only
    cases ht : σ.world.depositQueue[i]? with
    | none => exact .idle σ.world.still_rfl (.inl rfl) rfl rfl rfl
    | some t =>
      cases hd : σ.awaiting[i]? with
      | none => exact .idle σ.world.still_rfl (.inl rfl) rfl rfl rfl
      | some d => exact .consume ht hd rfl rfl rfl rfl rfl
  | work i =>
    unfold step
    dsimp only
    cases hw : σ.workers[i]? with
    | none => exact .idle σ.world.still_rfl (.inl rfl) rfl rfl rfl
    | some wk =>
      have hwork := engine.configurator.work_pays engine.endpoint wk.entry wk.stage env σ.world
      unfold Prog.wp at hwork
      dsimp only
      generalize engine.configurator.work engine.endpoint wk.entry wk.stage env σ.world = x at hwork
      match x, hwork with
      | (.ok stage, w), .inl ⟨h, hu⟩ => exact .work hw hu h rfl rfl rfl (Swap.pay_still h)
      | (.ok stage, w), .inr ⟨h, hu, hn⟩ => exact .pay hw hu hn h.1 rfl rfl rfl (Swap.pay_pays h)
      | (.error _, w), h => exact .idle h (.inr rfl) rfl rfl (Swap.pay_still h)
  | associate c => exact .idle ⟨rfl, rfl⟩ (.inl rfl) rfl rfl rfl
  | crash => exact .idle ⟨rfl, rfl⟩ (.inr rfl) rfl rfl rfl
  | startEthereum id =>
    have hstill := σ.ethereum.start_still id env σ.world
    unfold step
    dsimp only
    split
    · generalize σ.ethereum.start id env σ.world = x at hstill
      match x with
      | (.ok l, w) => exact .idle hstill (.inl rfl) rfl rfl rfl
      | (.error _, w) => exact .idle hstill (.inl rfl) rfl rfl rfl
    · exact .idle σ.world.still_rfl (.inl rfl) rfl rfl rfl
  | startBitcoin genesis blockCount =>
    have hstill := σ.bitcoin.start_still genesis blockCount env σ.world
    unfold step
    dsimp only
    split
    · generalize σ.bitcoin.start genesis blockCount env σ.world = x at hstill
      match x with
      | (.ok l, w) => exact .idle hstill (.inl rfl) rfl rfl rfl
      | (.error _, w) => exact .idle hstill (.inl rfl) rfl rfl rfl
    · exact .idle σ.world.still_rfl (.inl rfl) rfl rfl rfl

end Dex
