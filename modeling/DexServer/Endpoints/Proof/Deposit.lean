import DexServer.Swap.Configurator

/-!
# What the handlers of deposits do to the queue and the tokens

* `onNewEthereumTransaction_queues`, `onNewBitcoinTransaction_queues`: a handler queues at most one
  entry, and none for an association that has succeeded.
* `submitOffer_pays`: a submitted transaction sends tokens at most once, and only a CreateOffer
  does.
* `AccountConfigurator.work_pays`: so a goroutine of the configurator sends tokens in one of its
  steps only.
-/

namespace Dex

open Lib

/-- Nothing is queued and no tokens are sent. -/
structure World.Still (w w' : World) : Prop where
  depositQueue : w'.depositQueue = w.depositQueue
  transfers : w'.transfers = w.transfers

instance : Std.Refl World.Still := ⟨fun _ => ⟨rfl, rfl⟩⟩

instance : IsTrans World World.Still :=
  ⟨fun _ _ _ h h' => ⟨h'.depositQueue.trans h.depositQueue, h'.transfers.trans h.transfers⟩⟩

theorem World.still_rfl (w : World) : w.Still w := Std.Refl.refl w

theorem World.still_tick (w : World) : w.Still w.tick := ⟨rfl, rfl⟩

theorem World.Still.trans {w w' w'' : World} (h : w.Still w') (h' : w'.Still w'') : w.Still w'' :=
  IsTrans.trans _ _ _ h h'

/-- The program queues nothing and sends no tokens. -/
abbrev KeepsStill {α : Type} (m : M α) : Prop := Prog.Keeps World.Still m

namespace KeepsStill

variable {α : Type} {m : M α}

theorem call {f : Env → Nat → World → Except Err α × World}
    (hf : ∀ env n (w : World), w.Still (f env n w).2) : KeepsStill (call f) :=
  keeps_call World.still_tick hf

theorem query (f : Env → Nat → World → Except Err α) :
    KeepsStill (Dex.call fun env n w => (f env n w, w)) :=
  call fun _ _ w => w.still_rfl

theorem attempted (hm : KeepsStill m) : KeepsStill (attempted m) := keeps_attempted hm

theorem checked (x : Except String α) : KeepsStill (checked x) := .ofExcept _

theorem deref (x : Option α) : KeepsStill (deref x) := by
  cases x with
  | none => exact .throw _
  | some a => exact .pure a

theorem index (xs : List α) (i : Nat) : KeepsStill (index xs i) := by
  unfold Dex.index
  split
  · exact .pure _
  · exact .throw _

end KeepsStill

/-- Tokens are sent once; nothing is queued. -/
def World.Pays (w w' : World) : Prop :=
  w'.depositQueue = w.depositQueue ∧ ∃ t, w'.transfers = w.transfers ++ [t]

theorem World.Pays.of_still {w w' w'' : World} (h : w.Still w') (h' : w'.Pays w'') :
    w.Pays w'' := by
  obtain ⟨hq, t, ht⟩ := h'
  refine ⟨hq.trans h.depositQueue, t, ?_⟩
  rw [ht, h.transfers]

/-! ## The store -/

theorem updateAssociation_still (chain : Chain) (address : Address)
    (f : AddressAssociationRecord → AddressAssociationRecord) (hk : ∀ a, (f a).key = a.key)
    (ho : ∀ a, (f a).owner = a.owner) : KeepsStill (updateAssociation chain address f hk ho) := by
  refine KeepsStill.call fun env n w => ?_
  cases w.associations.getByAddress chain address with
  | none => exact w.still_rfl
  | some _ => exact ⟨rfl, rfl⟩

theorem getBlockToProcess_still (chain : Chain) : KeepsStill (getBlockToProcess chain) := by
  refine (KeepsStill.checked _).bind fun key => ?_
  refine (KeepsStill.call fun env n w => ?_).attempt.bind fun x => ?_
  · cases w.config.lastBlock chain with
    | none => exact w.still_rfl
    | some _ => exact w.still_rfl
  · cases x with
    | ok block => exact .pure block
    | error err => exact .throw _

theorem saveLastProcessedBlock_still (chain : Chain) (block : Nat) :
    KeepsStill (saveLastProcessedBlock chain block) :=
  (KeepsStill.checked _).bind fun _ => KeepsStill.call fun _ _ _ => ⟨rfl, rfl⟩

namespace DepositService

variable (s : DepositService)

theorem getTokenAmountFromOracle_quiet (base quote : String) (amount : Int) :
    Quiet (s.getTokenAmountFromOracle base quote amount) := by
  refine (Quiet.query fun _ n _ => s.lastPrice n).attempted.bind fun x => ?_
  split
  · exact .pure _
  · split
    · exact .pure _
    · exact .pure _

theorem getBaseTokenAmount_quiet (pairName : String) (amount : Int) :
    Quiet (s.getBaseTokenAmount pairName amount) := by
  unfold getBaseTokenAmount
  split
  · refine .ite (.pure _) ((Quiet.query fun _ _ _ => _).bind fun pair => ?_)
    split
    · exact s.getTokenAmountFromOracle_quiet _ _ _
    · refine (Quiet.query fun _ _ _ => _).bind fun bids => ?_
      split
      · exact s.getTokenAmountFromOracle_quiet _ _ _
      · exact .ite (.throw _) (.pure _)
  · exact .throw _

theorem getBaseTokenAmount_still (pairName : String) (amount : Int) :
    KeepsStill (s.getBaseTokenAmount pairName amount) :=
  (s.getBaseTokenAmount_quiet pairName amount).keeps fun _ _ => ⟨rfl, rfl⟩

theorem valueToWei_still (t : Bitcoin.Transaction) : KeepsStill (s.valueToWei t) := by
  refine (KeepsStill.query fun _ n _ => s.lastPrice n).attempted.bind fun x => ?_
  split
  · exact .pure _
  · split
    · exact .pure _
    · exact .ite (.throw _) (.pure _)

end DepositService

/-! ## New transactions -/

/-- At most one entry is queued, and it is one with `P`; no tokens are sent. -/
def World.Queues (P : DepositTransaction → Prop) (w w' : World) : Prop :=
  w.Still w' ∨ ∃ t, P t ∧ w'.depositQueue = w.depositQueue ++ [t] ∧ w'.transfers = w.transfers

theorem World.Queues.mono {P P' : DepositTransaction → Prop} {w w' : World} (h : w.Queues P w')
    (hP : ∀ t, P t → P' t) : w.Queues P' w' := by
  rcases h with h | ⟨t, ht, h⟩
  · exact .inl h
  · exact .inr ⟨t, hP t ht, h⟩

theorem World.Queues.of_still {P : DepositTransaction → Prop} {w w' w'' : World} (h : w.Still w')
    (h' : w'.Queues P w'') : w.Queues P w'' := by
  rcases h' with h' | ⟨t, ht, hq, hp⟩
  · exact .inl (h.trans h')
  · refine .inr ⟨t, ht, ?_, ?_⟩
    · rw [hq, h.depositQueue]
    · rw [hp, h.transfers]

namespace DepositEndpoint

section
variable (e : DepositEndpoint) {env : Env} {w : World}

omit e in
theorem processNewTransaction_queues (t : DepositTransaction) (a : AddressAssociationRecord)
    (env : Env) (w : World) :
    w.Queues (fun t' => t' = t ∧ a.status ≠ .SUCCESS) (processNewTransaction t a env w).2 := by
  refine Prog.wp_state (P := w.Queues _) ?_
  unfold processNewTransaction
  split
  · exact .inl w.still_rfl
  · rename_i hs
    rw [Prog.wp_bind]
    have hstill : KeepsStill (processTransaction a) := updateAssociation_still _ _ _ _ _
    refine hstill.wp (fun _ w₁ h₁ => ?_) fun _ w₁ h₁ => .inl h₁
    refine Prog.wp_mono (Q := fun _ => w₁.Queues _) (E := fun _ => w₁.Queues _) ?_
      (fun _ _ h => h.of_still h₁) fun _ _ h => h.of_still h₁
    exact wp_call (fun _ => .inl ⟨rfl, rfl⟩) fun _ => .inr ⟨t, ⟨rfl, hs⟩, rfl, rfl⟩

/-- **`OnNewEthereumTransaction`** queues the entry of the transaction, or nothing. -/
theorem onNewEthereumTransaction_queues (t : Ethereum.Transaction) (env : Env) (w : World) :
    w.Queues (fun t' => ∃ a, w.associations.getByAddress .ethereum
      (env.eth.hexToAddress t.recipient) = some a ∧ a.status ≠ .SUCCESS ∧ t' = ethereumEntry t a)
      (e.onNewEthereumTransaction t env w).2 := by
  refine Prog.wp_state (P := w.Queues _) ?_
  unfold onNewEthereumTransaction
  split
  · exact .inl w.still_rfl
  · simp only [Prog.wp_bind, Prog.wp_ask]
    refine wp_attempted (wp_call (fun _ => ⟨.inl ⟨rfl, rfl⟩, .inl ⟨rfl, rfl⟩⟩) fun _ => ?_)
    rw [Prog.ends_ok]
    cases ha : w.tick.associations.getByAddress .ethereum (env.eth.hexToAddress t.recipient) with
    | none => exact .inl ⟨rfl, rfl⟩
    | some a =>
      have ha' : w.associations.getByAddress .ethereum (env.eth.hexToAddress t.recipient) =
          some a := ha
      have hq := World.Queues.of_still w.still_tick
        (processNewTransaction_queues (ethereumEntry t a) a env w.tick)
      exact Prog.wp_of_state (hq.mono fun t' ht' => ⟨a, ha', ht'.2, ht'.1⟩)

/-- **`OnNewBitcoinTransaction`** queues an entry of the transaction, or nothing. -/
theorem onNewBitcoinTransaction_queues (t : Bitcoin.Transaction) (env : Env) (w : World) :
    w.Queues (fun t' => ∃ a, w.associations.getByAddress .bitcoin
      (env.eth.hexToAddress t.recipient) =
      some a ∧ a.status ≠ .SUCCESS ∧ ∃ amount, t' = bitcoinEntry t a amount)
      (e.onNewBitcoinTransaction t env w).2 := by
  refine Prog.wp_state (P := w.Queues _) ?_
  unfold onNewBitcoinTransaction
  split
  · exact .inl w.still_rfl
  · simp only [Prog.wp_bind, Prog.wp_ask]
    refine wp_attempted (wp_call (fun _ => ⟨.inl ⟨rfl, rfl⟩, .inl ⟨rfl, rfl⟩⟩) fun _ => ?_)
    rw [Prog.ends_ok]
    cases ha : w.tick.associations.getByAddress .bitcoin (env.eth.hexToAddress t.recipient) with
    | none => exact .inl ⟨rfl, rfl⟩
    | some a =>
      have ha' : w.associations.getByAddress .bitcoin (env.eth.hexToAddress t.recipient) = some a :=
        ha
      simp only [Prog.wp_bind]
      refine (e.depositService.valueToWei_still t).wp (fun amount w₁ h₁ => ?_) fun _ w₁ h₁ => ?_
      · have hq := World.Queues.of_still (w.still_tick.trans h₁)
          (processNewTransaction_queues (bitcoinEntry t a amount) a env w₁)
        exact Prog.wp_of_state (hq.mono fun t' ht' => ⟨a, ha', ht'.2, amount, ht'.1⟩)
      · exact .inl (w.still_tick.trans h₁)

/-! ## Submitted transactions -/

omit e in
theorem orFailed_still {α : Type} (a : AddressAssociationRecord) {m : M α} (hm : KeepsStill m) :
    KeepsStill (orFailed a m) := by
  refine hm.attempted.bind fun x => ?_
  split
  · exact .pure _
  · exact (updateAssociation_still _ _ _ _ _).attempted.bind fun _ => .throw _

/-- **Tokens are sent exactly if `transferTokens` succeeds.** -/
theorem transferTokens_pays (a : AddressAssociationRecord) (quoteAmount : Int) (env : Env)
    (w : World) :
    Prog.wp (e.transferTokens a quoteAmount) env w (fun _ => w.Pays) (fun _ => w.Still) := by
  unfold transferTokens
  simp only [Prog.wp_bind, Prog.wp_pure]
  refine (KeepsStill.query fun _ _ _ => .ok ()).wp (fun _ w₁ h₁ => ?_) fun _ _ h => h
  refine (e.depositService.getBaseTokenAmount_still a.pairName quoteAmount).wp (fun n w₂ h₂ => ?_)
    fun _ _ h => h₁.trans h
  refine (KeepsStill.query fun _ _ _ => .ok ()).wp (fun _ w₃ h₃ => ?_)
    fun _ _ h => (h₁.trans h₂).trans h
  have hw₃ := (h₁.trans h₂).trans h₃
  refine wp_call (fun _ => hw₃.trans w₃.still_tick) fun _ => ?_
  exact World.Pays.of_still hw₃ ⟨rfl, _, rfl⟩

omit e in
theorem orFailed_wp {α : Type} (a : AddressAssociationRecord) {m : M α} {Q : α → World → Prop}
    (h : Prog.wp m env w Q fun _ => w.Still) : Prog.wp (orFailed a m) env w Q fun _ => w.Still := by
  unfold orFailed
  rw [Prog.wp_bind]
  refine wp_attempted (Prog.wp_mono h (fun x w' hx => hx) fun err w' h' => ⟨?_, h'⟩)
  simp only [Prog.wp_bind, Prog.wp_throw]
  exact (updateAssociation_still _ _ _ _ _).attempted.wp (fun _ _ h => h'.trans h)
    fun _ _ h => h'.trans h

theorem submitOffer_still (chain : Chain) (destination : Address) {t : AssociationTransaction}
    (ht : t.transactionType ≠ .CreateOffer) : KeepsStill (e.submitOffer chain destination t) := by
  unfold submitOffer
  refine (KeepsStill.query fun _ _ _ => _).bind fun x => (KeepsStill.deref x).bind fun a => ?_
  refine (orFailed_still a (KeepsStill.checked _)).bind fun transaction => ?_
  refine (orFailed_still a (updateAssociation_still _ _ _ _ _)).bind fun _ => ?_
  rw [if_neg ht]
  exact .pure _

/-- **A submitted transaction** sends tokens once, or it does not. -/
theorem submitOffer_pays (chain : Chain) (destination : Address) (t : AssociationTransaction)
    (env : Env) (w : World) : Prog.wp (e.submitOffer chain destination t) env w
      (fun x w' => if x.isSome then w.Pays w' else w.Still w') (fun _ => w.Still) := by
  unfold submitOffer
  simp only [Prog.wp_bind]
  refine (KeepsStill.query fun _ _ _ => _).wp (fun x w₁ h₁ => ?_) fun _ _ h => h
  refine (KeepsStill.deref x).wp (fun a w₂ h₂ => ?_) fun _ _ h => h₁.trans h
  have hw₂ := h₁.trans h₂
  refine (orFailed_still a (KeepsStill.checked _)).wp (fun transaction w₃ h₃ => ?_)
    fun _ _ h => hw₂.trans h
  have hw₃ := hw₂.trans h₃
  refine (orFailed_still a (updateAssociation_still _ _ _ _ _)).wp (fun _ w₄ h₄ => ?_)
    fun _ _ h => hw₃.trans h
  have hw₄ := hw₃.trans h₄
  split
  · simp only [Prog.wp_bind, Prog.wp_pure]
    refine (KeepsStill.index t.params 0).wp (fun amount w₅ h₅ => ?_) fun _ _ h => hw₄.trans h
    have hw₅ := hw₄.trans h₅
    refine (orFailed_still a (KeepsStill.checked _)).wp (fun quoteAmount w₆ h₆ => ?_)
      fun _ _ h => hw₅.trans h
    have hw₆ := hw₅.trans h₆
    refine Prog.wp_mono (orFailed_wp a (e.transferTokens_pays a quoteAmount env w₆))
      (fun n w' h => ?_) fun _ _ h => hw₆.trans h
    exact World.Pays.of_still hw₆ h
  · exact hw₄

theorem checkTransfer_still (a : AddressAssociationRecord) (tokenAmount : Int) :
    KeepsStill (e.checkTransfer a tokenAmount) := by
  refine Prog.Keeps.get.bind fun w => ?_
  split
  · exact (KeepsStill.checked _).bind fun _ => KeepsStill.checked _
  · exact .throw _

theorem completeOffer_still (a : AddressAssociationRecord) (tokenAmount : Int) :
    KeepsStill (e.completeOffer a tokenAmount) :=
  (orFailed_still a (e.checkTransfer_still a tokenAmount)).bind fun _ =>
    (updateAssociation_still _ _ _ _ _).attempted.bind fun _ => .pure _

theorem getAssociationByUserAddress_still (chain : Chain) (publicKey : Address) :
    KeepsStill (e.getAssociationByUserAddress chain publicKey) :=
  (KeepsStill.query fun _ _ _ => _).bind fun _ => .pure _

theorem onExchangedTimelocked_still (chain : Chain) (publicKey : Address)
    (t : AssociationTransaction) : KeepsStill (e.onExchangedTimelocked chain publicKey t) := by
  refine (e.getAssociationByUserAddress_still chain publicKey).bind fun x => ?_
  split
  · exact (KeepsStill.checked _).bind fun _ => updateAssociation_still _ _ _ _ _
  · exact .pure _

end

end DepositEndpoint

/-! ## The configurator -/

/-- The tokens of the entry have not been sent yet. -/
def Stage.isUnpaid : Stage → Bool
  | .creatingAccount | .waitingForSigner | .configuringAccount => true
  | .transferring _ _ | .removingSigner | .finished => false

namespace AccountConfigurator

variable (ac : AccountConfigurator) (e : DepositEndpoint)

theorem buildTransaction_still (source : String) (type : TransactionType) (params : List String) :
    KeepsStill (ac.buildTransaction source type params) :=
  Prog.Keeps.ask.bind fun _ => (KeepsStill.checked _).bind fun _ => .pure _

theorem removeTemporarySigner_still (t : DepositTransaction) :
    KeepsStill (ac.removeTemporarySigner e t) := by
  intro env w
  refine Prog.wp_state ?_
  unfold removeTemporarySigner buildTransaction DepositEndpoint.onSubmitTransaction
  simp only [Prog.wp_bind, Prog.wp_ask, Prog.wp_pure]
  refine (KeepsStill.checked _).wp (fun signature w₁ h₁ => ?_) fun _ _ h => h
  have htype : TransactionType.RemoveSigner ≠ .CreateOffer := by decide
  refine (e.submitOffer_still _ _ htype).wp (fun x w₂ h₂ => ?_) fun _ _ h => h₁.trans h
  have hw₂ := h₁.trans h₂
  cases x with
  | none => exact hw₂
  | some p =>
    exact (e.completeOffer_still p.1 p.2).wp (fun _ _ h => hw₂.trans h) fun _ _ h => hw₂.trans h

theorem configureAccountTransaction_pays (t : DepositTransaction) (env : Env) (w : World) :
    Prog.wp (ac.configureAccountTransaction e.submitOffer t) env w
      (fun x w' => if x.isSome then w.Pays w' else w.Still w') (fun _ => w.Still) := by
  unfold configureAccountTransaction
  simp only [Prog.wp_bind, Prog.wp_ask]
  refine (KeepsStill.checked _).wp (fun price w₁ h₁ => ?_) fun _ _ h => h
  refine (ac.buildTransaction_still _ _ _).wp (fun transaction w₂ h₂ => ?_) fun _ _ h => h₁.trans h
  have hw₂ := h₁.trans h₂
  refine Prog.wp_mono (e.submitOffer_pays _ _ transaction env w₂) (fun x w' h => ?_)
    fun _ _ h => hw₂.trans h
  cases x with
  | none => exact hw₂.trans h
  | some p => exact World.Pays.of_still hw₂ h

/-- What a step of `ConfigureAccount` does: tokens are sent by the step that leaves the unpaid
stages. -/
def Works (stage : Stage) (w : World) (stage' : Stage) (w' : World) : Prop :=
  w.Still w' ∧ (stage'.isUnpaid = true → stage.isUnpaid = true) ∨
    w.Pays w' ∧ stage.isUnpaid = true ∧ stage'.isUnpaid = false

theorem work_pays (t : DepositTransaction) (stage : Stage) (env : Env) (w : World) :
    Prog.wp (ac.work e t stage) env w (Works stage w) (fun _ => w.Still) := by
  cases stage with
  | creatingAccount =>
    rw [work]
    split
    · exact .inl ⟨w.still_rfl, fun _ => rfl⟩
    · rw [Prog.wp_bind]
      refine (e.getAssociationByUserAddress_still _ _).attempted.wp (fun x w₁ h₁ => ?_)
        fun _ _ h => h
      split
      · exact .inl ⟨h₁, fun _ => rfl⟩
      · exact .inl ⟨h₁, fun _ => rfl⟩
  | waitingForSigner =>
    rw [work]
    split
    · exact .inl ⟨w.still_rfl, fun _ => rfl⟩
    · rw [Prog.wp_bind]
      refine (e.getAssociationByUserAddress_still _ _).attempted.wp (fun x w₁ h₁ => ?_)
        fun _ _ h => h
      split
      · exact .inl ⟨h₁, fun _ => rfl⟩
      · split
        · exact .inl ⟨h₁, fun _ => rfl⟩
        · exact .inl ⟨h₁, fun _ => rfl⟩
  | configuringAccount =>
    rw [work]
    rw [Prog.wp_bind]
    refine wp_attempted (Prog.wp_mono (ac.configureAccountTransaction_pays e t env w)
      (fun x w₁ h₁ => ?_) fun _ w₁ h₁ => ⟨.inl ⟨h₁, nofun⟩, h₁⟩)
    cases x with
    | none => exact .inl ⟨h₁, nofun⟩
    | some p => exact .inr ⟨h₁, rfl, rfl⟩
  | transferring a n =>
    rw [work]
    rw [Prog.wp_bind]
    refine (e.completeOffer_still a n).attempted.wp (fun x w₁ h₁ => ?_) fun _ _ h => h
    split
    · exact .inl ⟨h₁, nofun⟩
    · exact .inl ⟨h₁, nofun⟩
  | removingSigner =>
    rw [work]
    split
    · simp only [Prog.wp_bind, Prog.wp_pure]
      exact (ac.removeTemporarySigner_still e t).attempted.wp (fun _ _ h => .inl ⟨h, nofun⟩)
        fun _ _ h => h
    · rw [Prog.wp_bind]
      have hbuild : KeepsStill (ac.buildUnlockAccountTransaction t) :=
        Prog.Keeps.ask.bind fun _ => ac.buildTransaction_still _ _ _
      refine hbuild.attempted.wp (fun x w₁ h₁ => ?_) fun _ _ h => h
      split
      · exact .inl ⟨h₁, nofun⟩
      · simp only [Prog.wp_bind, Prog.wp_pure]
        exact (e.onExchangedTimelocked_still _ _ _).attempted.wp
          (fun _ _ h => .inl ⟨h₁.trans h, nofun⟩) fun _ _ h => h₁.trans h
  | finished => exact .inl ⟨w.still_rfl, nofun⟩

end AccountConfigurator

end Dex
