import DexServer.Sample
import DexServer.Swap.Proof.Blocks

/-!
# Nil blocks and nil handlers

The ethereum loop asks for two blocks. It looks at the first answer, but drops the error of the
second and follows the block it may not have when the processing has failed. It waits for its
handler. The bitcoin loop asks for one block, and calls its handler whether it is attached or not.

* `Ethereum.Listener.nilBlock_iff`: when the ethereum loop follows a nil block.
* `Bitcoin.Listener.no_nilBlock`, `Bitcoin.Listener.nilHandler_panics`: the bitcoin loop follows
  none, but calls a handler that is not attached.
* `Listeners.Ready`: the ethereum loop has a handler whenever it is in a block, in every run.
* `no_nil_followed_iff`: a run follows no nil block and calls no nil handler exactly if in each step
  the second request is answered, and the bitcoin handler is there when an output needs it.
-/

namespace Dex

open Lib

/-- The program has ended in a panic. -/
def panics {α : Type} : Except Err α → Bool
  | .error (.panic _) => true
  | _ => false

theorem saveLastProcessedBlock_returns (chain : Chain) (n : Nat) (env : Env) (w : World) :
    Prog.wp (attempted (saveLastProcessedBlock chain n)) env w (fun _ _ => True)
      (fun e _ => panics (.error e : Except Err Unit) = false) := by
  apply wp_attempted
  unfold saveLastProcessedBlock
  rw [Prog.wp_bind]
  refine wp_checked (fun _ _ => ?_) fun _ => ⟨trivial, rfl⟩
  exact wp_call (fun _ => ⟨trivial, rfl⟩) fun _ => trivial

theorem panics_of_wp {α : Type} {m : M α} {env : Env} {w : World}
    (h : Prog.wp m env w (fun _ _ => True)
      (fun e _ => panics (.error e : Except Err Unit) = false)) :
    panics (m env w).1 = false := by
  refine Prog.wp_result (P := fun x => panics x.1 = false) h (fun _ _ _ => rfl) fun e _ he => ?_
  cases e with
  | panic m => cases he
  | _ => rfl

/-! ## Ethereum -/

namespace Ethereum.Listener

variable {handler : Transaction → M Unit} {ahead block : Answer Block} {env : Env} {w : World}
  {l : Listener}

/-- The loop has found the block ahead and has its handler: it asks for the block itself. -/
structure AsksAgain (l : Listener) (ahead : Answer Block) : Prop where
  idle : l.position = .idle
  enabled : l.enabled = true
  found : ∃ a : Block, ahead = .ok (some a) ∧ a.number ≠ 0
  hasHandler : l.hasHandler = true

variable (handler ahead block env w) in
theorem step_idle (hp : l.position = .idle) :
    (l.step handler ahead block env w = (.error (.panic "nil pointer dereference"), w) ∧
      l.AsksAgain ahead ∧ ¬∃ b, block = .ok (some b)) ∨
    (∃ l', l.step handler ahead block env w = (.ok l', w) ∧
      ((∀ b rest, l'.position = .processing b rest → l'.hasHandler = true) ∧
        (l.AsksAgain ahead → ∃ b, block = .ok (some b)))) := by
  unfold step
  rw [hp]
  dsimp only
  split
  · rename_i hoff
    refine .inr ⟨_, rfl, by simp, fun h => ?_⟩
    rw [h.enabled] at hoff
    cases hoff
  · rename_i hon
    have hwaits : (¬∃ a : Block, ahead = .ok (some a) ∧ a.number ≠ 0) ∨ l.hasHandler = false →
        (∀ b rest, l.position = .processing b rest → l.hasHandler = true) ∧
          (l.AsksAgain ahead → ∃ b, block = .ok (some b)) := by
      intro h
      refine ⟨by simp [hp], fun hask => ?_⟩
      rcases h with h | h
      · exact absurd hask.found h
      · rw [hask.hasHandler] at h
        cases h
    split
    · exact .inr ⟨l, rfl, hwaits (.inl (by simp))⟩
    · exact .inr ⟨l, rfl, hwaits (.inl (by simp))⟩
    · rename_i a
      split
      · rename_i hzero
        exact .inr ⟨l, rfl, hwaits (.inl (by simp [hzero]))⟩
      · rename_i hzero
        split
        · rename_i hno
          exact .inr ⟨l, rfl, hwaits (.inr hno)⟩
        · rename_i hset
          have hask : l.AsksAgain (.ok (some a)) :=
            ⟨hp, by simpa using hon, ⟨a, rfl, hzero⟩, by simpa using hset⟩
          split
          · rename_i b
            exact .inr ⟨_, rfl, fun _ _ _ => hask.hasHandler, fun _ => ⟨b, rfl⟩⟩
          · exact .inl ⟨rfl, hask, by simp⟩
          · exact .inl ⟨rfl, hask, by simp⟩

/-- A step that hands nothing over panics exactly if the second request is not answered by a
block. -/
theorem nilBlock_iff (hnext : l.next env.eth = none) :
    panics (l.step handler ahead block env w).1 = true ↔
      l.AsksAgain ahead ∧ ¬∃ b, block = .ok (some b) := by
  have hbusy : l.position ≠ .idle → panics (l.step handler ahead block env w).1 = false →
      (panics (l.step handler ahead block env w).1 = true ↔
        l.AsksAgain ahead ∧ ¬∃ b, block = .ok (some b)) := by
    intro hp hok
    rw [hok]
    exact ⟨fun h => absurd h (by decide), fun h => absurd h.1.idle hp⟩
  cases hp : l.position with
  | stopped => exact hbusy (by simp [hp]) (by simp [step, hp, panics, pure])
  | idle =>
    rcases step_idle handler ahead block env w hp with
      ⟨hstep, hask⟩ | ⟨l', hstep, -, hask⟩
    · rw [hstep]
      exact ⟨fun _ => hask, fun _ => rfl⟩
    · rw [hstep]
      exact ⟨fun h => absurd h Bool.false_ne_true, fun h => absurd (hask h.1) h.2⟩
  | processing b rest =>
    refine hbusy (by simp [hp]) ?_
    cases rest with
    | nil =>
      unfold step
      rw [hp]
      apply panics_of_wp
      rw [Prog.wp_bind]
      exact Prog.wp_mono (saveLastProcessedBlock_returns _ _ env w) (fun _ _ h => h) fun _ _ h => h
    | cons t rest =>
      have hnone : handed env.eth t = none := by simpa [next, hp] using hnext
      simp [step, hp, Bind.bind, Prog.ask, hnone, panics, pure]

theorem step_ready (h : ∀ b rest, l.position = .processing b rest → l.hasHandler = true)
    {l' : Listener} {w' : World} (hstep : l.step handler ahead block env w = (.ok l', w')) :
    ∀ b rest, l'.position = .processing b rest → l'.hasHandler = true := by
  have hst := step_stepped handler env w ahead block l
  rw [hstep] at hst
  cases hst with
  | waits _ position =>
    rcases position with hp | ⟨hp, rfl⟩
    · simp [hp]
    · exact h
  | polls idle _ _ =>
    rcases step_idle handler ahead block env w idle with
      ⟨hpanic, -⟩ | ⟨l', hok, hl', -⟩
    · rw [hstep] at hpanic
      cases hpanic
    · rw [hstep] at hok
      cases hok
      exact hl'
  | skips position _ => exact fun _ _ _ => h _ _ position
  | accepts position _ _ => exact fun _ _ _ => h _ _ position
  | rejects _ _ _ => simp
  | saves _ _ => simp

end Ethereum.Listener

/-! ## Bitcoin -/

namespace Bitcoin.Listener

variable {handler : Transaction → M Unit} {ahead : Answer Block} {env : Env} {w : World}
    {l : Listener}

theorem no_nilBlock (hnext : l.next = none) : panics (l.step handler ahead env w).1 = false := by
  unfold step
  cases hp : l.position with
  | stopped => rfl
  | idle =>
    dsimp only
    split <;> rfl
  | processing b rest =>
    cases rest with
    | nil =>
      apply panics_of_wp
      rw [Prog.wp_bind]
      exact Prog.wp_mono (saveLastProcessedBlock_returns _ _ env w) (fun _ _ h => h) fun _ _ h => h
    | cons o rest =>
      have hnone : handed o = none := by simpa [next, hp] using hnext
      simp [hnone, panics, pure]

theorem nilHandler_panics (hnext : l.next.isSome) (hset : l.hasHandler = false) :
    panics (l.step handler ahead env w).1 = true := by
  unfold step
  cases hp : l.position with
  | stopped => simp [next, hp] at hnext
  | idle => simp [next, hp] at hnext
  | processing b rest =>
    cases rest with
    | nil => simp [next, hp] at hnext
    | cons o rest =>
      have hsome : (handed o).isSome := by simpa [next, hp] using hnext
      obtain ⟨t, ht⟩ := Option.isSome_iff_exists.1 hsome
      simp [ht, hset, panics, Prog.throw]

end Bitcoin.Listener

/-! ## Both loops -/

/-- The ethereum loop has its handler whenever it is in a block. -/
def Listeners.Ready (σ : Listeners) : Prop :=
  ∀ b rest, σ.ethereum.position = .processing b rest → σ.ethereum.hasHandler = true

namespace ListenersOp

section
variable (onEthereum : Ethereum.Transaction → M Unit) (onBitcoin : Bitcoin.Transaction → M Unit)
  (env : Env)

/-- The loop that takes the step calls a handler that is not attached, or panics without calling its
handler. -/
def FollowsNil (σ : Listeners) : ListenersOp → Prop
  | ethereum ahead block =>
    if (σ.ethereum.next env.eth).isSome then σ.ethereum.hasHandler = false
    else panics (σ.ethereum.step onEthereum ahead block env σ.world).1 = true
  | bitcoin ahead =>
    if σ.bitcoin.next.isSome then σ.bitcoin.hasHandler = false
    else panics (σ.bitcoin.step onBitcoin ahead env σ.world).1 = true
  | _ => False

instance (σ : Listeners) (op : ListenersOp) :
    Decidable (op.FollowsNil onEthereum onBitcoin env σ) :=
  match op with
  | ethereum ahead block => inferInstanceAs (Decidable (
      if (σ.ethereum.next env.eth).isSome then σ.ethereum.hasHandler = false
      else panics (σ.ethereum.step onEthereum ahead block env σ.world).1 = true))
  | bitcoin ahead => inferInstanceAs (Decidable (
      if σ.bitcoin.next.isSome then σ.bitcoin.hasHandler = false
      else panics (σ.bitcoin.step onBitcoin ahead env σ.world).1 = true))
  | startEthereum _ | startBitcoin _ _ | attachEthereum | attachBitcoin | stop | other _ | crash =>
    instDecidableFalse

/-- A block is there when the ethereum loop asks for it again, and the bitcoin handler when an
output is handed over. -/
def Provided (σ : Listeners) : ListenersOp → Prop
  | ethereum ahead block => σ.ethereum.AsksAgain ahead → ∃ b, block = .ok (some b)
  | bitcoin _ => σ.bitcoin.next.isSome → σ.bitcoin.hasHandler = true
  | _ => True

variable {onEthereum onBitcoin env}

theorem step_ready {σ : Listeners} (h : σ.Ready) (op : ListenersOp) :
    (op.step onEthereum onBitcoin env σ).Ready := by
  have hended : ∀ w, (σ.ended w).Ready := by
    intro w b rest hp
    simp [Listeners.ended] at hp
  cases op with
  | ethereum ahead block =>
    dsimp only [step]
    split
    · exact hended _
    · cases hstep : σ.ethereum.step onEthereum ahead block env σ.world with
      | mk x w =>
        cases x with
        | ok l => exact Ethereum.Listener.step_ready h hstep
        | error e => exact hended w
  | bitcoin ahead =>
    dsimp only [step]
    cases σ.bitcoin.step onBitcoin ahead env σ.world with
    | mk x w =>
      cases x with
      | ok l => exact h
      | error e => exact hended w
  | startEthereum id =>
    dsimp only [step]
    cases hp : σ.ethereum.position with
    | stopped =>
      have hstart := Ethereum.Listener.start_wp env σ.world σ.ethereum id
      unfold Prog.wp at hstart
      cases hx : σ.ethereum.start id env σ.world with
      | mk x w =>
        rw [hx] at hstart
        cases x with
        | ok l =>
          intro b rest hp
          rw [hstart.2.2] at hp
          cases hp
        | error e => exact h
    | idle => exact h
    | processing b rest => exact h
  | startBitcoin genesis blockCount =>
    dsimp only [step]
    cases σ.bitcoin.position with
    | stopped =>
      cases σ.bitcoin.start genesis blockCount env σ.world with
      | mk x w => cases x <;> exact h
    | idle => exact h
    | processing b rest => exact h
  | attachEthereum => exact fun _ _ _ => rfl
  | attachBitcoin => exact h
  | stop => exact h
  | other w => exact h
  | crash => exact hended _

theorem followsNil_iff {σ : Listeners} (h : σ.Ready) (op : ListenersOp) :
    ¬op.FollowsNil onEthereum onBitcoin env σ ↔ op.Provided σ := by
  cases op with
  | ethereum ahead block =>
    dsimp only [FollowsNil, Provided]
    split
    · rename_i hnext
      -- the loop is in a block, where it has its handler and asks for nothing
      obtain ⟨b, rest, hp⟩ : ∃ b rest, σ.ethereum.position = .processing b rest := by
        cases hp : σ.ethereum.position with
        | processing b rest => exact ⟨b, rest, rfl⟩
        | stopped | idle => simp [Ethereum.Listener.next, hp] at hnext
      rw [h b rest hp]
      refine ⟨fun _ hask => ?_, fun _ => by decide⟩
      rw [hask.idle] at hp
      cases hp
    · rename_i hnext
      rw [Ethereum.Listener.nilBlock_iff (by simpa using hnext), not_and_not_right]
  | bitcoin ahead =>
    dsimp only [FollowsNil, Provided]
    split
    · rename_i hnext
      simp [hnext]
    · rename_i hnext
      rw [Bitcoin.Listener.no_nilBlock (by simpa using hnext)]
      simp [hnext]
  | _ => simp [FollowsNil, Provided]

end

end ListenersOp

/-- **A run follows no nil block and calls no nil handler** exactly if in each step the second block
the ethereum loop asks for is there, and the bitcoin handler is attached when an output is handed
over. -/
theorem no_nil_followed_iff (onEthereum : Ethereum.Transaction → M Unit)
    (onBitcoin : Bitcoin.Transaction → M Unit) (env : Env) (w : World) (e : Ethereum.Listener)
    (b : Bitcoin.Listener) (ops : List ListenersOp) (σ : Listeners) :
    Run (fun _ σ op => ¬op.FollowsNil onEthereum onBitcoin env σ)
        (fun σ op => op.step onEthereum onBitcoin env σ) (.init w e b) ops σ ↔
      Run (fun _ σ op => op.Provided σ)
        (fun σ op => op.step onEthereum onBitcoin env σ) (.init w e b) ops σ := by
  apply Run.iff_of_invariant (I := Listeners.Ready)
  · intro b' rest hp
    cases hp
  · exact fun σ op h => op.step_ready h
  · exact fun _ σ op h => op.followsNil_iff h

/-- A server on which both loops have started, at block 5. -/
def Listeners.sampleStarted (ops : List ListenersOp) : Listeners :=
  let w := { World.empty with config := ⟨some 5, some 5⟩ }
  let start := [ListenersOp.startEthereum (.ok "1"), .startBitcoin (.ok true) (.ok 9)]
  (start ++ ops).foldl (ListenersOp.step (fun _ => pure ()) (fun _ => pure ()) (.sample .stored))
    (.init w ⟨true, false, "1", 2, 0, .stopped⟩ ⟨false, 2, 0, .stopped⟩)

/-- Block 7 is there but block 5 is not: it is followed all the same. An output comes before the
handler: the handler is called all the same. -/
theorem nil_followed :
    let env := Env.sample .stored
    let b : Bitcoin.Block := ⟨[⟨"tx", [⟨7, .ok (.pubKeyHash, ["a"])⟩]⟩]⟩
    (ListenersOp.ethereum (.ok (some ⟨7, []⟩)) (.ok none)).FollowsNil (fun _ => pure ())
        (fun _ => pure ()) env (.sampleStarted [.attachEthereum]) ∧
      (ListenersOp.bitcoin (.ok none)).FollowsNil (fun _ => pure ()) (fun _ => pure ()) env
        (.sampleStarted [.bitcoin (.ok (some b))]) := by
  decide +kernel

end Dex
