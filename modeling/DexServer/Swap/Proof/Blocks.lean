import DexServer.Swap.Proof.Kept
import DexServer.Swap.Watch

/-!
# The ethereum listener skips no block

The listener goes on with the block after the one it has fetched, saves the number of each block
after its transactions, and starts again from the saved one.

* `Listener.step_stepped`: what a step of the listener can do.
* `blocks_not_skipped`: from a stored block `n` on, whatever fails and however often the server ends
  and starts again, the completed blocks are `n` to `k - 1` for some `k`, the stored number is one
  of them once there are any, and the handler has returned nil for all their transactions with a
  receiver.
-/

namespace Dex

open Lib

namespace Ethereum

/-! ## A step of the listener -/

/-- The last block is not written. -/
def SameBlock (w w' : World) : Prop := w'.config.ethereumLastBlock = w.config.ethereumLastBlock

instance : Std.Refl SameBlock := ⟨fun _ => rfl⟩

instance : IsTrans World SameBlock := ⟨fun _ _ _ h h' => Eq.trans h' h⟩

/-- What a step of the listener `l` can do. -/
inductive Listener.Stepped (handler : Transaction → M Unit) (ahead block : Answer Block) (env : Env)
    (w : World) (l : Listener) : Except Err Listener × World → Prop
  | waits {l' : Listener} (blockNumber : l'.blockNumber = l.blockNumber)
      (position : l'.position = .stopped ∨ l.position = .idle ∧ l' = l) :
      Stepped handler ahead block env w l (.ok l', w)
  | polls {a b : Block} (idle : l.position = .idle) (ahead_eq : ahead = .ok (some a))
      (block_eq : block = .ok (some b)) : Stepped handler ahead block env w l
        (.ok { l with position := .processing b b.transactions }, w)
  | skips {b : Block} {t : BlockTransaction} {rest : List BlockTransaction}
      (position : l.position = .processing b (t :: rest)) (handed_eq : handed env.eth t = none) :
      Stepped handler ahead block env w l (.ok { l with position := .processing b rest }, w)
  | accepts {b : Block} {t : BlockTransaction} {rest : List BlockTransaction} {t' : Transaction}
      {w' : World}
      (position : l.position = .processing b (t :: rest)) (handed_eq : handed env.eth t = some t')
      (handled : handler t' env w = (.ok (), w')) :
      Stepped handler ahead block env w l (.ok { l with position := .processing b rest }, w')
  | rejects {b : Block} {t : BlockTransaction} {rest : List BlockTransaction} {t' : Transaction}
      {err : Err} {w' : World} (position : l.position = .processing b (t :: rest))
      (handed_eq : handed env.eth t = some t') (handled : handler t' env w = (.error err, w')) :
      Stepped handler ahead block env w l (.ok { l with position := .idle }, w')
  | saves {b : Block} {w' : World} (position : l.position = .processing b [])
      (saved : SameBlock w w' ∨ w'.config.ethereumLastBlock = some l.blockNumber) :
      Stepped handler ahead block env w l
        (.ok { l with blockNumber := (b.number + 1) % 2 ^ 64, position := .idle }, w')
  | ends {err : Err} {w' : World} (world : w' = w ∨ ∃ t, w' = (handler t env w).2) :
      Stepped handler ahead block env w l (.error err, w')

section
variable (handler : Transaction → M Unit) (env : Env) (w : World)

theorem saveLastProcessedBlock_saved (n : Nat) :
    ∃ x w', attempted (saveLastProcessedBlock .ethereum n) env w = (.ok x, w') ∧
      (SameBlock w w' ∨ w'.config.ethereumLastBlock = some n) := by
  have hkey : checked (lastBlockKey .ethereum) env w = (.ok "ethereum_last_block", w) := by
    unfold lastBlockKey
    rw [if_pos rfl]
    rfl
  cases hf : env.fails w.calls with
  | true =>
    have hsave : saveLastProcessedBlock .ethereum n env w = (.error .io, w.tick) := by
      unfold saveLastProcessedBlock
      rw [Prog.bind_ok hkey]
      unfold call
      rw [if_pos hf]
    unfold attempted
    rw [Prog.bind_ok (Prog.attempt_eq hsave)]
    exact ⟨.error .io, w.tick, rfl, .inl rfl⟩
  | false =>
    have hsave : saveLastProcessedBlock .ethereum n env w = (.ok (), { w.tick with
        config := { w.tick.config with ethereumLastBlock := some n } }) := by
      unfold saveLastProcessedBlock
      rw [Prog.bind_ok hkey]
      unfold call
      rw [if_neg (by rw [hf]; exact Bool.false_ne_true)]
      dsimp only
      rw [if_pos rfl]
    exact ⟨.ok (), _, attempted_ok hsave, .inr rfl⟩

theorem Listener.start_wp (l : Listener) (id : Except String String) :
    Prog.wp (l.start id) env w
      (fun l' w' => SameBlock w w' ∧ w.config.ethereumLastBlock = some l'.blockNumber ∧
        l'.position = .idle)
      (fun _ w' => SameBlock w w') := by
  unfold start getBlockToProcess
  rw [Prog.wp_bind, Prog.wp_bind]
  refine wp_checked (fun key _ => ?_) fun _ => rfl
  rw [Prog.wp_bind, Prog.wp_attempt]
  refine wp_call (fun _ => rfl) fun _ => ?_
  cases hblock : w.config.ethereumLastBlock with
  | none =>
    rw [show w.tick.config.lastBlock .ethereum = none from hblock]
    rfl
  | some n =>
    rw [show w.tick.config.lastBlock .ethereum = some n from hblock]
    show Prog.wp (checked id >>= _) env w.tick _ _
    rw [Prog.wp_bind]
    refine wp_checked (fun id' _ => ?_) fun _ => rfl
    rw [Prog.wp_bind]
    exact wp_checked (fun _ _ => ⟨rfl, rfl, rfl⟩) fun _ => rfl

/-- **A step of the listener** is one of `Listener.Stepped`. -/
theorem Listener.step_stepped (ahead block : Answer Block) (l : Listener) :
    l.Stepped handler ahead block env w (l.step handler ahead block env w) := by
  unfold step
  cases hp : l.position with
  | stopped => exact .waits rfl (.inl hp)
  | idle =>
    dsimp only
    split
    · exact .waits rfl (.inl rfl)
    · split
      · exact .waits rfl (.inr ⟨hp, rfl⟩)
      · exact .waits rfl (.inr ⟨hp, rfl⟩)
      · split
        · exact .waits rfl (.inr ⟨hp, rfl⟩)
        · split
          · exact .waits rfl (.inr ⟨hp, rfl⟩)
          · split
            · exact .polls hp rfl rfl
            · exact .ends (.inl rfl)
            · exact .ends (.inl rfl)
  | processing b rest =>
    cases rest with
    | nil =>
      obtain ⟨x, w', hx, hsaved⟩ := saveLastProcessedBlock_saved env w l.blockNumber
      dsimp only
      rw [Prog.bind_ok hx]
      exact .saves hp hsaved
    | cons t rest =>
      dsimp only
      rw [Prog.bind_ok (m := Prog.ask) rfl]
      cases ht : handed env.eth t with
      | none => exact .skips hp ht
      | some t' =>
        dsimp only
        match hh : handler t' env w with
        | (.ok (), w') =>
          rw [Prog.bind_ok (attempted_ok hh)]
          exact .accepts hp ht hh
        | (.error err, w') =>
          rcases attempted_error hh with h | h
          · rw [Prog.bind_ok h]
            exact .rejects hp ht hh
          · rw [Prog.bind_error h]
            exact .ends (.inr ⟨t', by rw [hh]⟩)

end

/-! ## The invariant -/

/-- A handler: it does not write the last block. -/
structure Handler where
  run : Transaction → M Unit
  sameBlock : ∀ t, Prog.Keeps SameBlock (run t)

/-- `OnNewEthereumTransaction` is one. -/
def handlerOf (e : DepositEndpoint) : Handler where
  run := e.onNewEthereumTransaction
  sameBlock t := by
    have hcall : ∀ {α : Type} {f : Env → Nat → World → Except Err α × World},
        (∀ env n w, SameBlock w (f env n w).2) → Prog.Keeps SameBlock (call f) :=
      fun hf => keeps_call (R := SameBlock) (fun _ => rfl) hf
    have hget : ∀ a, Prog.Keeps SameBlock (getAssociationByChainAddress .ethereum a) :=
      fun _ => hcall fun _ _ _ => rfl
    have hadd : ∀ t, Prog.Keeps SameBlock (DepositService.queueAdd t) :=
      fun _ => hcall fun _ _ _ => rfl
    have hsave : ∀ a, Prog.Keeps SameBlock (DepositEndpoint.processTransaction a) := by
      refine fun a => hcall fun env n w => ?_
      cases w.associations.getByAddress a.chain a.address with
      | none => rfl
      | some _ => rfl
    refine .ite (.pure _) (Prog.Keeps.ask.bind fun env => (keeps_attempted (hget _)).bind
      fun x => ?_)
    match x with
    | .error _ => exact .pure _
    | .ok none => exact .pure _
    | .ok (some a) => exact .ite (.pure _) ((hsave a).bind fun _ => hadd _)

/-- The number the listener starts from. -/
def Resumes (n k : Nat) (w : World) : Prop :=
  ∃ m, w.config.ethereumLastBlock = some m ∧ n ≤ m ∧ (m < k ∨ m = n)

theorem Resumes.same {n k : Nat} {w w' : World} (h : Resumes n k w) (hw : SameBlock w w') :
    Resumes n k w' := by
  obtain ⟨m, hm, hle⟩ := h
  exact ⟨m, Eq.trans hw hm, hle⟩

/-- The completed blocks are `n` to `k - 1`; the listener is at one of them or at the next, and goes
on from there when it starts again. -/
structure Progress (eth : Eth) (n k : Nat) (σ : Watch) : Prop where
  le : n ≤ k
  numbers : ∀ m, m ∈ σ.completed.map (·.1.number) ↔ n ≤ m ∧ m < k
  handled : ∀ p ∈ σ.completed, p.2 = p.1.transactions.filterMap (Listener.handed eth)
  stored : Resumes n k σ.world
  idle : σ.listener.position = .idle → n ≤ σ.listener.blockNumber ∧ σ.listener.blockNumber ≤ k
  processing : ∀ b rest, σ.listener.position = .processing b rest →
    (b.number = σ.listener.blockNumber ∧ b.number < 2 ^ 63) ∧ (n ≤ b.number ∧ b.number ≤ k) ∧
    (rest = [] → b.number < k) ∧
    σ.accepted ++ rest.filterMap (Listener.handed eth) =
      b.transactions.filterMap (Listener.handed eth)

/-- The client answers with the block that was asked for; without a number it answers with the
latest one. -/
def WatchOp.Honest (σ : Watch) : WatchOp → Prop
  | listen _ (.ok (some b)) =>
    (0 < σ.listener.blockNumber → b.number = σ.listener.blockNumber) ∧ b.number < 2 ^ 63
  | _ => True

instance (σ : Watch) : (op : WatchOp) → Decidable (op.Honest σ)
  | .listen _ (.ok (some _)) => inferInstanceAs (Decidable (_ ∧ _))
  | .listen _ (.ok none) | .listen _ (.error _) | .other _ | .delegate _ | .crash | .start _ =>
    inferInstanceAs (Decidable True)

namespace Progress

section
variable {eth : Eth} {n k : Nat} {σ : Watch}

theorem pauses (h : Progress eth n k σ) {σ' : Watch} (hcompleted : σ'.completed = σ.completed)
    (hstored : Resumes n k σ'.world)
    (hposition : σ'.listener.position = .stopped ∨ σ'.listener.position = .idle ∧
      n ≤ σ'.listener.blockNumber ∧ σ'.listener.blockNumber ≤ k) : Progress eth n k σ' where
  le := h.le
  numbers := hcompleted ▸ h.numbers
  handled := hcompleted ▸ h.handled
  stored := hstored
  idle hp := by
    rcases hposition with hs | ⟨-, hle⟩
    · rw [hs] at hp
      cases hp
    · exact hle
  processing b rest hp := by
    rcases hposition with hs | ⟨hi, -⟩
    · rw [hs] at hp
      cases hp
    · rw [hi] at hp
      cases hp

theorem leaves (h : Progress eth n k σ) {w : World} {l : Listener} {accepted : List Transaction}
    (hstored : Resumes n k w)
    (hposition : l.position = .stopped ∨ l.position = .idle ∧ n ≤ l.blockNumber ∧
      l.blockNumber ≤ k) :
    ∃ k', Progress eth n k' ⟨w, l, accepted,
      σ.completed ++ (l.completed.map (·, accepted)).toList⟩ := by
  have hnone : l.completed = none := by
    unfold Listener.completed
    rcases hposition with hs | ⟨hi, -⟩
    · rw [hs]
    · rw [hi]
  refine ⟨k, h.pauses ?_ hstored hposition⟩
  dsimp only
  rw [hnone]
  exact List.append_nil _

/-- The listener is in a block, with the transactions `rest` left; with none left the block is
completed. -/
theorem enters (h : Progress eth n k σ) {w : World} {l : Listener} {b : Block}
    {rest : List BlockTransaction} {accepted : List Transaction} (hstored : SameBlock σ.world w)
    (hposition : l.position = .processing b rest) (hnumber : b.number = l.blockNumber)
    (hsmall : b.number < 2 ^ 63) (hle : n ≤ b.number ∧ b.number ≤ k)
    (haccepted : accepted ++ rest.filterMap (Listener.handed eth) =
      b.transactions.filterMap (Listener.handed eth)) :
    ∃ k', Progress eth n k' ⟨w, l, accepted,
      σ.completed ++ (l.completed.map (·, accepted)).toList⟩ := by
  have hnk := h.le
  obtain ⟨m, hm, hnm, hmk⟩ := h.stored.same hstored
  have hidle : l.position ≠ .idle := by
    rw [hposition]
    nofun
  cases rest with
  | cons t rest =>
    have hnone : l.completed = none := by
      unfold Listener.completed
      rw [hposition]
    have hcompleted : σ.completed ++ (l.completed.map (·, accepted)).toList = σ.completed := by
      rw [hnone]
      exact List.append_nil _
    rw [hcompleted]
    refine ⟨k, hnk, h.numbers, h.handled, ⟨m, hm, hnm, hmk⟩, fun hi => absurd hi hidle, ?_⟩
    intro b' rest' hp
    rw [show l.position = _ from hposition] at hp
    cases hp
    exact ⟨⟨hnumber, hsmall⟩, hle, nofun, haccepted⟩
  | nil =>
    have hsome : l.completed = some b := by
      unfold Listener.completed
      rw [hposition]
    have hcompleted : σ.completed ++ (l.completed.map (·, accepted)).toList =
        σ.completed ++ [(b, accepted)] := by
      rw [hsome]
      rfl
    have hall : accepted = b.transactions.filterMap (Listener.handed eth) := by
      rw [← haccepted]
      exact (List.append_nil _).symm
    rw [hcompleted]
    refine ⟨max k (b.number + 1), by omega, fun i => ?_, fun p hp => ?_, ⟨m, hm, hnm, by omega⟩,
      fun hi => absurd hi hidle, ?_⟩
    · rw [List.map_append, List.mem_append, h.numbers, List.map_singleton, List.mem_singleton]
      dsimp only
      omega
    · rcases List.mem_append.1 hp with hp | hp
      · exact h.handled p hp
      · rw [List.mem_singleton.1 hp]
        exact hall
    · intro b' rest' hp
      rw [show l.position = _ from hposition] at hp
      cases hp
      exact ⟨⟨hnumber, hsmall⟩, ⟨hle.1, by omega⟩, fun _ => by omega, haccepted⟩

end

section
variable {handler : Handler} {env : Env} {n k : Nat} {σ : Watch}

theorem start (h : Progress env.eth n k σ) (id : Except String String) :
    Progress env.eth n k ((WatchOp.start id).step handler.run env σ) := by
  unfold WatchOp.step
  cases hp : σ.listener.position with
  | stopped =>
    have hstart := σ.listener.start_wp env σ.world id
    unfold Prog.wp at hstart
    dsimp only
    generalize σ.listener.start id env σ.world = x at hstart
    match x, hstart with
    | (.error err, w), hw => exact h.pauses rfl (h.stored.same hw) (.inl hp)
    | (.ok l, w), ⟨hw, hl, hidle⟩ =>
      have hnk := h.le
      obtain ⟨m, hm, hle⟩ := h.stored
      have hblock : l.blockNumber = m := Option.some.inj (hl.symm.trans hm)
      exact h.pauses rfl (h.stored.same hw) (.inr ⟨hidle, by dsimp only; omega⟩)
  | idle => exact h
  | processing b rest => exact h

/-- **Every step keeps the invariant**, for some end of the interval. -/
theorem step (hn : 1 ≤ n) (h : Progress env.eth n k σ) {op : WatchOp} (hop : op.Honest σ) :
    ∃ k', Progress env.eth n k' (op.step handler.run env σ) := by
  cases op with
  | other w => exact ⟨k, h.le, h.numbers, h.handled, h.stored, h.idle, h.processing⟩
  | delegate set => exact ⟨k, h.le, h.numbers, h.handled, h.stored, h.idle, h.processing⟩
  | crash => exact ⟨k, h.pauses rfl h.stored (.inl rfl)⟩
  | start id => exact ⟨k, h.start id⟩
  | listen ahead block =>
    have hstep := σ.listener.step_stepped handler.run env σ.world ahead block
    unfold WatchOp.step
    dsimp only
    generalize σ.listener.step handler.run ahead block env σ.world = x at hstep
    cases hstep with
    | @waits l blockNumber position =>
      refine h.leaves h.stored ?_
      rcases position with hs | ⟨hi, hl⟩
      · exact .inl hs
      · rw [hl]
        exact .inr ⟨hi, h.idle hi⟩
    | polls idle ahead_eq block_eq =>
      obtain ⟨hnumber, hsmall⟩ : _ ∧ _ := by
        rw [block_eq] at hop
        exact hop
      have hle := h.idle idle
      have hblock := hnumber (by omega)
      refine h.enters rfl rfl hblock hsmall (by omega) ?_
      unfold Watch.accepts
      rw [idle]
      exact List.nil_append _
    | @skips b t rest position handed_eq =>
      obtain ⟨⟨hnumber, hsmall⟩, hle, -, haccepted⟩ := h.processing _ _ position
      refine h.enters rfl rfl hnumber hsmall hle ?_
      have haccepts : σ.accepts handler.run env = σ.accepted := by
        unfold Watch.accepts Listener.next
        rw [position]
        dsimp only
        rw [handed_eq]
      rw [List.filterMap_cons_none handed_eq] at haccepted
      rw [haccepts]
      exact haccepted
    | @accepts b t rest t' w' position handed_eq handled =>
      obtain ⟨⟨hnumber, hsmall⟩, hle, -, haccepted⟩ := h.processing _ _ position
      have hsame : SameBlock σ.world w' := by
        have := handler.sameBlock t' env σ.world
        rw [handled] at this
        exact this
      refine h.enters hsame rfl hnumber hsmall hle ?_
      have haccepts : σ.accepts handler.run env = σ.accepted ++ [t'] := by
        unfold Watch.accepts Listener.next
        rw [position]
        dsimp only
        rw [handed_eq]
        dsimp only
        rw [handled]
      rw [List.filterMap_cons_some handed_eq] at haccepted
      rw [haccepts, List.append_assoc]
      exact haccepted
    | @rejects b t rest t' err w' position handed_eq handled =>
      obtain ⟨⟨hnumber, -⟩, hle, -⟩ := h.processing _ _ position
      have hsame : SameBlock σ.world w' := by
        have := handler.sameBlock t' env σ.world
        rw [handled] at this
        exact this
      rw [hnumber] at hle
      exact h.leaves (h.stored.same hsame) (.inr ⟨rfl, hle⟩)
    | @saves b w' position saved =>
      obtain ⟨⟨hnumber, hsmall⟩, hle, hlt, -⟩ := h.processing _ _ position
      have hblt := hlt rfl
      refine h.leaves ?_ (.inr ⟨rfl, by dsimp only; omega⟩)
      rcases saved with hsame | hsaved
      · exact h.stored.same hsame
      · exact ⟨_, hsaved, by omega⟩
    | @ends err w' world =>
      refine ⟨k, h.pauses rfl (h.stored.same ?_) (.inl rfl)⟩
      rcases world with hw | ⟨t, hw⟩
      · rw [hw]
        rfl
      · rw [hw]
        exact handler.sameBlock t env σ.world

end

end Progress

/-- **No block is skipped**: the completed blocks are `n` to `k - 1`, the stored number is `n` or
one of them, and the handler has returned nil for their transactions with a receiver. -/
theorem blocks_not_skipped (handler : Handler) (env : Env) {n : Nat} {σ₀ σ : Watch}
    {ops : List WatchOp} (hn : 1 ≤ n) (hstored : σ₀.world.config.ethereumLastBlock = some n)
    (hposition : σ₀.listener.position = .stopped) (hcompleted : σ₀.completed = [])
    (h : Run (fun _ σ op => op.Honest σ) (WatchOp.step handler.run env) σ₀ ops σ) :
    ∃ k, (∀ m, m ∈ σ.completed.map (·.1.number) ↔ n ≤ m ∧ m < k) ∧
      (∃ m, σ.world.config.ethereumLastBlock = some m ∧ (m < k ∨ σ.completed = [] ∧ m = n)) ∧
      ∀ p ∈ σ.completed, p.2 = p.1.transactions.filterMap (Listener.handed env.eth) := by
  have hprogress : ∃ k, Progress env.eth n k σ := by
    refine h.invariant (I := fun _ σ => ∃ k, Progress env.eth n k σ) ?_ fun _ σ op _ ⟨k, hk⟩ hop =>
      hk.step hn hop
    refine ⟨n, le_rfl, fun m => ?_, fun p hp => ?_, ⟨n, hstored, le_rfl, .inr rfl⟩, fun hi => ?_,
      fun b rest hp => ?_⟩
    · rw [hcompleted]
      exact iff_of_false List.not_mem_nil (by omega)
    · rw [hcompleted] at hp
      cases hp
    · rw [hposition] at hi
      cases hi
    · rw [hposition] at hp
      cases hp
  obtain ⟨k, hk⟩ := hprogress
  obtain ⟨m, hm, hnm, hmk⟩ := hk.stored
  refine ⟨k, hk.numbers, ⟨m, hm, ?_⟩, hk.handled⟩
  rcases hmk with hlt | heq
  · exact .inl hlt
  · -- the first block is completed as soon as any is
    by_cases hnk : n < k
    · exact .inl (by omega)
    · refine .inr ⟨List.eq_nil_iff_forall_not_mem.2 fun p hp => ?_, heq⟩
      have hp' := (hk.numbers _).1 (List.mem_map_of_mem (f := fun p => p.1.number) hp)
      omega

/-- A transaction is rejected, a number is not saved, the server ends and starts again. -/
theorem blocks_not_skipped_failing :
    let env := { Env.sample .stored with fails := fun n => n = 3 ∨ n = 7 }
    let handler := handlerOf SwapEngine.sample.endpoint
    let w := { World.empty with associations := .sample .PENDING, config := ⟨some 1, none⟩ }
    let first : Block := ⟨1, [⟨21, 50, some 7⟩, ⟨22, 0, none⟩]⟩
    let listen (n : Nat) (b : Block) : WatchOp := .listen (.ok (some ⟨n, []⟩)) (.ok (some b))
    let ops := [.start (.ok "1"), listen 2 first, listen 2 first, listen 2 first, listen 2 first,
      listen 2 first, listen 2 first, listen 3 ⟨2, []⟩, listen 3 ⟨2, []⟩, .crash, .start (.ok "1"),
      listen 3 ⟨2, []⟩]
    let accepted := (first, [⟨"21", 50, "7"⟩])
    ∃ σ, Run (fun _ σ op => op.Honest σ) (WatchOp.step handler.run env)
        ⟨w, ⟨true, true, "1", 1, 0, .stopped⟩, [], []⟩ ops σ ∧
      σ.world.config.ethereumLastBlock = some 2 ∧
      σ.completed = [accepted, (⟨2, []⟩, []), (⟨2, []⟩, [])] ∧
      ∃ k, (∀ m, m ∈ σ.completed.map (·.1.number) ↔ 1 ≤ m ∧ m < k) ∧
        (∃ m, σ.world.config.ethereumLastBlock = some m ∧ (m < k ∨ σ.completed = [] ∧ m = 1)) ∧
        ∀ p ∈ σ.completed, p.2 = p.1.transactions.filterMap (Listener.handed env.eth) := by
  intro env handler w first listen ops accepted
  have hrun : Run (fun _ σ op => op.Honest σ) (WatchOp.step handler.run env)
      ⟨w, ⟨true, true, "1", 1, 0, .stopped⟩, [], []⟩ ops _ := Run.of_check _ (by decide +kernel)
  exact ⟨_, hrun, by decide +kernel, by decide +kernel,
    blocks_not_skipped handler env le_rfl rfl rfl rfl hrun⟩

end Ethereum

end Dex
