import DexServer.Swap.Proof.Blocks

/-!
# Which blocks are confirmed when they are handled

A listener asks for the block `confirmedBlockNumber` ahead and processes a block when that one
exists. The ethereum listener then fetches the block itself, and gets the latest one while its
number is 0. The bitcoin listener processes the block ahead.

* `Ethereum.Confirmed.step`, `Bitcoin.Confirmed.step`: what a step keeps, under a condition on the
  poll.
* `handled_blocks_confirmed`: every block from which a transaction is handed over is confirmed, in
  every run of polls that meet the condition.
-/

namespace Dex

open Lib

/-! ## Ethereum -/

namespace Ethereum

/-- A block the client answers with is on the chain, under the number that was asked for. -/
theorem getBlock_eq_some {blocks : Blocks} {fails : Bool} {n : Nat} {b : Block} (hn : n < 2 ^ 64)
    (h : getBlock blocks fails n = .ok (some b)) :
    b.number < blocks.length ∧ (0 < n → b.number = n) := by
  have hat : ∀ {i : Nat}, blockAt blocks i = some b → b.number < blocks.length ∧ b.number = i := by
    intro i hi
    obtain ⟨ts, hts, rfl⟩ := Option.map_eq_some_iff.1 hi
    exact ⟨(List.getElem?_eq_some_iff.1 hts).1, rfl⟩
  unfold getBlock at h
  cases fails with
  | true => simp at h
  | false =>
    have hb : blockByNumber blocks (requested n) = some b := by simpa using h
    unfold requested at hb
    by_cases hpos : 0 < n
    · rw [if_pos hpos] at hb
      unfold blockByNumber at hb
      dsimp only at hb
      by_cases hneg : (BitVec.ofNat 64 n).toInt < 0
      · simp [hneg] at hb
      · rw [if_neg hneg] at hb
        obtain ⟨hlt, hnumber⟩ := hat hb
        refine ⟨hlt, fun _ => ?_⟩
        simp only [BitVec.toInt, BitVec.toNat_ofNat] at hneg hnumber
        omega
    · rw [if_neg hpos] at hb
      exact ⟨(hat hb).1, fun hp => absurd hp hpos⟩

/-- A block that is being processed has `confirmedBlockNumber` blocks after it. -/
def Confirmed (σ : Observed) : Prop := ∀ b rest, σ.listener.position = .processing b rest →
  b.number + σ.listener.confirmedBlockNumber < σ.blocks.length

/-- A block from which a transaction is handed over next is confirmed. -/
def Observed.HandlesConfirmed (σ : Observed) (eth : Eth) : Prop := ∀ b t rest,
  σ.listener.position = .processing b (t :: rest) → Listener.handed eth t ≠ none →
  b.number + σ.listener.confirmedBlockNumber < σ.blocks.length

/-- The listener does not poll from the latest block on, unless that one needs no confirmation, and
the number ahead is no more than 64 bits. -/
def ObserveOp.Polls (σ : Observed) : ObserveOp → Prop
  | listen _ _ _ => σ.listener.position = .idle →
      (σ.listener.blockNumber ≠ 0 ∨ σ.listener.confirmedBlockNumber = 0) ∧
      σ.listener.blockNumber + σ.listener.confirmedBlockNumber < 2 ^ 64
  | _ => True

instance (σ : Observed) : (op : ObserveOp) → Decidable (op.Polls σ)
  | .listen _ _ _ => inferInstanceAs (Decidable (_ → _))
  | .grow _ | .other _ | .delegate _ | .crash | .start _ => inferInstanceAs (Decidable True)

section
variable {handler : Transaction → M Unit} {env : Env} {σ : Observed}

theorem ahead_exists {blocks : Blocks} {fails : Bool} {l : Listener} {b : Block}
    (hsmall : l.blockNumber + l.confirmedBlockNumber < 2 ^ 64)
    (h : getBlock blocks fails l.blockNumberAhead = .ok (some b)) :
    l.blockNumber + l.confirmedBlockNumber < blocks.length := by
  unfold Listener.blockNumberAhead at h
  rw [Nat.mod_eq_of_lt hsmall] at h
  obtain ⟨hlt, hnumber⟩ := getBlock_eq_some hsmall h
  by_cases hpos : 0 < l.blockNumber + l.confirmedBlockNumber
  · have := hnumber hpos
    omega
  · omega

theorem Confirmed.polled {aheadFails blockFails : Bool} {grown : Blocks} {a b : Block}
    (hnumber : σ.listener.blockNumber ≠ 0 ∨ σ.listener.confirmedBlockNumber = 0)
    (hsmall : σ.listener.blockNumber + σ.listener.confirmedBlockNumber < 2 ^ 64)
    (ha : getBlock σ.blocks aheadFails σ.listener.blockNumberAhead = .ok (some a))
    (hb : getBlock (σ.blocks ++ grown) blockFails σ.listener.blockNumber = .ok (some b)) :
    b.number + σ.listener.confirmedBlockNumber < (σ.blocks ++ grown).length := by
  have hahead := ahead_exists hsmall ha
  obtain ⟨hlt, hblock⟩ := getBlock_eq_some (by omega) hb
  rw [List.length_append] at hlt ⊢
  rcases hnumber with hpos | hzero
  · have := hblock (by omega)
    omega
  · omega

theorem Confirmed.goes_on (h : Confirmed σ) {σ' : Observed}
    (hblocks : σ.blocks.length ≤ σ'.blocks.length)
    (hconfirmed : σ'.listener.confirmedBlockNumber = σ.listener.confirmedBlockNumber)
    (hposition : ∀ b rest, σ'.listener.position = .processing b rest →
      ∃ rest', σ.listener.position = .processing b rest') : Confirmed σ' := by
  intro b rest hp
  obtain ⟨rest', hp'⟩ := hposition b rest hp
  have := h b rest' hp'
  omega

/-- **A step of the listener** keeps it, if the poll meets the condition. -/
theorem Confirmed.listen (h : Confirmed σ) {aheadFails blockFails : Bool} {grown : Blocks}
    (hop : (ObserveOp.listen aheadFails grown blockFails).Polls σ) :
    Confirmed ((ObserveOp.listen aheadFails grown blockFails).step handler env σ) := by
  have hblocks : σ.blocks.length ≤ (σ.blocks ++ grown).length := by simp
  unfold ObserveOp.step WatchOp.step
  dsimp only
  generalize ha : getBlock σ.blocks aheadFails σ.listener.blockNumberAhead = ahead
  generalize hb : getBlock (σ.blocks ++ grown) blockFails σ.listener.blockNumber = block
  have hstep := σ.listener.step_stepped handler env σ.world ahead block
  generalize σ.listener.step handler ahead block env σ.world = x at hstep
  cases hstep with
  | waits blockNumber position =>
    intro b rest hp
    rcases position with hs | ⟨hi, hl⟩
    · simp [hs] at hp
    · simp [hl, hi] at hp
  | polls idle ahead_eq block_eq =>
    obtain ⟨hnumber, hsmall⟩ := hop idle
    intro b rest hp
    cases hp
    exact polled hnumber hsmall (ha.trans ahead_eq) (hb.trans block_eq)
  | skips position handed_eq =>
    refine h.goes_on hblocks rfl fun b rest hp => ?_
    cases hp
    exact ⟨_, position⟩
  | accepts position handed_eq handled =>
    refine h.goes_on hblocks rfl fun b rest hp => ?_
    cases hp
    exact ⟨_, position⟩
  | rejects position handed_eq handled => exact h.goes_on hblocks rfl nofun
  | saves position saved => exact h.goes_on hblocks rfl nofun
  | ends world => exact h.goes_on hblocks rfl nofun

theorem Confirmed.start (h : Confirmed σ) (id : Except String String) :
    Confirmed ((ObserveOp.start id).step handler env σ) := by
  unfold ObserveOp.step WatchOp.step
  cases hp : σ.listener.position with
  | stopped =>
    have hstart := σ.listener.start_wp env σ.world id
    unfold Prog.wp at hstart
    dsimp only
    generalize σ.listener.start id env σ.world = x at hstart
    intro b rest hb
    match x, hstart with
    | (.error err, w), _ => simp [hp] at hb
    | (.ok l, w), ⟨_, _, hidle⟩ => simp [hidle] at hb
  | idle => exact h
  | processing b rest => exact h

theorem Confirmed.step (h : Confirmed σ) {op : ObserveOp} (hop : op.Polls σ) :
    Confirmed (op.step handler env σ) := by
  cases op with
  | grow blocks => exact h.goes_on (by simp [ObserveOp.step]) rfl fun b rest hp => ⟨rest, hp⟩
  | listen aheadFails grown blockFails => exact h.listen hop
  | other w => exact h
  | delegate set => exact h
  | crash => exact h.goes_on le_rfl rfl nofun
  | start id => exact h.start id

end

end Ethereum

/-! ## Bitcoin -/

namespace Bitcoin

theorem getBlock_eq_some {blocks : List Block} {fails : Bool} {n : Nat} {b : Block}
    (hn : n < 2 ^ 64) (h : getBlock blocks fails n = .ok (some b)) : n < blocks.length := by
  unfold getBlock at h
  cases fails with
  | true => simp at h
  | false =>
    dsimp only at h
    by_cases hneg : (BitVec.ofNat 64 n).toInt < 0
    · simp [hneg] at h
    · simp only [Bool.false_eq_true, if_false, if_neg hneg, Except.ok.injEq] at h
      have hlt := (List.getElem?_eq_some_iff.1 h).1
      simp only [BitVec.toInt, BitVec.toNat_ofNat] at hneg hlt
      omega

/-- The block that is being processed has `confirmedBlockNumber` blocks after it. -/
def Confirmed (σ : Observed) : Prop := ∀ b rest, σ.listener.position = .processing b rest →
  σ.number + σ.listener.confirmedBlockNumber < σ.blocks.length

/-- A block from which an output is handed over next is confirmed. -/
def Observed.HandlesConfirmed (σ : Observed) : Prop := ∀ b o rest,
  σ.listener.position = .processing b (o :: rest) → Listener.handed o ≠ none →
  σ.number + σ.listener.confirmedBlockNumber < σ.blocks.length

/-- When the listener polls, the block ahead does not exist, or has as many blocks after it. -/
def ObserveOp.Polls (σ : Observed) : ObserveOp → Prop
  | listen _ =>
    match σ.listener.position with
    | .idle => σ.blocks.length ≤ σ.listener.blockNumberAhead ∨
        σ.listener.blockNumberAhead + σ.listener.confirmedBlockNumber < σ.blocks.length
    | _ => True
  | _ => True

instance (σ : Observed) : (op : ObserveOp) → Decidable (op.Polls σ)
  | .listen _ => by
    unfold ObserveOp.Polls
    dsimp only
    split <;> infer_instance
  | .grow _ | .other _ | .delegate _ | .crash | .start _ _ => inferInstanceAs (Decidable True)

section
variable {handler : Transaction → M Unit} {env : Env} {w : World}

variable (handler env w) in
/-- The block that is processed after a step was so before it, or it is the block ahead. -/
theorem Listener.step_position (ahead : Answer Block) (l : Listener) :
    Prog.wp (l.step handler ahead) env w
      (fun l' _ => l'.confirmedBlockNumber = l.confirmedBlockNumber ∧
        ∀ b rest, l'.position = .processing b rest →
          (∃ rest', l.position = .processing b rest') ∨ l.position = .idle ∧ ahead = .ok (some b))
      (fun _ _ => True) := by
  unfold step
  cases hp : l.position with
  | stopped => exact ⟨rfl, fun b rest hb => by simp [hp] at hb⟩
  | idle =>
    match ahead with
    | .error _ => exact ⟨rfl, fun b rest hb => by simp [hp] at hb⟩
    | .ok none => exact ⟨rfl, fun b rest hb => by simp [hp] at hb⟩
    | .ok (some a) =>
      refine ⟨rfl, fun b rest hb => .inr ⟨rfl, ?_⟩⟩
      cases hb
      rfl
  | processing a outputs =>
    cases outputs with
    | nil =>
      dsimp only
      rw [Prog.wp_bind]
      exact Prog.wp_of_forall (fun _ _ => ⟨rfl, nofun⟩) fun _ _ => trivial
    | cons o rest =>
      have hgoes : ∀ b rest', Position.processing a rest = .processing b rest' →
          ∃ outputs, Position.processing a (o :: rest) = .processing b outputs := by
        intro b rest' hb
        cases hb
        exact ⟨_, rfl⟩
      dsimp only
      cases handed o with
      | none => exact ⟨rfl, fun b rest' hb => .inl (hgoes b rest' hb)⟩
      | some t =>
        dsimp only
        split
        · trivial
        · rw [Prog.wp_bind]
          refine Prog.wp_of_forall (fun x _ => ?_) fun _ _ => trivial
          cases x with
          | error err => exact ⟨rfl, nofun⟩
          | ok _ => exact ⟨rfl, fun b rest' hb => .inl (hgoes b rest' hb)⟩

variable (env w) in
theorem Listener.start_position (l : Listener) (genesis : Except String Bool)
    (blockCount : Except String Nat) :
    Prog.wp (l.start genesis blockCount) env w (fun l' _ => l'.position = .idle)
      (fun _ _ => True) := by
  unfold start
  rw [Prog.wp_bind]
  refine Prog.wp_of_forall (fun _ _ => ?_) fun _ _ => trivial
  rw [Prog.wp_bind]
  refine Prog.wp_of_forall (fun _ _ => ?_) fun _ _ => trivial
  rw [Prog.wp_bind]
  refine Prog.wp_of_forall (fun n _ => ?_) fun _ _ => trivial
  by_cases hn : n = 0
  · rw [if_pos hn, Prog.wp_bind]
    exact Prog.wp_of_forall (fun _ _ => rfl) fun _ _ => trivial
  · rw [if_neg hn]
    rfl

variable {σ : Observed}

/-- **A step of the listener** keeps it, if the poll meets the condition. -/
theorem Confirmed.listen (h : Confirmed σ) {fails : Bool} (hop : (ObserveOp.listen fails).Polls σ) :
    Confirmed ((ObserveOp.listen fails).step handler env σ) := by
  have hstep := σ.listener.step_position handler env σ.world
    (getBlock σ.blocks fails σ.listener.blockNumberAhead)
  unfold Prog.wp at hstep
  unfold ObserveOp.step
  dsimp only
  generalize σ.listener.step handler (getBlock σ.blocks fails σ.listener.blockNumberAhead) env
    σ.world = x at hstep
  intro b rest hp
  match x, hstep with
  | (.error err, w), _ => cases hp
  | (.ok l, w), ⟨hconfirmed, hposition⟩ =>
    dsimp only at hp ⊢
    rw [hconfirmed]
    rcases hposition b rest hp with ⟨rest', hp'⟩ | ⟨hidle, hahead⟩
    · rw [hp']
      exact h b rest' hp'
    · unfold ObserveOp.Polls at hop
      simp only [hidle] at hop ⊢
      have hlt := getBlock_eq_some (Nat.mod_lt _ (by decide)) hahead
      change σ.listener.blockNumberAhead < _ at hlt
      omega

theorem Confirmed.step (h : Confirmed σ) {op : ObserveOp} (hop : op.Polls σ) :
    Confirmed (op.step handler env σ) := by
  cases op with
  | grow blocks =>
    intro b rest hp
    have := h b rest hp
    simp only [ObserveOp.step, List.length_append]
    omega
  | listen fails => exact h.listen hop
  | other w => exact h
  | delegate set => exact h
  | crash => exact nofun
  | start genesis blockCount =>
    unfold ObserveOp.step
    cases hp : σ.listener.position with
    | stopped =>
      have hstart := σ.listener.start_position env σ.world genesis blockCount
      unfold Prog.wp at hstart
      dsimp only
      generalize σ.listener.start genesis blockCount env σ.world = x at hstart
      intro b rest hb
      match x, hstart with
      | (.error err, w), _ => simp [hp] at hb
      | (.ok l, w), hidle => simp [show l.position = .idle from hidle] at hb
    | idle => exact h
    | processing b rest => exact h

end

end Bitcoin

/-! ## Both -/

/-- **Handled blocks are confirmed**, in every run of a listener whose polls meet its condition. -/
theorem handled_blocks_confirmed (env : Env) (ethereum : Ethereum.Transaction → M Unit)
    (bitcoin : Bitcoin.Transaction → M Unit) :
    (∀ {σ₀ σ : Ethereum.Observed} {ops : List Ethereum.ObserveOp}, σ₀.listener.position = .stopped →
      Run (fun _ σ op => op.Polls σ) (Ethereum.ObserveOp.step ethereum env) σ₀ ops σ →
      σ.HandlesConfirmed env.eth) ∧
    ∀ {σ₀ σ : Bitcoin.Observed} {ops : List Bitcoin.ObserveOp}, σ₀.listener.position = .stopped →
      Run (fun _ σ op => op.Polls σ) (Bitcoin.ObserveOp.step bitcoin env) σ₀ ops σ →
      σ.HandlesConfirmed := by
  refine ⟨fun {σ₀ σ ops} h₀ hrun b t rest hp _ => ?_, fun {σ₀ σ ops} h₀ hrun b o rest hp _ => ?_⟩
  · have hconfirmed : Ethereum.Confirmed σ := by
      refine hrun.invariant (I := fun _ σ => Ethereum.Confirmed σ) (fun b rest hb => ?_)
        fun _ _ _ _ h hop => h.step hop
      rw [h₀] at hb
      cases hb
    exact hconfirmed b (t :: rest) hp
  · have hconfirmed : Bitcoin.Confirmed σ := by
      refine hrun.invariant (I := fun _ σ => Bitcoin.Confirmed σ) (fun b rest hb => ?_)
        fun _ _ _ _ h hop => h.step hop
      rw [h₀] at hb
      cases hb
    exact hconfirmed b (o :: rest) hp

/-- The ethereum listener next to a chain, from a stored number. -/
def Ethereum.Observed.sample (stored confirmedBlockNumber : Nat) (blocks : Ethereum.Blocks) :
    Ethereum.Observed where
  world := { World.empty with config := ⟨some stored, none⟩ }
  listener := ⟨true, true, "1", confirmedBlockNumber, 0, .stopped⟩
  accepted := []
  completed := []
  blocks := blocks

def Bitcoin.Observed.sample (stored confirmedBlockNumber : Nat) (blocks : List Bitcoin.Block) :
    Bitcoin.Observed where
  world := { World.empty with config := ⟨none, some stored⟩ }
  listener := ⟨true, confirmedBlockNumber, 0, .stopped⟩
  blocks := blocks
  number := 0

/-- A block with a payment to the address 7. -/
def Bitcoin.Block.sample : Bitcoin.Block := ⟨[⟨"31", [⟨50, .ok (.pubKeyHash, ["7"])⟩]⟩]⟩

theorem handled_blocks_confirmed_polled :
    let env := Env.sample .stored
    let endpoint := SwapEngine.sample.endpoint
    let blocks : Ethereum.Blocks := [[], [⟨21, 50, some 7⟩], []]
    (∃ σ,
      Run (fun _ σ op => op.Polls σ) (Ethereum.ObserveOp.step endpoint.onNewEthereumTransaction env)
        (.sample 1 1 blocks) [.start (.ok "1"), .listen false [] false] σ ∧
      σ.listener.next env.eth = some ⟨"21", 50, "7"⟩ ∧ σ.HandlesConfirmed env.eth) ∧
    ∃ σ,
    Run (fun _ σ op => op.Polls σ) (Bitcoin.ObserveOp.step endpoint.onNewBitcoinTransaction env)
        (.sample 1 1 [⟨[]⟩, ⟨[]⟩, .sample, ⟨[]⟩]) [.start (.ok true) (.ok 3), .listen false] σ ∧
      σ.listener.next = some ⟨"31", 0, 50, "7"⟩ ∧ σ.HandlesConfirmed := by
  intro env endpoint blocks
  have hethereum : Run (fun _ σ op => op.Polls σ)
      (Ethereum.ObserveOp.step endpoint.onNewEthereumTransaction env) (.sample 1 1 blocks)
      [.start (.ok "1"), .listen false [] false] _ := Run.of_check _ (by decide +kernel)
  have hbitcoin : Run (fun _ σ op => op.Polls σ)
      (Bitcoin.ObserveOp.step endpoint.onNewBitcoinTransaction env)
      (.sample 1 1 [⟨[]⟩, ⟨[]⟩, .sample, ⟨[]⟩]) [.start (.ok true) (.ok 3), .listen false] _ :=
    Run.of_check _ (by decide +kernel)
  have h := handled_blocks_confirmed env endpoint.onNewEthereumTransaction
    endpoint.onNewBitcoinTransaction
  exact ⟨⟨_, hethereum, by decide +kernel, h.1 rfl hethereum⟩,
    ⟨_, hbitcoin, by decide +kernel, h.2 rfl hbitcoin⟩⟩

/-- From the stored block 0 the ethereum listener handles the latest block; so it does when the
number ahead is 0 in 64 bits. The bitcoin listener handles the block ahead. -/
theorem handled_block_unconfirmed :
    let env := Env.sample .stored
    let endpoint := SwapEngine.sample.endpoint
    let payment : Ethereum.BlockTransaction := ⟨21, 50, some 7⟩
    (∃ σ, Run (fun _ _ _ => True) (Ethereum.ObserveOp.step endpoint.onNewEthereumTransaction env)
        (.sample 0 2 [[], [], [], [payment]]) [.start (.ok "1"), .listen false [] false] σ ∧
      ¬σ.HandlesConfirmed env.eth) ∧
    (∃ σ, Run (fun _ _ _ => True) (Ethereum.ObserveOp.step endpoint.onNewEthereumTransaction env)
        (.sample 1 (2 ^ 64 - 1) [[], [payment]]) [.start (.ok "1"), .listen false [] false] σ ∧
      ¬σ.HandlesConfirmed env.eth) ∧
    ∃ σ, Run (fun _ _ _ => True) (Bitcoin.ObserveOp.step endpoint.onNewBitcoinTransaction env)
        (.sample 1 2 [⟨[]⟩, ⟨[]⟩, ⟨[]⟩, .sample]) [.start (.ok true) (.ok 3), .listen false] σ ∧
      ¬σ.HandlesConfirmed := by
  intro env endpoint payment
  refine ⟨⟨_, Run.of_check _ (by decide +kernel), fun h => ?_⟩,
    ⟨_, Run.of_check _ (by decide +kernel), fun h => ?_⟩,
    ⟨_, Run.of_check _ (by decide +kernel), fun h => ?_⟩⟩
  · exact absurd (h ⟨3, [payment]⟩ payment [] (by decide +kernel) (by decide)) (by decide +kernel)
  · exact absurd (h ⟨1, [payment]⟩ payment [] (by decide +kernel) (by decide)) (by decide +kernel)
  · exact absurd (h .sample ("31", 0, ⟨50, .ok (.pubKeyHash, ["7"])⟩) [] rfl (by decide))
      (by decide +kernel)

end Dex
