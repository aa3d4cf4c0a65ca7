import DexServer.Swap.Proof.Payout

/-!
# An accepted deposit is queued and offered

When a handler returns nil the listener goes on, so the transaction must have been queued by then,
and the entry must lead to a CreateOffer for its amount.

`deposit_kept_iff` says when this is so. For an ethereum transaction: it was queued before, or the
association could be looked up and has not succeeded. A bitcoin transaction is never offered
(`not_offers_BTC`), so only when the handler does not return nil.
-/

namespace Dex

open Lib

/-- Processing the entry submits a CreateOffer for its amount. -/
def AccountConfigurator.Offers (ac : AccountConfigurator) (env : Env) (t : DepositTransaction) :
    Prop :=
  ∃ a : AssociationTransaction, a.transactionType = .CreateOffer ∧ a.params[0]? = some t.amount ∧
    ∀ (α : Type) (onSubmitTransaction : Chain → Address → AssociationTransaction → M α) (w : World),
      ac.configureAccountTransaction onSubmitTransaction t env w =
        onSubmitTransaction t.chain t.associatedAddress a env w

namespace AccountConfigurator

variable {ac : AccountConfigurator} {env : Env} {t : DepositTransaction}

theorem offers_ETH (hsign : ∀ h, ∃ sig, ac.sign h = .ok sig) (ht : t.assetCode = .ETH) :
    ac.Offers env t := by
  let a : AssociationTransaction := ⟨env.eth.marshalAddress t.associatedAddress, [], 0,
    .CreateOffer, [t.amount, ac.tokenPriceETH, t.pairName]⟩
  obtain ⟨sig, hsig⟩ := hsign (a.computeHash env.eth)
  refine ⟨{ a with hash := a.computeHash env.eth, signature := sig }, rfl, rfl,
    fun α submit w => ?_⟩
  have hprice : ac.tokenPrice t.assetCode = .ok ac.tokenPriceETH := by
    rw [ht]
    rfl
  have hbuild : ac.buildTransaction (env.eth.marshalAddress t.associatedAddress) .CreateOffer
      [t.amount, ac.tokenPriceETH, t.pairName] env w =
      (.ok { a with hash := a.computeHash env.eth, signature := sig }, w) := by
    have hchecked : checked (ac.sign (a.computeHash env.eth)) env w = (.ok sig, w) := by
      rw [hsig]
      rfl
    unfold buildTransaction
    rw [Prog.bind_ok (m := Prog.ask) rfl, Prog.bind_ok hchecked]
    rfl
  unfold configureAccountTransaction
  rw [hprice, Prog.bind_ok (m := checked (.ok _)) rfl, Prog.bind_ok (m := Prog.ask) rfl,
    Prog.bind_ok hbuild]

theorem not_offers_BTC (ht : t.assetCode = .BTC) : ¬ac.Offers env t := by
  rintro ⟨a, -, -, h⟩
  have hfail := congrArg Prod.fst (h Unit (fun _ _ _ => pure ()) World.empty)
  unfold configureAccountTransaction at hfail
  rw [ht] at hfail
  cases hfail

end AccountConfigurator

/-! ## The entries of a run -/

/-- The entries are for the chains of their deposits. -/
structure Entered (σ : Swap) : Prop where
  ethereum : ∀ p ∈ σ.queued, p.1.chain = .ethereum → p.2.assetCode = .ETH
  bitcoin : ∀ p ∈ σ.queued, p.1.chain = .bitcoin → p.2.assetCode = .BTC

theorem Entered.of_nil {σ : Swap} (h : σ.queued = []) : Entered σ := by
  refine ⟨fun p hp => ?_, fun p hp => ?_⟩
  all_goals
    rw [h] at hp
    cases hp

theorem Entered.moved {env : Env} {σ σ' : Swap} {op : SwapOp} (hi : Entered σ)
    (hm : σ.Moved env op σ') : Entered σ' := by
  cases hm with
  | idle _ _ _ queued _ | consume _ _ _ _ _ queued _ | work _ _ _ _ _ queued _
  | pay _ _ _ _ _ _ queued _ =>
    exact ⟨queued ▸ hi.ethereum, queued ▸ hi.bitcoin⟩
  | @queue d t handed _ _ _ queued _ =>
    have hnew : (d.chain = .ethereum → t.assetCode = .ETH) ∧
        (d.chain = .bitcoin → t.assetCode = .BTC) := by
      cases handed with
      | ethereum =>
        exact ⟨fun _ => rfl, fun h => absurd h (by decide : Chain.ethereum ≠ Chain.bitcoin)⟩
      | bitcoin =>
        exact ⟨fun h => absurd h (by decide : Chain.bitcoin ≠ Chain.ethereum), fun _ => rfl⟩
    refine ⟨fun p hp => ?_, fun p hp => ?_⟩
    all_goals
      rw [queued] at hp
      rcases List.mem_append.1 hp with hp | hp
    · exact hi.ethereum p hp
    · rw [List.mem_singleton.1 hp]
      exact hnew.1
    · exact hi.bitcoin p hp
    · rw [List.mem_singleton.1 hp]
      exact hnew.2

/-! ## The handlers -/

namespace DepositEndpoint

section
variable {e : DepositEndpoint} {env : Env} {w : World} {a : AddressAssociationRecord}

/-- The look-up succeeds and finds an association that has not succeeded. -/
def Open (env : Env) (w : World) (a : AddressAssociationRecord) : Prop :=
  env.fails w.calls = false ∧ a.status ≠ .SUCCESS

instance : Decidable (Open env w a) := inferInstanceAs (Decidable (_ ∧ _))

omit e in
theorem attempted_getAssociation {chain : Chain} {address : Address}
    (ha : w.associations.getByAddress chain address = some a) :
    attempted (getAssociationByChainAddress chain address) env w =
      (.ok (if env.fails w.calls then .error .io else .ok (some a)), w.tick) := by
  have ha' : w.tick.associations.getByAddress chain address = some a := ha
  unfold getAssociationByChainAddress
  rw [attempted_query fun _ _ w => .ok (w.associations.getByAddress chain address), ha']
  cases env.fails w.calls with
  | true => rfl
  | false => rfl

omit e env in
theorem getByAddress_self {chain : Chain} {address : Address}
    (ha : w.associations.getByAddress chain address = some a) :
    w.associations.getByAddress a.chain a.address = some a := by
  have hkey : (a.chain, a.address) = (chain, address) :=
    Coll.get_key (c := w.associations.coll) (k := (chain, address)) ha
  rw [(Prod.mk.inj hkey).1, (Prod.mk.inj hkey).2, ha]

omit e in
/-- An entry for a stored association that has not succeeded is queued, unless a call fails. -/
theorem processNewTransaction_open {t : DepositTransaction} (hs : a.status ≠ .SUCCESS)
    (ha : w.associations.getByAddress a.chain a.address = some a) :
    Prog.wp (processNewTransaction t a) env w
      (fun _ w' => w'.depositQueue = w.depositQueue ++ [t] ∧
        ¬(env.fails w.calls = true ∨ env.fails (w.calls + 1) = true))
      (fun _ _ => env.fails w.calls = true ∨ env.fails (w.calls + 1) = true) := by
  have ha' : w.tick.associations.getByAddress a.chain a.address = some a := ha
  unfold processNewTransaction processTransaction DepositService.saveAssociationStatusByChainAddress
    saveAssociationStatus updateAssociation
  rw [if_neg hs, Prog.wp_bind]
  refine wp_call (fun hf => .inl hf) fun hf => ?_
  rw [ha', Prog.ends_ok]
  refine wp_call (fun hf => .inr hf) fun hf' => ?_
  refine ⟨rfl, fun h => ?_⟩
  rcases h with h | h
  · exact Bool.false_ne_true (hf.symm.trans h)
  · exact Bool.false_ne_true (hf'.symm.trans h)

/-! ### Ethereum -/

section
variable {t : Ethereum.Transaction} (hmin : e.depositService.minimumValueWei ≤ t.valueWei)
  (ha : w.associations.getByAddress .ethereum (env.eth.hexToAddress t.recipient) = some a)
include hmin ha

theorem onNewEthereumTransaction_eq : e.onNewEthereumTransaction t env w =
    if env.fails w.calls then (.ok (), w.tick)
    else processNewTransaction (ethereumEntry t a) a env w.tick := by
  unfold onNewEthereumTransaction
  rw [if_neg (by omega), Prog.bind_ok (m := Prog.ask) rfl,
    Prog.bind_ok (attempted_getAssociation ha)]
  split <;> rfl

theorem onNewEthereumTransaction_open :
    Prog.wp (e.onNewEthereumTransaction t) env w
      (fun _ w' => w'.depositQueue =
        if Open env w a then w.depositQueue ++ [ethereumEntry t a] else w.depositQueue)
      (fun _ _ => Open env w a) := by
  unfold Prog.wp
  rw [onNewEthereumTransaction_eq hmin ha]
  by_cases hf : env.fails w.calls = true
  · have hclosed : ¬Open env w a := fun h => Bool.false_ne_true (h.1.symm.trans hf)
    rw [if_pos hf, Prog.ends_ok, if_neg hclosed]
    rfl
  · rw [if_neg hf]
    by_cases hs : a.status = .SUCCESS
    · have hclosed : ¬Open env w a := fun h => h.2 hs
      unfold processNewTransaction
      rw [if_pos hs]
      show w.tick.depositQueue = _
      rw [if_neg hclosed]
      rfl
    · have hopen : Open env w a := ⟨Bool.eq_false_iff.2 hf, hs⟩
      exact Prog.wp_mono (processNewTransaction_open (w := w.tick) hs (getByAddress_self ha))
        (fun _ w' h => by rw [if_pos hopen]; exact h.1) fun _ _ _ => hopen

end

/-! ### Bitcoin -/

/-- The rate cannot be read or is zero, so that the handler panics. -/
def RatePanics (s : DepositService) (env : Env) (n : Nat) : Prop :=
  env.fails n = false ∧
    match s.lastPrice n with
    | .error (.panic _) => True
    | .error _ => False
    | .ok lastPrice => s.ratOf lastPrice = some 0

theorem valueToWei_panics (s : DepositService) (t : Bitcoin.Transaction) :
    Prog.wp (s.valueToWei t) env w (fun _ w' => w' = w.tick ∧ ¬RatePanics s env w.calls)
      (fun _ _ => RatePanics s env w.calls) := by
  unfold DepositService.valueToWei RatePanics
  rw [Prog.wp_bind]
  unfold Prog.wp DepositService.getLastPrice
  rw [attempted_query fun _ n _ => s.lastPrice n]
  cases hf : env.fails w.calls with
  | true => exact ⟨rfl, fun h => Bool.false_ne_true h.1.symm⟩
  | false =>
    rw [if_neg Bool.false_ne_true]
    cases s.lastPrice w.calls with
    | error e =>
      cases e with
      | panic m => exact ⟨rfl, trivial⟩
      | _ => exact ⟨rfl, fun h => h.2⟩
    | ok lastPrice =>
      dsimp only
      rw [Prog.ends_ok]
      dsimp only
      cases s.ratOf lastPrice with
      | none => exact ⟨rfl, fun h => by cases h.2⟩
      | some rate =>
        dsimp only
        split
        · rename_i h0
          exact ⟨rfl, congrArg some h0⟩
        · rename_i h0
          exact ⟨rfl, fun h => h0 (Option.some.inj h.2)⟩

/-- The handler of a bitcoin transaction for the association does not return nil. -/
def BitcoinFails (e : DepositEndpoint) (env : Env) (w : World) (a : AddressAssociationRecord) :
    Prop :=
  env.fails w.calls = false ∧ (RatePanics e.depositService env (w.calls + 1) ∨
    a.status ≠ .SUCCESS ∧ (env.fails (w.calls + 2) = true ∨ env.fails (w.calls + 3) = true))

section
variable {t : Bitcoin.Transaction} (hmin : e.depositService.minimumValueSat ≤ t.valueSat)
  (ha : w.associations.getByAddress .bitcoin (env.eth.hexToAddress t.recipient) = some a)
include hmin ha

theorem onNewBitcoinTransaction_fails :
    Prog.wp (e.onNewBitcoinTransaction t) env w (fun _ _ => ¬BitcoinFails e env w a)
      (fun _ _ => BitcoinFails e env w a) := by
  unfold onNewBitcoinTransaction Prog.wp BitcoinFails
  rw [if_neg (by omega), Prog.bind_ok (m := Prog.ask) rfl,
    Prog.bind_ok (attempted_getAssociation ha)]
  cases hf : env.fails w.calls with
  | true => exact fun h => Bool.false_ne_true h.1.symm
  | false =>
    rw [if_neg Bool.false_ne_true]
    show Prog.wp (e.depositService.valueToWei t >>= _) env w.tick _ _
    rw [Prog.wp_bind]
    refine Prog.wp_mono (valueToWei_panics e.depositService t) (fun amount w₁ h₁ => ?_)
      fun _ _ h => ⟨rfl, .inl h⟩
    obtain ⟨rfl, hrate⟩ := h₁
    by_cases hs : a.status = .SUCCESS
    · unfold processNewTransaction
      rw [if_pos hs]
      rintro ⟨-, h | h⟩
      · exact hrate h
      · exact h.1 hs
    · refine Prog.wp_mono (processNewTransaction_open (w := w.tick.tick) hs (getByAddress_self ha))
        (fun _ _ h => ?_) fun _ _ h => ⟨rfl, .inr ⟨hs, h⟩⟩
      rintro ⟨-, h' | h'⟩
      · exact hrate h'
      · exact h.2 h'.2

end

end

end DepositEndpoint

/-! ## Both chains -/

/-- If the handler returns nil, an entry of the deposit has been queued and is offered. -/
def Swap.Keeps (engine : SwapEngine) (env : Env) (σ : Swap) (d : Deposit) (handler : M Unit) :
    Prop :=
  ∀ w, handler env σ.world = (.ok (), w) →
    ∃ entry, (d, entry) ∈ (σ.record (some d) w).queued ∧ engine.configurator.Offers env entry

section
variable {engine : SwapEngine} {env : Env} {σ : Swap} {d : Deposit} {handler : M Unit}

theorem Swap.of_mem_record {w : World} {P : DepositTransaction → Prop} (hq : σ.world.Queues P w)
    {p : Deposit × DepositTransaction} (hp : p ∈ (σ.record (some d) w).queued) :
    p ∈ σ.queued ∨ P p.2 := by
  rcases List.mem_append.1 hp with hp | hp
  · exact .inl hp
  · obtain ⟨t, ht, rfl⟩ := List.mem_map.1 hp
    rcases hq with hq | ⟨t', ht', hq, -⟩
    · rw [hq.depositQueue, List.drop_length] at ht
      cases ht
    · rw [hq, List.drop_left] at ht
      rw [List.mem_singleton.1 ht]
      exact .inr ht'

/-- A handler that returns nil and queues nothing keeps only what was queued before. -/
theorem Swap.keeps_of_still (hok : (handler env σ.world).1 = .ok ())
    (hq : (handler env σ.world).2.depositQueue = σ.world.depositQueue) :
    σ.Keeps engine env d handler ↔
      ∃ entry, (d, entry) ∈ σ.queued ∧ engine.configurator.Offers env entry := by
  have hrecord : (σ.record (some d) (handler env σ.world).2).queued = σ.queued := by
    unfold Swap.record
    simp [hq]
  refine ⟨fun h => ?_, fun h w hw => ?_⟩
  · have hkept := h _ (Prod.ext hok rfl)
    rwa [hrecord] at hkept
  · rw [hw] at hrecord
    rw [hrecord]
    exact h

theorem Swap.not_keeps_bitcoin (hi : Entered σ) {t : Bitcoin.Transaction}
    (hok : (engine.endpoint.onNewBitcoinTransaction t env σ.world).1 = .ok ()) :
    ¬σ.Keeps engine env t.deposit (engine.endpoint.onNewBitcoinTransaction t) := by
  intro hkept
  obtain ⟨entry, he, hoffers⟩ := hkept _ (Prod.ext hok rfl)
  refine AccountConfigurator.not_offers_BTC ?_ hoffers
  rcases Swap.of_mem_record (engine.endpoint.onNewBitcoinTransaction_queues t env σ.world) he with
    he | ⟨_, _, _, amount, rfl⟩
  · exact hi.bitcoin _ he rfl
  · rfl

end

/-- **When an accepted deposit is kept.** An ethereum transaction: it was queued before, or the
look-up of its association succeeds and the association has not succeeded yet. A bitcoin
transaction: only if the handler does not return nil. -/
theorem deposit_kept_iff {engine : SwapEngine} {env : Env} {σ₀ σ : Swap} {ops : List SwapOp}
    (hqueued : σ₀.queued = [])
    (h : Run (fun _ _ _ => True) (SwapOp.step engine env) σ₀ ops σ)
    (hsign : ∀ hash, ∃ signature, engine.configurator.sign hash = .ok signature) :
    (∀ (t : Ethereum.Transaction) (a : AddressAssociationRecord),
      engine.endpoint.depositService.minimumValueWei ≤ t.valueWei →
      σ.world.associations.getByAddress .ethereum (env.eth.hexToAddress t.recipient) = some a →
      (σ.Keeps engine env t.deposit (engine.endpoint.onNewEthereumTransaction t) ↔
        t.deposit ∈ σ.queued.map (·.1) ∨ DepositEndpoint.Open env σ.world a)) ∧
    (∀ (t : Bitcoin.Transaction) (a : AddressAssociationRecord),
      engine.endpoint.depositService.minimumValueSat ≤ t.valueSat →
      σ.world.associations.getByAddress .bitcoin (env.eth.hexToAddress t.recipient) = some a →
      (σ.Keeps engine env t.deposit (engine.endpoint.onNewBitcoinTransaction t) ↔
        DepositEndpoint.BitcoinFails engine.endpoint env σ.world a)) := by
  have hi : Entered σ := h.invariant (I := fun _ σ => Entered σ) (.of_nil hqueued)
    fun _ σ op _ hi _ => hi.moved (op.step_moved engine env σ)
  refine ⟨fun t a hmin ha => ?_, fun t a hmin ha => ?_⟩
  · have hseen : t.deposit ∈ σ.queued.map (·.1) ↔
        ∃ entry, (t.deposit, entry) ∈ σ.queued ∧ engine.configurator.Offers env entry := by
      refine ⟨fun h => ?_, fun ⟨entry, he, _⟩ => List.mem_map_of_mem he⟩
      obtain ⟨p, hp, hd⟩ := List.mem_map.1 h
      have hETH := hi.ethereum p hp (by rw [hd]; rfl)
      exact ⟨p.2, hd ▸ hp, AccountConfigurator.offers_ETH hsign hETH⟩
    have hwp := DepositEndpoint.onNewEthereumTransaction_open (e := engine.endpoint) hmin ha
    unfold Prog.wp at hwp
    by_cases hopen : DepositEndpoint.Open env σ.world a
    · refine iff_of_true (fun w hw => ?_) (.inr hopen)
      rw [hw, Prog.ends_ok, if_pos hopen] at hwp
      refine ⟨DepositEndpoint.ethereumEntry t a, ?_, AccountConfigurator.offers_ETH hsign rfl⟩
      unfold Swap.record
      simp [hwp]
    · rw [or_iff_left hopen, hseen]
      generalize hx : engine.endpoint.onNewEthereumTransaction t env σ.world = x at hwp
      match x, hwp with
      | (.ok (), w), hwp =>
        rw [Prog.ends_ok, if_neg hopen] at hwp
        exact Swap.keeps_of_still (by rw [hx]) (by rw [hx]; exact hwp)
      | (.error _, w), hwp => exact absurd hwp hopen
  · have hwp := DepositEndpoint.onNewBitcoinTransaction_fails (e := engine.endpoint) hmin ha
    unfold Prog.wp at hwp
    generalize hx : engine.endpoint.onNewBitcoinTransaction t env σ.world = x at hwp
    match x, hwp with
    | (.error _, w), hwp =>
      refine iff_of_true (fun w' hw => ?_) hwp
      rw [hx] at hw
      cases hw
    | (.ok (), w), hwp => exact iff_of_false (Swap.not_keeps_bitcoin hi (by rw [hx])) hwp

/-! ## Deposits that are kept, and deposits that are not -/

/-- The address 7 was given to the user 1 on both chains; `status` is that of the first. -/
def Associations.sample (status : DepositStatus) : Associations where
  coll :=
    ⟨[⟨.ethereum, 7, status, 1, [], "ETH/ETH", 3⟩, ⟨.bitcoin, 7, .PENDING, 1, [], "ETH/ETH", 3⟩],
    by cases status <;> decide⟩
  unique := by cases status <;> decide

/-- A pending deposit of ethereum is kept; one of bitcoin is kept when the broker fails. -/
theorem deposit_kept_pending :
    let env := { Env.sample .stored with fails := fun n => n = 3 }
    ∃ σ, Run (fun _ _ _ => True) (SwapOp.step .sample env) .sample
      [.associate (.sample .PENDING)] σ ∧ σ.Keeps .sample env ⟨.ethereum, "21", 0⟩
        (SwapEngine.sample.endpoint.onNewEthereumTransaction ⟨"21", 50, "7"⟩) ∧
      σ.Keeps .sample env ⟨.bitcoin, "31", 0⟩
        (SwapEngine.sample.endpoint.onNewBitcoinTransaction ⟨"31", 0, 50, "7"⟩) := by
  intro env
  have hrun : Run (fun _ _ _ => True) (SwapOp.step .sample env) .sample
    [.associate (.sample .PENDING)] _ := Run.of_check _ (by decide +kernel)
  have hkept := deposit_kept_iff rfl hrun fun _ => ⟨[], rfl⟩
  refine ⟨_, hrun, ?_, ?_⟩
  · exact (hkept.1 ⟨"21", 50, "7"⟩ ⟨.ethereum, 7, .PENDING, 1, [], "ETH/ETH", 3⟩ (by decide)
      (by decide +kernel)).2 (.inr (by decide))
  · exact (hkept.2 ⟨"31", 0, 50, "7"⟩ ⟨.bitcoin, 7, .PENDING, 1, [], "ETH/ETH", 3⟩ (by decide)
      (by decide +kernel)).2 ⟨rfl, .inr ⟨by decide, .inr rfl⟩⟩

/-- Nothing is queued for a second deposit after the first has succeeded, nor when the look-up
fails. A deposit of bitcoin is queued, and then rejected by the configurator. -/
theorem deposit_dropped :
    let σ := SwapOp.step .sample (Env.sample .stored) .sample (.associate (.sample .SUCCESS))
    let pending := SwapOp.step .sample (Env.sample .stored) .sample (.associate (.sample .PENDING))
    let failing := { Env.sample .stored with fails := fun n => n = 0 }
    let ethereum := SwapEngine.sample.endpoint.onNewEthereumTransaction ⟨"21", 50, "7"⟩
    let bitcoin := SwapEngine.sample.endpoint.onNewBitcoinTransaction ⟨"31", 0, 50, "7"⟩
    ¬σ.Keeps .sample (Env.sample .stored) ⟨.ethereum, "21", 0⟩ ethereum ∧
    ¬pending.Keeps .sample failing ⟨.ethereum, "21", 0⟩ ethereum ∧
    ¬σ.Keeps .sample (Env.sample .stored) ⟨.bitcoin, "31", 0⟩ bitcoin ∧
    (bitcoin (Env.sample .stored) σ.world).2.depositQueue =
      [⟨.bitcoin, "31", .BTC, "ETH/ETH", "", 1⟩] ∧
    (SwapEngine.sample.configurator.configureAccountTransaction
      SwapEngine.sample.endpoint.onSubmitTransaction ⟨.bitcoin, "31", .BTC, "ETH/ETH", "", 1⟩
      (Env.sample .stored) σ.world).1 = .error (.msg "Invalid intermediateAssetCode: $BTC") := by
  intro σ pending failing ethereum bitcoin
  refine ⟨fun h => ?_, fun h => ?_, ?_, by decide +kernel, by decide +kernel⟩
  · obtain ⟨_, he, _⟩ := (Swap.keeps_of_still (by decide +kernel) (by decide +kernel)).1 h
    cases he
  · obtain ⟨_, he, _⟩ := (Swap.keeps_of_still (by decide +kernel) (by decide +kernel)).1 h
    cases he
  · exact Swap.not_keeps_bitcoin (.of_nil rfl) (by decide +kernel)

end Dex
