import DexServer.Engine.Proof.Match
import DexServer.Sample
import DexServer.Services.Messages
import DexServer.Services.Proof.Funds

/-!
# A maker while its trades settle

`handleEngineOrderMatched` validates the maker of each match, which by then has been filled, against
what its owner has left, from which the earlier fills have been debited if they have settled. But
`ValidateBalance` asks for the full amount of the order.

* `Maker.Of.solvent`: an admitted order can always pay for what is left of it.
* `maker_validated_iff`: yet it passes exactly as long as the settled fills have not used up what
  the owner had beyond the amount of the order; until then it is not sent to
  `invalidateMakerOrders`.
-/

namespace Dex

open Lib

/-- A SELL order in the book, with the funds of its owner. -/
structure Maker where
  order : Order
  /-- the traded amounts that have not settled yet -/
  unsettled : List Int
  settled : Int
  balance : Int
  allowance : Int

inductive MakerOp
  /-- the engine matches the order with a taker -/
  | fill (taker : Order)
  /-- the `i`-th trade that has not settled does -/
  | settle (i : Nat)

namespace Maker

def admitted (o : Order) (balance allowance : Int) : Maker := ⟨o, [], 0, balance, allowance⟩

def step (σ : Maker) : MakerOp → Maker
  | .fill taker => { σ with
      order := filledMaker taker σ.order
      unsettled := σ.unsettled ++ [tradeAmount taker σ.order] }
  | .settle i =>
    match σ.unsettled[i]? with
    | some a => { σ with
        unsettled := σ.unsettled.eraseIdx i
        settled := σ.settled + a
        balance := σ.balance - a
        allowance := σ.allowance - a }
    | none => σ

/-- The state of the order `o`, of an owner who started with `B` and `A`. -/
structure Of (o : Order) (B A : Int) (σ : Maker) : Prop where
  terms : σ.order.terms = o.terms
  filled : σ.order.filledAmount = o.filledAmount + σ.settled + σ.unsettled.sum
  balance : σ.balance = B - σ.settled
  allowance : σ.allowance = A - σ.settled

namespace Of

variable {o : Order} {B A : Int} {σ : Maker}

theorem admitted (o : Order) (B A : Int) : Of o B A (.admitted o B A) := by
  refine ⟨rfl, ?_, ?_, ?_⟩
  · show o.filledAmount = o.filledAmount + 0 + 0
    omega
  · show B = B - 0
    omega
  · show A = A - 0
    omega

theorem step (h : Of o B A σ) (op : MakerOp) : Of o B A (σ.step op) := by
  have hfilled := h.filled
  have hbalance := h.balance
  have hallowance := h.allowance
  cases op with
  | fill taker =>
    refine ⟨(filledMaker_terms taker σ.order).trans h.terms, ?_, hbalance, hallowance⟩
    show (filledMaker taker σ.order).filledAmount =
      o.filledAmount + σ.settled + (σ.unsettled ++ [tradeAmount taker σ.order]).sum
    rw [filledMaker_filledAmount, List.sum_append, List.sum_singleton]
    omega
  | settle i =>
    unfold Maker.step
    dsimp only
    cases ha : σ.unsettled[i]? with
    | none => exact h
    | some a =>
      -- the amount moves from one sum to the other
      have hsum : a + (σ.unsettled.eraseIdx i).sum = σ.unsettled.sum := by
        obtain ⟨hi, rfl⟩ := List.getElem?_eq_some_iff.1 ha
        exact (List.getElem_cons_eraseIdx_perm hi).sum_eq
      refine ⟨h.terms, ?_, ?_, ?_⟩ <;> dsimp only <;> omega

theorem run (h : Of o B A σ) (ops : List MakerOp) : Of o B A (ops.foldl Maker.step σ) := by
  induction ops generalizing σ with
  | nil => exact h
  | cons op ops ih => exact ih (h.step op)

/-- **The owner can pay** for the trades that have not settled and for what is left of the order. -/
theorem solvent (h : Of o B A σ) (h0 : 0 ≤ o.filledAmount) (hB : o.amount ≤ B) (hA : o.amount ≤ A) :
    σ.unsettled.sum + σ.order.remainingAmount ≤ min σ.balance σ.allowance := by
  have hamount : σ.order.amount = o.amount := (Order.sameTerms h.terms).amount
  have hfilled := h.filled
  have hbalance := h.balance
  have hallowance := h.allowance
  simp only [Order.remainingAmount]
  omega

end Of

end Maker

namespace Services

/-- The node answers with the funds of the maker. -/
structure Reports (s : Services) (σ : Maker) : Prop where
  balance : ∀ n, s.balanceOf n σ.order.userAddress σ.order.sellToken = σ.balance
  allowance : ∀ n, s.allowance n σ.order.userAddress s.exchangeAddress σ.order.sellToken =
    σ.allowance

/-- The calls of a check of `o` that starts with call `n` are answered, and its pair is listed. -/
def Answered (s : Services) (env : Env) (o : Order) (n : Nat) : Prop :=
  ∃ p n₁ n₂, s.Answers env o n p n₁ n₂

/-- The makers sent to `invalidateMakerOrders` since `w` have `P`. -/
def Invalidates (P : Order → Prop) (w w' : World) : Prop :=
  ∀ m, .INVALIDATE_MAKER_ORDERS m ∈ w'.orderQueue →
    .INVALIDATE_MAKER_ORDERS m ∈ w.orderQueue ∨ ∀ mo ∈ m.makerOrders, P mo

theorem Invalidates.quiet {P : Order → Prop} {w w' : World} (h : w'.orderQueue = w.orderQueue) :
    Invalidates P w w' :=
  fun _ hm => .inl (h ▸ hm)

section
variable {s : Services} {env : Env}

theorem Reports.validateBalance_iff {σ : Maker} (h : s.Reports σ) (hs : σ.order.side = .SELL)
    (w : World) : (s.validateBalance σ.order env w).1 = .ok () ↔ s.Answered env σ.order w.calls ∧
      σ.order.amount ≤ σ.balance ∧ σ.order.amount ≤ σ.allowance := by
  have hreq : ∀ p, σ.order.totalRequiredSellAmount p = σ.order.amount := by
    intro p
    rw [Order.totalRequiredSellAmount, if_neg (by rw [hs]; decide)]
  rw [Services.validateBalance_iff]
  simp only [hreq, h.balance, h.allowance]
  constructor
  · rintro ⟨p, n₁, n₂, ha, hb⟩
    exact ⟨⟨p, n₁, n₂, ha⟩, hb⟩
  · rintro ⟨⟨p, n₁, n₂, ha⟩, hb⟩
    exact ⟨p, n₁, n₂, ha, hb⟩

theorem checkMakers_rejected {P : Order → Prop} {m : Matches}
    (hP : ∀ mo w, (s.validateBalance mo env w).1 ≠ .ok () → P mo) :
    ∀ (trades : List Trade) (i : Nat) (valid invalid : Matches) (w : World),
    Prog.wp (s.checkMakers m valid invalid i trades) env w
      (fun x w' => w'.orderQueue = w.orderQueue ∧
        ∀ mo ∈ x.2.makerOrders, mo ∈ invalid.makerOrders ∨ P mo)
      (fun _ w' => w'.orderQueue = w.orderQueue)
  | [], i, valid, invalid, w => ⟨rfl, fun mo hmo => .inl hmo⟩
  | t :: trades, i, valid, invalid, w => by
    unfold checkMakers
    rw [Prog.wp_bind]
    refine wp_index (fun mo hmo => ?_) fun _ => rfl
    rw [Prog.wp_bind]
    refine wp_attempted ((s.validateBalance_quiet mo).wp_ends (fun _ n _ => ?_)
      fun e n he => ⟨?_, rfl⟩)
    · exact checkMakers_rejected hP trades (i + 1) (valid.appendMatch mo t) invalid _
    · refine Prog.wp_mono
        (checkMakers_rejected hP trades (i + 1) valid (invalid.appendMatch mo t) _)
        (fun x w' hx => ⟨hx.1, fun y hy => ?_⟩) fun _ w' h => h
      rcases hx.2 y hy with h | h
      · rcases List.mem_append.1 h with h | h
        · exact .inl h
        · rw [List.mem_singleton.1 h]
          exact .inr (hP mo w (by rw [he]; nofun))
      · exact .inr h

omit s in
theorem storeMatches_orderQueue (o : Order) (m valid : Matches) (w : World) :
    ((storeMatches o m valid) env w).2.orderQueue = w.orderQueue := by
  refine Prog.wp_state (P := fun w' : World => w'.orderQueue = w.orderQueue) ?_
  unfold storeMatches
  split
  · rfl
  · simp only [Prog.wp_bind, Prog.wp_attempt]
    refine wp_call (fun _ => rfl) fun _ => ?_
    rw [Prog.ends_ok]
    exact wp_call (fun _ => rfl) fun _ => rfl

/-- **Only makers that do not pass are sent to `invalidateMakerOrders`.** -/
theorem handleEngineOrderMatched_invalidates {P : Order → Prop}
    (hP : ∀ mo w, (s.validateBalance mo env w).1 ≠ .ok () → P mo) (res : EngineResponse)
    (w : World) :
    Invalidates P w (s.handleEngineOrderMatched res env w).2 := by
  refine Prog.wp_state (P := Invalidates P w) ?_
  unfold handleEngineOrderMatched
  simp only [Prog.wp_bind]
  cases res.order with
  | none => exact .quiet rfl
  | some o =>
    cases res.matches? with
    | none => exact .quiet rfl
    | some m =>
      simp only [deref, Prog.wp_pure]
      refine Prog.wp_mono (checkMakers_rejected hP m.trades 0 _ _ w) (fun x w₁ hx => ?_)
        fun _ w₁ h => .quiet h
      obtain ⟨valid, invalid⟩ := x
      obtain ⟨hq, hx⟩ := hx
      have hstore : ∀ w₂, Invalidates P w w₂ → Prog.wp (storeMatches o m valid) env w₂
          (fun _ => Invalidates P w) (fun _ => Invalidates P w) := by
        intro w₂ hw₂
        refine Prog.wp_of_state fun m' hm' => hw₂ m' ?_
        rwa [storeMatches_orderQueue] at hm'
      dsimp only
      split
      · exact hstore w₁ (.quiet hq)
      · simp only [publishInvalidateMakerOrdersMessage, publishOrder, Prog.wp_bind, Prog.wp_attempt]
        refine wp_call (fun _ => hstore _ (.quiet hq)) fun _ => ?_
        rw [Prog.ends_ok]
        refine hstore _ fun m' hm' => ?_
        rcases List.mem_append.1 hm' with h | h
        · exact .inl (hq ▸ h)
        · cases List.mem_singleton.1 h
          refine .inr fun mo hmo => ?_
          rcases hx mo hmo with h | h
          · cases h
          · exact h

end

end Services

/-- **When a maker passes.** For every admitted SELL order, the only one of its owner, and every
sequence of fills and settlements: it passes exactly if the calls are answered and what has settled
is within what the owner had beyond the amount of the order; then it is not sent to
`invalidateMakerOrders`. -/
theorem maker_validated_iff {s₀ : Services} {env₀ : Env} {w₀ : World} {o : Order}
    (hside : o.side = .SELL) (honly : ∀ x ∈ w₀.orders, x.userAddress ≠ o.userAddress) {B A : Int}
    (hfunds : s₀.Reports (.admitted o B A))
    (hfirst : (s₀.validateAvailableBalance o env₀ w₀).1 = .ok ()) (ops : List MakerOp) :
    let σ := ops.foldl Maker.step (.admitted o B A)
    0 ≤ min B A - o.amount ∧ ∀ (s : Services) (env : Env), s.Reports σ →
      (∀ w, (s.validateBalance σ.order env w).1 = .ok () ↔
        s.Answered env σ.order w.calls ∧ σ.settled ≤ min B A - o.amount) ∧
      (σ.settled ≤ min B A - o.amount → (∀ n, s.Answered env σ.order n) → ∀ res w,
        Services.Invalidates (· ≠ σ.order) w (s.handleEngineOrderMatched res env w).2) := by
  intro σ
  have hσ : Maker.Of o B A σ := (Maker.Of.admitted o B A).run ops
  have hterms := Order.sameTerms hσ.terms
  have hbalance := hσ.balance
  have hallowance := hσ.allowance
  have hcovered : 0 ≤ min B A - o.amount := by
    obtain ⟨p, n₁, n₂, -, hb, ha⟩ := Services.validateAvailableBalance_funded hfirst
    have hnone : w₀.openSelling o.userAddress o.sellToken = [] := by
      refine List.filter_eq_nil_iff.2 fun x hx => ?_
      have hne : x.userAddress ≠ o.userAddress := honly x hx
      simp [hne]
    have hlocked : w₀.lockedBalance o.userAddress o.sellToken p = 0 := by
      unfold World.lockedBalance
      rw [hnone]
      rfl
    have hreq : o.totalRequiredSellAmount p = o.amount := by
      rw [Order.totalRequiredSellAmount, if_neg (by rw [hside]; decide)]
    have hb' : s₀.balanceOf n₁ o.userAddress o.sellToken = B := hfunds.balance n₁
    have ha' : s₀.allowance n₂ o.userAddress s₀.exchangeAddress o.sellToken = A :=
      hfunds.allowance n₂
    omega
  have hpass : ∀ (s : Services) (env : Env), s.Reports σ → ∀ w,
      ((s.validateBalance σ.order env w).1 = .ok () ↔
        s.Answered env σ.order w.calls ∧ σ.settled ≤ min B A - o.amount) := by
    intro s env hs w
    rw [hs.validateBalance_iff (hterms.side.trans hside), hterms.amount]
    refine and_congr_right fun _ => ?_
    omega
  refine ⟨hcovered, fun s env hs => ⟨hpass s env hs, fun hle hans res w => ?_⟩⟩
  refine Services.handleEngineOrderMatched_invalidates (P := (· ≠ σ.order))
    (fun mo w hno he => hno ?_) res w
  rw [he]
  exact (hpass s env hs w).2 ⟨hans w.calls, hle⟩

/-- An order of 10 is admitted on funds of 14. It is filled with 4, which settle, and with 3: there
are 10 left, and it passes. -/
theorem maker_validated_within_slack :
    let o := Order.sample 2 .SELL 5 10
    let ops := [.fill (.sample 3 .BUY 5 4), .settle 0, .fill (.sample 4 .BUY 5 3)]
    let σ := ops.foldl Maker.step (.admitted o 14 14)
    ((Services.sampleFunds 14).validateAvailableBalance o (.sample .stored) .empty).1 = .ok () ∧
      σ.settled = 4 ∧ σ.balance = 10 ∧
      ((Services.sampleFunds 10).validateBalance σ.order (.sample .stored) .empty).1 = .ok () := by
  intro o ops σ
  have hfirst : ((Services.sampleFunds 14).validateAvailableBalance o (.sample .stored) .empty).1 =
    .ok () := by decide +kernel
  have hfunds : (Services.sampleFunds 14).Reports (.admitted o 14 14) :=
    ⟨fun _ => rfl, fun _ => rfl⟩
  have h := maker_validated_iff rfl (fun x hx => by cases hx) hfunds hfirst ops
  have hbalance : 10 = σ.balance := by decide +kernel
  have hallowance : 10 = σ.allowance := by decide +kernel
  have hpass := (h.2 (.sampleFunds 10) (.sample .stored) ⟨fun _ => hbalance, fun _ => hallowance⟩).1
  refine ⟨hfirst, by decide +kernel, hbalance.symm, (hpass .empty).2 ⟨?_, by decide +kernel⟩⟩
  exact ⟨⟨"ZRX", 3, 0, "WETH", 4, 0, 0⟩, 1, 2, rfl, by decide +kernel, rfl, rfl⟩

/-- An order of 10 is admitted on funds of 10. It is filled with 4, which settle, and with 3: the 6
that are left pay for these and for what is left of the order, but it does not pass and is sent to
`invalidateMakerOrders`. -/
theorem settled_maker_invalidated :
    let o := Order.sample 2 .SELL 5 10
    let taker := Order.sample 4 .BUY 5 3
    let σ := [.fill (.sample 3 .BUY 5 4), .settle 0, .fill taker].foldl Maker.step
      (.admitted o 10 10)
    let s := Services.sampleFunds σ.balance
    let m : Matches := ⟨[σ.order], taker, [newTrade .sample taker σ.order]⟩
    ((Services.sampleFunds 10).validateAvailableBalance o (.sample .stored) .empty).1 = .ok () ∧
      σ.balance = 6 ∧ σ.allowance = 6 ∧ σ.unsettled = [3] ∧ σ.order.remainingAmount = 3 ∧
      (s.validateBalance σ.order (.sample .stored) .empty).1 ≠ .ok () ∧
      (s.handleEngineOrderMatched
        { status := .ORDER_FILLED, order := some taker, matches? := some m }
        (.sample .stored) .empty).2.orderQueue = [.INVALIDATE_MAKER_ORDERS m] := by
  decide +kernel

end Dex
