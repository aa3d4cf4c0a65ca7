import DexServer.Engine.Proof.Invalidate
import DexServer.Services.Messages
import Mathlib.Data.List.Perm.Basic

/-!
# What the order service does with its messages

`handleEngineOrderMatched_matched`: every trade of a response is stored and handed to the operator,
or goes back to the engine in one INVALIDATE_MAKER_ORDERS, and nothing else happens. A message of
the operator changes statuses of trades only (`handleOperatorMessages_settled`); a response without
trades does nothing (`handleEngineResponse_idle`).
-/

namespace Dex

open Lib

theorem silent_sendOrderMessage (e : WsEvent) : Silent (sendOrderMessage e) := fun _ _ =>
  ⟨rfl, rfl, by simp [sendOrderMessage, Prog.modify], by simp [sendOrderMessage, Prog.modify],
    rfl, rfl, rfl⟩

theorem silent_deref {α : Type} (x : Option α) : Silent (deref x) := by
  cases x with
  | none => exact .throw _
  | some a => exact .pure a

/-- The trades `ts` were stored, `ms` and the batches `bs` published, and nothing else changed. -/
structure World.Dispatched (w : World) (ts : List Trade) (ms : List Message) (bs : List Matches)
    (w' : World) : Prop where
  orders : w'.orders = w.orders
  stored : w'.trades = w.trades ++ ts
  orderQueue : w'.orderQueue = w.orderQueue ++ ms
  engineResponses : w'.engineResponses = w.engineResponses
  tradeQueue : w'.tradeQueue = w.tradeQueue ++ bs
  txQueue : w'.txQueue = w.txQueue
  txMessages : w'.txMessages = w.txMessages

theorem World.Same.dispatched {w w' : World} (h : w.Same w') : w.Dispatched [] [] [] w' :=
  ⟨h.orders, by simp [h.trades], by simpa using h.orderQueue,
    by simpa using h.engineResponses, by simpa using h.tradeQueue, h.txQueue, h.txMessages⟩

theorem World.Dispatched.trans {w w₁ w₂ : World} {ts ts' : List Trade} {ms ms' : List Message}
    {bs bs' : List Matches} (h : w.Dispatched ts ms bs w₁) (h' : w₁.Dispatched ts' ms' bs' w₂) :
    w.Dispatched (ts ++ ts') (ms ++ ms') (bs ++ bs') w₂ where
  orders := h'.orders.trans h.orders
  stored := by rw [h'.stored, h.stored, List.append_assoc]
  orderQueue := by rw [h'.orderQueue, h.orderQueue, List.append_assoc]
  engineResponses := h'.engineResponses.trans h.engineResponses
  tradeQueue := by rw [h'.tradeQueue, h.tradeQueue, List.append_assoc]
  txQueue := h'.txQueue.trans h.txQueue
  txMessages := h'.txMessages.trans h.txMessages

/-- The trades of `m` are stored and handed to the operator, or sent back to the engine. -/
structure MatchedEffect (o : Order) (m : Matches) (w : World) (now : Time) (ts us : List Trade)
    (w' : World) : Prop where
  perm : (ts ++ us).Perm m.trades
  dispatched : ∃ ms bs, w.Dispatched (ts.map (·.stamp now)) ms bs w' ∧
    (∀ b ∈ bs, b.trades = ts.map (·.stamp now)) ∧
    (ms = [] ∧ us = [] ∨ ∃ x : Matches, ms = [.INVALIDATE_MAKER_ORDERS x] ∧ x.takerOrder = o ∧
      x.trades = us ∧ x.makerOrders.length = us.length)

namespace Services

theorem silent_sendOrders (event : OrderEvent) : ∀ orders, Silent (sendOrders event orders)
  | [] => .pure ()
  | _ :: orders => (silent_sendOrderMessage _).bind fun _ => silent_sendOrders event orders

theorem silent_sendMakers (payload : Order → WsEvent) : ∀ orders, Silent (sendMakers payload orders)
  | [] => .pure ()
  | o :: orders => (silent_deref o).bind fun _ =>
      (silent_sendOrderMessage _).bind fun _ => silent_sendMakers payload orders

theorem silent_firstTaker (trades : List (Option Trade)) : Silent (firstTaker trades) :=
  (Silent.index _ _).bind fun t => (silent_deref t).bind fun _ => .pure _

theorem silent_hashes : ∀ trades, Silent (hashes trades)
  | [] => .pure _
  | t :: trades => (silent_deref t).bind fun _ => (silent_hashes trades).bind fun _ => .pure _

theorem silent_sendSettled (msg : OperatorMessage) : ∀ (i : Nat) (trades : List Trade),
    Silent (sendSettled msg i trades)
  | _, [] => .pure _
  | i, _ :: trades =>
    (Silent.index _ _).bind fun mo => (Silent.index _ _).bind
      fun _ => (silent_deref mo).bind fun _ =>
      (silent_sendOrderMessage _).bind fun _ => silent_sendSettled msg (i + 1) trades

theorem silent_handleOperatorTradeTxPending (msg : OperatorMessage) :
    Silent (handleOperatorTradeTxPending msg) :=
  (silent_firstTaker _).bind fun _ => (silent_sendOrderMessage _).bind fun _ =>
    silent_sendMakers _ _

/-! ## Matches -/

/-- The matches that pass (`valid`) and those that do not, after the trades `trades`. -/
structure Checked (valid invalid : Matches) (trades : List Trade) (valid' invalid' : Matches) :
    Prop where
  split : ∃ ts us, valid'.trades = valid.trades ++ ts ∧ invalid'.trades = invalid.trades ++ us ∧
    (ts ++ us).Perm trades
  takerOrder : invalid'.takerOrder = invalid.takerOrder
  length : invalid'.makerOrders.length + invalid.trades.length =
    invalid.makerOrders.length + invalid'.trades.length

section
variable {s : Services} {env : Env} (hf : env.Faultless)
include hf

theorem checkMakers_wp {m : Matches} (hm : ∀ mo ∈ m.makerOrders, s.Lists mo) :
    ∀ (trades : List Trade) (i : Nat) (valid invalid : Matches) (w : World),
    i + trades.length ≤ m.makerOrders.length →
    Prog.wp (s.checkMakers m valid invalid i trades) env w
      (fun x w' => w.Same w' ∧ Checked valid invalid trades x.1 x.2) (fun _ _ => False)
  | [], i, valid, invalid, w, _ => ⟨w.same_rfl, ⟨[], [], by simp, by simp, .refl _⟩, rfl, rfl⟩
  | t :: trades, i, valid, invalid, w, hi => by
    rw [List.length_cons] at hi
    unfold checkMakers attempted
    simp only [Prog.wp_bind, Prog.wp_attempt]
    refine wp_index (fun mo hmo => ?_) fun h => by omega
    have hq := Silent.quiet (s.validateBalance_quiet mo)
    have hmem := hm mo (List.mem_of_getElem? hmo)
    refine Prog.wp_mono (hq.wp (validateBalance_wp hf hmem w)) (fun _ w₁ h => ?_) fun e w₁ h => ?_
    · rw [Prog.wp_pure]
      refine Prog.wp_mono (checkMakers_wp hm trades (i + 1) (valid.appendMatch mo t) invalid w₁
        (by omega)) (fun x w' hx => ?_) fun _ _ h => h
      obtain ⟨ts, us, h1, h2, hp⟩ := hx.2.split
      refine ⟨h.1.same hx.1, ⟨t :: ts, us, ?_, h2, hp.cons t⟩, hx.2.takerOrder, hx.2.length⟩
      rw [h1]
      simp [Matches.appendMatch]
    · obtain ⟨text, rfl⟩ := h.2
      dsimp only
      rw [Prog.wp_pure]
      refine Prog.wp_mono (checkMakers_wp hm trades (i + 1) valid (invalid.appendMatch mo t) w₁
        (by omega)) (fun x w' hx => ?_) fun _ _ h => h
      obtain ⟨ts, us, h1, h2, hp⟩ := hx.2.split
      refine ⟨h.1.same hx.1, ⟨ts, t :: us, h1, ?_, List.perm_middle.trans (hp.cons t)⟩,
        hx.2.takerOrder, ?_⟩
      · rw [h2]
        simp [Matches.appendMatch]
      · have := hx.2.length
        simp only [Matches.appendMatch, List.length_append, List.length_singleton] at this
        omega

theorem storeMatches_wp (o : Order) (m valid : Matches) (w : World) :
    Prog.wp (storeMatches o m valid) env w
      (fun _ w' => ∃ now bs, (∀ b ∈ bs, b.trades = valid.trades.map (·.stamp now)) ∧
        w.Dispatched (valid.trades.map (·.stamp now)) [] bs w')
      (fun _ _ => False) := by
  unfold storeMatches
  split
  · rename_i hv
    rw [List.isEmpty_iff] at hv
    exact ⟨0, [], by simp, rfl, by simp [hv], by simp, rfl, by simp, rfl, rfl⟩
  · simp only [Prog.wp_bind, Prog.wp_attempt]
    refine wp_call (fun h => absurd hf (Env.not_faultless h)) fun _ => ?_
    rw [Prog.ends_ok]
    refine wp_call (fun h => absurd hf (Env.not_faultless h)) fun _ => ?_
    rw [Prog.ends_ok]
    refine ⟨env.now w.calls, [_], ?_, rfl, rfl, by simp, rfl, rfl, rfl, rfl⟩
    intro b hb
    rw [List.mem_singleton.1 hb]

/-- **A response with trades**: they are stored, or disputed with the engine. -/
theorem handleEngineOrderMatched_matched {res : EngineResponse} {o : Order} {m : Matches}
    (ho : res.order = some o) (hm : res.matches? = some m)
    (hlen : m.trades.length ≤ m.makerOrders.length) (hl : ∀ mo ∈ m.makerOrders, s.Lists mo)
    (w : World) : ∃ now ts us, MatchedEffect o m w now ts us
    (s.handleEngineOrderMatched res env w).2 := by
  refine Prog.wp_state (P := fun w' => ∃ now ts us, MatchedEffect o m w now ts us w') ?_
  unfold handleEngineOrderMatched
  simp only [ho, hm, deref, Prog.wp_bind, Prog.wp_pure]
  refine Prog.wp_mono (checkMakers_wp hf hl m.trades 0 _ _ w (by omega)) (fun x w₁ hx => ?_)
    fun _ _ h => h.elim
  obtain ⟨valid, invalid⟩ := x
  obtain ⟨hw₁, hc⟩ := hx
  obtain ⟨ts, us, h1, h2, hp⟩ := hc.split
  simp only [List.nil_append] at h1 h2
  have htake : invalid.takerOrder = o := hc.takerOrder
  have hcount : invalid.makerOrders.length = invalid.trades.length := by
    have := hc.length
    simp only [List.length_nil] at this
    omega
  dsimp only
  split
  · rename_i hnone
    rw [List.isEmpty_iff, h2] at hnone
    refine Prog.wp_mono (storeMatches_wp hf o m valid w₁) (fun _ w' h => ?_) fun _ _ h => h.elim
    obtain ⟨now, bs, hbs, h⟩ := h
    rw [h1] at hbs h
    exact ⟨now, ts, us, hp, [], bs, hw₁.dispatched.trans h, hbs, .inl ⟨rfl, hnone⟩⟩
  · simp only [publishInvalidateMakerOrdersMessage, publishOrder, Prog.wp_bind, Prog.wp_attempt]
    refine wp_call (fun h => absurd hf (Env.not_faultless h)) fun _ => ?_
    rw [Prog.ends_ok]
    have hpub : w₁.Dispatched [] [.INVALIDATE_MAKER_ORDERS invalid] []
        { w₁.tick with orderQueue := w₁.tick.orderQueue ++ [.INVALIDATE_MAKER_ORDERS invalid] } :=
      ⟨rfl, by simp, rfl, rfl, by simp [World.tick], rfl, rfl⟩
    refine Prog.wp_mono (storeMatches_wp hf o m valid _) (fun _ w' h => ?_) fun _ _ h => h.elim
    obtain ⟨now, bs, hbs, h⟩ := h
    rw [h1] at hbs h
    refine ⟨now, ts, us, hp, _, bs, (hw₁.dispatched.trans hpub).trans h, hbs, .inr ?_⟩
    exact ⟨invalid, rfl, htake, h2, by rw [hcount, h2]⟩

end

theorem handleEngineResponse_idle (s : Services) {res : EngineResponse} (hres : res.trades = []) :
    Silent (s.handleEngineResponse res) := by
  have hmatched : Silent (s.handleEngineOrderMatched res) := by
    intro env w
    refine Prog.wp_state (P := w.Same) ?_
    unfold handleEngineOrderMatched
    simp only [Prog.wp_bind]
    cases res.order with
    | none => exact w.same_rfl
    | some o =>
      cases hm : res.matches? with
      | none => exact w.same_rfl
      | some m =>
        have hnil : m.trades = [] := by simpa [EngineResponse.trades, hm] using hres
        simp only [deref, Prog.wp_pure, hnil, checkMakers]
        exact w.same_rfl
  unfold handleEngineResponse
  cases res.status with
  | none | INVALIDATED => exact .pure _
  | ORDER_ADDED | ORDER_CANCELLED =>
    exact (silent_deref _).bind fun _ => silent_sendOrderMessage _
  | ORDER_FILLED | ORDER_PARTIALLY_FILLED => exact hmatched
  | TRADES_CANCELLED => exact (silent_deref _).bind fun _ => silent_sendOrders _ _

/-! ## Operator messages -/

/-- A message of a batch that was sent or settled: at most statuses become SUCCESS. -/
theorem handleOperatorMessages_settled {msg : OperatorMessage}
    (h : msg.messageType = .TRADE_TX_PENDING ∨ msg.messageType = .TRADE_TX_SUCCESS) (env : Env)
    (w : World) : ∃ p, w.Became w.orders (setTradeStatuses p .SUCCESS w.trades) [] []
      (handleOperatorMessages msg env w).2 := by
  have hsame : ∀ {w' : World}, w.Same w' →
      ∃ p, w.Became w.orders (setTradeStatuses p .SUCCESS w.trades) [] [] w' := by
    intro w' h
    refine ⟨fun _ => false, ?_⟩
    rw [setTradeStatuses_none .SUCCESS fun _ _ => Bool.false_ne_true]
    exact h
  unfold handleOperatorMessages
  rcases h with h | h <;> rw [h]
  · exact hsame (silent_handleOperatorTradeTxPending msg env w)
  · refine Prog.wp_state (P := fun w' : World =>
      ∃ p, w.Became w.orders (setTradeStatuses p .SUCCESS w.trades) [] [] w') ?_
    unfold handleOperatorTradeTxSuccess
    rw [Prog.wp_bind]
    refine Prog.wp_mono (silent_hashes msg.trades).same (fun hs w₁ h₁ => ?_) fun _ _ h => hsame h
    split
    · exact hsame h₁
    · unfold updateTradeStatuses
      rw [Prog.wp_bind]
      refine Prog.wp_mono (updateTradeStatusesWhere_wp _ .SUCCESS w₁) (fun trades w₂ h₂ => ?_)
        fun _ _ h => h
      -- the rest sends messages
      have hrest : Silent (do
          let taker ← firstTaker (trades.map some)
          sendOrderMessage (.matched .ORDER_SUCCESS taker msg.toSentMatches)
          sendSettled msg 0 trades) :=
        (silent_firstTaker _).bind fun _ => (silent_sendOrderMessage _).bind fun _ =>
          silent_sendSettled msg 0 trades
      rw [h₁.orders, h₁.trades] at h₂
      have hdone : ∀ w' : World, w₂.Same w' →
          ∃ p, w.Became w.orders (setTradeStatuses p .SUCCESS w.trades) [] [] w' := by
        intro w' h'
        rcases h₂ with ⟨-, -, h₂⟩ | ⟨-, -, h₂⟩
        · exact hsame ((h₁.same h₂).same h')
        · exact ⟨_, (h₁.trans h₂).same h'⟩
      exact Prog.wp_mono hrest.same (fun _ w' h => hdone w' h) fun _ w' h => hdone w' h

end Services

end Dex
