import DexServer.Engine.Proof.Handle
import DexServer.Operator.Proof.Execute
import DexServer.Server.Proof.Ledger
import DexServer.Server.Server
import DexServer.Services.Proof.Request
import DexServer.Services.Proof.Split

/-!
# What a step of the server does, whichever calls fail

`Server.Stepped` has one case for each kind of step, with all the step can do to the store and the
queues; `Server.step_stepped` is the inversion that the invariants of the whole server split on.

* A matched response is split in parts (`Services.Split`): what is stored, what goes to the operator
  and what goes back to the engine are some of its matches, each maker with its trade.
* A stored trade keeps its terms (`World.SameTrades`), except that the execution of a batch may
  write the trades of the batch over stored ones or next to them (`World.Retold`).
-/

namespace Dex

open Lib

/-! ## Rules -/

/-- The trades of a message, by their hashes. -/
def OperatorMessage.Has (msg : OperatorMessage) (h : Hash) : Prop :=
  ∃ t, some t ∈ msg.trades ∧ t.hash = h

theorem hashes_wp {env : Env} : ∀ (trades : List (Option Trade)) (w : World),
    Prog.wp (Services.hashes trades) env w
      (fun hs w' => w' = w ∧ ∀ h ∈ hs, ∃ t, some t ∈ trades ∧ t.hash = h) (fun _ w' => w' = w)
  | [], w => ⟨rfl, by simp⟩
  | none :: _, w => rfl
  | some t :: trades, w => by
    unfold Services.hashes
    rw [Prog.wp_bind]
    show Prog.wp (Services.hashes trades >>= _) env w _ _
    rw [Prog.wp_bind]
    refine Prog.wp_mono (hashes_wp trades w) (fun hs w' h => ?_) fun _ _ h => h
    refine ⟨h.1, fun x hx => ?_⟩
    rcases List.mem_cons.1 hx with rfl | hx
    · exact ⟨t, .head _, rfl⟩
    · obtain ⟨u, hu, he⟩ := h.2 x hx
      exact ⟨u, .tail _ hu, he⟩

section
variable {R : World → World → Prop} [Std.Refl R] [IsTrans World R]

theorem updatePendingTrades_keeps (txh : Hash) : ∀ {trades : List Trade},
    (∀ t ∈ trades, Prog.Keeps R (updatePendingTrade t txh)) →
    Prog.Keeps R (updatePendingTrades txh trades)
  | [], _ => .pure _
  | _ :: _, h => (h _ (.head _)).attempt.bind fun _ =>
      (updatePendingTrades_keeps txh fun x hx => h x (.tail _ hx)).bind fun _ => .pure _

/-- The consumer of a transaction queue publishes messages, and updates the trades of its batch. -/
theorem TxQueue.consume_keeps {exchangeAddress : Address} {v : Verdict} {b : Matches}
    (hpublish : ∀ msg, Prog.Keeps R (publishTxMessage msg))
    (hupdate : ∀ txh, ∀ t ∈ b.trades, Prog.Keeps R (updatePendingTrade t txh)) :
    Prog.Keeps R (TxQueue.consume exchangeAddress v b) := by
  have htell : ∀ msg, Prog.Keeps R (do let _ ← Prog.attempt (publishTxMessage msg) : M Unit) :=
    fun msg => (hpublish msg).attempt.bind fun _ => .pure _
  intro env w
  refine Prog.wp_state (P := R w) ?_
  unfold TxQueue.consume
  simp only [Prog.wp_bind, Prog.wp_ask]
  refine wp_checked (fun c hc => ?_) fun _ => Std.Refl.refl w
  refine Prog.Keeps.wp (R := R) ?_ (fun _ _ h => h) fun _ _ h => h
  unfold TxQueue.executeTrade
  split
  · exact (htell _).bind fun _ => .throw _
  · refine .ite ((htell _).bind fun _ => .throw _) ?_
    split
    · refine (updatePendingTrades_keeps _ (Matches.validate_trades hc ▸ hupdate _)).bind
        fun trades => ?_
      refine (hpublish _).attempt.bind fun x => ?_
      split
      · exact .throw _
      · unfold TxQueue.awaitMined
        split
        · exact .throw _
        · exact (htell _).bind fun _ => .throw _
        · exact hpublish _
    · exact (htell _).bind fun _ => .throw _

variable (hsame : ∀ {w w' : World}, w.Same w' → R w w')
include hsame

theorem updateTradeStatusesWhere_keeps {p : Trade → Bool} {status : TradeStatus}
    (hset : ∀ w : World, R w { w with trades := setTradeStatuses p status w.trades }) :
    Prog.Keeps R (updateTradeStatusesWhere p status) := by
  refine (keeps_call (fun w => hsame w.same_tick) fun _ _ w => ?_).attempt.bind fun x => ?_
  · exact hset w
  · split
    · exact .pure _
    · have hread : ∀ {α : Type} {m : M α}, Quiet m → Prog.Keeps R m :=
        fun h env w => hsame (Silent.quiet h env w)
      refine (hread (Quiet.query _)).attempt.bind fun y => ?_
      split
      · exact .pure _
      · exact .pure _

theorem Services.handleOperatorMessages_keeps (msg : OperatorMessage)
    (hfail : ∀ h, Prog.Keeps R (updateTradeStatus h .ERROR))
    (hset : msg.messageType = .TRADE_TX_SUCCESS → ∀ hs, (∀ h ∈ hs, msg.Has h) →
      Prog.Keeps R (updateTradeStatuses .SUCCESS hs)) :
    Prog.Keeps R (handleOperatorMessages msg) := by
  have hsilent : ∀ {α : Type} {m : M α}, Silent m → Prog.Keeps R m := fun h env w => hsame (h env w)
  have hmark : ∀ trades, Prog.Keeps R (markFailed trades) := by
    intro trades
    induction trades with
    | nil => exact .pure _
    | cons t trades ih =>
      exact (hsilent (silent_deref t)).bind fun _ => (hfail _).attempt.bind fun _ => ih.bind
        fun _ => .pure _
  have hfailed : Prog.Keeps R (handleFailedBatch msg) :=
    (hmark _).bind fun _ => (hsilent (silent_firstTaker _)).bind fun _ =>
      (hsilent (silent_sendOrderMessage _)).bind fun _ => hsilent (silent_sendMakers _ _)
  unfold handleOperatorMessages
  cases ht : msg.messageType with
  | TRADE_ERROR | TRADE_TX_ERROR | TRADE_INVALID => exact hfailed
  | TRADE_TX_PENDING => exact hsilent (silent_handleOperatorTradeTxPending msg)
  | unknown => exact .pure _
  | TRADE_TX_SUCCESS =>
    intro env w
    refine Prog.wp_state (P := R w) ?_
    unfold handleOperatorTradeTxSuccess
    rw [Prog.wp_bind]
    refine Prog.wp_mono (hashes_wp msg.trades w) (fun hs w' h => ?_) fun _ w' h => by
      rw [h]; exact Std.Refl.refl w
    obtain ⟨rfl, hhs⟩ := h
    refine Prog.Keeps.wp (R := R) (.ite (.pure _) ?_) (fun _ _ h => h) fun _ _ h => h
    exact (hset ht hs hhs).bind fun _ => (hsilent (silent_firstTaker _)).bind fun _ =>
      (hsilent (silent_sendOrderMessage _)).bind fun _ => hsilent (silent_sendSettled _ _ _)

end

/-! ## Stored trades -/

/-- Every stored trade is where it was, with the terms it had. -/
def World.SameTrades (w w' : World) : Prop :=
  w'.trades.map Trade.terms = w.trades.map Trade.terms

theorem World.SameTrades.mem {w w' : World} (h : w.SameTrades w') {t : Trade} (ht : t ∈ w'.trades) :
    ∃ d ∈ w.trades, t.terms = d.terms := by
  have hm := List.mem_map_of_mem (f := Trade.terms) ht
  rw [h] at hm
  obtain ⟨d, hd, he⟩ := List.mem_map.1 hm
  exact ⟨d, hd, he.symm⟩

/-- Stored trades are told anew, or are trades of `us`; messages are published, and nothing else
changed. -/
structure World.Retold (us : List Trade) (w w' : World) : Prop where
  orders : w'.orders = w.orders
  orderQueue : w'.orderQueue = w.orderQueue
  engineResponses : w'.engineResponses = w.engineResponses
  tradeQueue : w'.tradeQueue = w.tradeQueue
  txQueue : w'.txQueue = w.txQueue
  stored : ∀ t ∈ w'.trades, (∃ d ∈ w.trades, t.terms = d.terms) ∨ ∃ u ∈ us, t.terms = u.terms

section
variable {us : List Trade}

theorem World.Retold.of_trades {w w' : World} (ho : w'.orders = w.orders)
    (hq : w'.orderQueue = w.orderQueue) (hr : w'.engineResponses = w.engineResponses)
    (hb : w'.tradeQueue = w.tradeQueue) (hx : w'.txQueue = w.txQueue) (ht : w'.trades = w.trades) :
    World.Retold us w w' :=
  ⟨ho, hq, hr, hb, hx, fun t h => .inl ⟨t, ht ▸ h, rfl⟩⟩

instance : Std.Refl (World.Retold us) := ⟨fun _ => .of_trades rfl rfl rfl rfl rfl rfl⟩

instance : IsTrans World (World.Retold us) where
  trans w w₁ w₂ h h' := by
    refine ⟨h'.orders.trans h.orders, h'.orderQueue.trans h.orderQueue,
      h'.engineResponses.trans h.engineResponses, h'.tradeQueue.trans h.tradeQueue,
      h'.txQueue.trans h.txQueue, fun t ht => ?_⟩
    rcases h'.stored t ht with ⟨d, hd, he⟩ | hu
    · rcases h.stored d hd with ⟨x, hx, hex⟩ | ⟨u, hu, heu⟩
      · exact .inl ⟨x, hx, he.trans hex⟩
      · exact .inr ⟨u, hu, he.trans heu⟩
    · exact .inr hu

theorem keeps_retold_call {α : Type} {f : Env → Nat → World → Except Err α × World}
    (hf : ∀ env n w, World.Retold us w (f env n w).2) : Prog.Keeps (World.Retold us) (call f) :=
  keeps_call (fun _ => .of_trades rfl rfl rfl rfl rfl rfl) hf

theorem updateFirst_terms {h : Hash} {f : Trade → Trade} {ts ts' : List Trade}
    (hu : updateFirst h f ts = some ts') {t : Trade} (ht : t ∈ ts') :
    t ∈ ts ∨ ∃ d ∈ ts, d.hash = h ∧ t = f d := by
  rcases updateFirst_spec h f ts with ⟨hn, -⟩ | ⟨pre, d, post, rfl, hd, -, he⟩
  · rw [hn] at hu
    cases hu
  · rw [he] at hu
    cases hu
    simp only [List.mem_append, List.mem_cons] at ht ⊢
    rcases ht with ht | ht | ht
    · exact .inl (.inl ht)
    · exact .inr ⟨d, .inr (.inl rfl), hd, ht⟩
    · exact .inl (.inr (.inr ht))

/-- `FindAndModify` writes the trade over a stored one with its hash, or next to them. -/
theorem findAndModifyTrade_retold {t u : Trade} (hu : u ∈ us) (ht : t.terms = u.terms) :
    Prog.Keeps (World.Retold us) (findAndModifyTrade t) := by
  refine keeps_retold_call fun env n w => ?_
  split
  · rename_i trades d hup hfind
    refine ⟨rfl, rfl, rfl, rfl, rfl, fun x hx => ?_⟩
    rcases updateFirst_terms hup hx with hx | ⟨y, -, hy, rfl⟩
    · exact .inl ⟨x, hx, rfl⟩
    · refine .inr ⟨u, hu, ?_⟩
      rw [← ht]
      simp only [Trade.set, Trade.terms, hy]
  · refine ⟨rfl, rfl, rfl, rfl, rfl, fun x hx => ?_⟩
    rcases List.mem_append.1 hx with hx | hx
    · exact .inl ⟨x, hx, rfl⟩
    · refine .inr ⟨u, hu, ?_⟩
      have hx : x = t.stamp (env.now n) := by simpa using hx
      rw [hx, ← ht]
      rfl

theorem publishTxMessage_retold (msg : OperatorMessage) :
    Prog.Keeps (World.Retold us) (publishTxMessage msg) :=
  keeps_retold_call fun _ _ _ => .of_trades rfl rfl rfl rfl rfl rfl

end

/-- **The consumer of a transaction queue**: the trades it writes are those of the batch. -/
theorem TxQueue.consume_retold (exchangeAddress : Address) (v : Verdict) (m : Matches) :
    Prog.Keeps (World.Retold m.trades) (TxQueue.consume exchangeAddress v m) :=
  TxQueue.consume_keeps publishTxMessage_retold fun _ _ ht => findAndModifyTrade_retold ht rfl

/-! ## Statuses of trades -/

/-- At most statuses of trades and the websockets changed. -/
structure World.Relabelled (w w' : World) : Prop where
  orders : w'.orders = w.orders
  orderQueue : w'.orderQueue = w.orderQueue
  engineResponses : w'.engineResponses = w.engineResponses
  tradeQueue : w'.tradeQueue = w.tradeQueue
  txQueue : w'.txQueue = w.txQueue
  txMessages : w'.txMessages = w.txMessages
  trades : w.SameTrades w'

instance : Std.Refl World.Relabelled := ⟨fun _ => ⟨rfl, rfl, rfl, rfl, rfl, rfl, rfl⟩⟩

instance : IsTrans World World.Relabelled where
  trans _ _ _ h h' := ⟨h'.orders.trans h.orders, h'.orderQueue.trans h.orderQueue,
    h'.engineResponses.trans h.engineResponses, h'.tradeQueue.trans h.tradeQueue,
    h'.txQueue.trans h.txQueue, h'.txMessages.trans h.txMessages, h'.trades.trans h.trades⟩

theorem World.Relabelled.retold {w w' : World} (h : w.Relabelled w') : World.Retold [] w w' :=
  ⟨h.orders, h.orderQueue, h.engineResponses, h.tradeQueue, h.txQueue,
    fun _ ht => .inl (h.trades.mem ht)⟩

theorem World.Same.relabelled {w w' : World} (h : w.Same w') : w.Relabelled w' :=
  ⟨h.orders, by simpa using h.orderQueue, by simpa using h.engineResponses, h.tradeQueue, h.txQueue,
    h.txMessages, by unfold World.SameTrades; rw [h.trades]⟩

theorem map_terms_setTradeStatuses (p : Trade → Bool) (status : TradeStatus)
    (ts : List Trade) : (setTradeStatuses p status ts).map Trade.terms = ts.map Trade.terms := by
  rw [setTradeStatuses, List.map_map]
  refine List.map_congr_left fun t _ => ?_
  rw [Function.comp_apply]
  split <;> rfl

theorem updateTradeStatus_relabelled (h : Hash) (status : TradeStatus) :
    Prog.Keeps World.Relabelled (updateTradeStatus h status) := by
  refine keeps_call (R := World.Relabelled) (fun w => w.same_tick.relabelled) fun _ _ w => ?_
  rcases updateFirst_spec h (fun t => { t with status := status }) w.trades with
    ⟨hn, -⟩ | ⟨pre, d, post, hts, -, -, hu⟩
  · rw [hn]
    exact Std.Refl.refl w
  · rw [hu]
    refine ⟨rfl, rfl, rfl, rfl, rfl, rfl, ?_⟩
    unfold World.SameTrades
    dsimp only
    rw [hts]
    simp only [List.map_append, List.map_cons]
    rfl

/-- **A message of the operator** changes statuses of trades only. -/
theorem Services.handleOperatorMessages_relabelled (msg : OperatorMessage) :
    Prog.Keeps World.Relabelled (handleOperatorMessages msg) :=
  handleOperatorMessages_keeps World.Same.relabelled msg (updateTradeStatus_relabelled · .ERROR)
    fun _ _ _ => updateTradeStatusesWhere_keeps World.Same.relabelled
      fun w => ⟨rfl, rfl, rfl, rfl, rfl, rfl, map_terms_setTradeStatuses _ _ w.trades⟩

/-! ## The engine and the trades -/

/-- The orders that an invalidation gives amounts back to; the trades with them as makers are
cancelled. -/
def Message.back : Message → List Hash
  | .INVALIDATE_MAKER_ORDERS m => m.readHashes (·.takerOrderHash)
  | .INVALIDATE_TAKER_ORDERS m => m.trades.map (·.makerOrderHash)
  | _ => []

/-- Handling `m` leaves the trades alone, or cancels some of them. -/
def World.CancelledBy (w : World) (m : Message) (w' : World) : Prop :=
  w'.trades = w.trades ∨ w'.trades = setTradeStatuses
    (·.makerOrderHash ∈ m.back) .CANCELLED w.trades

theorem World.CancelledBy.sameTrades {w w' : World} {m : Message} (h : w.CancelledBy m w') :
    w.SameTrades w' := by
  unfold World.SameTrades
  rcases h with h | h <;> rw [h]
  exact map_terms_setTradeStatuses _ _ _

section
variable {env : Env} {w w' : World} {back marked : List Hash} {amounts : List Int}

theorem InvalidateTrace.cancels {qs : List Order} {res : List EngineResponse}
    (h : InvalidateTrace env back marked amounts w qs res w') : w'.trades = w.trades ∨
      w'.trades = setTradeStatuses (·.makerOrderHash ∈ back) .CANCELLED w.trades := by
  have ht := h.became.trades
  unfold Env.cancelled at ht
  split at ht
  · exact .inl ht
  · exact .inr ht

theorem invalidateMakerOrders_cancels (m : Matches) :
    w.CancelledBy (.INVALIDATE_MAKER_ORDERS m) (invalidateMakerOrders m env w).2 := by
  refine Prog.wp_state (P := w.CancelledBy (.INVALIDATE_MAKER_ORDERS m)) ?_
  refine Prog.wp_mono (invalidateMakerOrders_trace m w) (fun _ w' h => ?_) fun _ w' h => ?_
  · obtain ⟨-, qs, res, h⟩ := h
    exact h.cancels
  · rcases h with ⟨-, rfl⟩ | ⟨-, -, -, ⟨-, rs, -, h⟩ | ⟨qs, res, h⟩⟩
    · exact .inl rfl
    · exact .inl h.trades
    · exact h.cancels

theorem invalidateTakerOrders_cancels (m : Matches) :
    w.CancelledBy (.INVALIDATE_TAKER_ORDERS m) (invalidateTakerOrders m env w).2 := by
  refine Prog.wp_state (P := w.CancelledBy (.INVALIDATE_TAKER_ORDERS m)) ?_
  refine Prog.wp_mono (invalidateTakerOrders_trace m w) (fun _ w' h => ?_) fun _ w' h => ?_
  · obtain ⟨qs, res, h⟩ := h
    exact h.cancels
  · obtain ⟨-, -, ⟨-, rs, -, h⟩ | ⟨qs, res, h⟩⟩ := h
    · exact .inl h.trades
    · exact h.cancels

/-- **The engine** cancels trades at most. -/
theorem Engine.handleOrders_cancels (e : Engine) (m : Message) :
    w.CancelledBy m (e.handleOrders m env w).2 := by
  have hbook : ∀ {code : Eth → Except String String} {op : M Unit},
      w.CancelledBy m (op env w).2 → w.CancelledBy m (e.onBook code op env w).2 := by
    intro code op hop
    rcases e.onBook_cases code op env w with hw | hw <;> rw [hw]
    · exact .inl rfl
    · exact hop
  cases m with
  | NEW_ORDER o =>
    obtain ⟨ds, rs, h⟩ := newOrder_effect env o w
    obtain ⟨n, hw⟩ := h.wrote
    refine hbook (.inl ?_)
    rw [hw]
  | ADD_ORDER o =>
    refine hbook (.inl (Prog.wp_state (P := fun w' : World => w'.trades = w.trades) ?_))
    unfold addOrder
    rw [Prog.wp_bind]
    exact wp_findAndModify (fun _ => rfl) fun _ _ _ => rfl
  | CANCEL_ORDER o =>
    refine hbook (.inl (Prog.wp_state (P := fun w' : World => w'.trades = w.trades) ?_))
    refine Prog.wp_mono (cancelOrder_wp o w) (fun _ w' h => h.2.trades) fun _ w' h => ?_
    rcases h.2 with h | ⟨-, h⟩
    · exact h.trades
    · exact h.trades
  | INVALIDATE_MAKER_ORDERS m => exact hbook (invalidateMakerOrders_cancels m)
  | INVALIDATE_TAKER_ORDERS m =>
    refine Prog.wp_state (P := w.CancelledBy (.INVALIDATE_TAKER_ORDERS m)) ?_
    simp only [Engine.handleOrders, Engine.handleInvalidateTakerOrders, Prog.wp_bind, Prog.wp_ask]
    refine wp_checked (fun c _ => ?_) fun _ => .inl rfl
    split
    · exact Prog.wp_of_state (invalidateTakerOrders_cancels m)
    · exact .inl rfl
  | unknown t => exact .inl rfl

end

/-! ## Splitting a matched response -/

/-- Some of the matches of `m`, each maker with its trade. -/
structure Matches.Part (m b : Matches) : Prop where
  takerOrder : b.takerOrder = m.takerOrder
  matched : ∃ ps : List (Order × Trade), ps.Sublist (m.makerOrders.zip m.trades) ∧
    b.makerOrders = ps.map (·.1) ∧ b.trades = ps.map (·.2)

/-- What the order service makes of the matches `m`: `ts` are stored, `ms` go back to the engine and
`bs` to the operator. -/
structure Services.Split (m : Matches) (w : World) (ts : List Trade) (ms : List Message)
    (bs : List Matches) (w' : World) : Prop where
  dispatched : w.Dispatched ts ms bs w'
  stored : ∀ t ∈ ts, ∃ u ∈ m.trades, ∃ now, t = u.stamp now
  disputed : ∀ x ∈ ms, ∃ b, m.Part b ∧ b.trades ≠ [] ∧ x = .INVALIDATE_MAKER_ORDERS b
  batches : ∀ b ∈ bs, ∃ v, m.Part v ∧ v.trades ≠ [] ∧ ∃ now, b = v.stamp now
  /-- no trade goes both ways, or one way twice -/
  once : ((ms.flatMap (·.disputed) ++ bs.flatMap (·.trades)).map Trade.terms).Subperm
    (m.trades.map Trade.terms)

namespace Services

theorem Split.same {m : Matches} {w w' : World} (h : w.Same w') : Split m w [] [] [] w' :=
  ⟨h.dispatched, by simp, by simp, by simp, List.nil_subperm⟩

section
variable {s : Services} {env : Env}

/-- **A matched response, whichever calls fail.** -/
theorem handleEngineOrderMatched_split {res : EngineResponse} {o : Order} {m : Matches}
    (ho : res.order = some o) (hm : res.matches? = some m) (w : World) : ∃ ts ms bs,
    Split { m with takerOrder := o } w ts ms bs (s.handleEngineOrderMatched res env w).2 := by
  refine Prog.wp_state (P := fun w' : World => ∃ ts ms bs,
    Split { m with takerOrder := o } w ts ms bs w') ?_
  unfold handleEngineOrderMatched
  simp only [ho, hm, deref, Prog.wp_bind, Prog.wp_pure]
  refine Prog.wp_mono (checkMakers_split m m.trades 0 _ _ w) (fun x w₁ hx => ?_)
    fun _ w₁ h => ⟨[], [], [], .same h⟩
  obtain ⟨valid, invalid⟩ := x
  obtain ⟨h₁, ps, qs, hps, hqs, hp, hx⟩ := hx
  simp only [extended, List.nil_append, Prod.mk.injEq] at hx
  rw [List.drop_zero] at hps hqs
  have hvalid : Matches.Part { m with takerOrder := o } valid :=
    ⟨by rw [hx.1], ps, hps, by simp [hx.1]⟩
  have hinvalid : Matches.Part { m with takerOrder := o } invalid :=
    ⟨by rw [hx.2], qs, hqs, by simp [hx.2]⟩
  have hsub : ∀ u ∈ valid.trades, u ∈ m.trades := by
    intro u hu
    rw [hx.1] at hu
    obtain ⟨p, hp, rfl⟩ := List.mem_map.1 hu
    exact (List.of_mem_zip (hps.subset hp)).2
  have hboth : ((invalid.trades ++ valid.trades).map Trade.terms).Subperm
      (m.trades.map Trade.terms) := by
    rw [hx.1, hx.2, ← List.map_append]
    exact (((List.perm_append_comm.map _).trans hp).map _).subperm
  -- what is left to do, after `ms` was published or not
  have hdone : ∀ (ms : List Message) (w₂ : World), w.Dispatched [] ms [] w₂ →
      (ms = [] ∨ invalid.trades ≠ [] ∧ ms = [.INVALIDATE_MAKER_ORDERS invalid]) →
      ∃ ts ms bs, Split { m with takerOrder := o } w ts ms bs
        (storeMatches o m valid env w₂).2 := by
    intro ms w₂ h₂ hms
    obtain ⟨ts, bs, h, hts, hbs⟩ := storeMatches_split o m valid w₂
    refine ⟨_, _, _, h₂.trans h, fun t ht => ?_, fun x hx => ?_, fun b hb => ?_, ?_⟩
    · obtain ⟨u, hu, now, rfl⟩ := hts t (by simpa using ht)
      exact ⟨u, hsub u hu, now, rfl⟩
    · rcases hms with rfl | ⟨hne, rfl⟩
      · simp at hx
      · exact ⟨invalid, hinvalid, hne, by simpa using hx⟩
    · rcases hbs with rfl | ⟨hne, now, rfl⟩
      · simp at hb
      · exact ⟨valid, hvalid, hne, now, by simpa using hb⟩
    · refine .trans ?_ hboth
      rw [List.append_nil, List.nil_append, List.map_append, List.map_append]
      refine List.Sublist.subperm (.append ?_ ?_)
      · rcases hms with rfl | ⟨-, rfl⟩
        · exact List.nil_sublist _
        · simp [Message.disputed]
      · rcases hbs with rfl | ⟨-, now, rfl⟩
        · exact List.nil_sublist _
        · have hstamp : (valid.stamp now).trades.map Trade.terms = valid.trades.map Trade.terms :=
            List.map_map
          simp [hstamp]
  dsimp only
  split
  · exact Prog.wp_of_state (hdone [] w₁ h₁.dispatched (.inl rfl))
  · rename_i hne
    rw [List.isEmpty_iff] at hne
    simp only [publishInvalidateMakerOrdersMessage, publishOrder, Prog.wp_bind, Prog.wp_attempt]
    refine wp_call (fun _ => ?_) fun _ => ?_
    · exact Prog.wp_of_state (hdone [] _ (World.Same.dispatched (h₁.same w₁.same_tick)) (.inl rfl))
    · rw [Prog.ends_ok]
      refine Prog.wp_of_state (hdone [.INVALIDATE_MAKER_ORDERS invalid] _ ?_ (.inr ⟨hne, rfl⟩))
      refine ⟨h₁.orders, ?_, ?_, ?_, ?_, h₁.txQueue, h₁.txMessages⟩
      · simp [h₁.trades, World.tick]
      · simp [World.tick, h₁.orderQueue]
      · simpa [World.tick] using h₁.engineResponses
      · simpa [World.tick] using h₁.tradeQueue

theorem handleEngineResponse_cases (res : EngineResponse) (w : World) :
    w.Same (s.handleEngineResponse res env w).2 ∨
      ∃ o m ts ms bs, res.order = some o ∧ res.matches? = some m ∧
        Split { m with takerOrder := o } w ts ms bs (s.handleEngineResponse res env w).2 := by
  have hmatched : w.Same (s.handleEngineOrderMatched res env w).2 ∨
      ∃ o m ts ms bs, res.order = some o ∧ res.matches? = some m ∧
        Split { m with takerOrder := o } w ts ms bs (s.handleEngineOrderMatched res env w).2 := by
    cases ho : res.order with
    | none =>
      refine .inl (Prog.wp_state (P := w.Same) ?_)
      unfold handleEngineOrderMatched
      rw [ho]
      exact w.same_rfl
    | some o =>
      cases hm : res.matches? with
      | none =>
        refine .inl (Prog.wp_state (P := w.Same) ?_)
        unfold handleEngineOrderMatched
        rw [ho, hm]
        exact w.same_rfl
      | some m =>
        obtain ⟨ts, ms, bs, h⟩ := handleEngineOrderMatched_split (s := s) ho hm w
        exact .inr ⟨o, m, ts, ms, bs, rfl, rfl, h⟩
  unfold handleEngineResponse
  cases res.status with
  | ORDER_ADDED | ORDER_CANCELLED =>
    exact .inl (((silent_deref _).bind fun _ => silent_sendOrderMessage _) env w)
  | ORDER_FILLED | ORDER_PARTIALLY_FILLED => exact hmatched
  | TRADES_CANCELLED => exact .inl (((silent_deref _).bind fun _ => silent_sendOrders _ _) env w)
  | none | INVALIDATED => exact .inl w.same_rfl

end

end Services

/-! ## Steps -/

theorem Services.Requested.published {P : Message → Prop} {w w' : World}
    (h : Services.Requested P w w') :
    ∃ ms, w.Became w.orders w.trades ms [] w' ∧ ∀ m ∈ ms, P m := by
  rcases h.became with h | ⟨m, hm, h⟩
  · exact ⟨[], h, by simp⟩
  · exact ⟨[m], h, by simpa using hm⟩

theorem Operator.queueTrade_once (op : Operator) (m : Matches) (env : Env) (w : World) :
    ∃ qs, (qs = [] ∨ ∃ q, qs = [(q, m)]) ∧ w.Operated w.trades qs [] (op.queueTrade m env w).2 := by
  refine Prog.wp_state (P := fun w' =>
    ∃ qs, (qs = [] ∨ ∃ q, qs = [(q, m)]) ∧ w.Operated w.trades qs [] w') ?_
  have hnone : ∀ n, ∃ qs, (qs = [] ∨ ∃ q, qs = [(q, m)]) ∧
      w.Operated w.trades qs [] { w with calls := n } := fun n => ⟨[], .inl rfl, w.operated_calls n⟩
  unfold queueTrade getShortestQueue
  rw [Prog.wp_bind]
  refine (shortestQueue_quiet _ _ _).wp (fun x n => ?_) fun _ => hnone
  obtain ⟨shortest, len⟩ := x
  cases shortest with
  | none => exact hnone n
  | some txq =>
    dsimp only
    split
    · exact hnone n
    · exact wp_call (fun _ => hnone (n + 1)) fun _ =>
        ⟨[(txq, m)], .inr ⟨txq, rfl⟩, rfl, rfl, rfl, rfl, rfl, rfl, by simp [World.tick]⟩

/-- **The engine** publishes orders again at most, and its trades are PENDING; it has no part in the
batches. -/
theorem Handled.became {env : Env} {w w' : World} {m : Message} (h : Handled env w m w') :
    ∃ c ts ms rs, w.Became c ts ms rs w' ∧ (∀ x ∈ ms, x.disputed = []) ∧
      ∀ r ∈ rs, ∀ t ∈ r.trades, t.status = .PENDING := by
  cases h with
  | ignored => exact ⟨_, _, [], [], w.same_rfl, by simp, by simp⟩
  | @newOrder _ _ _ rs h =>
    refine ⟨w'.orders, w.trades, [], rs, ?_, by simp, fun r hr t ht => ?_⟩
    · obtain ⟨n, rfl⟩ := h.wrote
      exact ⟨rfl, rfl, by simp, rfl, rfl, rfl, rfl⟩
    · obtain ⟨-, p, -, rfl⟩ := h.trade (List.mem_flatMap.2 ⟨r, hr, ht⟩)
      rfl
  | addOrder ds _ h =>
    obtain ⟨n, rfl⟩ := h
    exact ⟨_, _, [], [], ⟨rfl, rfl, by simp, rfl, rfl, rfl, rfl⟩, by simp, by simp⟩
  | cancelOrder hres h =>
    rcases h with h | ⟨-, h⟩
    · exact ⟨_, _, _, _, h, by simp, by simp⟩
    · refine ⟨_, _, _, _, h, by simp, fun r hr t ht => ?_⟩
      rw [hres r hr] at ht
      cases ht
  | invalidateMakerOrders h | invalidateTakerOrders h =>
    obtain ⟨c, ts, res, -, hres, hb⟩ := h.became
    refine ⟨_, _, _, _, hb, by simp [Message.disputed], fun r hr t ht => ?_⟩
    rw [hres r hr] at ht
    cases ht

namespace Server

/-- The state without the `i`-th response. -/
def withoutResponse (w : World) (i : Nat) : World :=
  { w with engineResponses := w.engineResponses.eraseIdx i }

/-- The state without the `i`-th batch for the operator. -/
def withoutBatch (w : World) (i : Nat) : World := { w with tradeQueue := w.tradeQueue.eraseIdx i }

/-- The state without the `i`-th batch of the transaction queues. -/
def withoutQueued (w : World) (i : Nat) : World := { w with txQueue := w.txQueue.eraseIdx i }

/-- The state without the `i`-th message of the operator. -/
def withoutMessage (w : World) (i : Nat) : World := { w with txMessages := w.txMessages.eraseIdx i }

/-- The message that the step takes is not there. -/
def Step.Idle (w : World) : Step → Prop
  | newOrder _ | cancelOrder _ | errorEvent _ => False
  | order i => w.orderQueue[i]? = none
  | engineResponse i => w.engineResponses[i]? = none
  | trades i => w.tradeQueue[i]? = none
  | execute i _ => w.txQueue[i]? = none
  | txMessage i => w.txMessages[i]? = none

/-- The step ends in `w'`. -/
inductive Stepped (s : Server) (env : Env) (w : World) : Step → World → Prop
  | idle {step : Step} (h : step.Idle w) : Stepped s env w step w
  | newOrder {r : RawOrder} {w' : World} (h : Services.Requested
      (fun m => ∃ o₀ p o, m = .NEW_ORDER o ∧ s.services.Publishes env w r o₀ p o) w w') :
      Stepped s env w (.newOrder r) w'
  | cancelOrder {x : Hash} {w' : World} (h : Services.Requested
      (fun m => ∃ o, m = .CANCEL_ORDER o ∧ w.orders.get x = some o ∧
        ¬(o.status = .FILLED ∨ o.status = .ERROR ∨ o.status = .CANCELLED)) w w') :
      Stepped s env w (.cancelOrder x) w'
  | order {i : Nat} {m : Message} {w' : World} (hm : w.orderQueue[i]? = some m)
      (h : Handled env (w.take i) m w') (ht : (w.take i).CancelledBy m w') :
      Stepped s env w (.order i) w'
  | response {i : Nat} {r : EngineResponse} {w' : World} (hr : w.engineResponses[i]? = some r)
      (h : (withoutResponse w i).Same w') : Stepped s env w (.engineResponse i) w'
  | matched {i : Nat} {r : EngineResponse} {o : Order} {m : Matches} {w' : World} {ts : List Trade}
      {ms : List Message} {bs : List Matches} (hr : w.engineResponses[i]? = some r)
      (ho : r.order = some o) (hm : r.matches? = some m)
      (h : Services.Split { m with takerOrder := o } (withoutResponse w i) ts ms bs w') :
      Stepped s env w (.engineResponse i) w'
  | trades {i : Nat} {b : Matches} {qs : List (Nat × Matches)} {w' : World}
      (hb : w.tradeQueue[i]? = some b) (hqs : qs = [] ∨ ∃ q, qs = [(q, b)])
      (h : (withoutBatch w i).Operated w.trades qs [] w') : Stepped s env w (.trades i) w'
  | execute {i : Nat} {v : Verdict} {b : Nat × Matches} {w' : World} (hb : w.txQueue[i]? = some b)
      (h : World.Retold b.2.trades (withoutQueued w i) w') : Stepped s env w (.execute i v) w'
  | txMessage {i : Nat} {msg : OperatorMessage} {w' : World} (hm : w.txMessages[i]? = some msg)
      (h : (withoutMessage w i).Relabelled w') : Stepped s env w (.txMessage i) w'
  | errorEvent {e : ErrorEvent} {w' : World} (h : w.Same w') : Stepped s env w (.errorEvent e) w'

/-- **Every step, whichever calls fail.** -/
theorem step_stepped (s : Server) (env : Env) (w : World) (step : Step) :
    Stepped s env w step (s.step env w step) := by
  cases step with
  | newOrder r => exact .newOrder (s.services.newOrder_requested r env w)
  | cancelOrder x => exact .cancelOrder (Services.cancelOrder_requested x env w)
  | order i =>
    cases hq : w.orderQueue[i]? with
    | none =>
      simp only [Server.step, Engine.deliver, hq]
      exact .idle hq
    | some m =>
      have hstep : s.step env w (.order i) = (s.engine.handleOrders m env (w.take i)).2 := by
        simp only [Server.step, Engine.deliver, hq]
      rw [hstep]
      exact .order hq (s.engine.handleOrders_handled m) (s.engine.handleOrders_cancels m)
  | engineResponse i =>
    simp only [Server.step, handle]
    cases hq : w.engineResponses[i]? with
    | none => exact .idle hq
    | some r =>
      rcases s.services.handleEngineResponse_cases r (withoutResponse w i) with
        h | ⟨o, m, ts, ms, bs, ho, hm, h⟩
      · exact .response hq h
      · exact .matched hq ho hm h
  | trades i =>
    simp only [Server.step, handle]
    cases hq : w.tradeQueue[i]? with
    | none => exact .idle hq
    | some b =>
      obtain ⟨qs, hqs, h⟩ := s.operator.queueTrade_once b env (withoutBatch w i)
      exact .trades hq hqs h
  | execute i v =>
    simp only [Server.step, handle]
    cases hq : w.txQueue[i]? with
    | none => exact .idle hq
    | some b => exact .execute hq (TxQueue.consume_retold _ v b.2 env (withoutQueued w i))
  | txMessage i =>
    simp only [Server.step, handle]
    cases hq : w.txMessages[i]? with
    | none => exact .idle hq
    | some msg =>
      exact .txMessage hq (Services.handleOperatorMessages_relabelled msg env (withoutMessage w i))
  | errorEvent e => exact .errorEvent (Operator.handleEvent_same e env w)

end Server

end Dex
