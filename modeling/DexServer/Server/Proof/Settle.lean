import DexServer.Engine.Proof.Handle
import DexServer.Lib.Run
import DexServer.Operator.Proof.Execute
import DexServer.Sample
import DexServer.Server.Proof.Ledger
import DexServer.Server.Server
import DexServer.Services.Proof.Request

/-!
# Fills and settled trades

Runs of the whole server from fresh orders, no call to the store or the broker failing. The engine
fills orders before a trade is stored; when a batch fails, the order service sets the trades to
ERROR and gives nothing back (`failed_batch_keeps_fill`). `Step.Settles` is the condition on a step
under which nothing of the kind happens.

* `Wired`: what the messages between the components promise each other.
* `fills_follow_settled_trades`: in a run whose steps meet the condition, once no message is in
  flight, the fill of every order that is not INVALIDATED is the total of its trades that are
  PENDING or SUCCESS.
-/

namespace Dex

open Lib

namespace Server

section
variable (s : Server) (env : Env)

/-- The order of a submission, as validated. -/
def Step.signed? : Step → Option Order
  | newOrder r =>
    match r.validate s.services.exchangeAddress env.eth with
    | .ok (o, _) => some o
    | .error _ => none
  | _ => none

/-- The orders that users signed and submitted. -/
def signed (steps : List Step) : List Order := steps.filterMap (Step.signed? s env)

/-- A submitted order is unfilled, and its hash is new. -/
def Step.Fresh (steps : List Step) (step : Step) : Prop :=
  ∀ o ∈ step.signed? s env, o.filledAmount = 0 ∧ ∀ o' ∈ signed s env steps, o'.hash ≠ o.hash

instance (steps : List Step) (step : Step) : Decidable (step.Fresh s env steps) :=
  inferInstanceAs (Decidable (∀ o ∈ step.signed? s env, _))

end

/-- The condition on the handling of a message of `order`. A NEW_ORDER has the fill that is stored
under its hash; an INVALIDATED order gets no other status; one trade is given back at a time, to an
order that is the maker of no stored trade. -/
def Settles (w : World) : Message → Prop
  | .NEW_ORDER o => ∀ d ∈ w.orders.get o.hash,
      d.filledAmount = o.filledAmount ∧ d.status ≠ .INVALIDATED
  | .CANCEL_ORDER o => ∀ d ∈ w.orders.get o.hash, d.status ≠ .INVALIDATED
  | .INVALIDATE_MAKER_ORDERS m => m.trades.length = 1 ∧ ∀ t ∈ m.trades,
      (∀ d ∈ w.orders.get t.takerOrderHash, d.status ≠ .INVALIDATED) ∧
      ∀ x ∈ w.trades, x.makerOrderHash ≠ t.takerOrderHash
  | _ => True

instance (w : World) : (m : Message) → Decidable (Settles w m)
  | .NEW_ORDER o => inferInstanceAs (Decidable (∀ d ∈ w.orders.get o.hash, _ ∧ _))
  | .CANCEL_ORDER o => inferInstanceAs (Decidable (∀ d ∈ w.orders.get o.hash, _))
  | .INVALIDATE_MAKER_ORDERS _ => inferInstanceAs (Decidable (_ ∧ _))
  | .ADD_ORDER _ | .INVALIDATE_TAKER_ORDERS _ | .unknown _ => inferInstanceAs (Decidable True)

/-- The condition on a step: the above, and an executed batch is accepted by the chain, each of its
trades being the only one stored with its hash. -/
def Step.Settles (w : World) : Step → Prop
  | order i => ∀ m ∈ w.orderQueue[i]?, Server.Settles w m
  | execute i v => ∀ b ∈ w.txQueue[i]?, v.Accepts ∧
      ∀ t ∈ b.2.trades, (w.trades.filter (·.hash = t.hash)).length = 1
  | _ => True

instance (w : World) : (step : Step) → Decidable (step.Settles w)
  | .order i => inferInstanceAs (Decidable (∀ m ∈ w.orderQueue[i]?, _))
  | .execute i _ => inferInstanceAs (Decidable (∀ b ∈ w.txQueue[i]?, _ ∧ _))
  | .newOrder _ | .cancelOrder _ | .engineResponse _ | .trades _ | .txMessage _ | .errorEvent _ =>
    inferInstanceAs (Decidable True)

end Server

/-- No message is in flight. -/
def World.Quiescent (w : World) : Prop :=
  w.orderQueue = [] ∧ w.engineResponses = [] ∧ w.tradeQueue = [] ∧ w.txQueue = [] ∧
    w.txMessages = []

/-- The fill of every order that is not INVALIDATED is the total of its trades that are PENDING or
SUCCESS. -/
def World.FillsFollowTrades (w : World) : Prop :=
  ∀ d ∈ w.orders, d.status ≠ .INVALIDATED →
    d.filledAmount = Trade.total (w.trades.filter (·.Live)) d.hash

instance (w : World) : Decidable w.Quiescent := inferInstanceAs (Decidable (_ ∧ _))

instance (w : World) : Decidable w.FillsFollowTrades :=
  inferInstanceAs (Decidable (∀ d ∈ w.orders, _ → _))

/-! ## What the messages promise -/

namespace Server

section
variable (s : Server) (env : Env)

/-- `d` is a copy of an order that a user submitted. -/
structure Submitted (steps : List Step) (d : Order) : Prop where
  bounded : d.Bounded
  lists : s.services.Lists d
  signed : ∃ o ∈ signed s env steps, o.hash = d.hash ∧ o.side = d.side

/-- The messages of `order`; a message that disputes trades has a maker for each, and a book. -/
def Expects : Message → Prop
  | .NEW_ORDER _ | .CANCEL_ORDER _ => True
  | .INVALIDATE_MAKER_ORDERS m =>
    s.engine.HasBook env m.takerOrder ∧ m.makerOrders.length = m.trades.length
  | _ => False

/-- A response that announces trades. -/
structure Announces (r : EngineResponse) (o : Order) (m : Matches) : Prop where
  order : r.order = some o
  matched : r.matches? = some m
  status : r.status = .ORDER_FILLED ∨ r.status = .ORDER_PARTIALLY_FILLED
  book : s.engine.HasBook env o
  makers : m.trades.length ≤ m.makerOrders.length
  lists : ∀ mo ∈ m.makerOrders, s.services.Lists mo
  live : ∀ t ∈ m.trades, t.Live

end

end Server

/-- The batch waits for the operator or in a transaction queue. -/
def World.Batch (w : World) (b : Matches) : Prop := b ∈ w.tradeQueue ∨ ∃ q, (q, b) ∈ w.txQueue

namespace Server

/-- What holds between the components when every step met the condition. -/
structure Wired (s : Server) (env : Env) (steps : List Step) (w : World) : Prop where
  distinct : ∀ o ∈ signed s env steps, ∀ o' ∈ signed s env steps, o.hash = o'.hash → o = o'
  held : ∀ d, w.Holds d → Submitted s env steps d
  /-- a queued order is new or stored -/
  queued : ∀ o, .NEW_ORDER o ∈ w.orderQueue → o.filledAmount = 0 ∨ (w.orders.get o.hash).isSome
  messages : ∀ m ∈ w.orderQueue, Expects s env m
  responses : ∀ r ∈ w.engineResponses, r.trades = [] ∨ ∃ o m, Announces s env r o m
  live : ∀ t ∈ w.trades, t.Live
  batches : ∀ b, w.Batch b → ∀ t ∈ b.trades, ∃ d ∈ w.trades, d.terms = t.terms
  txMessages : ∀ msg ∈ w.txMessages,
    msg.messageType = .TRADE_TX_PENDING ∨ msg.messageType = .TRADE_TX_SUCCESS

section
variable {s : Server} {env : Env} {steps : List Step} {w w' : World}

theorem signed_snoc (step : Step) :
    signed s env (steps ++ [step]) = signed s env steps ++ (step.signed? s env).toList := by
  unfold signed
  rw [List.filterMap_append]
  cases h : step.signed? s env <;> simp [h]

theorem signed?_newOrder {r : RawOrder} {o : Order} : (Step.newOrder r).signed? s env = some o ↔
    ∃ sig, r.validate s.services.exchangeAddress env.eth = .ok (o, sig) := by
  simp only [Step.signed?]
  split <;> rename_i h <;> simp [h]

theorem signed_side {o : Order} (h : o ∈ signed s env steps) : o.side = .BUY ∨ o.side = .SELL := by
  obtain ⟨step, -, ho⟩ := List.mem_filterMap.1 h
  cases step with
  | newOrder r =>
    obtain ⟨sig, hv⟩ := signed?_newOrder.1 ho
    exact (RawOrder.validate_eq_ok hv).side
  | cancelOrder | order | engineResponse | trades | execute | txMessage | errorEvent => cases ho

theorem Submitted.mono {d : Order} (h : Submitted s env steps d) (step : Step) :
    Submitted s env (steps ++ [step]) d := by
  obtain ⟨hb, hl, o, ho, he⟩ := h
  refine ⟨hb, hl, o, ?_, he⟩
  rw [signed_snoc]
  exact List.mem_append_left _ ho

theorem Submitted.of_terms {d d' : Order} (h : Submitted s env steps d) (ht : d'.terms = d.terms)
    (hb : d'.Bounded) : Submitted s env steps d' := by
  obtain ⟨-, hl, o, ho, hh, hs⟩ := h
  have ht := Order.sameTerms ht
  refine ⟨hb, ?_, o, ho, hh.trans ht.hash.symm, hs.trans ht.side.symm⟩
  unfold Services.Lists at hl ⊢
  rw [ht.baseToken, ht.quoteToken]
  exact hl

namespace Wired

theorem empty : Wired s env [] World.empty where
  distinct := by simp [signed]
  held := by
    intro d hd
    rcases hd with hd | hd <;> cases hd
  queued := by simp [World.empty]
  messages := by simp [World.empty]
  responses := by simp [World.empty]
  live := by simp [World.empty]
  batches := by
    intro b hb
    rcases hb with hb | ⟨q, hb⟩ <;> cases hb
  txMessages := by simp [World.empty]

theorem snoc (h : Wired s env steps w) {step : Step} (hf : step.Fresh s env steps) :
    Wired s env (steps ++ [step]) w := by
  refine { h with
    distinct := fun o ho o' ho' hh => ?_, held := fun d hd => (h.held d hd).mono step }
  rw [signed_snoc, List.mem_append, Option.mem_toList] at ho ho'
  rcases ho with ho | ho <;> rcases ho' with ho' | ho'
  · exact h.distinct o ho o' ho' hh
  · exact absurd hh ((hf o' ho').2 o ho)
  · exact absurd hh.symm ((hf o ho).2 o' ho')
  · exact Option.some.inj (ho.symm.trans ho')

theorem same_side (h : Wired s env steps w) {d d' : Order} (hd : w.Holds d) (hd' : w.Holds d')
    (hh : d.hash = d'.hash) : d.side = d'.side := by
  obtain ⟨o, ho, h1, h2⟩ := (h.held d hd).signed
  obtain ⟨o', ho', h1', h2'⟩ := (h.held d' hd').signed
  rw [← h2, ← h2', h.distinct o ho o' ho' (h1.trans (hh.trans h1'.symm))]

theorem change (h : Wired s env steps w) (horders : ∀ d ∈ w'.orders, Submitted s env steps d)
    (hkeep : ∀ x, (w.orders.get x).isSome → (w'.orders.get x).isSome)
    (hqueue : ∀ m ∈ w'.orderQueue, m ∈ w.orderQueue ∨ Expects s env m ∧ ∀ o, m = .NEW_ORDER o →
      Submitted s env steps o ∧ (o.filledAmount = 0 ∨ (w'.orders.get o.hash).isSome))
    (hresponses : ∀ r ∈ w'.engineResponses, r ∈ w.engineResponses ∨ r.trades = [] ∨
      ∃ o m, Announces s env r o m)
    (hlive : ∀ t ∈ w'.trades, t.Live)
    (hstored : ∀ d ∈ w.trades, ∃ d' ∈ w'.trades, d'.terms = d.terms)
    (hbatches : ∀ b, w'.Batch b → w.Batch b ∨ ∀ t ∈ b.trades, ∃ d ∈ w'.trades, d.terms = t.terms)
    (htx : ∀ msg ∈ w'.txMessages, msg ∈ w.txMessages ∨
      msg.messageType = .TRADE_TX_PENDING ∨ msg.messageType = .TRADE_TX_SUCCESS) :
    Wired s env steps w' := by
  refine ⟨h.distinct, fun d hd => ?_, fun o ho => ?_, fun m hm => ?_, fun r hr => ?_, hlive,
    fun b hb t ht => ?_, fun msg hmsg => (htx msg hmsg).elim (h.txMessages msg) id⟩
  · rcases hd with hd | hd
    · exact horders d hd
    · rcases hqueue _ hd with hd | hd
      · exact h.held d (.inr hd)
      · exact (hd.2 d rfl).1
  · rcases hqueue _ ho with ho | ho
    · exact (h.queued o ho).imp_right (hkeep _)
    · exact (ho.2 o rfl).2
  · rcases hqueue m hm with hm | hm
    · exact h.messages m hm
    · exact hm.1
  · exact (hresponses r hr).elim (h.responses r) id
  · rcases hbatches b hb with hb | hb
    · obtain ⟨d, hd, he⟩ := h.batches b hb t ht
      obtain ⟨d', hd', he'⟩ := hstored d hd
      exact ⟨d', hd', he'.trans he⟩
    · exact hb t ht

theorem taken (h : Wired s env steps w) (ho : w'.orders = w.orders) (ht : w'.trades = w.trades)
    (hq : w'.orderQueue ⊆ w.orderQueue) (hr : w'.engineResponses ⊆ w.engineResponses)
    (hb : w'.tradeQueue ⊆ w.tradeQueue) (hx : w'.txQueue ⊆ w.txQueue)
    (hm : w'.txMessages ⊆ w.txMessages) : Wired s env steps w' := by
  have hstored : w'.trades = w.trades := ht
  refine h.change (fun d hd => h.held d (.inl (ho ▸ hd))) (fun x hx => ho ▸ hx)
    (fun m hm => .inl (hq hm)) (fun r hrq => .inl (hr hrq)) (hstored ▸ h.live)
    (fun d hd => ⟨d, hstored ▸ hd, rfl⟩) (fun b hbq => .inl ?_) fun msg hmsg => .inl (hm hmsg)
  exact hbq.imp (fun hbq => hb hbq) fun ⟨q, hbq⟩ => ⟨q, hx hbq⟩

theorem became (h : Wired s env steps w) {c : Coll Order.hash} {ts : List Trade}
    {ms : List Message} {rs : List EngineResponse} (hw : w.Became c ts ms rs w')
    (hts : Restated w.trades ts) (hc : ∀ d ∈ c, Submitted s env steps d)
    (hkeep : ∀ x, (w.orders.get x).isSome → (c.get x).isSome)
    (hms : ∀ m ∈ ms, Expects s env m ∧ ∀ o, m = .NEW_ORDER o →
      Submitted s env steps o ∧ (o.filledAmount = 0 ∨ (c.get o.hash).isSome))
    (hrs : ∀ r ∈ rs, r.trades = [] ∨ ∃ o m, Announces s env r o m) : Wired s env steps w' := by
  rw [← hw.orders] at hc hkeep hms
  rw [← hw.trades] at hts
  refine h.change hc hkeep (fun m hm => ?_) (fun r hr => ?_) (hts.live h.live) (fun d => hts.mem)
    (fun b hb => .inl ?_) fun msg hmsg => .inl (hw.txMessages ▸ hmsg)
  · rw [hw.orderQueue] at hm
    exact (List.mem_append.1 hm).imp_right (hms m)
  · rw [hw.engineResponses] at hr
    exact (List.mem_append.1 hr).imp_right (hrs r)
  · unfold World.Batch at hb ⊢
    rwa [hw.tradeQueue, hw.txQueue] at hb

theorem same (h : Wired s env steps w) (hw : w.Same w') : Wired s env steps w' :=
  h.became hw (.rfl' _) (fun d hd => h.held d (.inl hd)) (fun _ hx => hx) (by simp) (by simp)

theorem operated (h : Wired s env steps w) {ts : List Trade} {qs : List (Nat × Matches)}
    {msgs : List OperatorMessage} (hw : w.Operated ts qs msgs w') (hts : Restated w.trades ts)
    (hqs : ∀ b ∈ qs, ∀ t ∈ b.2.trades, ∃ d ∈ w.trades, d.terms = t.terms)
    (hmsgs : ∀ msg ∈ msgs,
      msg.messageType = .TRADE_TX_PENDING ∨ msg.messageType = .TRADE_TX_SUCCESS) :
    Wired s env steps w' := by
  rw [← hw.trades] at hts
  refine h.change (fun d hd => h.held d (.inl (hw.orders ▸ hd))) (fun x hx => hw.orders ▸ hx)
    (fun m hm => .inl (hw.orderQueue ▸ hm)) (fun r hr => .inl (hw.engineResponses ▸ hr))
    (hts.live h.live) (fun d => hts.mem) (fun b hb => ?_) fun msg hmsg => ?_
  · rcases hb with hb | ⟨q, hb⟩
    · exact .inl (.inl (hw.tradeQueue ▸ hb))
    · rw [hw.txQueue] at hb
      refine (List.mem_append.1 hb).imp (fun hb => .inr ⟨q, hb⟩) fun hb t ht => ?_
      obtain ⟨d, hd, he⟩ := hqs _ hb t ht
      obtain ⟨d', hd', he'⟩ := hts.mem hd
      exact ⟨d', hd', he'.trans he⟩
  · rw [hw.txMessages] at hmsg
    exact (List.mem_append.1 hmsg).imp_right (hmsgs msg)

theorem matched (h : Wired s env steps w) {o : Order} {m : Matches} {r : EngineResponse}
    (hr : Announces s env r o m) {now : Time} {ts us : List Trade}
    (hw : MatchedEffect o m w now ts us w') : Wired s env steps w' := by
  obtain ⟨ms, bs, hd, hbs, hms⟩ := hw.dispatched
  refine h.change (fun d hdw => h.held d (.inl (hd.orders ▸ hdw))) (fun x hx => hd.orders ▸ hx)
    (fun x hx => ?_) (fun r hr => .inl (hd.engineResponses ▸ hr)) (fun t ht => ?_) (fun d hdw => ?_)
    (fun b hb => ?_) fun msg hmsg => .inl (hd.txMessages ▸ hmsg)
  · rw [hd.orderQueue] at hx
    refine (List.mem_append.1 hx).imp_right fun hx => ?_
    rcases hms with ⟨rfl, -⟩ | ⟨y, rfl, hyo, hyt, hyl⟩
    · cases hx
    · rw [List.mem_singleton.1 hx]
      refine ⟨⟨?_, ?_⟩, fun d hd => by cases hd⟩
      · rw [hyo]
        exact hr.book
      · rw [hyl, hyt]
  · rw [hd.stored] at ht
    rcases List.mem_append.1 ht with ht | ht
    · exact h.live t ht
    · obtain ⟨x, hx, rfl⟩ := List.mem_map.1 ht
      exact hr.live x (hw.perm.subset (List.mem_append_left _ hx))
  · rw [hd.stored]
    exact ⟨d, List.mem_append_left _ hdw, rfl⟩
  · rcases hb with hb | ⟨q, hb⟩
    · rw [hd.tradeQueue] at hb
      refine (List.mem_append.1 hb).imp .inl fun hb t ht => ?_
      rw [hbs b hb] at ht
      rw [hd.stored]
      exact ⟨t, List.mem_append_right _ ht, rfl⟩
    · exact .inl (.inr ⟨q, hd.txQueue ▸ hb⟩)

end Wired

theorem response_announced {o : Order} {l : List Order} (hof : (processOrder o l).Of o l)
    (hmk : ∀ p ∈ (processOrder o l).fills, Submitted s env steps p.2)
    (hb : s.engine.HasBook env o) :
    ((processOrder o l).response env.eth).trades = [] ∨
      ∃ o' m, Announces s env ((processOrder o l).response env.eth) o' m := by
  by_cases hs : (processOrder o l).status = .ORDER_ADDED
  · exact .inl (by simp [Outcome.response, EngineResponse.trades, hs])
  · refine .inr ⟨(processOrder o l).takerOrder, _, rfl, if_neg hs, ?_, ?_, ?_, fun mo hmo => ?_,
      fun t ht => ?_⟩
    · exact processOrder_status hs
    · obtain ⟨code, hc, hp⟩ := hb
      refine ⟨code, hc, ?_⟩
      have ht := Order.sameTerms hof.terms
      unfold Order.pairCode at hp ⊢
      rw [ht.pairName, ht.baseToken, ht.quoteToken]
      exact hp
    · simp [Outcome.makerOrders, Outcome.trades]
    · obtain ⟨p, hp, rfl⟩ := List.mem_map.1 hmo
      have hl := (hmk p hp).lists
      have ht := Order.sameTerms (filledMaker_terms p.1 p.2)
      unfold Services.Lists at hl ⊢
      rw [ht.baseToken, ht.quoteToken]
      exact hl
    · obtain ⟨p, -, rfl⟩ := List.mem_map.1 ht
      exact .inl rfl

/-! ## Steps -/

/-- The invariant. -/
structure Accounted (s : Server) (env : Env) (steps : List Step) (w : World) : Prop where
  ledger : Ledger w.orders w.known
  wired : Wired s env steps w

namespace Accounted

theorem moved (h : Accounted s env steps w) (ho : w'.orders = w.orders)
    (hp : (w'.known.map Trade.terms).Perm (w.known.map Trade.terms)) (hw : Wired s env steps w') :
    Accounted s env steps w' :=
  ⟨ho ▸ h.ledger.moved hp, hw⟩

theorem same (h : Accounted s env steps w) (hw : w.Same w') : Accounted s env steps w' :=
  h.moved hw.orders (by simpa using hw.known (.rfl' _)) (h.wired.same hw)

theorem requested (h : Accounted s env steps w) {P : Message → Prop}
    (hw : Services.Requested P w w') (hP : ∀ m, P m → m.disputed = [] ∧ Expects s env m ∧
      ∀ o, m = .NEW_ORDER o → Submitted s env steps o ∧ o.filledAmount = 0) :
    Accounted s env steps w' := by
  rcases hw.became with hw | ⟨m, hm, hw⟩
  · exact h.same hw
  · obtain ⟨hm0, hmx, hmo⟩ := hP m hm
    refine h.moved hw.orders (by simpa [hm0] using hw.known (.rfl' _)) (h.wired.became hw (.rfl' _)
      (fun d hd => h.wired.held d (.inl hd)) (fun _ hx => hx) (fun x hx => ?_) (by simp))
    rw [List.mem_singleton.1 hx]
    exact ⟨hmx, fun o ho => ⟨(hmo o ho).1, .inl (hmo o ho).2⟩⟩

theorem newOrder (h : Accounted s env steps w) (r : RawOrder) :
    (Step.newOrder r).Fresh s env steps →
      Accounted s env (steps ++ [.newOrder r]) (s.step env w (.newOrder r)) := by
  intro hfr
  have h' : Accounted s env (steps ++ [.newOrder r]) w := ⟨h.ledger, h.wired.snoc hfr⟩
  refine h'.requested (s.services.newOrder_requested r env w) fun m hm => ?_
  obtain ⟨o₀, p, o, rfl, hp⟩ := hm
  obtain ⟨sig, hv⟩ := hp.valid
  have ho := hp.eq
  subst ho
  refine ⟨rfl, trivial, fun o ho => ?_⟩
  cases ho
  have hsig := signed?_newOrder.2 ⟨sig, hv⟩
  have hpos := (RawOrder.validate_eq_ok hv).amount
  have h0 := (hfr o₀ hsig).1
  refine ⟨⟨⟨hpos, h0.ge, h0.le.trans hpos.le⟩, hp.lists, o₀, ?_, rfl, rfl⟩, h0⟩
  rw [signed_snoc, hsig]
  exact List.mem_append_right _ (.head _)

theorem cancelOrder (h : Accounted s env steps w) (x : Hash) :
    Accounted s env steps (s.step env w (.cancelOrder x)) := by
  refine h.requested (Services.cancelOrder_requested x env w) fun m hm => ?_
  obtain ⟨o, rfl, -⟩ := hm
  exact ⟨rfl, trivial, fun o ho => by cases ho⟩

/-! ### The engine -/

theorem wired_take (h : Wired s env steps w) (i : Nat) : Wired s env steps (w.take i) :=
  h.taken rfl rfl (List.eraseIdx_subset ..) (.refl _) (.refl _) (.refl _) (.refl _)

theorem ledger_take (h : Accounted s env steps w) {i : Nat} {m : Message}
    (hm : w.orderQueue[i]? = some m) : Ledger w.orders (m.disputed ++ (w.take i).known) :=
  h.ledger.moved ((World.known_take hm).map _)

theorem ignored (h : Accounted s env steps w) {i : Nat} {m : Message}
    (hm : w.orderQueue[i]? = some m) (hd : m.disputed = []) : Accounted s env steps (w.take i) := by
  have hl := h.ledger_take hm
  rw [hd, List.nil_append] at hl
  exact ⟨hl, wired_take h.wired i⟩

theorem submitted_deliver (h : Accounted s env steps w) (i : Nat) :
    ∀ d ∈ (s.engine.deliver env i w).orders, Submitted s env steps d := by
  intro d hd
  rcases s.engine.deliver_handled env w i with ⟨-, hw⟩ | ⟨m, hm, hw⟩
  · exact h.wired.held d (.inl (hw ▸ hd))
  · have hmq := List.mem_of_getElem? hm
    have hadd : ∀ o, m ≠ .ADD_ORDER o := by
      intro o ho
      rw [ho] at hmq
      exact h.wired.messages _ hmq
    have hb : ∀ d ∈ w.orders, d.Bounded := fun d hd => (h.wired.held d (.inl hd)).bounded
    obtain ⟨hbd, x, hx, ht⟩ := hw.stored hadd hb
      (fun o ho => (h.wired.held o (.inr (ho ▸ hmq))).bounded) hd
    refine (h.wired.held x ?_).of_terms ht hbd
    rcases hx with hx | rfl
    · exact .inl hx
    · exact .inr hmq

theorem order_cancelOrder (h : Accounted s env steps w) {i : Nat} {o : Order}
    (hm : w.orderQueue[i]? = some (.CANCEL_ORDER o)) (hok : Settles w (.CANCEL_ORDER o)) :
    Accounted s env steps (s.engine.deliver env i w) := by
  have h₀ := h.ignored hm rfl
  have hstored := h.submitted_deliver i
  rcases s.engine.deliver_handled env w i with ⟨hn, -⟩ | ⟨m, hm', hw⟩
  · rw [hm] at hn
    cases hn
  · cases hm.symm.trans hm'
    generalize s.engine.deliver env i w = w' at hw hstored
    cases hw with
    | ignored => exact h₀
    | cancelOrder hres hw =>
      rcases hw with hw | ⟨-, hw⟩
      · exact h₀.same hw
      · rename_i res
        have hnone : ∀ r ∈ res, r.trades = [] := fun r hr => by
          rw [hres r hr]
          rfl
        constructor
        · rw [hw.orders]
          have hp := hw.known (.rfl' _)
          rw [List.flatMap_eq_nil_iff.2 hnone] at hp
          exact (h₀.ledger.cancelOrder hok).moved (by simpa using hp)
        · rw [hw.orders] at hstored
          refine h₀.wired.became hw (.rfl' _) hstored (fun x hx => ?_) (by simp)
            fun r hr => .inl (hnone r hr)
          rw [get_setStatuses, Option.isSome_map]
          exact hx

section
variable (hf : env.Faultless)
include hf

theorem order_newOrder (h : Accounted s env steps w) {i : Nat} {o : Order}
    (hm : w.orderQueue[i]? = some (.NEW_ORDER o)) (hok : Settles w (.NEW_ORDER o)) :
    Accounted s env steps (s.engine.deliver env i w) := by
  have hmq : w.Holds o := .inr (List.mem_of_getElem? hm)
  by_cases hb : s.engine.HasBook env o
  · have hsub := h.wired.held o hmq
    have hbounded : ∀ d ∈ w.orders, d.Bounded := fun d hd => (h.wired.held d (.inl hd)).bounded
    have hside : o.side = .BUY ∨ o.side = .SELL := by
      obtain ⟨x, hx, -, hs⟩ := hsub.signed
      rw [← hs]
      exact signed_side hx
    have heq := Engine.deliver_newOrder_eq hm hb
    have hstored := h.submitted_deliver i
    obtain ⟨l, now, n, -, hl, hres, hw⟩ := newOrder_eq hf (w := w.take i) hside
      fun d hd hh => h.wired.same_side (.inl hd) hmq hh
    have hof := processOrder_of o l
    have hbecame : (w.take i).Became ((processOrder o l).store now w.orders) w.trades []
        [(processOrder o l).response env.eth] (s.engine.deliver env i w) := by
      rw [heq, hw]
      exact ⟨rfl, rfl, (List.append_nil _).symm, rfl, rfl, rfl, rfl⟩
    rw [hbecame.orders] at hstored
    constructor
    · have hled := (h.ledger_take hm).newOrder hbounded hsub.bounded hl
        (fun mo hmo => (hres mo hmo).1) hok (fun hg => ?_) now env.eth
      · rw [hbecame.orders]
        refine hled.moved ((hbecame.known (.rfl' _)).trans (.of_eq ?_))
        simp [Message.disputed, processOrder_trades]
      · refine (h.wired.queued o (List.mem_of_getElem? hm)).resolve_right ?_
        rw [hg]
        exact Bool.false_ne_true
    · refine (wired_take h.wired i).became hbecame (.rfl' _) hstored
        (fun x hx => store_get_isSome hof now (.inr hx)) (by simp) fun r hr => ?_
      rw [List.mem_singleton.1 hr]
      exact response_announced hof (fun p hp =>
        h.wired.held _ (.inl (hl.subset (hof.maker_mem hp)))) hb
  · have hw : s.engine.deliver env i w = w.take i := by
      simp only [Engine.deliver, hm, Engine.handleOrders, Engine.handleNewOrder]
      exact Engine.onBook_ignored hb
    rw [hw]
    exact h.ignored hm rfl

theorem order_invalidate (h : Accounted s env steps w) {i : Nat} {m : Matches}
    (hm : w.orderQueue[i]? = some (.INVALIDATE_MAKER_ORDERS m))
    (hok : Settles w (.INVALIDATE_MAKER_ORDERS m)) :
    Accounted s env steps (s.engine.deliver env i w) := by
  have hx := h.wired.messages _ (List.mem_of_getElem? hm)
  obtain ⟨hbook, hlen⟩ := hx
  obtain ⟨hone, hok⟩ := hok
  obtain ⟨t, ht⟩ := List.length_eq_one_iff.1 hone
  have hmem : t ∈ m.trades := by rw [ht]; exact .head _
  obtain ⟨htaker, hmakers⟩ := hok t hmem
  have hstored := h.submitted_deliver i
  -- the message is handled, and no call fails
  have hw : Invalidated [t.takerOrderHash] [t.makerOrderHash] [t.amount] (w.take i)
      (s.engine.deliver env i w) := by
    have heq : s.engine.deliver env i w = (invalidateMakerOrders m env (w.take i)).2 := by
      simp only [Engine.deliver, hm, Engine.handleOrders, Engine.handleInvalidateMakerOrders]
      rw [Engine.onBook_eq]
      exact hbook
    rw [heq]
    have hmk : m.makerOrders.length = 1 := hlen.trans hone
    refine Prog.wp_state (P := Invalidated [t.takerOrderHash] [t.makerOrderHash] [t.amount]
      (w.take i)) (Prog.wp_mono (invalidateMakerOrders_wp m (w.take i)) (fun _ w' hi => ?_)
        fun _ w' hi => ?_)
    · simpa [Matches.readHashes, Matches.tradeAmounts, ht, hmk] using (hi.2 hf).invalidated
    · rcases hi.1 with ⟨-, hnf⟩ | hlt
      · exact absurd hf hnf
      · omega
  obtain ⟨rs, res, hrs, -, hres, hw⟩ := hw
  have htrades : setTradeStatuses (·.makerOrderHash ∈ [t.takerOrderHash]) .CANCELLED w.trades =
      w.trades := by
    refine setTradeStatuses_none .CANCELLED fun x hx => ?_
    simp [hmakers x hx]
  have hts : Restated w.trades
      (setTradeStatuses (·.makerOrderHash ∈ [t.takerOrderHash]) .CANCELLED w.trades) := by
    rw [htrades]
    exact .rfl' _
  have hbounded : ∀ d ∈ w.orders, d.Bounded := fun d hd => (h.wired.held d (.inl hd)).bounded
  have hnone : res.trades = [] := by rw [EngineResponse.trades, hres]
  have hkeep : ∀ x, (w.orders.get x).isSome →
      ((setStatuses (w.orders.putAll rs) .INVALIDATED [t.makerOrderHash]).get x).isSome := by
    intro x hx
    rw [get_setStatuses, Option.isSome_map]
    exact Coll.get_putAll_isSome hx
  constructor
  · have hled := h.ledger_take hm
    rw [Message.disputed, ht] at hled
    rw [hw.orders]
    refine (hled.invalidate hbounded htaker hrs).moved ((hw.known hts).trans (.of_eq ?_))
    have hq : (rs.map Message.NEW_ORDER).flatMap (·.disputed) = [] := by
      simp [List.flatMap_eq_nil_iff, Message.disputed]
    simp [hnone, hq]
  · rw [hw.orders] at hstored
    refine (wired_take h.wired i).became hw hts hstored hkeep (fun x hx => ?_) fun r hr => ?_
    · obtain ⟨r, hr, rfl⟩ := List.mem_map.1 hx
      obtain ⟨y, hy, -, a, rfl⟩ := hrs.givenBack.mem hr
      have hys := h.wired.held y (.inl hy)
      refine ⟨trivial, fun o ho => ?_⟩
      cases ho
      refine ⟨hys.of_terms (restored_terms y a) (restored_bounded a hys.bounded.pos), .inr ?_⟩
      rw [restored_hash]
      have hyw : y ∈ w.orders := hy
      exact hkeep _ (by rw [Coll.get_mem hyw]; rfl)
    · rw [List.mem_singleton.1 hr]
      exact .inl hnone

/-- **The engine handles a message.** -/
theorem order (h : Accounted s env steps w) {i : Nat} (hok : (Step.order i).Settles w) :
    Accounted s env steps (s.step env w (.order i)) := by
  rw [Server.step]
  cases hm : w.orderQueue[i]? with
  | none =>
    rw [Engine.deliver, hm]
    exact h
  | some m =>
    have hx := h.wired.messages m (List.mem_of_getElem? hm)
    have hok := hok m hm
    cases m with
    | NEW_ORDER o => exact h.order_newOrder hf hm hok
    | CANCEL_ORDER o => exact h.order_cancelOrder hm hok
    | INVALIDATE_MAKER_ORDERS m => exact h.order_invalidate hf hm hok
    | ADD_ORDER | INVALIDATE_TAKER_ORDERS | unknown => exact hx.elim

/-! ### The order service and the operator -/

/-- **The order service handles a response.** -/
theorem engineResponse (h : Accounted s env steps w) (i : Nat) :
    Accounted s env steps (s.step env w (.engineResponse i)) := by
  rw [Server.step, handle]
  cases hr : w.engineResponses[i]? with
  | none => exact h
  | some r =>
    have hled := h.ledger.moved ((World.known_response hr).map Trade.terms)
    have hwired : Wired s env steps { w with engineResponses := w.engineResponses.eraseIdx i } :=
      h.wired.taken rfl rfl (.refl _) (List.eraseIdx_subset ..) (.refl _) (.refl _) (.refl _)
    rcases h.wired.responses r (List.mem_of_getElem? hr) with hnone | ⟨o, m, ha⟩
    · rw [hnone, List.nil_append] at hled
      have h₀ : Accounted s env steps { w with engineResponses := w.engineResponses.eraseIdx i } :=
        ⟨hled, hwired⟩
      exact h₀.same (s.services.handleEngineResponse_idle hnone env _)
    · have heq : s.services.handleEngineResponse r = s.services.handleEngineOrderMatched r := by
        rcases ha.status with hs | hs <;> rw [Services.handleEngineResponse, hs]
      dsimp only
      rw [heq]
      obtain ⟨now, ts, us, hw⟩ := Services.handleEngineOrderMatched_matched hf ha.order ha.matched
        ha.makers ha.lists { w with engineResponses := w.engineResponses.eraseIdx i }
      have htrades : r.trades = m.trades := by rw [EngineResponse.trades, ha.matched]
      rw [htrades] at hled
      obtain ⟨ms, bs, hd, -⟩ := hw.dispatched
      refine ⟨?_, hwired.matched ha hw⟩
      rw [hd.orders]
      exact hled.moved hw.known

omit hf in
/-- **The operator queues a batch.** -/
theorem trades (h : Accounted s env steps w) (i : Nat) :
    Accounted s env steps (s.step env w (.trades i)) := by
  rw [Server.step, handle]
  cases hb : w.tradeQueue[i]? with
  | none => exact h
  | some b =>
    have hwired : Wired s env steps { w with tradeQueue := w.tradeQueue.eraseIdx i } :=
      h.wired.taken rfl rfl (.refl _) (.refl _) (List.eraseIdx_subset ..) (.refl _) (.refl _)
    obtain ⟨qs, hqs, hw⟩ := s.operator.queueTrade_operated b env
      { w with tradeQueue := w.tradeQueue.eraseIdx i }
    refine h.moved hw.orders (.of_eq (hw.known (.rfl' _))) (hwired.operated hw (.rfl' _)
      (fun x hx => ?_) (by simp))
    rw [hqs x hx]
    exact h.wired.batches b (.inl (List.mem_of_getElem? hb))

/-- **A batch is executed.** -/
theorem execute (h : Accounted s env steps w) {i : Nat} {v : Verdict}
    (hok : (Step.execute i v).Settles w) : Accounted s env steps (s.step env w (.execute i v)) := by
  rw [Server.step, handle]
  cases hb : w.txQueue[i]? with
  | none => exact h
  | some b =>
    obtain ⟨hv, hone⟩ := hok b hb
    have hwired : Wired s env steps { w with txQueue := w.txQueue.eraseIdx i } :=
      h.wired.taken rfl rfl (.refl _) (.refl _) (.refl _) (List.eraseIdx_subset ..) (.refl _)
    have honce : ∀ t ∈ b.2.trades, StoredOnce w.trades t := fun t ht =>
      StoredOnce.of_length (h.wired.batches b.2 (.inr ⟨b.1, List.mem_of_getElem? hb⟩) t ht)
        (hone t ht)
    obtain ⟨ts, msgs, hw, hts, hmsgs⟩ := consume_sent hf hv (m := b.2)
      (w := { w with txQueue := w.txQueue.eraseIdx i }) honce s.services.exchangeAddress
    exact h.moved hw.orders (.of_eq (hw.known hts)) (hwired.operated hw hts (by simp) hmsgs)

omit hf in
/-- **The order service handles a message of the operator.** -/
theorem txMessage (h : Accounted s env steps w) (i : Nat) :
    Accounted s env steps (s.step env w (.txMessage i)) := by
  rw [Server.step, handle]
  cases hm : w.txMessages[i]? with
  | none => exact h
  | some msg =>
    have hwired : Wired s env steps { w with txMessages := w.txMessages.eraseIdx i } :=
      h.wired.taken rfl rfl (.refl _) (.refl _) (.refl _) (.refl _) (List.eraseIdx_subset ..)
    obtain ⟨p, hw⟩ := Services.handleOperatorMessages_settled
      (h.wired.txMessages msg (List.mem_of_getElem? hm)) env
      { w with txMessages := w.txMessages.eraseIdx i }
    have hts := Restated.setTradeStatuses p (.inr rfl) w.trades
    have hknown := hw.known hts
    simp only [List.flatMap_nil, List.append_nil] at hknown
    exact h.moved hw.orders hknown (hwired.became hw hts (fun d hd => hwired.held d (.inl hd))
      (fun _ hx => hx) (by simp) (by simp))

/-- **Every run whose steps meet the condition.** -/
theorem of_run (h : Run (fun steps w step => step.Fresh s env steps ∧ step.Settles w) (s.step env)
    World.empty steps w) : Accounted s env steps w := by
  refine h.invariant ⟨⟨by simp, by simp [World.known, World.disputed, World.empty,
    World.emitted], ?_⟩, .empty⟩ fun steps w step _ hi hok => ?_
  · simp [World.known, World.disputed, World.empty, World.emitted]
  · obtain ⟨hfr, hok⟩ := hok
    -- only a submission adds a signed order
    have hi' : Accounted s env (steps ++ [step]) w := ⟨hi.ledger, hi.wired.snoc hfr⟩
    cases step with
    | newOrder r => exact hi.newOrder r hfr
    | cancelOrder x => exact hi'.cancelOrder x
    | order i => exact hi'.order hf hok
    | engineResponse i => exact hi'.engineResponse hf i
    | trades i => exact hi'.trades i
    | execute i v => exact hi'.execute hf hok
    | txMessage i => exact hi'.txMessage i
    | errorEvent e => exact hi'.same (Operator.handleEvent_same e env w)

end

end Accounted

end

end Server

/-! ## Settled trades -/

def Server.sample : Server := ⟨.sample, .sample, ⟨1⟩⟩

/-- A SELL of 10 and a BUY of 10 are submitted and matched, the trade is stored, and its batch gets
the verdict `v`. -/
def tradingSteps (v : Verdict) : List Server.Step :=
  [.newOrder (.sample 1 .SELL 5 10), .order 0, .engineResponse 0, .newOrder (.sample 2 .BUY 5 10),
    .order 0, .engineResponse 0, .trades 0, .execute 0 v]

end Dex
