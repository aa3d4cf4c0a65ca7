import DexServer.Operator.Operator
import DexServer.Operator.TxQueue

/-!
# What the operator does with a batch

A batch is queued or dropped (`queueTrade_operated`). When no call fails and the chain accepts it,
its trades are written back as PENDING and the messages say so (`consume_sent`); as long as each of
them is stored once, nothing but statuses, transactions and times changes (`Restated`).
-/

namespace Dex

open Lib

/-- `w'` holds the trades `ts`, the batches `qs` were queued and the messages `msgs` published, and
nothing else changed. -/
structure World.Operated (w : World) (ts : List Trade) (qs : List (Nat × Matches))
    (msgs : List OperatorMessage) (w' : World) : Prop where
  orders : w'.orders = w.orders
  trades : w'.trades = ts
  orderQueue : w'.orderQueue = w.orderQueue
  engineResponses : w'.engineResponses = w.engineResponses
  tradeQueue : w'.tradeQueue = w.tradeQueue
  txQueue : w'.txQueue = w.txQueue ++ qs
  txMessages : w'.txMessages = w.txMessages ++ msgs

theorem World.operated_calls (w : World) (n : Nat) :
    w.Operated w.trades [] [] { w with calls := n } :=
  ⟨rfl, rfl, rfl, rfl, rfl, by simp, by simp⟩

theorem World.Operated.trans {w w₁ w₂ : World} {ts ts' : List Trade}
    {qs qs' : List (Nat × Matches)} {msgs msgs' : List OperatorMessage}
    (h : w.Operated ts qs msgs w₁) (h' : w₁.Operated ts' qs' msgs' w₂) :
    w.Operated ts' (qs ++ qs') (msgs ++ msgs') w₂ where
  orders := h'.orders.trans h.orders
  trades := h'.trades
  orderQueue := h'.orderQueue.trans h.orderQueue
  engineResponses := h'.engineResponses.trans h.engineResponses
  tradeQueue := h'.tradeQueue.trans h.tradeQueue
  txQueue := by rw [h'.txQueue, h.txQueue, List.append_assoc]
  txMessages := by rw [h'.txMessages, h.txMessages, List.append_assoc]

/-! ## Queueing -/

theorem txQueueLength_quiet (txq : Nat) : Quiet (txQueueLength txq) :=
  (Quiet.query fun _ _ _ => _).attempt.bind fun _ => .pure _

theorem shortestQueue_quiet : ∀ (txqs : List Nat) (shortest : Option Nat) (min : Nat),
    Quiet (shortestQueue shortest min txqs)
  | [], _, _ => .pure _
  | txq :: txqs, _, _ => (txQueueLength_quiet txq).bind fun _ =>
      .ite (shortestQueue_quiet txqs _ _) (shortestQueue_quiet txqs _ _)

theorem Operator.queueTrade_operated (op : Operator) (m : Matches) (env : Env) (w : World) :
    ∃ qs, (∀ b ∈ qs, b.2 = m) ∧ w.Operated w.trades qs [] (op.queueTrade m env w).2 := by
  refine Prog.wp_state (P := fun w' => ∃ qs, (∀ b ∈ qs, b.2 = m) ∧ w.Operated w.trades qs [] w') ?_
  unfold queueTrade getShortestQueue
  rw [Prog.wp_bind]
  have hnone : ∀ n, ∃ qs, (∀ b ∈ qs, b.2 = m) ∧ w.Operated w.trades qs [] { w with calls := n } :=
    fun n => ⟨[], by simp, w.operated_calls n⟩
  refine (shortestQueue_quiet _ _ _).wp (fun x n => ?_) fun _ => hnone
  obtain ⟨shortest, len⟩ := x
  cases shortest with
  | none => exact hnone n
  | some txq =>
    dsimp only
    split
    · exact hnone n
    · exact wp_call (fun _ => hnone (n + 1)) fun _ =>
        ⟨[(txq, m)], by simp, rfl, rfl, rfl, rfl, rfl, rfl, by simp [World.tick]⟩

/-- Without a channel for the message, the trades and orders of an event are looked up in vain. -/
theorem Operator.handleEvent_quiet (e : ErrorEvent) : Quiet (handleEvent false e) :=
  (Quiet.query _).attempt.bind fun _ => (Quiet.query _).attempt.bind fun _ =>
    (Quiet.query _).attempt.bind fun _ => .throw _

theorem Operator.handleEvent_same (e : ErrorEvent) (env : Env) (w : World) :
    w.Same (handleEvent false e env w).2 := by
  obtain ⟨n, hn⟩ := handleEvent_quiet e env w
  rw [hn]
  exact ⟨rfl, rfl, by simp, by simp, rfl, rfl, rfl⟩

/-! ## Writing trades back -/

/-- An update by hash changes the first trade with the hash, if there is one. -/
theorem updateFirst_spec (h : Hash) (f : Trade → Trade) : ∀ ts : List Trade,
    (updateFirst h f ts = none ∧ ∀ t ∈ ts, t.hash ≠ h) ∨
    ∃ pre d post, ts = pre ++ d :: post ∧ d.hash = h ∧ (∀ t ∈ pre, t.hash ≠ h) ∧
      updateFirst h f ts = some (pre ++ f d :: post)
  | [] => .inl ⟨rfl, by simp⟩
  | t :: ts => by
    by_cases ht : t.hash = h
    · exact .inr ⟨[], t, ts, rfl, ht, by simp, by simp [updateFirst, ht]⟩
    · rcases updateFirst_spec h f ts with ⟨hn, hts⟩ | ⟨pre, d, post, hts, hd, hpre, hu⟩
      · exact .inl ⟨by simp [updateFirst, ht, hn], by simpa [ht] using hts⟩
      · exact .inr ⟨t :: pre, d, post, by simp [hts], hd, by simpa [ht] using hpre,
          by simp [updateFirst, ht, hu]⟩

/-- The trades `ts'` are the trades `ts` up to what may change, and still count. -/
structure Restated (ts ts' : List Trade) : Prop where
  terms : ts'.map Trade.terms = ts.map Trade.terms
  live : (∀ t ∈ ts, t.Live) → ∀ t ∈ ts', t.Live

theorem Restated.rfl' (ts : List Trade) : Restated ts ts := ⟨rfl, fun h => h⟩

theorem Restated.trans {ts ts' ts'' : List Trade} (h : Restated ts ts')
    (h' : Restated ts' ts'') : Restated ts ts'' :=
  ⟨h'.terms.trans h.terms, fun hl => h'.live (h.live hl)⟩

theorem Restated.mem {ts ts' : List Trade} (h : Restated ts ts') {d : Trade}
    (hd : d ∈ ts) : ∃ d' ∈ ts', d'.terms = d.terms := by
  have hm := List.mem_map_of_mem (f := Trade.terms) hd
  rw [← h.terms] at hm
  exact List.mem_map.1 hm

theorem Restated.setTradeStatuses (p : Trade → Bool) {status : TradeStatus}
    (hs : status = .PENDING ∨ status = .SUCCESS) (ts : List Trade) :
    Restated ts (setTradeStatuses p status ts) := by
  constructor
  · rw [Dex.setTradeStatuses, List.map_map]
    refine List.map_congr_left fun t _ => ?_
    rw [Function.comp_apply]
    split <;> rfl
  · intro hl t ht
    obtain ⟨x, hx, rfl⟩ := List.mem_map.1 ht
    split
    · exact hs
    · exact hl x hx

/-- Exactly one trade is stored under the hash of `t`, and it is `t` up to what may change. -/
def StoredOnce (ts : List Trade) (t : Trade) : Prop :=
  (ts.map Trade.terms).filter (·.hash = t.hash) = [t.terms]

theorem StoredOnce.of_length {ts : List Trade} {t : Trade}
    (hd : ∃ d ∈ ts, d.terms = t.terms)
    (hone : (ts.filter (·.hash = t.hash)).length = 1) : StoredOnce ts t := by
  obtain ⟨d, hd, he⟩ := hd
  obtain ⟨x, hx⟩ := List.length_eq_one_iff.1 hone
  have hdh : d.terms.hash = t.terms.hash := congrArg Trade.hash he
  have hmem : d ∈ ts.filter (·.hash = t.hash) :=
    List.mem_filter.2 ⟨hd, decide_eq_true hdh⟩
  rw [hx] at hmem
  have hcomp : (ts.map Trade.terms).filter (·.hash = t.hash) =
      (ts.filter (·.hash = t.hash)).map Trade.terms := List.filter_map
  rw [StoredOnce, hcomp, hx, List.map_singleton, ← List.mem_singleton.1 hmem, he]

theorem Restated.storedOnce {ts ts' : List Trade} (h : Restated ts ts') {t : Trade}
    (ht : StoredOnce ts t) : StoredOnce ts' t := by
  unfold StoredOnce
  rw [h.terms]
  exact ht

theorem StoredOnce.terms {ts : List Trade} {t : Trade} (h : StoredOnce ts t) {d : Trade}
    (hd : d ∈ ts) (hh : d.hash = t.hash) : d.terms = t.terms := by
  have hmem : d.terms ∈ (ts.map Trade.terms).filter (·.hash = t.hash) :=
    List.mem_filter.2 ⟨List.mem_map_of_mem hd, decide_eq_true hh⟩
  rw [h] at hmem
  exact List.mem_singleton.1 hmem

theorem StoredOnce.exists {ts : List Trade} {t : Trade} (h : StoredOnce ts t) :
    ∃ d ∈ ts, d.hash = t.hash := by
  have hmem : t.terms ∈ (ts.map Trade.terms).filter (·.hash = t.hash) := by
    rw [h]
    exact .head _
  obtain ⟨hm, hh⟩ := List.mem_filter.1 hmem
  obtain ⟨d, hd, hdt⟩ := List.mem_map.1 hm
  have hdh : d.terms.hash = t.terms.hash := congrArg Trade.hash hdt
  exact ⟨d, hd, hdh⟩

section
variable {env : Env} (hf : env.Faultless)
include hf

theorem updatePendingTrade_wp {t : Trade} {w : World} (ht : StoredOnce w.trades t) (txh : Hash) :
    Prog.wp (updatePendingTrade t txh) env w
      (fun _ w' => ∃ ts, w.Operated ts [] [] w' ∧ Restated w.trades ts) (fun _ _ => False) := by
  unfold updatePendingTrade findAndModifyTrade
  refine wp_call (fun h => absurd hf (Env.not_faultless h)) fun _ => ?_
  obtain ⟨d₀, hd₀, hh₀⟩ := ht.exists
  have hfind : (w.trades.find? (·.hash = t.hash)).isSome := by
    rw [List.find?_isSome]
    exact ⟨d₀, hd₀, decide_eq_true hh₀⟩
  obtain ⟨d₁, hd₁⟩ := Option.isSome_iff_exists.1 hfind
  generalize ht' : { t with status := TradeStatus.PENDING, txHash := txh } = t'
  have hhash : t'.hash = t.hash := by rw [← ht']
  rcases updateFirst_spec t.hash t'.set w.trades with ⟨-, hno⟩ | ⟨pre, d, post, hts, hd, -, hu⟩
  · exact absurd hh₀ (hno d₀ hd₀)
  · simp only [hhash, World.tick_trades, hu, hd₁, Prog.ends_ok]
    refine ⟨_, ⟨rfl, rfl, rfl, rfl, rfl, by simp [World.tick], by simp [World.tick]⟩, ?_⟩
    have hdmem : d ∈ w.trades := by
      rw [hts]
      simp
    have hterms : (t'.set d).terms = d.terms := by
      rw [ht.terms hdmem hd, ← ht']
      simp only [Trade.set, Trade.terms, hd]
    refine ⟨by simp [hts, hterms], fun hl x hx => ?_⟩
    simp only [List.mem_append, List.mem_cons] at hx
    rcases hx with hx | rfl | hx
    · exact hl x (by rw [hts]; simp [hx])
    · exact .inl (by rw [← ht']; rfl)
    · exact hl x (by rw [hts]; simp [hx])

theorem updatePendingTrades_wp (txh : Hash) : ∀ (trades : List Trade) (w : World),
    (∀ t ∈ trades, StoredOnce w.trades t) →
    Prog.wp (updatePendingTrades txh trades) env w
      (fun _ w' => ∃ ts, w.Operated ts [] [] w' ∧ Restated w.trades ts) (fun _ _ => False)
  | [], w, _ => ⟨w.trades, w.operated_calls w.calls, .rfl' _⟩
  | t :: trades, w, ht => by
    unfold updatePendingTrades
    simp only [Prog.wp_bind, Prog.wp_attempt]
    refine Prog.wp_mono (updatePendingTrade_wp hf (ht t (.head _)) txh) (fun _ w₁ h₁ => ?_)
      fun _ _ h => h.elim
    obtain ⟨ts, h₁, hr⟩ := h₁
    refine Prog.wp_mono (updatePendingTrades_wp txh trades w₁ fun t' ht' => ?_) (fun _ w' h => ?_)
      fun _ _ h => h
    · rw [h₁.trades]
      exact hr.storedOnce (ht t' (.tail _ ht'))
    · obtain ⟨ts', h, hr'⟩ := h
      rw [h₁.trades] at hr'
      exact ⟨ts', h₁.trans h, hr.trans hr'⟩

end

/-- The chain takes the batch: the call passes with enough gas, the transaction is sent and not
reverted. -/
def Verdict.Accepts (v : Verdict) : Prop :=
  (∃ gas ∈ v.gasLimit, 140000 ≤ gas) ∧ v.nonce.isSome ∧ v.tx.isSome ∧ v.reverted ≠ some true

instance (v : Verdict) : Decidable v.Accepts := by
  unfold Verdict.Accepts
  infer_instance

/-- What an accepted batch does to the trades and the messages. -/
def Sent (w w' : World) : Prop :=
  ∃ ts msgs, w.Operated ts [] msgs w' ∧ Restated w.trades ts ∧
    ∀ msg ∈ msgs, msg.messageType = .TRADE_TX_PENDING ∨ msg.messageType = .TRADE_TX_SUCCESS

section
variable {env : Env} (hf : env.Faultless)
include hf

theorem publishTxMessage_wp (msg : OperatorMessage) (w : World) :
    Prog.wp (publishTxMessage msg) env w (fun _ w' => w.Operated w.trades [] [msg] w')
      (fun _ _ => False) :=
  wp_call (fun h => absurd hf (Env.not_faultless h)) fun _ =>
    ⟨rfl, rfl, rfl, rfl, rfl, by simp [World.tick], rfl⟩

theorem executeTrade_sent {v : Verdict} (hv : v.Accepts) {m : Matches} {w : World}
    (ht : ∀ t ∈ m.trades, StoredOnce w.trades t) : Sent w (TxQueue.executeTrade v m env w).2 := by
  refine Prog.wp_state (P := fun w' => Sent w w') ?_
  obtain ⟨⟨gas, hg, hle⟩, hn, htx, hrev⟩ := hv
  obtain ⟨nonce, hn⟩ := Option.isSome_iff_exists.1 hn
  obtain ⟨tx, htx⟩ := Option.isSome_iff_exists.1 htx
  unfold TxQueue.executeTrade
  have hgas : ¬gas < 140000 := by omega
  simp only [Option.mem_def.1 hg, hn, htx, if_neg hgas, Prog.wp_bind, Prog.wp_attempt]
  refine Prog.wp_mono (updatePendingTrades_wp hf tx m.trades w ht) (fun trades w₁ h₁ => ?_)
    fun _ _ h => h.elim
  obtain ⟨ts, h₁, hr⟩ := h₁
  refine Prog.wp_mono (publishTxMessage_wp hf _ w₁) (fun _ w₂ h₂ => ?_) fun _ _ h => h.elim
  rw [h₁.trades] at h₂
  have hsent : Sent w w₂ := ⟨ts, _, h₁.trans h₂, hr, fun msg hm => by
    rw [List.mem_singleton.1 hm]
    exact .inl rfl⟩
  unfold TxQueue.awaitMined
  cases hrv : v.reverted with
  | none => exact hsent
  | some r =>
    cases r with
    | true => exact absurd hrv hrev
    | false =>
      refine Prog.wp_mono (publishTxMessage_wp hf _ w₂) (fun _ w₃ h₃ => ?_) fun _ _ h => h.elim
      rw [h₂.trades] at h₃
      refine ⟨ts, _, (h₁.trans h₂).trans h₃, hr, fun msg hm => ?_⟩
      simp only [List.nil_append, List.cons_append, List.mem_cons, List.not_mem_nil, or_false] at hm
      rcases hm with rfl | rfl
      · exact .inl rfl
      · exact .inr rfl

theorem consume_sent {v : Verdict} (hv : v.Accepts) {m : Matches} {w : World}
    (ht : ∀ t ∈ m.trades, StoredOnce w.trades t) (exchangeAddress : Address) :
    Sent w (TxQueue.consume exchangeAddress v m env w).2 := by
  have hidle : Sent w w := ⟨w.trades, [], w.operated_calls w.calls, .rfl' _, by simp⟩
  refine Prog.wp_state (P := fun w' => Sent w w') ?_
  unfold TxQueue.consume
  simp only [Prog.wp_bind, Prog.wp_ask]
  refine wp_checked (fun m' hm' => ?_) fun _ => hidle
  have htrades : m'.trades = m.trades := Matches.validate_trades hm'
  exact Prog.wp_of_state (executeTrade_sent hf hv (by rw [htrades]; exact ht))

end

end Dex
