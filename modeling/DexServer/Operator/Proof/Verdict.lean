import DexServer.Operator.Proof.Execute
import DexServer.Operator.Proof.Shortest
import DexServer.Sample

/-!
# The verdict on a batch

A batch that is delivered to the operator is queued, decoded, checked and executed, and the order
service waits for one terminal message about it. `one_verdict` says exactly when it comes.

* `queueTrade_queued`: the batch is queued if a queue reports at most ten batches, and the broker
  takes it; otherwise it is gone (`full_queue_no_verdict`).
* `consumeQueuedTrades_verdict`: a batch that is not valid is gone. One that the contract refuses,
  or that cannot be sent, has its verdict. One that is sent has it if every trade could be updated,
  the message about the sending was published and the receipt came.
-/

namespace Dex

open Lib

/-- The message says what became of its batch. -/
def OperatorMessageType.isTerminal : OperatorMessageType → Bool
  | .TRADE_TX_SUCCESS | .TRADE_TX_ERROR | .TRADE_ERROR | .TRADE_INVALID => true
  | .TRADE_TX_PENDING | .unknown _ => false

/-- There is one terminal message, and it carries the trades of the batch: all of them, but for what
the operator sets (status and transaction) and the creation time. -/
def OneVerdict (m : Matches) (msgs : List OperatorMessage) : Prop :=
  ∃ msg, msgs.filter (·.messageType.isTerminal) = [msg] ∧
    msg.trades.map (Option.map Trade.terms) = m.trades.map fun t => some t.terms

/-- What the operator publishes for the batch `m`, which is delivered to it in `w`: if it is queued,
its consumer takes it in `w'`. -/
def Operator.messages (op : Operator) (exchangeAddress : Address) (v : Verdict) (env : Env)
    (m : Matches) (w w' : World) : List OperatorMessage :=
  let queued := (op.queueTrade m env w).2
  let consumed :=
    (TxQueue.consumeQueuedTrades exchangeAddress v (m.raw.marshalJSON env.codec) env w').2
  queued.txMessages.drop w.txMessages.length ++
    if queued.txQueue.length = w.txQueue.length then []
    else consumed.txMessages.drop w'.txMessages.length

/-! ## Queueing -/

/-- A queue reports at most ten batches, and the broker takes one more. -/
def Operator.Queues (op : Operator) (env : Env) (w : World) : Prop :=
  (∃ txq < op.txQueues, reportedLength env w (w.calls + txq) txq ≤ 10) ∧
    env.fails (w.calls + op.txQueues) = false

instance (op : Operator) (env : Env) (w : World) : Decidable (op.Queues env w) :=
  inferInstanceAs (Decidable (_ ∧ _))

theorem Operator.queueTrade_queued (op : Operator) (m : Matches) (env : Env) (w : World) :
    (op.queueTrade m env w).2.txMessages = w.txMessages ∧
      ((op.queueTrade m env w).2.txQueue.length = w.txQueue.length ↔ ¬op.Queues env w) := by
  have hten : (∃ txq < op.txQueues, reportedLength env w (w.calls + txq) txq ≤ 10) ↔
      ∃ l ∈ reportedLengths env w w.calls (List.range op.txQueues), l.2 ≤ 10 := by
    constructor
    · rintro ⟨q, hq, hle⟩
      exact ⟨(q, _), mem_reportedLengths.2 ⟨q, by simp [hq], rfl⟩, hle⟩
    · rintro ⟨l, hl, hle⟩
      obtain ⟨i, hi, heq⟩ := mem_reportedLengths.1 hl
      obtain ⟨hlt, hget⟩ := List.getElem?_eq_some_iff.1 hi
      rw [List.getElem_range] at hget
      rw [List.length_range] at hlt
      subst hget
      exact ⟨l.1, hlt, heq ▸ hle⟩
  have hfull : (∀ l ∈ reportedLengths env w w.calls (List.range op.txQueues), 10 < l.2) →
      ¬op.Queues env w := by
    intro hgt hq
    obtain ⟨l, hl, hle⟩ := hten.1 hq.1
    exact Nat.not_lt.2 hle (hgt l hl)
  rw [queueTrade_eq]
  unfold queueTradeOn
  rw [Prog.bind_ok (shortestQueue_eq _ _ _ w.calls)]
  rcases foldl_shorter (reportedLengths env w w.calls (List.range op.txQueues)) (none, 1000) with
    ⟨heq, hle⟩ | ⟨l, hl, heq, -, hle⟩
  · rw [heq]
    have hgt : ¬op.Queues env w := hfull fun l hl => Nat.lt_of_lt_of_le (by decide) (hle l hl)
    exact ⟨rfl, iff_of_true rfl hgt⟩
  · rw [heq]
    dsimp only
    split
    · rename_i hlen
      have hgt : ¬op.Queues env w := hfull fun l' hl' => Nat.lt_of_lt_of_le hlen (hle l' hl')
      exact ⟨rfl, iff_of_true rfl hgt⟩
    · rename_i hlen
      have hcalls : w.calls + (List.range op.txQueues).length = w.calls + op.txQueues := by simp
      rw [hcalls]
      cases hf : env.fails (w.calls + op.txQueues) with
      | true =>
        have hq : ¬op.Queues env w := fun hq => by
          rw [hq.2] at hf
          cases hf
        simp [publishOn, publishPendingTrades, call, World.tick, hf, hq]
      | false =>
        have hq : op.Queues env w := ⟨hten.2 ⟨l, hl, Nat.le_of_not_lt hlen⟩, hf⟩
        simp [publishOn, publishPendingTrades, call, World.tick, hf, hq]

/-! ## Execution -/

/-- The batch is sent: the call passes with enough gas, and there is a nonce and a transaction. -/
def Verdict.Sends (v : Verdict) : Prop :=
  (∃ gas ∈ v.gasLimit, 140000 ≤ gas) ∧ v.nonce.isSome ∧ v.tx.isSome

instance (v : Verdict) : Decidable v.Sends := by
  unfold Verdict.Sends
  infer_instance

/-- The call that publishes the terminal message, counted from the first of the execution. -/
def Verdict.terminalCall (v : Verdict) (m : Matches) : Nat :=
  if v.Sends then m.trades.length + 1 else 0

/-- Nothing fails between the sending of the batch and the receipt: the trades are updated, the
message about the sending is published. -/
def Verdict.Follows (v : Verdict) (env : Env) (m : Matches) (n : Nat) : Prop :=
  (∀ i < m.trades.length, env.fails (n + i) = false) ∧ env.fails (n + m.trades.length) = false ∧
    v.reverted.isSome

instance (v : Verdict) (env : Env) (m : Matches) (n : Nat) : Decidable (v.Follows env m n) :=
  inferInstanceAs (Decidable (_ ∧ _))

section
variable {env : Env}

theorem updatePendingTrade_terms (t : Trade) (txh : Hash) (w : World) :
    Prog.wp (updatePendingTrade t txh) env w
      (fun u w' => env.fails w.calls = false ∧ u.terms = t.terms ∧ w'.calls = w.calls + 1 ∧
        w'.txMessages = w.txMessages)
      (fun _ w' => env.fails w.calls = true ∧ w'.calls = w.calls + 1 ∧
        w'.txMessages = w.txMessages) := by
  unfold updatePendingTrade findAndModifyTrade
  refine wp_call (fun hf => ⟨hf, rfl, rfl⟩) fun hf => ?_
  dsimp only
  split
  · rename_i d _ hfind
    have hh : d.hash = t.hash := by simpa using List.find?_some hfind
    refine ⟨hf, ?_, rfl, rfl⟩
    simp only [Trade.set, Trade.terms, hh]
  · exact ⟨hf, rfl, rfl, rfl⟩

/-- The updated trades are the trades of the batch if every update succeeds; one that does not
leaves a nil pointer. -/
theorem updatePendingTrades_terms (txh : Hash) : ∀ (trades : List Trade) (w : World),
    Prog.wp (updatePendingTrades txh trades) env w
      (fun us w' => w'.calls = w.calls + trades.length ∧ w'.txMessages = w.txMessages ∧
        (us.map (Option.map Trade.terms) = trades.map (fun t => some t.terms) ↔
          ∀ i < trades.length, env.fails (w.calls + i) = false))
      (fun _ _ => False)
  | [], w => ⟨rfl, rfl, by simp⟩
  | t :: trades, w => by
    have hcons : (∀ i < (t :: trades).length, env.fails (w.calls + i) = false) ↔
        env.fails w.calls = false ∧ ∀ i < trades.length, env.fails (w.calls + 1 + i) = false := by
      constructor
      · intro h
        refine ⟨h 0 (by simp), fun i hi => ?_⟩
        have := h (i + 1) (by rw [List.length_cons]; omega)
        rwa [Nat.add_right_comm, Nat.add_assoc]
      · rintro ⟨h0, h⟩ i hi
        cases i with
        | zero => exact h0
        | succ i =>
          have := h i (by rw [List.length_cons] at hi; omega)
          rwa [← Nat.add_assoc, Nat.add_right_comm]
    unfold updatePendingTrades
    simp only [Prog.wp_bind, Prog.wp_attempt]
    refine Prog.wp_mono (updatePendingTrade_terms t txh w) (fun u w₁ h₁ => ?_) fun e w₁ h₁ => ?_
    · obtain ⟨hf, hu, hc, hm⟩ := h₁
      refine Prog.wp_mono (updatePendingTrades_terms txh trades w₁) (fun us w' h => ?_)
        fun _ _ h => h
      obtain ⟨hc', hm', hiff⟩ := h
      refine ⟨by rw [hc', hc, List.length_cons]; omega, hm'.trans hm, ?_⟩
      rw [hcons, ← hc, ← hiff]
      simp [Except.toOption, hu, hf]
    · obtain ⟨hf, hc, hm⟩ := h₁
      refine Prog.wp_mono (updatePendingTrades_terms txh trades w₁) (fun us w' h => ?_)
        fun _ _ h => h
      obtain ⟨hc', hm', hiff⟩ := h
      refine ⟨by rw [hc', hc, List.length_cons]; omega, hm'.trans hm, ?_⟩
      rw [hcons]
      simp [Except.toOption, hf]

/-- The verdict depends on the trades only, and not on what may change in them. -/
theorem OneVerdict.congr {m m' : Matches} {msgs : List OperatorMessage}
    (h : m'.trades.map Trade.terms = m.trades.map Trade.terms) :
    OneVerdict m' msgs ↔ OneVerdict m msgs := by
  have hmap : ∀ ts : List Trade, ts.map (fun t => some t.terms) =
      (ts.map Trade.terms).map some := by
    intro ts
    rw [List.map_map]
    rfl
  unfold OneVerdict
  rw [hmap, hmap, h]

theorem oneVerdict_message (m : Matches) {type : OperatorMessageType} (ht : type.isTerminal = true)
    (err : String) : OneVerdict m [m.message type err] := by
  refine ⟨_, List.filter_eq_self.2 fun msg hmsg => ?_, ?_⟩
  · rw [List.mem_singleton.1 hmsg]
    exact ht
  · show (m.trades.map some).map (Option.map Trade.terms) = _
    rw [List.map_map]
    rfl

theorem publishTxMessage_ends {msg : OperatorMessage} {w : World} (hf : env.fails w.calls = false) :
    Prog.wp (publishTxMessage msg) env w
      (fun _ w' => w'.txMessages = w.txMessages ++ [msg] ∧ w'.calls = w.calls + 1)
      (fun _ _ => False) :=
  wp_call (fun h => absurd hf (by rw [h]; decide)) fun _ => ⟨rfl, rfl⟩

theorem oneVerdict_pair {m : Matches} {sent msg : OperatorMessage}
    (hs : sent.messageType.isTerminal = false) (ht : msg.messageType.isTerminal = true) :
    OneVerdict m ([sent] ++ [msg]) ↔
      msg.trades.map (Option.map Trade.terms) = m.trades.map fun t => some t.terms := by
  have hfilter : ([sent] ++ [msg]).filter (·.messageType.isTerminal) = [msg] := by simp [hs, ht]
  unfold OneVerdict
  rw [hfilter]
  constructor
  · rintro ⟨x, hx, h⟩
    cases hx
    exact h
  · exact fun h => ⟨msg, rfl, h⟩

theorem not_oneVerdict {m : Matches} {msgs : List OperatorMessage}
    (h : ∀ msg ∈ msgs, msg.messageType.isTerminal = false) : ¬OneVerdict m msgs := by
  rintro ⟨msg, hf, -⟩
  have hnil : msgs.filter (·.messageType.isTerminal) = [] :=
    List.filter_eq_nil_iff.2 fun x hx => by simp [h x hx]
  rw [hnil] at hf
  cases hf

/-- What follows the update of the trades: the message about the sending, then the terminal one. -/
theorem awaitMined_verdict {v : Verdict} {m : Matches} {us : List (Option Trade)} {w : World}
    (hf : env.fails (w.calls + 1) = false) :
    Prog.wp (do
      match ← Prog.attempt (publishTradeSentMessage m us) with
      | .error _ => Prog.throw (.msg "Could not update")
      | .ok () => TxQueue.awaitMined v m us) env w
      (fun _ w' => ∃ msgs, w'.txMessages = w.txMessages ++ msgs ∧ (OneVerdict m msgs ↔
        us.map (Option.map Trade.terms) = m.trades.map (fun t => some t.terms) ∧
          env.fails w.calls = false ∧ v.reverted.isSome))
      (fun _ w' => ∃ msgs, w'.txMessages = w.txMessages ++ msgs ∧ (OneVerdict m msgs ↔
        us.map (Option.map Trade.terms) = m.trades.map (fun t => some t.terms) ∧
          env.fails w.calls = false ∧ v.reverted.isSome)) := by
  rw [Prog.wp_bind, Prog.wp_attempt]
  unfold publishTradeSentMessage publishTxMessage
  refine wp_call (fun hsent => ?_) fun hsent => ?_
  · refine ⟨[], by simp [World.tick], iff_of_false (not_oneVerdict (by simp)) fun h => ?_⟩
    rw [hsent] at h
    cases h.2.1
  · rw [Prog.ends_ok]
    dsimp only
    unfold TxQueue.awaitMined
    cases hr : v.reverted with
    | none =>
      refine ⟨_, rfl, iff_of_false (not_oneVerdict fun msg hmsg => ?_) fun h => by cases h.2.2⟩
      rw [List.mem_singleton.1 hmsg]
      rfl
    | some reverted =>
      have hpost : ∀ {w' : World} {msg : OperatorMessage}, msg.messageType.isTerminal = true →
          msg.trades = us → w'.txMessages = w.txMessages ++
            [{ m.message .TRADE_TX_PENDING with trades := us }] ++ [msg] →
          ∃ msgs, w'.txMessages = w.txMessages ++ msgs ∧ (OneVerdict m msgs ↔
            us.map (Option.map Trade.terms) = m.trades.map (fun t => some t.terms) ∧
              env.fails w.calls = false ∧ (some reverted).isSome) := by
        rintro w' msg ht rfl hw'
        rw [List.append_assoc] at hw'
        refine ⟨_, hw', (oneVerdict_pair rfl ht).trans ?_⟩
        simp [hsent]
      cases reverted with
      | true =>
        simp only [TxQueue.handleTxError, Prog.wp_bind, Prog.wp_attempt]
        exact Prog.wp_mono (publishTxMessage_ends hf) (fun _ w' hw' => hpost rfl rfl hw'.1)
          fun _ _ h => h.elim
      | false =>
        exact Prog.wp_mono (publishTxMessage_ends hf) (fun _ w' hw' => hpost rfl rfl hw'.1)
          fun _ _ h => h.elim

/-- **`ExecuteTrade`**: when its terminal messages are published, there is one unless the batch is
sent and something fails before the receipt. -/
theorem executeTrade_verdict {v : Verdict} {m : Matches} {w : World}
    (hf : env.fails (w.calls + v.terminalCall m) = false) :
    ∃ msgs, (TxQueue.executeTrade v m env w).2.txMessages = w.txMessages ++ msgs ∧
      (OneVerdict m msgs ↔ (v.Sends → v.Follows env m w.calls)) := by
  refine Prog.wp_state (P := fun w' : World => ∃ msgs, w'.txMessages = w.txMessages ++ msgs ∧
    (OneVerdict m msgs ↔ (v.Sends → v.Follows env m w.calls))) ?_
  -- a batch that is not sent has its verdict at once
  have hunsent : ∀ {type : OperatorMessageType} {err : String}, ¬v.Sends → type.isTerminal = true →
      Prog.wp (publishTxMessage (m.message type err)) env w
        (fun _ w' => ∃ msgs, w'.txMessages = w.txMessages ++ msgs ∧
          (OneVerdict m msgs ↔ (v.Sends → v.Follows env m w.calls))) (fun _ _ => False) := by
    intro type err hv ht
    rw [Verdict.terminalCall, if_neg hv, Nat.add_zero] at hf
    refine Prog.wp_mono (publishTxMessage_ends hf) (fun _ w' hw' => ?_) fun _ _ h => h
    exact ⟨_, hw'.1, iff_of_true (oneVerdict_message m ht err) fun h => absurd h hv⟩
  unfold TxQueue.executeTrade
  cases hg : v.gasLimit with
  | none =>
    have hv : ¬v.Sends := by
      rintro ⟨⟨gas, hgas, -⟩, -⟩
      rw [hg] at hgas
      cases hgas
    simp only [TxQueue.handleTradeInvalid, Prog.wp_bind, Prog.wp_attempt]
    exact Prog.wp_mono (hunsent hv rfl) (fun _ _ h => h) fun _ _ h => h.elim
  | some gas =>
    dsimp only
    split
    · rename_i hlow
      have hv : ¬v.Sends := by
        rintro ⟨⟨gas', hgas, hle⟩, -⟩
        rw [hg] at hgas
        cases hgas
        omega
      simp only [TxQueue.handleTradeInvalid, Prog.wp_bind, Prog.wp_attempt]
      exact Prog.wp_mono (hunsent hv rfl) (fun _ _ h => h) fun _ _ h => h.elim
    · rename_i hhigh
      split
      · rename_i nonce tx hn htx
        have hv : v.Sends := ⟨⟨gas, hg, by omega⟩, by rw [hn]; rfl, by rw [htx]; rfl⟩
        rw [Verdict.terminalCall, if_pos hv] at hf
        rw [Prog.wp_bind]
        refine Prog.wp_mono (updatePendingTrades_terms tx m.trades w) (fun us w₁ h₁ => ?_)
          fun _ _ h => h.elim
        obtain ⟨hcalls, hmsgs, hus⟩ := h₁
        have hdone : ∀ w' : World, (∃ msgs, w'.txMessages = w₁.txMessages ++ msgs ∧
            (OneVerdict m msgs ↔
            us.map (Option.map Trade.terms) = m.trades.map (fun t => some t.terms) ∧
              env.fails w₁.calls = false ∧ v.reverted.isSome)) →
            ∃ msgs, w'.txMessages = w.txMessages ++ msgs ∧
              (OneVerdict m msgs ↔ (v.Sends → v.Follows env m w.calls)) := by
          rintro w' ⟨msgs, hw', hiff⟩
          rw [hmsgs] at hw'
          refine ⟨msgs, hw', hiff.trans ?_⟩
          rw [hus, hcalls]
          exact ⟨fun h _ => h, fun h => h hv⟩
        exact Prog.wp_mono (awaitMined_verdict (by rw [hcalls, Nat.add_assoc]; exact hf))
          (fun _ w' => hdone w') fun _ w' => hdone w'
      · rename_i hno
        have hv : ¬v.Sends := by
          rintro ⟨-, hn, htx⟩
          obtain ⟨nonce, hn⟩ := Option.isSome_iff_exists.1 hn
          obtain ⟨tx, htx⟩ := Option.isSome_iff_exists.1 htx
          exact hno nonce tx hn htx
        simp only [TxQueue.handleError, Prog.wp_bind, Prog.wp_attempt]
        exact Prog.wp_mono (hunsent hv rfl) (fun _ _ h => h) fun _ _ h => h.elim

theorem Matches.validate_conveyed {c : Codec} {x : Address} {eth : Eth} {m : Matches} :
    (∃ b, (m.conveyed c).validate x eth = .ok b) ↔ ∃ b, m.validate x eth = .ok b := by
  have horder : ∀ o : Order, (∃ o', (o.conveyed c).validate x eth = .ok o') ↔
      ∃ o', o.validate x eth = .ok o' := fun o =>
    ⟨fun h => Order.validate_at h o.createdAt, fun h => Order.validate_at h _⟩
  have htrade : ∀ t : Trade, (t.conveyed c).validate eth = t.validate eth := fun t => rfl
  rw [Matches.validate_isOk, Matches.validate_isOk]
  simp only [Matches.conveyed, ne_eq, List.map_eq_nil_iff, List.forall_mem_map, horder, htrade]

/-- **`ConsumeQueuedTrades`** on the encoded batch. -/
theorem consumeQueuedTrades_verdict (hc : env.eth.ReadsBack) {x : Address} {v : Verdict}
    {m : Matches} {w : World} (hf : env.fails (w.calls + v.terminalCall m) = false) :
    ∃ msgs, (TxQueue.consumeQueuedTrades x v (m.raw.marshalJSON env.codec) env w).2.txMessages =
        w.txMessages ++ msgs ∧
      (OneVerdict m msgs ↔ (∃ b, m.validate x env.eth = .ok b) ∧
        (v.Sends → v.Follows env m w.calls)) := by
  have hdropped : (¬∃ b, m.validate x env.eth = .ok b) → ∃ msgs,
      w.txMessages = w.txMessages ++ msgs ∧ (OneVerdict m msgs ↔
        (∃ b, m.validate x env.eth = .ok b) ∧ (v.Sends → v.Follows env m w.calls)) :=
          fun hinvalid =>
    ⟨[], by simp, iff_of_false (not_oneVerdict (by simp)) fun h => hinvalid h.1⟩
  by_cases hn : ∀ t ∈ m.trades, t.Named
  · have hdec := Matches.unmarshalJSON_marshalJSON (c := env.codec) hc hn
    have hstep : TxQueue.consumeQueuedTrades x v (m.raw.marshalJSON env.codec) env w =
        TxQueue.consume x v (m.conveyed env.codec) env w := by
      unfold TxQueue.consumeQueuedTrades
      rw [Prog.bind_ok (show Prog.ask env w = (.ok env, w) from rfl), hdec]
      dsimp only
      rw [Matches.raw_matches]
    rw [hstep]
    cases hv : (m.conveyed env.codec).validate x env.eth with
    | error e =>
      have hinvalid : ¬∃ b, m.validate x env.eth = .ok b := fun h => by
        obtain ⟨b, hb⟩ := Matches.validate_conveyed (c := env.codec).2 h
        rw [hv] at hb
        cases hb
      have hw : (TxQueue.consume x v (m.conveyed env.codec) env w).2 = w := by
        show ((checked ((m.conveyed env.codec).validate x env.eth) >>= TxQueue.executeTrade v)
          env w).2 = w
        rw [hv]
        rfl
      rw [hw]
      exact hdropped hinvalid
    | ok b =>
      have hw : TxQueue.consume x v (m.conveyed env.codec) env w =
          TxQueue.executeTrade v b env w := by
        show (checked ((m.conveyed env.codec).validate x env.eth) >>=
          TxQueue.executeTrade v) env w = _
        rw [hv]
        rfl
      have htrades : b.trades = m.trades.map (·.conveyed env.codec) := Matches.validate_trades hv
      have hlen : b.trades.length = m.trades.length := by rw [htrades, List.length_map]
      have hterms : b.trades.map Trade.terms = m.trades.map Trade.terms := by
        rw [htrades, List.map_map]
        rfl
      have hvalid : ∃ b, m.validate x env.eth = .ok b :=
        Matches.validate_conveyed (c := env.codec).1 ⟨b, hv⟩
      rw [Verdict.terminalCall, ← hlen] at hf
      obtain ⟨msgs, hmsgs, hiff⟩ := executeTrade_verdict (m := b) hf
      refine ⟨msgs, by rw [hw, hmsgs], ?_⟩
      rw [← OneVerdict.congr hterms, hiff, Verdict.Follows, Verdict.Follows, hlen]
      exact ⟨fun h => ⟨hvalid, h⟩, fun h => h.2⟩
  · have hinvalid : ¬∃ b, m.validate x env.eth = .ok b := fun h => by
      refine hn fun t ht => ?_
      obtain ⟨-, -, -, hm, hb, hq, -⟩ :=
        Trade.validate_eq_ok.1 ((Matches.validate_isOk.1 h).2.2.1 t ht)
      exact ⟨hb, hq, hm⟩
    have hw : (TxQueue.consumeQueuedTrades x v (m.raw.marshalJSON env.codec) env w).2 = w := by
      unfold TxQueue.consumeQueuedTrades
      rw [Prog.bind_ok (show Prog.ask env w = (.ok env, w) from rfl)]
      cases hdec : RawMatches.unmarshalJSON env.codec (m.raw.marshalJSON env.codec) with
      | error e => cases e <;> rfl
      | ok r => exact absurd (Matches.named_of_unmarshalJSON hdec) hn
    rw [hw]
    exact hdropped hinvalid

end

/-! ## The way of a batch -/

/-- **A batch has its one verdict** exactly if it is queued and valid and, should it be sent,
nothing fails before the receipt. The terminal messages themselves are published. -/
theorem one_verdict {op : Operator} {x : Address} {v : Verdict} {env : Env} {m : Matches}
    {w w' : World} (hc : env.eth.ReadsBack)
    (hf : env.fails (w'.calls + v.terminalCall m) = false) :
    OneVerdict m (op.messages x v env m w w') ↔
      op.Queues env w ∧ (∃ b, m.validate x env.eth = .ok b) ∧
        (v.Sends → v.Follows env m w'.calls) := by
  obtain ⟨hmsgs, hqueue⟩ := op.queueTrade_queued m env w
  obtain ⟨msgs, hw', hiff⟩ := consumeQueuedTrades_verdict hc (x := x) hf
  unfold Operator.messages
  dsimp only
  rw [hmsgs, List.drop_length, List.nil_append]
  by_cases hq : op.Queues env w
  · rw [if_neg (fun h => hqueue.1 h hq), hw', List.drop_left, hiff]
    exact ⟨fun h => ⟨hq, h⟩, fun h => h.2⟩
  · rw [if_pos (hqueue.2 hq)]
    exact iff_of_false (not_oneVerdict (by simp)) fun h => hq h.1

/-- A BUY of 4 and a part of a SELL of 10, both signed. -/
def Matches.sample : Matches :=
  let sell := Order.submitted 1 .SELL 10
  let buy := Order.submitted 2 .BUY 4
  ⟨[filledMaker buy sell], (filledTaker buy sell).complete, [newTrade .sample buy sell]⟩

/-- The batch is sent, and mined. -/
def Verdict.sample : Verdict := ⟨some 150000, some 0, some 7, some false⟩

theorem one_verdict_mined :
    let msgs := Operator.messages ⟨1⟩ 2 .sample (.sample .stored) .sample .empty .empty
    msgs.map (·.messageType) = [.TRADE_TX_PENDING, .TRADE_TX_SUCCESS] ∧
    OneVerdict .sample msgs := by
  intro msgs
  refine ⟨by decide +kernel, (one_verdict Eth.sample_readsBack rfl).2 ⟨by decide +kernel, ?_, ?_⟩⟩
  · exact ⟨.sample, by decide +kernel⟩
  · exact fun _ => by decide +kernel

/-- The only queue holds eleven batches: the twelfth gets no message at all, though no call
fails. -/
theorem full_queue_no_verdict :
    let w := { World.empty with txQueue := List.replicate 11 (0, .sample) }
    Operator.messages ⟨1⟩ 2 .sample (.sample .stored) .sample w .empty = [] ∧
      ¬OneVerdict .sample (Operator.messages ⟨1⟩ 2 .sample (.sample .stored) .sample w .empty) := by
  intro w
  have hnone : Operator.messages ⟨1⟩ 2 .sample (.sample .stored) .sample w .empty = [] := by
    decide +kernel
  refine ⟨hnone, ?_⟩
  rw [hnone]
  exact not_oneVerdict (by simp)

end Dex
