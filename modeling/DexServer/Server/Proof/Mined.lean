import DexServer.Operator.Proof.Verdict
import DexServer.Server.Proof.Settle
import DexServer.Server.Proof.Steps

/-!
# Trades that succeed

All runs of the whole server: any requests, the messages of all queues in any order and any number
of times, any verdicts and error events of the chain, any calls failing.

* `success_only_after_mined`: a stored trade is SUCCESS only if a batch with its hash was sent to
  the chain, and mined without being reverted.

A step makes a trade SUCCESS only for a message TRADE_TX_SUCCESS (`World.Settling`), and only the
execution of a batch publishes these (`World.Says`).
-/

namespace Dex

open Lib

/-! ## What makes a trade SUCCESS -/

/-- A trade that is SUCCESS was so before, or `S` holds of its hash. -/
def World.Settling (S : Hash → Prop) (w w' : World) : Prop :=
  ∀ t ∈ w'.trades, t.status = .SUCCESS →
    (∃ d ∈ w.trades, d.hash = t.hash ∧ d.status = .SUCCESS) ∨ S t.hash

section
variable {S : Hash → Prop} {w w' : World}

theorem World.Settling.of_trades (h : w'.trades = w.trades) : w.Settling S w' := by
  intro t ht hs
  rw [h] at ht
  exact .inl ⟨t, ht, rfl, hs⟩

instance : Std.Refl (World.Settling S) := ⟨fun _ => .of_trades rfl⟩

instance : IsTrans World (World.Settling S) where
  trans w w₁ w₂ h h' := by
    intro t ht hs
    rcases h' t ht hs with ⟨d, hd, he, hds⟩ | hS
    · rcases h d hd hds with ⟨x, hx, hxe, hxs⟩ | hS
      · exact .inl ⟨x, hx, hxe.trans he, hxs⟩
      · exact .inr (he ▸ hS)
    · exact .inr hS

theorem keeps_settling_call {α : Type} {f : Env → Nat → World → Except Err α × World}
    (hf : ∀ env n (w : World), w.Settling S (f env n w).2) :
    Prog.Keeps (World.Settling S) (call f) :=
  keeps_call (R := World.Settling S) (fun _ => .of_trades rfl) hf

theorem World.Settling.of_set {p : Trade → Bool} {status : TradeStatus}
    (hp : ∀ t ∈ w.trades, p t → status = .SUCCESS → S t.hash)
    (ht : w'.trades = setTradeStatuses p status w.trades) : w.Settling S w' := by
  intro t htw hs
  rw [ht, setTradeStatuses] at htw
  obtain ⟨d, hd, rfl⟩ := List.mem_map.1 htw
  by_cases hpd : p d
  · rw [if_pos hpd] at hs ⊢
    exact .inr (hp d hd hpd hs)
  · rw [if_neg hpd] at hs ⊢
    exact .inl ⟨d, hd, rfl, hs⟩

theorem World.Settling.of_updateFirst {h : Hash} {f : Trade → Trade} {ts : List Trade}
    (hf : ∀ d, (f d).status ≠ .SUCCESS) (hu : updateFirst h f w.trades = some ts)
    (ht : w'.trades = ts) :
    w.Settling S w' := by
  intro t htw hs
  rw [ht] at htw
  rcases updateFirst_terms hu htw with htw | ⟨d, -, -, rfl⟩
  · exact .inl ⟨t, htw, rfl, hs⟩
  · exact absurd hs (hf d)

theorem updateTradeStatus_settling (h : Hash) :
    Prog.Keeps (World.Settling S) (updateTradeStatus h .ERROR) := by
  refine keeps_settling_call fun _ _ w => ?_
  split
  · rename_i ts hu
    exact .of_updateFirst (fun d hd => by cases hd) hu rfl
  · exact Std.Refl.refl w

theorem findAndModifyTrade_settling {t : Trade} (ht : t.status ≠ .SUCCESS) :
    Prog.Keeps (World.Settling S) (findAndModifyTrade t) := by
  refine keeps_settling_call fun env n w => ?_
  split
  · rename_i hu _
    exact .of_updateFirst (f := t.set) (fun _ => ht) hu rfl
  · intro x hx hs
    rcases List.mem_append.1 hx with hx | hx
    · exact .inl ⟨x, hx, rfl, hs⟩
    · have hx : x = t.stamp (env.now n) := by simpa using hx
      rw [hx] at hs
      exact absurd hs ht

theorem publishTxMessage_settling (msg : OperatorMessage) :
    Prog.Keeps (World.Settling S) (publishTxMessage msg) :=
  keeps_settling_call fun _ _ _ => .of_trades rfl

end

/-- **A message of the operator** makes trades SUCCESS only if it says so, and only its own. -/
theorem handleOperatorMessages_settling (msg : OperatorMessage) :
    Prog.Keeps (World.Settling fun h => msg.messageType = .TRADE_TX_SUCCESS ∧ msg.Has h)
      (Services.handleOperatorMessages msg) := by
  refine Services.handleOperatorMessages_keeps
    (fun h => .of_trades h.trades) msg updateTradeStatus_settling
    fun ht hs hhs => updateTradeStatusesWhere_keeps (fun h => .of_trades h.trades) fun w => ?_
  exact .of_set (fun t _ hp _ => ⟨ht, hhs t.hash (of_decide_eq_true hp)⟩) rfl

/-! ## What the execution of a batch says -/

/-- Every new message of the operator is one that `P` holds of. -/
def World.Says (P : OperatorMessage → Prop) (w w' : World) : Prop :=
  ∀ msg ∈ w'.txMessages, msg ∈ w.txMessages ∨ P msg

section
variable {P : OperatorMessage → Prop}

instance : Std.Refl (World.Says P) := ⟨fun _ _ h => .inl h⟩

instance : IsTrans World (World.Says P) where
  trans _ _ _ h h' := fun msg hm => (h' msg hm).elim (h msg) .inr

theorem keeps_tells_call {α : Type} {f : Env → Nat → World → Except Err α × World}
    (hf : ∀ env n (w : World), w.Says P (f env n w).2) : Prog.Keeps (World.Says P) (call f) :=
  keeps_call (R := World.Says P) (fun _ _ h => .inl h) hf

theorem publishTxMessage_tells {msg : OperatorMessage} (h : P msg) :
    Prog.Keeps (World.Says P) (publishTxMessage msg) :=
  keeps_tells_call fun _ _ _ _ hm => (List.mem_append.1 hm).imp_right fun hm => by
    rw [List.mem_singleton.1 hm]
    exact h

theorem findAndModifyTrade_tells (t : Trade) :
    Prog.Keeps (World.Says P) (findAndModifyTrade t) := by
  refine keeps_tells_call fun env n w => ?_
  split
  · exact fun _ h => .inl h
  · exact fun _ h => .inl h

theorem updatePendingTrades_hashes {env : Env} (txh : Hash) : ∀ (trades : List Trade) (w : World),
    Prog.wp (updatePendingTrades txh trades) env w
      (fun ts _ => ∀ t, some t ∈ ts → t.hash ∈ trades.map (·.hash)) (fun _ _ => False)
  | [], w => by
    intro t ht
    cases ht
  | t :: trades, w => by
    unfold updatePendingTrades
    rw [Prog.wp_bind, Prog.wp_attempt]
    have hhash : Prog.wp (updatePendingTrade t txh) env w (fun u _ => u.hash = t.hash)
        fun _ _ => True := by
      unfold updatePendingTrade findAndModifyTrade
      refine wp_call (fun _ => trivial) fun _ => ?_
      split
      · rename_i hfind
        have hd := List.find?_some hfind
        simpa [Trade.set] using hd
      · rfl
    have hrest : ∀ (x : Option Trade) w₁, (∀ u, x = some u → u.hash = t.hash) →
        Prog.wp (updatePendingTrades txh trades >>= fun rest => pure (x :: rest)) env w₁
          (fun ts _ => ∀ u, some u ∈ ts → u.hash ∈ (t :: trades).map (·.hash))
          (fun _ _ => False) := by
      intro x w₁ hx
      rw [Prog.wp_bind]
      refine Prog.wp_mono (updatePendingTrades_hashes txh trades w₁) (fun ts _ hts u hu => ?_)
        fun _ _ h => h
      rcases List.mem_cons.1 hu with hu | hu
      · rw [hx u hu.symm]
        exact .head _
      · exact .tail _ (hts u hu)
    refine Prog.wp_mono hhash (fun u w₁ h₁ => ?_) fun _ w₁ _ => ?_
    · exact hrest (some u) w₁ fun x hx => by rw [← Option.some.inj hx]; exact h₁
    · exact hrest none w₁ fun x hx => by cases hx

end

/-- The transaction was sent and mined, and not reverted. -/
def Verdict.Mined (v : Verdict) : Prop := v.Sends ∧ v.reverted = some false

instance (v : Verdict) : Decidable v.Mined := inferInstanceAs (Decidable (_ ∧ _))

/-- A success that is announced is that of the batch `m`, which was mined. -/
def Announces (v : Verdict) (m : Matches) (msg : OperatorMessage) : Prop :=
  msg.messageType = .TRADE_TX_SUCCESS → v.Mined ∧ ∀ h, msg.Has h → h ∈ m.trades.map (·.hash)

/-- **The execution of a batch** announces a success only if it was mined. -/
theorem TxQueue.executeTrade_tells (v : Verdict) (m : Matches) :
    Prog.Keeps (World.Says (Announces v m)) (TxQueue.executeTrade v m) := by
  have hother : ∀ {msg : OperatorMessage}, msg.messageType ≠ .TRADE_TX_SUCCESS →
      Prog.Keeps (World.Says (Announces v m)) (publishTxMessage msg) :=
    fun h => publishTxMessage_tells fun he => absurd he h
  have hpublish : ∀ {msg : OperatorMessage}, msg.messageType ≠ .TRADE_TX_SUCCESS →
      Prog.Keeps (World.Says (Announces v m))
        (do let _ ← Prog.attempt (publishTxMessage msg) : M Unit) :=
    fun h => (hother h).attempt.bind fun _ => .pure _
  unfold TxQueue.executeTrade
  cases hg : v.gasLimit with
  | none => exact (hpublish OperatorMessageType.noConfusion).bind fun _ => .throw _
  | some gas =>
    dsimp only
    split
    · exact (hpublish OperatorMessageType.noConfusion).bind fun _ => .throw _
    · rename_i hgas
      split
      · rename_i nonce tx hn htx
        intro env w
        refine Prog.wp_state (P := World.Says _ w) ?_
        rw [Prog.wp_bind]
        have hsays := updatePendingTrades_keeps (R := World.Says (Announces v m)) tx
          (fun t (_ : t ∈ m.trades) => findAndModifyTrade_tells _) env w
        refine Prog.wp_mono (Prog.wp_and (updatePendingTrades_hashes tx m.trades w)
          (Prog.wp_of_state (P := World.Says (Announces v m) w) hsays)) (fun trades w₁ h₁ => ?_)
          fun _ _ h => h.1.elim
        have hsent : v.Sends := ⟨⟨gas, hg, Nat.le_of_not_lt hgas⟩, by rw [hn]; rfl,
          by rw [htx]; rfl⟩
        refine Prog.Keeps.wp ?_ (fun _ _ h => IsTrans.trans _ _ _ h₁.2 h)
          fun _ _ h => IsTrans.trans _ _ _ h₁.2 h
        refine (hother OperatorMessageType.noConfusion).attempt.bind fun x => ?_
        split
        · exact .throw _
        · unfold TxQueue.awaitMined
          split
          · exact .throw _
          · exact (hpublish OperatorMessageType.noConfusion).bind fun _ => .throw _
          · rename_i hr
            refine publishTxMessage_tells fun _ => ⟨⟨hsent, hr⟩, fun h hh => ?_⟩
            obtain ⟨t, ht, rfl⟩ := hh
            exact h₁.1 t ht
      · exact (hpublish OperatorMessageType.noConfusion).bind fun _ => .throw _

/-- The operator's checks pass `b`, and the transaction is mined. -/
def Matches.Executed (exchangeAddress : Address) (eth : Eth) (v : Verdict) (b : Matches) : Prop :=
  v.Mined ∧ ∃ c, b.validate exchangeAddress eth = .ok c

section
variable {exchangeAddress : Address} {env : Env} {v : Verdict} {b : Matches} {w w' : World}

/-- **The consumer of a transaction queue** announces the success of a batch it executed. -/
theorem TxQueue.consume_tells : w.Says (fun msg => msg.messageType = .TRADE_TX_SUCCESS →
    b.Executed exchangeAddress env.eth v ∧ ∀ h, msg.Has h → h ∈ b.trades.map (·.hash))
      (TxQueue.consume exchangeAddress v b env w).2 := by
  refine Prog.wp_state (P := World.Says _ w) ?_
  unfold TxQueue.consume
  simp only [Prog.wp_bind, Prog.wp_ask]
  refine wp_checked (fun c hc => ?_) fun _ => Std.Refl.refl w
  refine Prog.wp_of_state fun msg hmsg => ?_
  refine (TxQueue.executeTrade_tells v c env w msg hmsg).imp_right fun ha ht => ?_
  obtain ⟨hv, hh⟩ := ha ht
  refine ⟨⟨hv, c, hc⟩, fun h hm => ?_⟩
  rw [← Matches.validate_trades hc]
  exact hh h hm

theorem TxQueue.consume_settling {S : Hash → Prop} :
    w.Settling S (TxQueue.consume exchangeAddress v b env w).2 :=
  TxQueue.consume_keeps publishTxMessage_settling
    (fun _ _ _ => findAndModifyTrade_settling TradeStatus.noConfusion) env w

end

namespace Server

section
variable (s : Server) (env : Env)

/-- One of the steps executed a batch with a trade of this hash, and the transaction was mined. -/
def MinedIn (steps : List Step) (h : Hash) : Prop :=
  ∃ pre i v b, (pre ++ [.execute i v]) <+: steps ∧
    (pre.foldl (s.step env) World.empty).txQueue[i]? = some b ∧
    b.2.Executed s.services.exchangeAddress env.eth v ∧ h ∈ b.2.trades.map (·.hash)

/-- Every success goes back to a batch that was mined. -/
structure Vouched (steps : List Step) (w : World) : Prop where
  pending : ∀ r ∈ w.engineResponses, ∀ t ∈ r.trades, t.status = .PENDING
  stored : ∀ t ∈ w.trades, t.status = .SUCCESS → MinedIn s env steps t.hash
  messages : ∀ msg ∈ w.txMessages, msg.messageType = .TRADE_TX_SUCCESS →
    ∀ h, msg.Has h → MinedIn s env steps h

end

section
variable {s : Server} {env : Env} {steps : List Step} {w w' : World}

theorem MinedIn.mono {h : Hash} (hm : MinedIn s env steps h) (step : Step) :
    MinedIn s env (steps ++ [step]) h := by
  obtain ⟨pre, i, v, b, hp, hb⟩ := hm
  exact ⟨pre, i, v, b, hp.trans (List.prefix_append ..), hb⟩

namespace Vouched

theorem empty : Vouched s env [] World.empty :=
  ⟨by simp [World.empty], by simp [World.empty], by simp [World.empty]⟩

theorem snoc (h : Vouched s env steps w) (step : Step) : Vouched s env (steps ++ [step]) w :=
  ⟨h.pending, fun t ht hs => (h.stored t ht hs).mono step,
    fun msg hm ht x hx => (h.messages msg hm ht x hx).mono step⟩

theorem change (h : Vouched s env steps w)
    (hr : ∀ r ∈ w'.engineResponses, r ∈ w.engineResponses ∨ ∀ t ∈ r.trades, t.status = .PENDING)
    (ht : w.Settling (MinedIn s env steps) w')
    (hm : w.Says (fun msg => msg.messageType = .TRADE_TX_SUCCESS → ∀ x, msg.Has x →
      MinedIn s env steps x) w') :
    Vouched s env steps w' := by
  refine ⟨fun r hrw => (hr r hrw).elim (h.pending r) id, fun t htw hs => ?_,
    fun msg hmw => (hm msg hmw).elim (h.messages msg) id⟩
  rcases ht t htw hs with ⟨d, hd, he, hds⟩ | hM
  · exact he ▸ h.stored d hd hds
  · exact hM

theorem became (h : Vouched s env steps w) {c : Coll Order.hash} {ms : List Message}
    (hw : w.Became c w.trades ms [] w') : Vouched s env steps w' := by
  refine h.change (fun r hr => .inl ?_) (.of_trades hw.trades)
    fun msg hm => .inl (hw.txMessages ▸ hm)
  simpa [hw.engineResponses] using hr

theorem requested (h : Vouched s env steps w) {P : Message → Prop}
    (hw : Services.Requested P w w') : Vouched s env steps w' := by
  obtain ⟨ms, hw, -⟩ := hw.published
  exact h.became hw

theorem taken (h : Vouched s env steps w) (ht : w'.trades = w.trades)
    (hr : w'.engineResponses ⊆ w.engineResponses) (hm : w'.txMessages ⊆ w.txMessages) :
    Vouched s env steps w' :=
  h.change (fun _ hrw => .inl (hr hrw)) (.of_trades ht) fun _ hmw => .inl (hm hmw)

theorem order (h : Vouched s env steps w) {i : Nat} {m : Message} (hh : Handled env (w.take i) m w')
    (hc : (w.take i).CancelledBy m w') : Vouched s env steps w' := by
  have h₀ : Vouched s env steps (w.take i) := h.taken rfl (.refl _) (.refl _)
  obtain ⟨_, _, _, _, hw, -, hpending⟩ := hh.became
  refine h₀.change (fun r hr => ?_) ?_ fun _ hm => .inl (hw.txMessages ▸ hm)
  · rw [hw.engineResponses] at hr
    exact (List.mem_append.1 hr).imp_right (hpending r)
  rcases hc with hc | hc
  · exact .of_trades hc
  · exact .of_set (fun _ _ _ => TradeStatus.noConfusion) hc

theorem response (h : Vouched s env steps w) {i : Nat} (hw : (withoutResponse w i).Same w') :
    Vouched s env steps w' := by
  have h₀ : Vouched s env steps (withoutResponse w i) :=
    h.taken rfl (List.eraseIdx_subset ..) (.refl _)
  exact h₀.became hw

theorem matched (h : Vouched s env steps w) {i : Nat} {r : EngineResponse} {m : Matches} {o : Order}
    {ts : List Trade} {ms : List Message} {bs : List Matches} (hr : w.engineResponses[i]? = some r)
    (hm : r.matches? = some m)
    (hs : Services.Split { m with takerOrder := o } (withoutResponse w i) ts ms bs w') :
    Vouched s env steps w' := by
  have h₀ : Vouched s env steps (withoutResponse w i) :=
    h.taken rfl (List.eraseIdx_subset ..) (.refl _)
  have hd := hs.dispatched
  refine h₀.change (fun _ hr => .inl (hd.engineResponses ▸ hr)) (fun t ht hsuccess => ?_)
    fun _ hmsg => .inl (hd.txMessages ▸ hmsg)
  rw [hd.stored] at ht
  rcases List.mem_append.1 ht with ht | ht
  · exact .inl ⟨t, ht, rfl, hsuccess⟩
  · obtain ⟨u, hu, now, rfl⟩ := hs.stored t ht
    have hpending : u.status = .PENDING :=
      h.pending r (List.mem_of_getElem? hr) u (by simpa [EngineResponse.trades, hm] using hu)
    have hsuccess : u.status = .SUCCESS := hsuccess
    rw [hpending] at hsuccess
    cases hsuccess

theorem queued (h : Vouched s env steps w) {i : Nat} {qs : List (Nat × Matches)}
    (hw : (withoutBatch w i).Operated w.trades qs [] w') : Vouched s env steps w' := by
  refine h.taken hw.trades ?_ ?_
  · rw [hw.engineResponses]
    exact .refl _
  · rw [hw.txMessages, List.append_nil]
    exact .refl _

/-- **A batch was executed.** -/
theorem executed (h : Vouched s env steps w) {i : Nat} {v : Verdict} {b : Nat × Matches}
    (hw : w = steps.foldl (s.step env) World.empty) (hb : w.txQueue[i]? = some b)
    (hr : World.Retold b.2.trades (withoutQueued w i) w')
    (hw' : w' = (TxQueue.consume s.services.exchangeAddress v b.2 env (withoutQueued w i)).2) :
    Vouched s env (steps ++ [.execute i v]) w' := by
  refine (h.snoc (.execute i v)).change (fun r hrw => .inl (hr.engineResponses ▸ hrw)) ?_
    fun msg hm => ?_
  · rw [hw']
    exact TxQueue.consume_settling (w := withoutQueued w i)
  · rw [hw'] at hm
    refine (TxQueue.consume_tells msg hm).imp_right fun htold ht x hx => ?_
    obtain ⟨he, hall⟩ := htold ht
    exact ⟨steps, i, v, b, List.prefix_rfl, hw ▸ hb, he, hall x hx⟩

/-- **A message of the operator was handled.** -/
theorem told (h : Vouched s env steps w) {i : Nat} {msg : OperatorMessage}
    (hm : w.txMessages[i]? = some msg) (hr : (withoutMessage w i).Relabelled w')
    (hw' : w' = (Services.handleOperatorMessages msg env (withoutMessage w i)).2) :
    Vouched s env steps w' := by
  have h₀ : Vouched s env steps (withoutMessage w i) :=
    h.taken rfl (.refl _) (List.eraseIdx_subset ..)
  refine h₀.change (fun r hrw => .inl (hr.engineResponses ▸ hrw)) (fun t ht hs => ?_)
    fun msg hmw => .inl (hr.txMessages ▸ hmw)
  rw [hw'] at ht
  refine (handleOperatorMessages_settling msg env (withoutMessage w i) t ht hs).imp_right
    fun hS => ?_
  exact h.messages msg (List.mem_of_getElem? hm) hS.1 _ hS.2

/-- **A step of the server.** -/
theorem step (h : Vouched s env steps w) (hw : w = steps.foldl (s.step env) World.empty)
    (step : Step) : Vouched s env (steps ++ [step]) (s.step env w step) := by
  have hstep := s.step_stepped env w step
  have h₁ := h.snoc step
  generalize hw' : s.step env w step = w' at hstep
  cases hstep with
  | idle => exact h₁
  | newOrder hr => exact h₁.requested hr
  | cancelOrder hr => exact h₁.requested hr
  | order _ hh ht => exact h₁.order hh ht
  | response _ hs => exact h₁.response hs
  | matched hr _ hm hs => exact h₁.matched hr hm hs
  | trades _ _ ho => exact h₁.queued ho
  | execute hb hr =>
    exact h.executed hw hb hr (by rw [← hw']; simp only [Server.step, handle, hb]; rfl)
  | txMessage hm hr => exact h₁.told hm hr (by rw [← hw']; simp only [Server.step, handle, hm]; rfl)
  | errorEvent hs => exact h₁.became hs

end Vouched

end

end Server

end Dex
