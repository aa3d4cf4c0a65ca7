import DexServer.Engine.Proof.GiveBack
import DexServer.Operator.Proof.Execute
import DexServer.Server.Server
import DexServer.Services.Proof.Messages

/-!
# An error of the exchange contract

The event names a maker and a taker order. `HandleEvents` fetches the trades by the taker order
only, and the order service marks every trade of the message.

* `errorEvent_fails_taker`: all trades of the taker order fail, those with other makers too.
* `own_trade_fails_iff`: only the trade of the event fails exactly if the taker order has no other
  trade, and the calls on the way succeed.
-/

namespace Dex

open Lib

/-! ## The event and its message -/

/-- The trade is between the two orders of the event. -/
def ErrorEvent.Concerns (e : ErrorEvent) (t : Trade) : Prop :=
  t.makerOrderHash = e.makerOrderHash ∧ t.takerOrderHash = e.takerOrderHash

instance (e : ErrorEvent) (t : Trade) : Decidable (e.Concerns t) :=
  inferInstanceAs (Decidable (_ ∧ _))

/-- The stored trades of the taker order of the event. -/
def ErrorEvent.takerTrades (e : ErrorEvent) (w : World) : List Trade :=
  w.trades.filter (·.takerOrderHash = e.takerOrderHash)

/-- What `handleEvent` publishes. -/
def ErrorEvent.message (e : ErrorEvent) (env : Env) (w : World) : OperatorMessage where
  makerOrders := [if env.fails (w.calls + 2) then none else w.orders.get e.makerOrderHash]
  takerOrder := if env.fails (w.calls + 1) then none else w.orders.get e.takerOrderHash
  trades := if env.fails w.calls then [] else (env.scanTrades w.calls (e.takerTrades w)).map some
  messageType := .TRADE_ERROR
  errorType := getErrorType e.errorId.toNat

theorem ErrorEvent.message_trades {e : ErrorEvent} {env : Env} {w : World}
    (h : env.fails w.calls = false) :
    (e.message env w).trades = (env.scanTrades w.calls (e.takerTrades w)).map some :=
  if_neg (by simp [h])

theorem attempt_query {α : Type} (f : Env → Nat → World → α) (env : Env) (w : World) :
    Prog.attempt (call fun env n w => (.ok (f env n w), w)) env w =
      (.ok (if env.fails w.calls then .error .io else .ok (f env w.calls w.tick)), w.tick) := by
  cases hf : env.fails w.calls <;> simp [Prog.attempt, call, hf]

theorem attempt_publishTxMessage (msg : OperatorMessage) (env : Env) (w : World) :
    ((do let _ ← Prog.attempt (publishTxMessage msg) : M Unit) env w).2 =
      { w with
        calls := w.calls + 1
        txMessages := w.txMessages ++ if env.fails w.calls then [] else [msg] } := by
  cases hf : env.fails w.calls <;>
    simp [publishTxMessage, call, Bind.bind, Prog.attempt, hf, World.tick, pure]

theorem Operator.handleEvent_eq (opened : Bool) (e : ErrorEvent) (env : Env) (w : World) :
    (handleEvent opened e env w).2 =
      if opened then
        { w with
          calls := w.calls + 4
          txMessages := w.txMessages ++
            if env.fails (w.calls + 3) then [] else [e.message env w] }
      else { w with calls := w.calls + 3 } := by
  unfold handleEvent getTradesByTakerOrderHash getByHash
  rw [Prog.bind_ok (attempt_query _ env w), Prog.bind_ok (attempt_query _ env w.tick),
    Prog.bind_ok (attempt_query _ env w.tick.tick)]
  unfold handleTxError
  cases opened with
  | false => rfl
  | true =>
    have htrades : ∀ l : List Trade,
        ((if env.fails w.calls then Except.error Err.io else .ok l).toOption.getD []).map some =
          if env.fails w.calls then [] else l.map some := by
      intro l
      cases env.fails w.calls <;> rfl
    have horder : ∀ n (o : Option Order),
        (if env.fails n then Except.error Err.io else .ok o).toOption.join =
          if env.fails n then none else o := by
      intro n o
      cases env.fails n <;> rfl
    rw [htrades, horder, horder]
    exact attempt_publishTxMessage _ env _

/-! ## What a status update changes -/

/-- The status of a trade becomes ERROR. -/
def Trade.failed (t : Trade) : Trade := { t with status := .ERROR }

theorem Trade.failed_eq_self {t : Trade} : t.failed = t ↔ t.status = .ERROR := by
  constructor
  · intro h
    rw [← h]
    rfl
  · intro h
    rw [failed, ← h]

/-- The stored trade that an update by the hash `h` changes. -/
def World.firstTrade (w : World) (h : Hash) : Option Trade := w.trades.find? (·.hash = h)

theorem updateFirst_found {ts : List Trade} {h : Hash} {d : Trade} (f : Trade → Trade)
    (hd : ts.find? (·.hash = h) = some d) :
    ∃ pre post, ts = pre ++ d :: post ∧ updateFirst h f ts = some (pre ++ f d :: post) := by
  rcases updateFirst_spec h f ts with ⟨-, hno⟩ | ⟨pre, d', post, hts, hd', hpre, hu⟩
  · have hh : d.hash = h := by simpa using List.find?_some hd
    exact absurd hh (hno d (List.mem_of_find?_eq_some hd))
  · have hfind : ts.find? (·.hash = h) = some d' := by
      rw [hts, List.find?_append]
      have hnone : pre.find? (·.hash = h) = none := by simpa using hpre
      simp [hnone, hd']
    rw [hd, Option.some.injEq] at hfind
    subst hfind
    exact ⟨pre, post, hts, hu⟩

theorem updateFirst_nodup {ts : List Trade} (hn : (ts.map (·.hash)).Nodup)
    (h : Hash) :
    (updateFirst h Trade.failed ts).getD ts = setTradeStatuses (·.hash = h) .ERROR ts := by
  rcases updateFirst_spec h Trade.failed ts with ⟨hu, hno⟩ | ⟨pre, d, post, rfl, hd, hpre, hu⟩
  · rw [hu, Option.getD_none, setTradeStatuses_none]
    simpa using hno
  · rw [List.map_append, List.map_cons, List.nodup_append] at hn
    have hpost : ∀ t ∈ post, t.hash ≠ h := by
      intro t ht hh
      exact (List.nodup_cons.1 hn.2.1).1 (hd ▸ hh ▸ List.mem_map_of_mem ht)
    rw [hu, Option.getD_some, setTradeStatuses_mid, setTradeStatuses_none _ (by simpa using hpre),
      setTradeStatuses_none _ (by simpa using hpost), if_pos (by simpa using hd)]
    rfl

/-- The trade `t`, the only one that `q` selects, is marked and no other, exactly if the update by
its hash finds it, or finds what is marked already. -/
theorem marked_iff {pre post : List Trade} {d t : Trade} {q : Trade → Bool}
    (hq : (pre ++ d :: post).filter q = [t]) :
    pre ++ d.failed :: post = setTradeStatuses q .ERROR (pre ++ d :: post) ↔
      d = t ∨ t.status = .ERROR ∧ d.status = .ERROR := by
  have ht : t ∈ (pre ++ d :: post) ∧ q t = true :=
    List.mem_filter.1 (hq ▸ List.mem_singleton_self t)
  have honly : ∀ x ∈ (pre ++ d :: post), q x = true → x = t := by
    intro x hx hqx
    exact List.mem_singleton.1 (hq ▸ List.mem_filter.2 ⟨hx, hqx⟩)
  constructor
  · intro h
    by_cases hdt : d = t
    · exact .inl hdt
    · have hqd : ¬q d = true := fun hqd => hdt (honly d (by simp) hqd)
      rw [setTradeStatuses_mid, if_neg hqd] at h
      obtain ⟨hpre, hrest⟩ := List.append_inj h (by simp [setTradeStatuses])
      rw [List.cons.injEq, Trade.failed_eq_self] at hrest
      have hself : setTradeStatuses q .ERROR (pre ++ d :: post) = pre ++ d :: post := by
        rw [setTradeStatuses_mid, if_neg hqd, ← hpre, ← hrest.2]
      exact .inr ⟨setTradeStatuses_eq_self.1 hself t ht.1 ht.2, hrest.1⟩
  · rintro (rfl | ⟨hts, hds⟩)
    · rw [List.filter_append, List.filter_cons_of_pos ht.2] at hq
      have hlen := congrArg List.length hq
      simp only [List.length_append, List.length_cons, List.length_nil] at hlen
      have hpre := List.filter_eq_nil_iff.1 (List.eq_nil_of_length_eq_zero
        (show (pre.filter q).length = 0 by omega))
      have hpost := List.filter_eq_nil_iff.1 (List.eq_nil_of_length_eq_zero
        (show (post.filter q).length = 0 by omega))
      rw [setTradeStatuses_mid, setTradeStatuses_none _ hpre, setTradeStatuses_none _ hpost,
        if_pos ht.2]
      rfl
    · rw [Trade.failed_eq_self.2 hds, setTradeStatuses_eq_self.2]
      intro x hx hqx
      rw [honly x hx hqx]
      exact hts

/-! ## The handler of the message -/

theorem updateTradeStatus_trades (h : Hash) (env : Env) (w : World) :
    (updateTradeStatus h .ERROR env w).2.trades =
      if env.fails w.calls then w.trades else
        (updateFirst h Trade.failed w.trades).getD w.trades := by
  unfold updateTradeStatus call
  cases env.fails w.calls with
  | true => rfl
  | false =>
    rw [if_neg Bool.false_ne_true, if_neg Bool.false_ne_true]
    dsimp only
    split
    case h_1 trades hu =>
      rw [show updateFirst h Trade.failed w.trades = some trades from hu, Option.getD_some]
    case h_2 hu =>
      rw [show updateFirst h Trade.failed w.trades = none from hu, Option.getD_none]
      rfl

namespace Services

theorem markFailed_cons (t : Trade) (trades : List (Option Trade)) (env : Env) (w : World) :
    (markFailed (some t :: trades) env w).2 =
      (markFailed trades env (updateTradeStatus t.hash .ERROR env w).2).2 := by
  simp only [markFailed, deref, Bind.bind, Prog.attempt, pure]
  generalize (updateTradeStatus t.hash .ERROR env w).2 = w₁
  generalize markFailed trades env w₁ = x
  obtain ⟨r, w'⟩ := x
  cases r <;> rfl

theorem handleFailedBatch_trades (msg : OperatorMessage) (env : Env) (w : World) :
    (handleFailedBatch msg env w).2.trades = (markFailed msg.trades env w).2.trades := by
  have hrest : ∀ trades, Silent (do
      let taker ← firstTaker trades
      sendOrderMessage (.matched .ORDER_ERROR taker { msg.toSentMatches with trades := trades })
      sendMakers (fun o => .order .ORDER_ERROR o.userAddress o) msg.makerOrders) :=
    fun trades => (silent_firstTaker _).bind fun _ => (silent_sendOrderMessage _).bind fun _ =>
      silent_sendMakers _ _
  have hw : Prog.wp (handleFailedBatch msg) env w
      (fun _ w' => w'.trades = (markFailed msg.trades env w).2.trades)
      (fun _ w' => w'.trades = (markFailed msg.trades env w).2.trades) := by
    unfold handleFailedBatch
    rw [Prog.wp_bind]
    refine Prog.wp_mono (Prog.wp_of_state (P := fun w₁ => w₁ = (markFailed msg.trades env w).2) rfl)
      (fun trades w₁ h₁ => ?_) fun _ w₁ h₁ => by rw [h₁]
    subst h₁
    exact Prog.wp_mono (hrest trades).same (fun _ _ h => h.trades) fun _ _ h => h.trades
  exact Prog.wp_state (P := fun w' : World => w'.trades = (markFailed msg.trades env w).2.trades) hw

theorem markFailed_nodup {env : Env} (hf : env.Faultless) : ∀ (trades : List Trade) (w : World),
    (w.trades.map (·.hash)).Nodup →
    (markFailed (trades.map some) env w).2.trades =
      setTradeStatuses (·.hash ∈ trades.map (·.hash)) .ERROR w.trades
  | [], w, _ => by
    rw [setTradeStatuses_none _ (by simp)]
    rfl
  | t :: trades, w, hn => by
    have hfirst := updateTradeStatus_trades t.hash env w
    rw [if_neg (by simp [hf w.calls]), updateFirst_nodup hn] at hfirst
    have hn' : ((updateTradeStatus t.hash .ERROR env w).2.trades.map (·.hash)).Nodup := by
      rw [hfirst, map_hash_setTradeStatuses]
      exact hn
    have hone : setTradeStatuses (·.hash = t.hash) .ERROR w.trades =
        setTradeStatuses (·.hash ∈ [t.hash]) .ERROR w.trades :=
      setTradeStatuses_congr (by simp)
    rw [List.map_cons, markFailed_cons, markFailed_nodup hf trades _ hn', hfirst, hone,
      setTradeStatuses_comp]
    rfl

end Services

/-! ## The event as a whole -/

/-- The `i`-th maker order is the maker order of the `i`-th trade. -/
def SentMatches.Corresponds (m : SentMatches) : Prop :=
  List.Forall₂ (fun o t => ∃ o' t', o = some o' ∧ t = some t' ∧ o'.hash = t'.makerOrderHash)
    m.makerOrders m.trades

/-- The trade `t` is the only one of the taker order of the event, and its maker order is stored. -/
structure ErrorEvent.Only (e : ErrorEvent) (w : World) (t : Trade) : Prop where
  trades : e.takerTrades w = [t]
  maker : t.makerOrderHash = e.makerOrderHash
  order : (w.orders.get e.makerOrderHash).isSome

/-- `UpdateTradeStatus` by the hash of `t`, as call `n`, leaves `t` and no other trade marked: it
changes this trade, or whatever it would change is marked already. -/
def World.Marks (w : World) (env : Env) (n : Nat) (t : Trade) : Prop :=
  env.fails n = false ∧ w.firstTrade t.hash = some t ∨
    t.status = .ERROR ∧
      (env.fails n = true ∨ (w.firstTrade t.hash).map (·.status) = some .ERROR)

namespace Server

/-- An error of the contract is handled, and then the message about it, if one was published. -/
def errorEvent (s : Server) (opened : Bool) (e : ErrorEvent) (env : Env) (w : World) : World :=
  s.step env (Operator.handleEvent opened e env w).2 (.txMessage w.txMessages.length)

theorem errorEvent_trades (s : Server) (opened : Bool) (e : ErrorEvent) (env : Env) (w : World) :
    (s.errorEvent opened e env w).trades =
      if opened = true ∧ env.fails (w.calls + 3) = false then
        (Services.markFailed (e.message env w).trades env { w with calls := w.calls + 4 }).2.trades
      else w.trades := by
  unfold errorEvent step
  rw [Operator.handleEvent_eq]
  cases opened with
  | false => simp [handle]
  | true =>
    cases hf : env.fails (w.calls + 3) with
    | true => simp [handle]
    | false =>
      simp only [handle, if_true, Bool.false_eq_true, if_false,
        List.getElem?_concat_length, and_self]
      rw [List.eraseIdx_append_of_length_le (Nat.le_refl _), Nat.sub_self, List.eraseIdx_cons_zero,
        List.append_nil]
      exact Services.handleFailedBatch_trades (e.message env w) env _

/-- **Every trade of the taker order fails**, whoever its maker is. -/
theorem errorEvent_fails_taker (s : Server) {env : Env} (hf : env.Faultless) (e : ErrorEvent)
    {w : World} (hn : (w.trades.map (·.hash)).Nodup) :
    (s.errorEvent true e env w).trades =
      setTradeStatuses (·.takerOrderHash = e.takerOrderHash) .ERROR w.trades := by
  rw [errorEvent_trades, if_pos ⟨rfl, hf _⟩, ErrorEvent.message_trades (hf _)]
  refine (Services.markFailed_nodup hf _ { w with calls := w.calls + 4 } hn).trans ?_
  refine setTradeStatuses_congr fun t ht => ?_
  have hmem : t.hash ∈ (e.takerTrades w).map (·.hash) ↔ t.takerOrderHash = e.takerOrderHash := by
    constructor
    · intro h
      obtain ⟨t', ht', hh⟩ := List.mem_map.1 h
      obtain ⟨hstored, htaker⟩ := List.mem_filter.1 ht'
      rw [← List.inj_on_of_nodup_map hn hstored ht hh]
      exact of_decide_eq_true htaker
    · intro h
      exact List.mem_map_of_mem (List.mem_filter.2 ⟨ht, decide_eq_true h⟩)
  rw [decide_eq_decide, ← hmem]
  exact ((env.scanTrades_perm w.calls (e.takerTrades w)).map _).mem_iff

/-- The event fails the trade it is about and no other, and its message is well formed. -/
structure FailsOwnTrade (s : Server) (opened : Bool) (e : ErrorEvent) (env : Env) (w : World) :
    Prop where
  trades : (s.errorEvent opened e env w).trades = setTradeStatuses (e.Concerns ·) .ERROR w.trades
  message : ∃ msg : OperatorMessage, (Operator.handleEvent opened e env w).2.txMessages =
    w.txMessages ++ [msg] ∧ msg.Corresponds

/-- The message of an event corresponds exactly if the trade is the only one of its taker. -/
theorem message_corresponds_iff (e : ErrorEvent) (env : Env) (w : World) :
    (e.message env w).Corresponds ↔
      env.fails w.calls = false ∧ env.fails (w.calls + 2) = false ∧ ∃ t, e.Only w t := by
  constructor
  · intro h
    unfold SentMatches.Corresponds at h
    rw [show (e.message env w).makerOrders =
      [if env.fails (w.calls + 2) then none else w.orders.get e.makerOrderHash] from rfl,
      List.forall₂_cons_left_iff] at h
    obtain ⟨x, xs, ⟨o, t, ho, rfl, hot⟩, hnil, htrades⟩ := h
    rw [List.forall₂_nil_left_iff] at hnil
    subst hnil
    cases hf : env.fails w.calls with
    | true => simp [ErrorEvent.message, hf] at htrades
    | false =>
      cases hf₂ : env.fails (w.calls + 2) with
      | true => simp [hf₂] at ho
      | false =>
        rw [hf₂, if_neg Bool.false_ne_true] at ho
        rw [ErrorEvent.message_trades hf, List.map_eq_singleton_iff] at htrades
        obtain ⟨t', hscan, ht'⟩ := htrades
        rw [Option.some.injEq] at ht'
        subst ht'
        have hperm := env.scanTrades_perm w.calls (e.takerTrades w)
        rw [hscan, List.singleton_perm] at hperm
        exact ⟨rfl, rfl, t', hperm.symm, hot ▸ Coll.get_key ho, by simp [ho]⟩
  · rintro ⟨hf, hf₂, t, ht⟩
    obtain ⟨o, ho⟩ := Option.isSome_iff_exists.1 ht.order
    have hscan : env.scanTrades w.calls (e.takerTrades w) = [t] := by
      rw [ht.trades]
      exact List.perm_singleton.1 (env.scanTrades_perm w.calls [t])
    unfold SentMatches.Corresponds
    rw [ErrorEvent.message_trades hf, hscan]
    refine .cons ⟨o, t, ?_, rfl, ?_⟩ .nil
    · rw [hf₂, if_neg Bool.false_ne_true, ho]
    · rw [ht.maker, Coll.get_key ho]

theorem message_published_iff (opened : Bool) (e : ErrorEvent) (env : Env) (w : World) :
    (∃ msg : OperatorMessage, (Operator.handleEvent opened e env w).2.txMessages =
      w.txMessages ++ [msg] ∧ msg.Corresponds) ↔
    opened = true ∧ env.fails (w.calls + 3) = false ∧ (e.message env w).Corresponds := by
  rw [Operator.handleEvent_eq]
  cases opened with
  | false => simp
  | true =>
    cases env.fails (w.calls + 3) with
    | true => simp
    | false => simp

/-- The trade of the event is marked and no other. -/
theorem errorEvent_marks_iff (s : Server) {e : ErrorEvent} {env : Env} {w : World} {t : Trade}
    (hf : env.fails w.calls = false) (hf₃ : env.fails (w.calls + 3) = false) (ht : e.Only w t) :
    (s.errorEvent true e env w).trades = setTradeStatuses (e.Concerns ·) .ERROR w.trades ↔
      w.Marks env (w.calls + 4) t := by
  have hscan : env.scanTrades w.calls (e.takerTrades w) = [t] := by
    rw [ht.trades]
    exact List.perm_singleton.1 (env.scanTrades_perm w.calls [t])
  have hmem : t ∈ e.takerTrades w := ht.trades ▸ List.mem_singleton_self t
  obtain ⟨hstored, htaker⟩ := List.mem_filter.1 hmem
  -- the trade of the event is the trade of its taker
  have hown : setTradeStatuses (e.Concerns ·) .ERROR w.trades =
      setTradeStatuses (·.takerOrderHash = e.takerOrderHash) .ERROR w.trades := by
    refine setTradeStatuses_congr fun x hx => ?_
    rw [decide_eq_decide]
    refine ⟨And.right, fun h => ⟨?_, h⟩⟩
    have hxt : x ∈ e.takerTrades w := List.mem_filter.2 ⟨hx, decide_eq_true h⟩
    rw [ht.trades, List.mem_singleton] at hxt
    rw [hxt, ht.maker]
  rw [errorEvent_trades, if_pos ⟨rfl, hf₃⟩, ErrorEvent.message_trades hf, hscan, List.map_singleton,
    Services.markFailed_cons, hown]
  change (updateTradeStatus t.hash .ERROR env { w with calls := w.calls + 4 }).2.trades = _ ↔ _
  rw [updateTradeStatus_trades]
  obtain ⟨d, hd⟩ : ∃ d, w.firstTrade t.hash = some d := by
    rw [← Option.isSome_iff_exists, World.firstTrade, List.find?_isSome]
    exact ⟨t, hstored, decide_eq_true rfl⟩
  obtain ⟨pre, post, hts, hu⟩ := updateFirst_found Trade.failed hd
  have hfilter := ht.trades
  unfold ErrorEvent.takerTrades at hfilter
  unfold World.Marks
  dsimp only
  rw [hd]
  cases hf₄ : env.fails (w.calls + 4) with
  | true =>
    have hall : (∀ x ∈ w.trades, decide (x.takerOrderHash = e.takerOrderHash) = true →
        x.status = .ERROR) ↔ t.status = .ERROR := by
      constructor
      · intro h
        exact h t hstored htaker
      · intro h x hx hxt
        have hxmem : x ∈ e.takerTrades w := List.mem_filter.2 ⟨hx, hxt⟩
        rw [ht.trades, List.mem_singleton] at hxmem
        rw [hxmem, h]
    rw [if_pos rfl, eq_comm, setTradeStatuses_eq_self, hall]
    simp
  | false =>
    rw [if_neg Bool.false_ne_true, hu, Option.getD_some, hts, marked_iff (hts ▸ hfilter)]
    simp

/-- **Exactly the trade of the event fails**, with a message about it, exactly if its taker order
has no other trade. -/
theorem own_trade_fails_iff (s : Server) (opened : Bool) (e : ErrorEvent) (env : Env) (w : World) :
    s.FailsOwnTrade opened e env w ↔
      opened = true ∧ env.fails w.calls = false ∧ env.fails (w.calls + 2) = false ∧
        env.fails (w.calls + 3) = false ∧ ∃ t, e.Only w t ∧ w.Marks env (w.calls + 4) t := by
  constructor
  · intro h
    obtain ⟨rfl, hf₃, hc⟩ := (message_published_iff opened e env w).1 h.message
    obtain ⟨hf, hf₂, t, ht⟩ := (message_corresponds_iff e env w).1 hc
    exact ⟨rfl, hf, hf₂, hf₃, t, ht, (s.errorEvent_marks_iff hf hf₃ ht).1 h.trades⟩
  · rintro ⟨rfl, hf, hf₂, hf₃, t, ht, hm⟩
    exact ⟨(s.errorEvent_marks_iff hf hf₃ ht).2 hm, (message_published_iff true e env w).2
      ⟨rfl, hf₃, (message_corresponds_iff e env w).2 ⟨hf, hf₂, t, ht⟩⟩⟩

end Server

/-- A BUY with two trades, of which the first has settled. -/
def World.sampleSettled : World :=
  { World.sampleFilled with trades :=
      [{ Trade.sampleWith 1 4 with status := .SUCCESS },
        { Trade.sampleWith 2 6 with status := .PENDING }] }

/-- The error is about the second trade. Both fail, and the message has one maker for two trades. -/
theorem settled_trade_fails :
    let server : Server := ⟨.sample, .sample, ⟨1⟩⟩
    let env := Env.sample .stored
    let e : ErrorEvent := ⟨2, 3, 7⟩
    let w := World.sampleSettled
    (server.errorEvent true e env w).trades.map (fun t => (t.makerOrderHash, t.status)) =
        [(1, .ERROR), (2, .ERROR)] ∧
      (e.message env w).makerOrders.length = 1 ∧ (e.message env w).trades.length = 2 ∧
      ¬server.FailsOwnTrade true e env w := by
  intro server env e w
  refine ⟨by decide +kernel, rfl, by decide +kernel, fun h => ?_⟩
  exact absurd h.trades (by decide +kernel)

end Dex
