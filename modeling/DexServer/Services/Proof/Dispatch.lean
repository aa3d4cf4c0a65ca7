import DexServer.Sample
import DexServer.Services.Messages

/-!
# Where the trades of a response go

`handleEngineOrderMatched` checks the maker of each match again and makes two batches. What is
stored, the batch that goes to the operator and the one that goes back to the engine are right. But
the taker is told of every match.

* `checkMakers_eq`: the two batches are the matches that passed and those that did not, each in
  order.
* `storeMatches_eq`: what the valid matches lead to, whichever call fails.
* `matches_consistent_iff`: the four receivers see the same exactly if all makers pass or none does,
  and the calls after the checks succeed.
-/

namespace Dex

open Lib

/-- A match, and whether its maker passes the check. -/
structure CheckedMatch where
  maker : Order
  trade : Trade
  passes : Bool
  deriving DecidableEq, Repr

/-- The batch of the matches of the taker `o`. -/
def Matches.ofChecked (o : Order) (cs : List CheckedMatch) : Matches :=
  ⟨cs.map (·.maker), o, cs.map (·.trade)⟩

theorem Matches.ofChecked_append (o : Order) (cs : List CheckedMatch) (c : CheckedMatch) :
    (ofChecked o cs).appendMatch c.maker c.trade = ofChecked o (cs ++ [c]) := by
  simp [ofChecked, appendMatch]

/-- The matches that pass. -/
def validMatches (cs : List CheckedMatch) : List CheckedMatch := cs.filter (·.passes)

/-- The matches that do not. -/
def invalidMatches (cs : List CheckedMatch) : List CheckedMatch := cs.filter (!·.passes)

section
variable {cs : List CheckedMatch}

theorem validMatches_eq_self : validMatches cs = cs ↔ ∀ c ∈ cs, c.passes = true :=
  List.filter_eq_self

theorem validMatches_eq_nil : validMatches cs = [] ↔ ∀ c ∈ cs, c.passes = false := by
  simp [validMatches, List.filter_eq_nil_iff]

theorem invalidMatches_eq_nil : invalidMatches cs = [] ↔ ∀ c ∈ cs, c.passes = true := by
  simp [invalidMatches, List.filter_eq_nil_iff]

theorem invalidMatches_eq_self : invalidMatches cs = cs ↔ ∀ c ∈ cs, c.passes = false := by
  simp [invalidMatches, List.filter_eq_self]

end

/-- The match with the creation time of its trade set. -/
def CheckedMatch.stamp (now : Time) (c : CheckedMatch) : CheckedMatch :=
  { c with trade := c.trade.stamp now }

/-- The checks of the makers, one after another, end as the matches say; none panics. -/
inductive Services.Outcomes (s : Services) (env : Env) : List CheckedMatch → World → World → Prop
  | nil (w : World) : Outcomes s env [] w w
  | pass {c : CheckedMatch} {cs : List CheckedMatch} {w w₁ w₂ : World} (passes : c.passes = true)
      (check : s.validateBalance c.maker env w = (.ok (), w₁)) (rest : Outcomes s env cs w₁ w₂) :
      Outcomes s env (c :: cs) w w₂
  | reject {c : CheckedMatch} {cs : List CheckedMatch} {w w₁ w₂ : World} {e : Err}
      (passes : c.passes = false) (check : s.validateBalance c.maker env w = (.error e, w₁))
      (error : ∀ text, e ≠ .panic text) (rest : Outcomes s env cs w₁ w₂) :
      Outcomes s env (c :: cs) w w₂

/-- What was stored, published and announced from `w` to `w'` are the same matches. -/
structure Consistent (o : Order) (cs : List CheckedMatch) (now : Time) (w w' : World) : Prop where
  /-- the documents inserted are the trades of the valid matches -/
  stored : w'.trades = w.trades ++ (validMatches cs).map fun c => c.trade.stamp now
  /-- the operator gets the valid matches -/
  published : w'.tradeQueue = w.tradeQueue ++ if validMatches cs = [] then []
    else [.ofChecked o ((validMatches cs).map (.stamp now))]
  /-- the engine gets the invalid ones back -/
  invalidated : w'.orderQueue = w.orderQueue ++ if invalidMatches cs = [] then []
    else [.INVALIDATE_MAKER_ORDERS (.ofChecked o (invalidMatches cs))]
  /-- the taker is told of the valid matches -/
  announced : ∃ es, w'.ws = w.ws ++ es ∧ ((∃ m, .matched .ORDER_MATCHED o.userAddress m ∈ es) ↔
      validMatches cs ≠ []) ∧
    ∀ a m, .matched .ORDER_MATCHED a m ∈ es → a = o.userAddress ∧
      m.makerOrders = (validMatches cs).map (fun c => some c.maker) ∧
      m.trades = (validMatches cs).map fun c => some (c.trade.stamp now)

section
variable {s : Services} {env : Env} {cs : List CheckedMatch} {w w₁ : World}

theorem Services.Outcomes.quiet (h : s.Outcomes env cs w w₁) : ∃ n, w₁ = { w with calls := n } := by
  have hcheck : ∀ {o : Order} {w w₁ : World} {r : Except Err Unit},
      s.validateBalance o env w = (r, w₁) → ∃ n, w₁ = { w with calls := n } := by
    intro o w w₁ r check
    obtain ⟨n, hn⟩ := s.validateBalance_quiet o env w
    rw [check] at hn
    exact ⟨n, hn⟩
  induction h with
  | nil w => exact ⟨w.calls, rfl⟩
  | pass _ check _ ih =>
    obtain ⟨n, rfl⟩ := hcheck check
    obtain ⟨k, rfl⟩ := ih
    exact ⟨k, rfl⟩
  | reject _ check _ _ ih =>
    obtain ⟨n, rfl⟩ := hcheck check
    obtain ⟨k, rfl⟩ := ih
    exact ⟨k, rfl⟩

theorem index_next {m : Matches} {o : Order} {pre os : List Order}
    (hm : m.makerOrders = pre ++ o :: os)
    (w : World) : index m.makerOrders pre.length env w = (.ok o, w) := by
  simp [index, hm]
  rfl

/-- **The split**: every match goes to one of the batches, in order, the maker with its trade. -/
theorem Services.checkMakers_eq {o : Order} {m : Matches} (h : s.Outcomes env cs w w₁) :
    ∀ (pre : List Order) (vs us : List CheckedMatch), m.makerOrders = pre ++ cs.map (·.maker) →
      s.checkMakers m (.ofChecked o vs) (.ofChecked o us) pre.length (cs.map (·.trade)) env w =
        (.ok (.ofChecked o (vs ++ validMatches cs),
          .ofChecked o (us ++ invalidMatches cs)), w₁) := by
  induction h with
  | nil w =>
    intro pre vs us hm
    simp [checkMakers, validMatches, invalidMatches]
    rfl
  | @pass c cs w w₁ w₂ passes check rest ih =>
    intro pre vs us hm
    simp only [List.map_cons, checkMakers]
    rw [Prog.bind_ok (index_next hm w), Prog.bind_ok (attempted_ok check)]
    dsimp only
    rw [Matches.ofChecked_append]
    have hrest := ih (pre ++ [c.maker]) (vs ++ [c]) us (by simp [hm])
    rw [List.length_append, List.length_singleton] at hrest
    rw [hrest]
    simp [validMatches, invalidMatches, passes]
  | @reject c cs w w₁ w₂ e passes check error rest ih =>
    intro pre vs us hm
    have hattempted : attempted (s.validateBalance c.maker) env w = (.ok (.error e), w₁) := by
      unfold attempted
      rw [Prog.bind_ok (Prog.attempt_eq check)]
      cases e with
      | panic text => exact absurd rfl (error text)
      | _ => rfl
    simp only [List.map_cons, checkMakers]
    rw [Prog.bind_ok (index_next hm w), Prog.bind_ok hattempted]
    dsimp only
    rw [Matches.ofChecked_append]
    have hrest := ih (pre ++ [c.maker]) vs (us ++ [c]) (by simp [hm])
    rw [List.length_append, List.length_singleton] at hrest
    rw [hrest]
    simp [validMatches, invalidMatches, passes]

theorem Services.stamped_eq {ts : List Trade} {t : Trade} (ht : t ∈ ts) (now : Time) :
    stamped ts (ts.map (·.stamp now)) t = t.stamp now := by
  unfold stamped
  induction ts with
  | nil => cases ht
  | cons u ts ih =>
    rw [List.map_cons, List.zip_cons_cons, List.lookup_cons]
    by_cases hu : t = u
    · simp [hu]
    · rw [beq_eq_false_iff_ne.2 hu]
      exact ih ((List.mem_cons.1 ht).resolve_left hu)

/-- The valid matches are stored, then published, then announced, up to the call that fails. -/
theorem Services.storeMatches_eq {o : Order} {m valid : Matches} (hv : valid.trades ≠ []) :
    let ts := valid.trades.map (·.stamp (env.now w.calls))
    (storeMatches o m valid env w).2 =
      if env.fails w.calls then { w.tick with ws := w.ws ++ [.error o.userAddress] }
      else if env.fails (w.calls + 1) then
        { w.tick.tick with trades := w.trades ++ ts, ws := w.ws ++ [.error o.userAddress] }
      else
        { w.tick.tick with
          trades := w.trades ++ ts
          tradeQueue := w.tradeQueue ++ [{ valid with trades := ts }]
          ws := w.ws ++ [.matched .ORDER_MATCHED o.userAddress { m.sent with
            trades := m.trades.map fun t => some (stamped valid.trades ts t) }] } := by
  unfold storeMatches
  rw [if_neg (by simpa using hv)]
  cases hf : env.fails w.calls <;> cases hg : env.fails (w.calls + 1) <;>
    simp [Bind.bind, Prog.attempt, createTrades, publishTrades, sendOrderMessage, Prog.modify, call,
      World.tick, hf, hg]

/-- The state after the checks, with the invalidation published unless it fails. -/
theorem Services.handleEngineOrderMatched_eq (o taker : Order) (status : ResponseStatus)
    (h : s.Outcomes env cs w w₁) :
    ∃ w₂ : World, s.handleEngineOrderMatched
        { status := status, order := some o, matches? := some (.ofChecked taker cs) } env w =
      storeMatches o (.ofChecked taker cs) (.ofChecked o (validMatches cs)) env w₂ ∧
      w₂.trades = w.trades ∧ w₂.tradeQueue = w.tradeQueue ∧ w₂.ws = w.ws ∧
      (w₂.orderQueue = w.orderQueue ++ if invalidMatches cs = [] ∨ env.fails w₁.calls = true then []
        else [.INVALIDATE_MAKER_ORDERS (.ofChecked o (invalidMatches cs))]) ∧
      (invalidMatches cs = [] → w₂.calls = w₁.calls) := by
  have hsplit := checkMakers_eq (o := o) (m := .ofChecked taker cs) h [] [] [] rfl
  obtain ⟨n, rfl⟩ := h.quiet
  have hsplit' : s.checkMakers (.ofChecked taker cs) ⟨[], o, []⟩ ⟨[], o, []⟩ 0
      (Matches.ofChecked taker cs).trades env w =
      (.ok (.ofChecked o (validMatches cs), .ofChecked o (invalidMatches cs)),
        { w with calls := n }) :=
    hsplit
  unfold handleEngineOrderMatched
  simp only [deref, Prog.pure_bind]
  rw [Prog.bind_ok hsplit']
  by_cases hnone : invalidMatches cs = []
  · refine ⟨{ w with calls := n }, ?_, rfl, rfl, rfl, by simp [hnone], fun _ => rfl⟩
    simp [hnone, Matches.ofChecked]
  · refine ⟨(publishInvalidateMakerOrdersMessage (.ofChecked o (invalidMatches cs)) env
      { w with calls := n }).2, ?_, ?_⟩
    · rw [if_neg (by simpa [Matches.ofChecked] using hnone)]
      rfl
    · simp only [publishInvalidateMakerOrdersMessage, publishOrder, call, hnone, false_or]
      split <;> simp [World.tick]

/-- No match is valid, and `w'` is the state with the invalidation sent, unless that fails. -/
theorem consistent_rejected_iff {o : Order} {w' : World} {failed : Bool}
    (hv : ∀ c ∈ cs, c.passes = false) (htrades : w'.trades = w.trades)
    (htradeQueue : w'.tradeQueue = w.tradeQueue) (hws : w'.ws = w.ws)
    (horderQueue : w'.orderQueue = w.orderQueue ++ if invalidMatches cs = [] ∨ failed = true then []
      else [.INVALIDATE_MAKER_ORDERS (.ofChecked o (invalidMatches cs))]) :
    (∃ now, Consistent o cs now w w') ↔ cs = [] ∨ failed = false := by
  have hnone := validMatches_eq_nil.2 hv
  have hall := invalidMatches_eq_self.2 hv
  rw [hall] at horderQueue
  constructor
  · rintro ⟨now, hc⟩
    have hsent := hc.invalidated
    rw [horderQueue, hall, List.append_cancel_left_eq] at hsent
    by_cases hnil : cs = []
    · exact .inl hnil
    · right
      by_contra hf
      simp [hnil, hf] at hsent
  · intro hpub
    refine ⟨0, by simp [htrades, hnone], by simp [htradeQueue, hnone], ?_,
      [], by simp [hws], by simp [hnone], by simp⟩
    rw [horderQueue, hall]
    rcases hpub with hnil | hf
    · simp [hnil]
    · simp [hf]

/-- Some match is valid, and `w₂` is the state before the matches are stored. -/
theorem consistent_stored_iff {o taker : Order} {w₂ : World} {failed : Bool}
    (hv : validMatches cs ≠ []) (htrades : w₂.trades = w.trades)
    (htradeQueue : w₂.tradeQueue = w.tradeQueue) (hws : w₂.ws = w.ws)
    (horderQueue : w₂.orderQueue = w.orderQueue ++
      if invalidMatches cs = [] ∨ failed = true then []
      else [.INVALIDATE_MAKER_ORDERS (.ofChecked o (invalidMatches cs))]) :
    (∃ now, Consistent o cs now w (Services.storeMatches o (.ofChecked taker cs)
      (.ofChecked o (validMatches cs)) env w₂).2) ↔
    (∀ c ∈ cs, c.passes = true) ∧ env.fails w₂.calls = false ∧
      env.fails (w₂.calls + 1) = false := by
  have hne : (Matches.ofChecked o (validMatches cs)).trades ≠ [] := by
    simpa [Matches.ofChecked] using hv
  rw [Services.storeMatches_eq hne]
  constructor
  · rintro ⟨now, hc⟩
    -- what is not stored or not published is missed by the store or the operator
    have hf : env.fails w₂.calls = false := by
      by_contra hf
      have hstored := hc.stored
      rw [if_pos (Bool.not_eq_false _ ▸ hf)] at hstored
      simp [htrades, hv] at hstored
    have hg : env.fails (w₂.calls + 1) = false := by
      by_contra hg
      have hpublished := hc.published
      rw [if_neg (by simp [hf]), if_pos (Bool.not_eq_false _ ▸ hg)] at hpublished
      simp [World.tick, htradeQueue, hv] at hpublished
    refine ⟨?_, hf, hg⟩
    -- the taker is told of all matches
    obtain ⟨es, hes, -, hmatched⟩ := hc.announced
    rw [hf, hg, if_neg Bool.false_ne_true, if_neg Bool.false_ne_true] at hes
    dsimp only at hes
    rw [hws, List.append_cancel_left_eq] at hes
    obtain ⟨-, hmakers, -⟩ := hmatched _ _ (hes ▸ List.mem_singleton_self _)
    have hlen := congrArg List.length hmakers
    simp only [Matches.sent, Matches.ofChecked, List.length_map, validMatches] at hlen
    exact List.length_filter_eq_length_iff.1 hlen.symm
  · rintro ⟨hall, hf, hg⟩
    have hself := validMatches_eq_self.2 hall
    have hnone := invalidMatches_eq_nil.2 hall
    rw [hf, hg, if_neg Bool.false_ne_true, if_neg Bool.false_ne_true, hself]
    rw [hself] at hv
    refine ⟨env.now w₂.calls, ?_, ?_, ?_, [_], congrArg (· ++ [_]) hws, ?_, ?_⟩
    · simp [htrades, hself, Matches.ofChecked]
    · simp [htradeQueue, hself, hv, Matches.ofChecked, CheckedMatch.stamp, Function.comp_def]
    · simpa [hnone] using horderQueue
    · simp [hself, hv]
    · intro a m hm
      cases List.mem_singleton.1 hm
      refine ⟨rfl, by simp [Matches.sent, Matches.ofChecked, hself], ?_⟩
      simp only [Matches.ofChecked, hself, List.map_map]
      refine List.map_congr_left fun c hc => ?_
      rw [Function.comp_apply, ← Services.stamped_eq (List.mem_map_of_mem hc), List.map_map]

/-- **The receivers of a response see the same matches** exactly if there is no match, or every
maker is rejected and the message to the engine is published, or every maker passes and the trades
are stored and published: matches of which some pass are announced as a whole. -/
theorem matches_consistent_iff {o taker : Order} {status : ResponseStatus}
    (h : s.Outcomes env cs w w₁) :
    (∃ now, Consistent o cs now w (s.handleEngineOrderMatched
      { status := status, order := some o, matches? := some (.ofChecked taker cs) } env w).2) ↔
    cs = [] ∨
      ((∀ c ∈ cs, c.passes = false) ∧ env.fails w₁.calls = false) ∨
      ((∀ c ∈ cs, c.passes = true) ∧ env.fails w₁.calls = false ∧
        env.fails (w₁.calls + 1) = false) := by
  obtain ⟨w₂, heq, htrades, htradeQueue, hws, horderQueue, hcalls⟩ :=
    Services.handleEngineOrderMatched_eq o taker status h
  rw [heq]
  by_cases hv : validMatches cs = []
  · -- every match goes back to the engine
    have hstore : (Services.storeMatches o (.ofChecked taker cs) (.ofChecked o (validMatches cs))
        env w₂).2 = w₂ := by
      rw [hv]
      rfl
    have hrej := validMatches_eq_nil.1 hv
    rw [hstore, consistent_rejected_iff hrej htrades htradeQueue hws horderQueue]
    refine or_congr_right ⟨fun hf => .inl ⟨hrej, hf⟩, ?_⟩
    rintro (⟨-, hf⟩ | ⟨-, hf, -⟩) <;> exact hf
  · rw [consistent_stored_iff hv htrades htradeQueue hws horderQueue]
    have hnil : cs ≠ [] := by
      rintro rfl
      exact hv rfl
    have hsome : ¬∀ c ∈ cs, c.passes = false := mt validMatches_eq_nil.2 hv
    rw [or_iff_right hnil, or_iff_right fun hrej => hsome hrej.1]
    refine and_congr_right fun hall => ?_
    rw [hcalls (invalidMatches_eq_nil.2 hall)]

end

/-- A maker with funds: its match is stored, published and announced. -/
theorem matches_consistent_passed :
    let o := Order.sample 3 .BUY 5 4
    let mo := Order.sample 2 .SELL 5 4
    let cs := [⟨mo, newTrade .sample o mo, true⟩]
    let res := { status := .ORDER_FILLED, order := some o, matches? := some (.ofChecked o cs) }
    ∃ now, Consistent o cs now .empty
      ((Services.sampleFunds 10).handleEngineOrderMatched res (.sample .stored) .empty).2 := by
  intro o mo cs res
  have hout : (Services.sampleFunds 10).Outcomes (.sample .stored) cs .empty
      { World.empty with calls := 3 } := .pass rfl rfl (.nil _)
  exact (matches_consistent_iff hout).2 (.inr (.inr ⟨by simp [cs], rfl, rfl⟩))

/-- A BUY of 7 meets two makers, of which the second has no funds. One trade is stored and goes to
the operator, and the taker is told of both matches. -/
theorem matches_inconsistent :
    let o := Order.sample 3 .BUY 5 7
    let mo := Order.sample 2 .SELL 5 4
    let poor := { Order.sample 4 .SELL 5 3 with userAddress := 9 }
    let s := { Services.sample with balanceOf := fun _ a _ => if a = 9 then 0 else 10 }
    let cs := [⟨mo, newTrade .sample o mo, true⟩, ⟨poor, newTrade .sample o poor, false⟩]
    let res := { status := .ORDER_FILLED, order := some o, matches? := some (.ofChecked o cs) }
    let w' := (s.handleEngineOrderMatched res (.sample .stored) .empty).2
    s.Outcomes (.sample .stored) cs .empty { World.empty with calls := 6 } ∧
      w'.trades.map (·.makerOrderHash) = [2] ∧
      w'.tradeQueue.map (·.trades.length) = [1] ∧
      (w'.ws.map fun
        | .matched .ORDER_MATCHED _ m => m.trades.length
        | _ => 0) = [2] ∧
      ¬∃ now, Consistent o cs now .empty w' := by
  intro o mo poor s cs res w'
  have hout : s.Outcomes (.sample .stored) cs .empty { World.empty with calls := 6 } :=
    .pass rfl rfl (.reject rfl rfl (by simp) (.nil _))
  refine ⟨hout, by decide +kernel, by decide +kernel, by decide +kernel, ?_⟩
  rintro ⟨now, hc⟩
  obtain ⟨es, hes, -, hmatched⟩ := hc.announced
  obtain ⟨m, hm, hlen⟩ : ∃ m, .matched .ORDER_MATCHED o.userAddress m ∈ w'.ws ∧
      m.makerOrders.length = 2 := ⟨_, List.mem_singleton_self _, rfl⟩
  rw [hes] at hm
  obtain ⟨-, hmakers, -⟩ := hmatched _ m hm
  rw [hmakers] at hlen
  simp [cs, validMatches] at hlen

end Dex
