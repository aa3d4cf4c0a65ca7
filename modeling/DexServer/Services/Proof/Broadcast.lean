import DexServer.Services.Broadcast
import DexServer.Services.Proof.Split

/-!
# The updates of a response

* `respond_state`: the updates are read off `handleEngineResponse`, not in its place.
* `respond_raw`: an update of the raw order book has all the orders of the response (`rawOrders`),
  on the channel of the first; and then no match was found to be invalid.
-/

namespace Dex

open Lib

/-- The orders of a response that subscribers of the raw order book are to know. -/
def EngineResponse.rawOrders (r : EngineResponse) : List Order :=
  match r.status with
  | .ORDER_ADDED | .ORDER_CANCELLED => r.order.toList
  | .ORDER_FILLED | .ORDER_PARTIALLY_FILLED =>
    r.order.toList ++ (r.matches?.map (·.makerOrders)).getD []
  | .TRADES_CANCELLED => r.invalidatedOrders.getD []
  | .none | .INVALIDATED => []

section
variable {env : Env} {w : World}

theorem Order.pair_eq_ok {o : Order} {p : PairTokens} (h : o.pair = .ok p) :
    p = ⟨o.baseToken, o.quoteToken⟩ := by
  unfold Order.pair at h
  simp only [bind_eq_ok, require_eq_ok] at h
  obtain ⟨-, -, -, -, h⟩ := h
  cases h
  rfl

theorem broadcastRawOrderBookUpdate_wp (os : List Order) :
    Prog.wp (broadcastRawOrderBookUpdate os) env w
      (fun u w' => w' = w ∧ ∀ q os', u = some (q, os') →
        os' = os ∧ ∃ o, os.head? = some o ∧ q = ⟨o.baseToken, o.quoteToken⟩)
      (fun _ w' => w' = w) := by
  unfold broadcastRawOrderBookUpdate
  rw [Prog.wp_bind]
  refine wp_index (fun o ho => ?_) fun _ => rfl
  cases hp : o.pair with
  | error e => exact ⟨rfl, fun q os' h => absurd h (by simp)⟩
  | ok p =>
    refine ⟨rfl, fun q os' h => ?_⟩
    cases h
    exact ⟨rfl, o, by rw [List.head?_eq_getElem?, ho], Order.pair_eq_ok hp⟩

theorem broadcastTradeUpdate_state (ts : List Trade) : (broadcastTradeUpdate ts env w).2 = w := by
  refine Prog.wp_state (P := fun w' => w' = w) ?_
  unfold broadcastTradeUpdate
  rw [Prog.wp_bind]
  refine wp_index (fun t _ => ?_) fun _ => rfl
  cases t.pair <;> rfl

theorem broadcastRawOrderBookUpdate_state (os : List Order) :
    (broadcastRawOrderBookUpdate os env w).2 = w :=
  Prog.wp_state (P := fun w' => w' = w)
    (Prog.wp_mono (broadcastRawOrderBookUpdate_wp os) (fun _ _ h => h.1) fun _ _ h => h)

theorem unlessEmpty_state {α β : Type} {broadcast : List α → M (Option β)}
    (h : ∀ xs w, (broadcast xs env w).2 = w) (xs : List α) :
    (unlessEmpty broadcast xs env w).2 = w := by
  unfold unlessEmpty
  split
  · rfl
  · exact h xs w

namespace Services

theorem storedMatches_state (o : Order) (m valid : Matches) :
    (storedMatches o m valid env w).2 = (storeMatches o m valid env w).2 := by
  unfold storedMatches storeMatches
  split
  · rfl
  · refine Prog.bind_state_congr (fun x w₁ => ?_) w
    cases x with
    | error e => rfl
    | ok created =>
      refine Prog.bind_state_congr (fun y w₂ => ?_) w₁
      cases y <;> rfl

theorem respondOrder_state (handler : EngineResponse → M Unit) (res : EngineResponse) :
    (respondOrder handler res env w).2 = (handler res env w).2 := by
  unfold respondOrder
  refine Prog.bind_state (fun _ w₁ => ?_) w
  cases res.order with
  | none => rfl
  | some o =>
    show ((broadcastRawOrderBookUpdate [o] >>= fun raw => pure { rawOrderBook := raw } :
      M ChannelUpdates) env w₁).2 = w₁
    rw [Prog.bind_state fun _ _ => rfl, broadcastRawOrderBookUpdate_state]

theorem respondMatched_state (s : Services) (res : EngineResponse) :
    (s.respondMatched res env w).2 = (s.handleEngineOrderMatched res env w).2 := by
  unfold respondMatched handleEngineOrderMatched
  refine Prog.bind_state_congr (fun o w₁ => ?_) w
  refine Prog.bind_state_congr (fun m w₂ => ?_) w₁
  refine Prog.bind_state_congr (fun x w₃ => ?_) w₂
  have hend : ∀ w₄, ((storedMatches o m x.1 >>= fun stored =>
      if stored ∧ x.2.trades.isEmpty then
        broadcastRawOrderBookUpdate (o :: x.1.makerOrders) >>=
        fun raw => pure { rawOrderBook := raw }
      else pure {} : M ChannelUpdates) env w₄).2 = (storeMatches o m x.1 env w₄).2 := by
    intro w₄
    rw [Prog.bind_state (fun stored w₅ => ?_), storedMatches_state]
    split
    · rw [Prog.bind_state fun _ _ => rfl, broadcastRawOrderBookUpdate_state]
    · rfl
  obtain ⟨valid, invalid⟩ := x
  dsimp only
  split
  · exact hend w₃
  · exact Prog.bind_state_congr (fun _ w₄ => hend w₄) w₃

theorem respondInvalidated_state (res : EngineResponse) :
    (respondInvalidated res env w).2 = (handleOrdersInvalidated res env w).2 := by
  unfold respondInvalidated
  refine Prog.bind_state (fun _ w₁ => ?_) w
  rw [Prog.bind_state fun raw w₂ => ?_, unlessEmpty_state
    fun os _ => broadcastRawOrderBookUpdate_state os]
  rw [Prog.bind_state fun _ _ => rfl, unlessEmpty_state fun ts _ => broadcastTradeUpdate_state ts]

/-- **The state is the one `handleEngineResponse` leaves.** -/
theorem respond_state (s : Services) (res : EngineResponse) :
    (s.respond res env w).2 = (s.handleEngineResponse res env w).2 := by
  unfold respond handleEngineResponse
  cases res.status with
  | ORDER_ADDED | ORDER_CANCELLED => exact respondOrder_state _ res
  | ORDER_FILLED | ORDER_PARTIALLY_FILLED => exact s.respondMatched_state res
  | TRADES_CANCELLED => exact respondInvalidated_state res
  | none | INVALIDATED => rfl

/-! ## What is broadcast -/

theorem storedMatches_orderQueue (o : Order) (m valid : Matches) :
    (storedMatches o m valid env w).2.orderQueue = w.orderQueue := by
  rw [storedMatches_state]
  obtain ⟨ts, bs, h, -⟩ := @storeMatches_split env o m valid w
  simpa using h.orderQueue

theorem valid_makers {m : Matches} {ps : List (Order × Trade)}
    (hlen : m.makerOrders.length = m.trades.length) (hps : ps.Sublist (m.makerOrders.zip m.trades))
    (hp : (ps.map (·.2)).Perm m.trades) : ps.map (·.1) = m.makerOrders := by
  have hl : ps.length = (m.makerOrders.zip m.trades).length := by
    have hl := hp.length_eq
    simp only [List.length_map] at hl
    simp [hl, hlen]
  rw [hps.eq_of_length hl, List.map_fst_zip (Nat.le_of_eq hlen)]

/-- An update of the raw order book, from a response that was handled in `w`. -/
def Tells (r : EngineResponse) (w : World) (u : ChannelUpdates) (w' : World) : Prop :=
  ∀ q os, u.rawOrderBook = some (q, os) → os = r.rawOrders ∧
    (∃ o, os.head? = some o ∧ q = ⟨o.baseToken, o.quoteToken⟩) ∧ w'.orderQueue = w.orderQueue

theorem respondOrder_tells {handler : EngineResponse → M Unit} {r : EngineResponse}
    (hs : Silent (handler r)) (hr : r.rawOrders = r.order.toList) :
    Prog.wp (respondOrder handler r) env w (Tells r w) (fun _ _ => True) := by
  unfold respondOrder
  rw [Prog.wp_bind]
  refine Prog.wp_mono hs.same (fun _ w₁ h₁ => ?_) fun _ _ _ => trivial
  cases ho : r.order with
  | none => trivial
  | some o =>
    rw [Prog.wp_bind]
    show Prog.wp (broadcastRawOrderBookUpdate [o] >>= _) env w₁ _ _
    rw [Prog.wp_bind]
    refine Prog.wp_mono (broadcastRawOrderBookUpdate_wp [o]) (fun u w₂ h₂ q os hu => ?_)
      fun _ _ _ => trivial
    obtain ⟨rfl, h₂⟩ := h₂
    obtain ⟨rfl, hq⟩ := h₂ q os hu
    rw [hr, ho]
    exact ⟨rfl, hq, by simpa using h₁.orderQueue⟩

theorem respondMatched_tells (s : Services) {r : EngineResponse}
    (hr : r.rawOrders = r.order.toList ++ (r.matches?.map (·.makerOrders)).getD [])
    (hlen : ∀ m, r.matches? = some m → m.makerOrders.length = m.trades.length) :
    Prog.wp (s.respondMatched r) env w (Tells r w) (fun _ _ => True) := by
  unfold respondMatched
  cases ho : r.order with
  | none => trivial
  | some o =>
    cases hm : r.matches? with
    | none => trivial
    | some m =>
      show Prog.wp (s.checkMakers m ⟨[], o, []⟩ ⟨[], o, []⟩ 0 m.trades >>= _) env w _ _
      rw [Prog.wp_bind]
      refine Prog.wp_mono (checkMakers_split m m.trades 0 ⟨[], o, []⟩ ⟨[], o, []⟩ w)
        (fun x w₁ h₁ => ?_) fun _ _ _ => trivial
      obtain ⟨valid, invalid⟩ := x
      obtain ⟨hsame, ps, qs, hps, -, hp, hx⟩ := h₁
      simp only [extended, List.nil_append, Prod.mk.injEq] at hx
      dsimp only
      have hno : ∀ w₂, Tells r w {} w₂ := fun w₂ q os h => absurd h (by simp)
      by_cases hinv : invalid.trades = []
      · rw [if_pos (by rw [hinv]; rfl)]
        have hmakers : valid.makerOrders = m.makerOrders := by
          have hqs : qs = [] := by simpa [hx.2] using hinv
          rw [hqs, List.append_nil] at hp
          rw [hx.1]
          exact valid_makers (hlen m hm) hps hp
        show Prog.wp (storedMatches o m valid >>= _) env w₁ _ _
        rw [Prog.wp_bind]
        refine Prog.wp_mono (Prog.wp_of_state (P := fun w₂ : World => w₂.orderQueue = w₁.orderQueue)
          (storedMatches_orderQueue o m valid)) (fun stored w₂ h₂ => ?_) fun _ _ _ => trivial
        split
        · rw [Prog.wp_bind]
          refine Prog.wp_mono (broadcastRawOrderBookUpdate_wp (o :: valid.makerOrders))
            (fun u w₃ h₃ q os hu => ?_) fun _ _ _ => trivial
          obtain ⟨rfl, h₃⟩ := h₃
          obtain ⟨rfl, hq⟩ := h₃ q os hu
          refine ⟨?_, hq, h₂.trans (by simpa using hsame.orderQueue)⟩
          rw [hr, ho, hm, hmakers]
          rfl
        · exact hno w₂
      · have hempty : ¬invalid.trades.isEmpty = true := fun h => hinv (List.isEmpty_iff.1 h)
        rw [if_neg hempty, Prog.wp_bind]
        refine Prog.wp_of_forall (fun _ w₂ => ?_) fun _ _ => trivial
        rw [Prog.wp_bind]
        refine Prog.wp_of_forall (fun stored w₃ => ?_) fun _ _ => trivial
        rw [if_neg fun h => hempty h.2]
        exact hno w₃

theorem respondInvalidated_tells {r : EngineResponse}
    (hr : r.rawOrders = r.invalidatedOrders.getD []) :
    Prog.wp (respondInvalidated r) env w (Tells r w) (fun _ _ => True) := by
  have hsilent : Silent (handleOrdersInvalidated r) :=
    (silent_deref _).bind fun orders => silent_sendOrders _ orders
  unfold respondInvalidated
  rw [Prog.wp_bind]
  refine Prog.wp_mono hsilent.same (fun _ w₁ h₁ => ?_) fun _ _ _ => trivial
  have hraw : Prog.wp (unlessEmpty broadcastRawOrderBookUpdate (r.invalidatedOrders.getD [])) env w₁
      (fun u w₂ => w₂ = w₁ ∧ ∀ q os, u = some (q, os) → os = r.rawOrders ∧
        ∃ o, os.head? = some o ∧ q = ⟨o.baseToken, o.quoteToken⟩) (fun _ _ => True) := by
    unfold unlessEmpty
    split
    · exact ⟨rfl, fun q os h => absurd h (by simp)⟩
    · refine Prog.wp_mono (broadcastRawOrderBookUpdate_wp _)
        (fun u w₂ h₂ => ⟨h₂.1, fun q os hu => ?_⟩) fun _ _ _ => trivial
      obtain ⟨rfl, hq⟩ := h₂.2 q os hu
      exact ⟨hr.symm, hq⟩
  rw [Prog.wp_bind]
  refine Prog.wp_mono hraw (fun u w₂ h₂ => ?_) fun _ _ _ => trivial
  obtain ⟨rfl, h₂⟩ := h₂
  rw [Prog.wp_bind]
  refine Prog.wp_mono (Prog.wp_of_state (P := fun w₃ => w₃ = w₂)
    (unlessEmpty_state (fun ts _ => broadcastTradeUpdate_state ts) _)) (fun v w₃ h₃ q os hu => ?_)
    fun _ _ _ => trivial
  obtain ⟨ho, hq⟩ := h₂ q os hu
  refine ⟨ho, hq, ?_⟩
  rw [h₃]
  simpa using h₁.orderQueue

variable (env w) in
/-- **An update has the orders of its response**, and no match of it was found to be invalid. -/
theorem respond_raw (s : Services) {r : EngineResponse}
    (hlen : ∀ m, r.matches? = some m → m.makerOrders.length = m.trades.length) :
    Prog.wp (s.respond r) env w (Tells r w) (fun _ _ => True) := by
  have hno : Tells r w {} w := fun q os h => absurd h (by simp)
  unfold respond
  cases hs : r.status with
  | ORDER_ADDED | ORDER_CANCELLED =>
    exact respondOrder_tells ((silent_deref _).bind fun _ => silent_sendOrderMessage _)
      (by rw [EngineResponse.rawOrders, hs])
  | ORDER_FILLED | ORDER_PARTIALLY_FILLED =>
    exact s.respondMatched_tells (by rw [EngineResponse.rawOrders, hs]) hlen
  | TRADES_CANCELLED => exact respondInvalidated_tells (by rw [EngineResponse.rawOrders, hs])
  | none | INVALIDATED => exact hno

end Services

end

end Dex
