import DexServer.Engine.Proof.GiveBack

/-!
# Which trades an invalidation cancels

`UpdateTradeStatusesByOrderHashes` selects trades by their maker alone. `invalidateMakerOrders`
passes it the hashes of the takers, `invalidateTakerOrders` those of the makers.

* `CancelsAtFault`: of the stored trades those of the batch become CANCELLED, and no other changes.
* `trades_at_fault_iff`: it is so exactly if every stored trade that is not CANCELLED already is
  selected if and only if it is a trade of the batch.
-/

namespace Dex

open Lib

/-- The stored trade `x` is one of the trades of `m`. -/
def Matches.Has (m : Matches) (x : Trade) : Prop :=
  ∃ t ∈ m.trades, t.makerOrderHash = x.makerOrderHash ∧ t.takerOrderHash = x.takerOrderHash

instance (m : Matches) (x : Trade) : Decidable (m.Has x) :=
  inferInstanceAs (Decidable (∃ t ∈ m.trades, _))

/-- The status of the trade stored at place `i`. -/
def World.tradeStatus (w : World) (i : Nat) : Option TradeStatus := w.trades[i]?.map (·.status)

/-- The trades of `m` become CANCELLED, the others keep their status. -/
def CancelsAtFault (m : Matches) (w w' : World) : Prop :=
  ∀ (i : Nat) (x : Trade), w.trades[i]? = some x →
    w'.tradeStatus i = some (if m.Has x then .CANCELLED else x.status)

/-- The trades with a maker among `hashes` are those of `m`, as far as they are not CANCELLED. -/
def Selects (hashes : List Hash) (m : Matches) (w : World) : Prop :=
  ∀ x ∈ w.trades, x.status = .CANCELLED ∨ (x.makerOrderHash ∈ hashes ↔ m.Has x)

instance (hashes : List Hash) (m : Matches) (w : World) : Decidable (Selects hashes m w) :=
  inferInstanceAs (Decidable (∀ x ∈ w.trades, _))

theorem setTradeStatuses_nil (status : TradeStatus) (ts : List Trade) :
    setTradeStatuses (·.makerOrderHash ∈ []) status ts = ts :=
  setTradeStatuses_none status fun _ _ => by simp

theorem cancelsAtFault_iff {hashes : List Hash} {m : Matches} {w w' : World}
    (h : w'.trades = setTradeStatuses (·.makerOrderHash ∈ hashes) .CANCELLED w.trades) :
    CancelsAtFault m w w' ↔ Selects hashes m w := by
  have hafter : ∀ (i : Nat) (x : Trade), w.trades[i]? = some x →
      w'.tradeStatus i = some (if x.makerOrderHash ∈ hashes then .CANCELLED else x.status) := by
    intro i x hx
    rw [World.tradeStatus, h, getElem?_setTradeStatuses hx]
    by_cases hin : x.makerOrderHash ∈ hashes <;> simp [hin]
  constructor
  · intro hc x hx
    obtain ⟨i, hi⟩ := List.mem_iff_getElem?.1 hx
    have hs := hc i x hi
    rw [hafter i x hi, Option.some.injEq] at hs
    by_cases hin : x.makerOrderHash ∈ hashes
    · rw [if_pos hin] at hs
      by_cases hm : m.Has x
      · exact .inr (iff_of_true hin hm)
      · rw [if_neg hm] at hs
        exact .inl hs.symm
    · rw [if_neg hin] at hs
      by_cases hm : m.Has x
      · rw [if_pos hm] at hs
        exact .inl hs
      · exact .inr (iff_of_false hin hm)
  · intro hsel i x hi
    rw [hafter i x hi, Option.some.injEq]
    have hx : x ∈ w.trades := List.mem_of_getElem? hi
    rcases hsel x hx with hcan | hiff
    · simp [hcan]
    · by_cases hm : m.Has x
      · rw [if_pos hm, if_pos (hiff.2 hm)]
      · rw [if_neg hm, if_neg (mt hiff.1 hm)]

/-- The makers of the trades that are cancelled, if no call up to the update fails; `back` are the
hashes of the orders that are given back to. -/
def Env.cancelledBy (env : Env) (w : World) (back : List Hash) : List Hash :=
  if env.RestoreFails w back ∨ env.fails (env.cancelCall (w.restoreEnd back)) then [] else back

theorem InvalidateTrace.trades {env : Env} {back marked : List Hash} {amounts : List Int}
    {w w' : World} {qs : List Order} {res : List EngineResponse}
    (h : InvalidateTrace env back marked amounts w qs res w') : w'.trades =
      setTradeStatuses (·.makerOrderHash ∈ env.cancelledBy w back) .CANCELLED w.trades := by
  rw [h.became.trades, Env.cancelled, Env.cancelledBy]
  by_cases hf : env.fails (env.cancelCall (w.restoreEnd back))
  · rw [if_pos hf, if_pos (.inr hf), setTradeStatuses_nil]
  · rw [if_neg hf, if_neg (not_or.2 ⟨h.restored, hf⟩)]

theorem InvalidateStop.trades {env : Env} {back : List Hash} {amounts : List Int} {w w' : World}
    (hf : env.RestoreFails w back) (h : InvalidateStop back amounts w w') : w'.trades =
      setTradeStatuses (·.makerOrderHash ∈ env.cancelledBy w back) .CANCELLED w.trades := by
  obtain ⟨rs, -, hb⟩ := h
  rw [hb.trades, Env.cancelledBy, if_pos (.inl hf), setTradeStatuses_nil]

/-- The makers of the trades that `invalidateMakerOrders` cancels: the takers of the batch, if there
is a trade for each maker. -/
def Matches.cancelledWithMakers (m : Matches) (env : Env) (w : World) : List Hash :=
  if m.trades.length < m.makerOrders.length then []
  else env.cancelledBy w (m.readHashes (·.takerOrderHash))

/-- **An invalidation cancels the trades at fault** exactly if those it selects are these. -/
theorem trades_at_fault_iff (env : Env) (m : Matches) (w : World) :
    (CancelsAtFault m w (invalidateMakerOrders m env w).2 ↔
      Selects (m.cancelledWithMakers env w) m w) ∧
    (CancelsAtFault m w (invalidateTakerOrders m env w).2 ↔
      Selects (env.cancelledBy w (m.trades.map (·.makerOrderHash))) m w) := by
  constructor
  · refine cancelsAtFault_iff (Prog.wp_state (P := fun w' => w'.trades = setTradeStatuses
      (·.makerOrderHash ∈ m.cancelledWithMakers env w) .CANCELLED w.trades)
      (Prog.wp_mono (invalidateMakerOrders_trace m w) ?_ ?_))
    · intro _ w' ⟨hlen, qs, res, h⟩
      rw [Matches.cancelledWithMakers, if_neg (not_lt.2 hlen)]
      exact h.trades
    · rintro e w' (⟨hlen, rfl⟩ | ⟨hlen, -, -, ⟨hf, h⟩ | ⟨qs, res, h⟩⟩)
      · rw [Matches.cancelledWithMakers, if_pos hlen, setTradeStatuses_nil]
      · rw [Matches.cancelledWithMakers, if_neg (not_lt.2 hlen)]
        exact h.trades hf
      · rw [Matches.cancelledWithMakers, if_neg (not_lt.2 hlen)]
        exact h.trades
  · refine cancelsAtFault_iff (Prog.wp_state (P := fun w' => w'.trades = setTradeStatuses
      (·.makerOrderHash ∈ env.cancelledBy w (m.trades.map (·.makerOrderHash))) .CANCELLED w.trades)
      (Prog.wp_mono (invalidateTakerOrders_trace m w) ?_ ?_))
    · exact fun _ w' ⟨qs, res, h⟩ => h.trades
    · rintro e w' ⟨-, -, ⟨hf, h⟩ | ⟨qs, res, h⟩⟩
      · exact h.trades hf
      · exact h.trades

/-- The SELL orders 1 and 2 and the BUY that took both, its trades pending; an older trade of the
first SELL with another BUY has been settled. -/
def World.sampleTraded : World :=
  { World.sampleFilled with trades :=
      [Trade.sampleWith 1 4, Trade.sampleWith 2 6,
        { Trade.sampleWith 1 2 with takerOrderHash := 5, status := .SUCCESS }] }

/-- `invalidateMakerOrders` of the first leaves its trade as it is: the BUY is nobody's maker.
`invalidateTakerOrders` cancels also the settled trade with another BUY. -/
theorem wrong_trades_cancelled :
    let m := Matches.sampleOf [(1, 4)]
    let w := World.sampleTraded
    let env := Env.sample .stored
    (invalidateMakerOrders m env w).2.trades.map (·.status) = [.PENDING, .PENDING, .SUCCESS] ∧
    (invalidateTakerOrders m env w).2.trades.map (·.status) = [.CANCELLED, .PENDING, .CANCELLED] ∧
    ¬CancelsAtFault m w (invalidateMakerOrders m env w).2 ∧
    ¬CancelsAtFault m w (invalidateTakerOrders m env w).2 := by
  intro m w env
  refine ⟨by decide +kernel, by decide +kernel, fun h => ?_, fun h => ?_⟩
  · exact absurd (h 0 _ rfl) (by decide +kernel)
  · exact absurd (h 2 _ rfl) (by decide +kernel)

end Dex
