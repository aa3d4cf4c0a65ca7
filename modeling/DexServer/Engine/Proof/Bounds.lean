import DexServer.Engine.Proof.Handle
import DexServer.Lib.Run
import DexServer.Sample

/-!
# Fills stay within amounts

Five operations of a book write fills, each in its own way: matching moves the smaller of two
remainders, `complete` assigns the amount, an invalidation subtracts and clamps. `run_bounds` says
of each that it keeps `0 ≤ FilledAmount ≤ Amount` for every stored order, publishes no trade of a
negative amount and reads no list out of range, whichever calls fail;
`fill_bounds_kept_by_every_operation` is this over runs.
-/

namespace Dex

open Lib

/-- A call of an operation of a book. -/
inductive EngineOp
  | newOrder (o : Order)
  | cancelOrder (o : Order)
  | invalidateOrder (o : Order)
  | invalidateMakerOrders (m : Matches)
  | invalidateTakerOrders (m : Matches)

namespace EngineOp

def run : EngineOp → M Unit
  | newOrder o => Dex.newOrder o
  | cancelOrder o => Dex.cancelOrder o
  | invalidateOrder o => do
    let _ ← Dex.invalidateOrder o
    pure ()
  | invalidateMakerOrders m => Dex.invalidateMakerOrders m
  | invalidateTakerOrders m => Dex.invalidateTakerOrders m

def step (env : Env) (w : World) (op : EngineOp) : World := (op.run env w).2

/-- An incoming order has its fill within its amount, and the amount of the order stored under its
hash; matches have a trade for each maker. -/
def Allowed (w : World) : EngineOp → Prop
  | newOrder o => 0 < o.amount ∧ 0 ≤ o.filledAmount ∧ o.filledAmount ≤ o.amount ∧
      ∀ d ∈ w.orders.get o.hash, d.amount = o.amount
  | invalidateMakerOrders m | invalidateTakerOrders m => m.makerOrders.length = m.trades.length
  | cancelOrder _ | invalidateOrder _ => True

instance (w : World) : (op : EngineOp) → Decidable (Allowed w op)
  | newOrder _ => inferInstanceAs (Decidable (_ ∧ _ ∧ _ ∧ _))
  | invalidateMakerOrders _ | invalidateTakerOrders _ => inferInstanceAs (Decidable (_ = _))
  | cancelOrder _ | invalidateOrder _ => inferInstanceAs (Decidable True)

end EngineOp

/-- Going from `w` to `w'`, the fills stay within the amounts and nothing negative is traded. -/
structure KeepsBounds (w w' : World) : Prop where
  stored : ∀ d ∈ w'.orders, d.Bounded
  traded : ∃ rs, w'.engineResponses = w.engineResponses ++ rs ∧
    ∀ r ∈ rs, ∀ t ∈ r.trades, 0 ≤ t.amount

namespace KeepsBounds

variable {env : Env} {w w' w₁ : World}

theorem trans (h : KeepsBounds w w₁) (h' : KeepsBounds w₁ w') : KeepsBounds w w' := by
  obtain ⟨rs, hrs, ht⟩ := h.traded
  obtain ⟨rs', hrs', ht'⟩ := h'.traded
  refine ⟨h'.stored, rs ++ rs', by rw [hrs', hrs, List.append_assoc], fun r hr => ?_⟩
  rcases List.mem_append.1 hr with hr | hr
  · exact ht r hr
  · exact ht' r hr

theorem of_same (hb : ∀ d ∈ w.orders, d.Bounded) (h : w.Same w') : KeepsBounds w w' :=
  ⟨h.orders ▸ hb, [], h.engineResponses, by simp⟩

theorem of_status (hb : ∀ d ∈ w.orders, d.Bounded) {status : Status} {hashes : List Hash}
    {ts : List Trade} {ms : List Message} {rs : List EngineResponse}
    (hrs : ∀ r ∈ rs, r.trades = [])
    (h : w.Became (setStatuses w.orders status hashes) ts ms rs w') : KeepsBounds w w' := by
  refine ⟨fun d hd => ?_, rs, h.engineResponses, fun r hr => by simp [hrs r hr]⟩
  rw [h.orders] at hd
  obtain ⟨x, hx, rfl⟩ := mem_setStatuses.1 hd
  have hxb := hb x hx
  split
  · exact ⟨hxb.pos, hxb.nonneg, hxb.le⟩
  · exact hxb

theorem of_newOrder {o : Order} {ds : List (Time × Order)} {rs : List EngineResponse}
    (hb : ∀ d ∈ w.orders, d.Bounded) (ho : o.Bounded)
    (h : NewOrderEffect env o (env.orderDao.matching w.calls w.orders.docs o) w w' ds rs) :
    KeepsBounds w w' := by
  have hl := env.orderDao.matching_subperm w.calls w.orders.docs o
  have hof := processOrder_of o (env.orderDao.matching w.calls w.orders.docs o)
  have hcnt := processOrder_counts ho fun mo hm => hb mo (hl.subset hm)
  refine ⟨h.bounded hl ho hb, rs, h.engineResponses, fun r hr t ht => ?_⟩
  obtain ⟨-, p, hp, rfl⟩ := h.trade (List.mem_flatMap.2 ⟨r, hr, ht⟩)
  exact tradeAmount_nonneg (hcnt.takers p hp) (hb _ (hl.subset (hof.maker_mem hp)))

theorem of_invalidate {back marked : List Hash} {amounts : List Int} {rs qs : List Order}
    (hb : ∀ d ∈ w.orders, d.Bounded) (h : InvalidateEffect back marked amounts w rs qs w') :
    KeepsBounds w w' := by
  obtain ⟨c, ts, res, -, hres, hbe⟩ := h.became
  exact ⟨h.bounded hb, res, hbe.engineResponses, fun r hr => by simp [hres r hr]⟩

end KeepsBounds

section
variable {env : Env} {w w₀ : World}

theorem EngineOp.run_bounds (hb : ∀ d ∈ w.orders, d.Bounded) {op : EngineOp}
    (hok : op.Allowed w) :
    Prog.wp op.run env w (fun _ w' => KeepsBounds w w')
      (fun e w' => (∀ s, e ≠ .panic s) ∧ KeepsBounds w w') := by
  cases op with
  | newOrder o =>
    obtain ⟨hp, h0, hle, -⟩ := hok
    refine Prog.wp_mono (newOrder_wp o w rfl) (fun _ w' h => ?_) fun e w' h => ?_
    · obtain ⟨ds, rs, h⟩ := h
      exact .of_newOrder hb ⟨hp, h0, hle⟩ h
    · obtain ⟨he, ds, rs, h⟩ := h
      exact ⟨by simp [he], .of_newOrder hb ⟨hp, h0, hle⟩ h⟩
  | cancelOrder o =>
    refine Prog.wp_mono (cancelOrder_wp o w) (fun _ w' h => ?_) fun e w' h => ?_
    · exact .of_status hb (by simp [cancelResponse, EngineResponse.trades]) h.2
    · obtain ⟨he, h⟩ := h
      refine ⟨by rcases he with he | he <;> simp [he.1], ?_⟩
      rcases h with h | ⟨-, h⟩
      · exact .of_same hb h
      · exact .of_status hb (by simp) h
  | invalidateOrder o =>
    simp only [run, Prog.wp_bind]
    refine Prog.wp_mono (invalidateOrder_wp o w) (fun _ w' h => .of_status hb (by simp) h) ?_
    intro e w' ⟨he, h⟩
    exact ⟨by rcases he with he | he <;> simp [he], .of_same hb h⟩
  | invalidateMakerOrders m =>
    refine Prog.wp_mono (invalidateMakerOrders_wp m w) (fun _ w' h => ?_) fun e w' h => ?_
    · obtain ⟨⟨rs, qs, h⟩, -⟩ := h
      exact .of_invalidate hb h
    · obtain ⟨he, rs, qs, h⟩ := h
      have hlen : ¬m.trades.length < m.makerOrders.length := by
        have : m.makerOrders.length = m.trades.length := hok
        omega
      exact ⟨by simp [(he.resolve_right hlen).1], .of_invalidate hb h⟩
  | invalidateTakerOrders m =>
    refine Prog.wp_mono (invalidateTakerOrders_wp m w) (fun _ w' h => ?_) fun e w' h => ?_
    · obtain ⟨⟨rs, qs, h⟩, -⟩ := h
      exact .of_invalidate hb h
    · obtain ⟨he, rs, qs, h⟩ := h
      exact ⟨by simp [he.1], .of_invalidate hb h⟩

theorem EngineOp.step_bounds (hb : ∀ d ∈ w.orders, d.Bounded) {op : EngineOp}
    (hok : op.Allowed w) : KeepsBounds w (op.step env w) :=
  Prog.wp_state (Prog.wp_mono (op.run_bounds hb hok) (fun _ _ h => h) fun _ _ h => h.2)

/-- **Fills stay within amounts** over every run of operations, from any state in which they are;
no trade published has a negative amount, and no operation panics. -/
theorem fill_bounds_kept_by_every_operation (h0 : ∀ d ∈ w₀.orders, d.Bounded)
    {ops : List EngineOp}
    (h : Run (fun _ w op => EngineOp.Allowed w op) (fun w op => op.step env w) w₀ ops w) :
    KeepsBounds w₀ w ∧
      ∀ op, EngineOp.Allowed w op → ∀ s, (op.run env w).1 ≠ .error (.panic s) := by
  have hk : KeepsBounds w₀ w := by
    refine h.invariant (I := fun _ w => KeepsBounds w₀ w) (.of_same h0 w₀.same_rfl) ?_
    intro ops w op _ hk hok
    exact hk.trans (EngineOp.step_bounds hk.stored hok)
  refine ⟨hk, fun op hok s => ?_⟩
  refine Prog.wp_result (P := fun x => x.1 ≠ .error (.panic s)) (EngineOp.run_bounds hk.stored hok)
    (fun _ _ _ => nofun) fun e w' he hs => ?_
  cases hs
  exact he.1 s rfl

end

/-- A BUY of 4 takes part of a SELL of 10, each invalidation gives more back than was traded, and
both orders end cancelled or in error. -/
def boundedOps : List EngineOp :=
  let maker := Order.sample 1 .SELL 5 10
  let taker := Order.sample 2 .BUY 5 4
  let trade := { newTrade .sample taker maker with amount := 7 }
  [.newOrder maker, .newOrder taker, .invalidateMakerOrders ⟨[maker], taker, [trade]⟩,
    .newOrder { taker with filledAmount := 4 }, .invalidateTakerOrders ⟨[maker], taker, [trade]⟩,
    .cancelOrder maker, .invalidateOrder taker]

theorem fill_bounds_kept_by_every_operation_sample : ∃ w : World,
    w.emitted.map (·.amount) = [4] ∧ KeepsBounds World.empty w ∧
      ∀ op, EngineOp.Allowed w op → ∀ s, (op.run (.sample .stored) w).1 ≠ .error (.panic s) :=
  ⟨_, by decide +kernel, fill_bounds_kept_by_every_operation (by simp)
    (Run.of_check boundedOps (by decide +kernel))⟩

end Dex
