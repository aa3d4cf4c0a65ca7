import DexServer.Engine.Engine
import DexServer.Engine.Proof.Effect
import DexServer.Engine.Proof.Invalidate

/-!
# What handling a message does, whichever calls fail

`Handled env m w w'` has one case for each operation of a book, with the effect its rule gives;
`deliver_handled` is the inversion every invariant of the engine splits on.
-/

namespace Dex

open Lib

/-! ## Status updates -/

section
variable {env : Env}

theorem updateOrderStatus_wp (h : Hash) (status : Status) (w : World) :
    Prog.wp (updateOrderStatus h status) env w
      (fun _ w' => (w.orders.get h).isSome ∧
        w.Became (setStatuses w.orders status [h]) w.trades [] [] w')
      (fun e w' => (e = .io ∧ ¬env.Faultless ∨ e = .notFound ∧ w.orders.get h = none) ∧
        w.Same w') := by
  refine wp_call (fun hf => ⟨.inl ⟨rfl, Env.not_faultless hf⟩, w.same_tick⟩) fun _ => ?_
  rw [World.tick_orders]
  cases hg : w.orders.get h with
  | none => exact ⟨.inr ⟨rfl, rfl⟩, w.same_tick⟩
  | some d => exact ⟨rfl, rfl, rfl, by simp, by simp, rfl, rfl, rfl⟩

/-- The response of `cancelOrder`. -/
def cancelResponse (o : Order) : EngineResponse :=
  { status := .ORDER_CANCELLED, order := some (o.withStatus .CANCELLED) }

/-- **`cancelOrder`, whichever calls fail**: the status alone is written, whatever it was. -/
theorem cancelOrder_wp (o : Order) (w : World) :
    Prog.wp (cancelOrder o) env w
      (fun _ w' => (w.orders.get o.hash).isSome ∧
        w.Became (setStatuses w.orders .CANCELLED [o.hash]) w.trades [] [cancelResponse o] w')
      (fun e w' => (e = .io ∧ ¬env.Faultless ∨ e = .notFound ∧ w.orders.get o.hash = none) ∧
        (w.Same w' ∨ (w.orders.get o.hash).isSome ∧
          w.Became (setStatuses w.orders .CANCELLED [o.hash]) w.trades [] [] w')) := by
  unfold cancelOrder
  rw [Prog.wp_bind]
  refine Prog.wp_mono (updateOrderStatus_wp o.hash .CANCELLED w) ?_ fun e w' h => ⟨h.1, .inl h.2⟩
  intro _ w₁ ⟨hs, h₁⟩
  refine Prog.wp_mono (publishEngineResponse_wp _ w₁) ?_ ?_
  · intro _ w' h
    rw [h₁.orders, h₁.trades] at h
    exact ⟨hs, h₁.trans h⟩
  · intro e w' ⟨he, hf, h⟩
    exact ⟨.inl ⟨he, hf⟩, .inr ⟨hs, h₁.same h⟩⟩

/-- **`InvalidateOrder`, whichever calls fail.** -/
theorem invalidateOrder_wp (o : Order) (w : World) :
    Prog.wp (invalidateOrder o) env w
      (fun _ w' => w.Became (setStatuses w.orders .ERROR [o.hash]) w.trades [] [] w')
      (fun e w' => (e = .io ∨ e = .notFound) ∧ w.Same w') := by
  unfold invalidateOrder
  rw [Prog.wp_bind]
  exact Prog.wp_mono (updateOrderStatus_wp o.hash .ERROR w) (fun _ _ h => h.2)
    fun e w' h => ⟨h.1.imp And.left And.left, h.2⟩

end

/-! ## Messages -/

/-- Handling `m` in `w` ends in `w'`. -/
inductive Handled (env : Env) (w : World) : Message → World → Prop
  /-- there is no book for the message, or nothing to do -/
  | ignored (m : Message) : Handled env w m w
  | newOrder {o : Order} {w' : World} {ds : List (Time × Order)} {rs : List EngineResponse}
      (h : NewOrderEffect env o (env.orderDao.matching w.calls w.orders.docs o) w w' ds rs) :
      Handled env w (.NEW_ORDER o) w'
  | addOrder {o : Order} {w' : World} (ds : List (Time × Order))
      (hds : ∀ d ∈ ds, d.2 = addedOrder o) (h : w.Wrote ds [] w') : Handled env w (.ADD_ORDER o) w'
  | cancelOrder {o : Order} {w' : World} {res : List EngineResponse}
      (hres : ∀ r ∈ res, r = cancelResponse o)
      (h : w.Same w' ∨ (w.orders.get o.hash).isSome ∧
        w.Became (setStatuses w.orders .CANCELLED [o.hash]) w.trades [] res w') :
      Handled env w (.CANCEL_ORDER o) w'
  | invalidateMakerOrders {m : Matches} {w' : World} {rs qs : List Order}
      (h : InvalidateEffect (m.readHashes (·.takerOrderHash)) (m.readHashes (·.makerOrderHash))
        m.tradeAmounts w rs qs w') : Handled env w (.INVALIDATE_MAKER_ORDERS m) w'
  | invalidateTakerOrders {m : Matches} {w' : World} {rs qs : List Order}
      (h : InvalidateEffect (m.trades.map (·.makerOrderHash)) [m.takerOrder.hash]
        m.tradeAmounts w rs qs w') : Handled env w (.INVALIDATE_TAKER_ORDERS m) w'

section
variable (e : Engine) {env : Env} {w : World}

/-- A handler runs the operation of its book or does nothing. -/
theorem Engine.onBook_handled {code : Eth → Except String String} {op : M Unit} {m : Message}
    (h : Handled env w m (op env w).2) : Handled env w m (e.onBook code op env w).2 := by
  rcases e.onBook_cases code op env w with hw | hw <;> rw [hw]
  · exact .ignored m
  · exact h

theorem Engine.handleOrders_handled (m : Message) : Handled env w m (e.handleOrders m env w).2 := by
  cases m with
  | NEW_ORDER o =>
    obtain ⟨ds, rs, h⟩ := newOrder_effect env o w
    exact e.onBook_handled (.newOrder h)
  | ADD_ORDER o =>
    refine e.onBook_handled (Prog.wp_state (P := fun w' => Handled env w (.ADD_ORDER o) w') ?_)
    unfold addOrder
    rw [Prog.wp_bind]
    refine wp_findAndModify (fun _ => ?_) fun _ now d => ?_
    · exact .addOrder [] (by simp) ⟨w.calls + 1, by simp [World.tick]⟩
    · exact .addOrder [(now, addedOrder o)] (by simp) ⟨w.calls + 1, by simp⟩
  | CANCEL_ORDER o =>
    refine e.onBook_handled (Prog.wp_state (P := fun w' => Handled env w (.CANCEL_ORDER o) w') ?_)
    refine Prog.wp_mono (cancelOrder_wp o w) (fun _ w' h => ?_) fun _ w' h => ?_
    · exact .cancelOrder (by simp) (.inr h)
    · exact .cancelOrder (by simp) h.2
  | INVALIDATE_MAKER_ORDERS m =>
    refine e.onBook_handled
      (Prog.wp_state (P := fun w' => Handled env w (.INVALIDATE_MAKER_ORDERS m) w') ?_)
    refine Prog.wp_mono (invalidateMakerOrders_wp m w) (fun _ w' h => ?_) fun _ w' h => ?_
    · obtain ⟨⟨rs, qs, h⟩, -⟩ := h
      exact .invalidateMakerOrders h
    · obtain ⟨-, rs, qs, h⟩ := h
      exact .invalidateMakerOrders h
  | INVALIDATE_TAKER_ORDERS m =>
    refine Prog.wp_state (P := fun w' => Handled env w (.INVALIDATE_TAKER_ORDERS m) w') ?_
    simp only [Engine.handleOrders, Engine.handleInvalidateTakerOrders, Prog.wp_bind, Prog.wp_ask]
    refine wp_checked (fun c _ => ?_) fun _ => .ignored _
    split
    · refine Prog.wp_mono (invalidateTakerOrders_wp m w) (fun _ w' h => ?_) fun _ w' h => ?_
      · obtain ⟨⟨rs, qs, h⟩, -⟩ := h
        exact .invalidateTakerOrders h
      · obtain ⟨-, rs, qs, h⟩ := h
        exact .invalidateTakerOrders h
    · exact .ignored _
  | unknown t => exact .ignored _

/-- **A delivery**: there is no such message, or it is taken from the queue and handled. -/
theorem Engine.deliver_handled (env : Env) (w : World) (i : Nat) :
    (w.orderQueue[i]? = none ∧ e.deliver env i w = w) ∨
    ∃ m, w.orderQueue[i]? = some m ∧ Handled env (w.take i) m (e.deliver env i w) := by
  unfold Engine.deliver
  cases hq : w.orderQueue[i]? with
  | none => exact .inl ⟨rfl, rfl⟩
  | some m => exact .inr ⟨m, rfl, e.handleOrders_handled m⟩

end

/-! ## What an invalidation leaves -/

section
variable {back marked : List Hash} {amounts : List Int} {w w' : World} {rs qs : List Order}
  (h : InvalidateEffect back marked amounts w rs qs w')
include h

theorem InvalidateEffect.emitted : w'.emitted = w.emitted := by
  obtain ⟨c, ts, res, -, hres, hb⟩ := h.became
  have : res.flatMap (·.trades) = [] := List.flatMap_eq_nil_iff.2 hres
  rw [World.emitted, hb.engineResponses, List.flatMap_append, this, List.append_nil]
  rfl

/-- A stored order afterwards is one from before or one given back, INVALIDATED or as it was. -/
theorem InvalidateEffect.mem {d : Order} (hd : d ∈ w'.orders) :
    ∃ x, (d = x ∨ d = x.withStatus .INVALIDATED) ∧
      (x ∈ w.orders ∨ ∃ y ∈ w.orders, y.hash ∈ back ∧ ∃ a, x = restored y a) := by
  obtain ⟨c, ts, res, hc, -, hb⟩ := h.became
  have hput : ∀ x ∈ w.orders.putAll rs,
      x ∈ w.orders ∨ ∃ y ∈ w.orders, y.hash ∈ back ∧ ∃ a, x = restored y a := by
    intro x hx
    rcases (Coll.mem_putAll h.given.nodup).1 hx with hx | ⟨hx, -⟩
    · exact .inr (h.given.mem hx)
    · exact .inl hx
  rw [hb.orders] at hd
  rcases hc with rfl | rfl
  · exact ⟨d, .inl rfl, hput d hd⟩
  · obtain ⟨x, hx, rfl⟩ := mem_setStatuses.1 hd
    refine ⟨x, ?_, hput x hx⟩
    split
    · exact .inr rfl
    · exact .inl rfl

theorem InvalidateEffect.mem_terms {d : Order} (hd : d ∈ w'.orders) :
    ∃ y ∈ w.orders, d.terms = y.terms := by
  obtain ⟨x, hx, hy⟩ := h.mem hd
  have hdx : d.terms = x.terms := by rcases hx with rfl | rfl <;> rfl
  rcases hy with hy | ⟨y, hy, -, a, rfl⟩
  · exact ⟨x, hy, hdx⟩
  · exact ⟨y, hy, hdx.trans (restored_terms y a)⟩

theorem InvalidateEffect.bounded (hb : ∀ d ∈ w.orders, d.Bounded) : ∀ d ∈ w'.orders, d.Bounded := by
  intro d hd
  obtain ⟨x, hx, hy⟩ := h.mem hd
  have hxb : x.Bounded := by
    rcases hy with hy | ⟨y, hy, -, a, rfl⟩
    · exact hb x hy
    · exact restored_bounded a (hb y hy).pos
  rcases hx with rfl | rfl
  · exact hxb
  · exact ⟨hxb.pos, hxb.nonneg, hxb.le⟩

theorem InvalidateEffect.queued {m : Message} (hm : m ∈ w'.orderQueue) :
    m ∈ w.orderQueue ∨ ∃ y ∈ w.orders, ∃ a, m = .NEW_ORDER (restored y a) := by
  obtain ⟨c, ts, res, -, -, hb⟩ := h.became
  rw [hb.orderQueue] at hm
  rcases List.mem_append.1 hm with hm | hm
  · exact .inl hm
  · obtain ⟨r, hr, rfl⟩ := List.mem_map.1 hm
    obtain ⟨y, hy, -, a, rfl⟩ := h.given.mem (h.requeued.subset hr)
    exact .inr ⟨y, hy, a, rfl⟩

end

theorem Handled.emitted {env : Env} {w w' : World} {m : Message} (h : Handled env w m w')
    (hm : ∀ o, m ≠ .NEW_ORDER o) : w'.emitted = w.emitted := by
  cases h with
  | ignored => rfl
  | newOrder => exact absurd rfl (hm _)
  | addOrder _ _ h =>
    obtain ⟨n, rfl⟩ := h
    simp [World.emitted]
  | @cancelOrder _ _ res hres h =>
    rcases h with h | ⟨-, h⟩
    · simp [World.emitted, h.engineResponses]
    · have hnone : res.flatMap (·.trades) = [] :=
        List.flatMap_eq_nil_iff.2 fun r hr => by rw [hres r hr]; rfl
      rw [World.emitted, h.engineResponses, List.flatMap_append, hnone, List.append_nil]
      rfl
  | invalidateMakerOrders h => exact h.emitted
  | invalidateTakerOrders h => exact h.emitted

/-! ## Orders held -/

/-- The order is stored, or queued for the engine. -/
def World.Holds (w : World) (d : Order) : Prop := d ∈ w.orders ∨ .NEW_ORDER d ∈ w.orderQueue

section
variable {env : Env} {w w' : World} {m : Message} (h : Handled env w m w')
include h

theorem Handled.queued {x : Message} (hx : x ∈ w'.orderQueue) :
    x ∈ w.orderQueue ∨ ∃ y ∈ w.orders, ∃ a, x = .NEW_ORDER (restored y a) := by
  cases h with
  | ignored => exact .inl hx
  | newOrder h => exact .inl (h.orderQueue ▸ hx)
  | addOrder _ _ h =>
    obtain ⟨n, rfl⟩ := h
    exact .inl hx
  | cancelOrder _ h =>
    rcases h with h | ⟨-, h⟩
    · exact .inl (by simpa [h.orderQueue] using hx)
    · exact .inl (by simpa [h.orderQueue] using hx)
  | invalidateMakerOrders h => exact h.queued hx
  | invalidateTakerOrders h => exact h.queued hx

/-- A message other than ADD_ORDER makes no new terms and keeps the fills within the amounts. -/
theorem Handled.stored (hm : ∀ o, m ≠ .ADD_ORDER o)
    (hb : ∀ d ∈ w.orders, d.Bounded) (ho : ∀ o, m = .NEW_ORDER o → o.Bounded) {d : Order}
    (hdw : d ∈ w'.orders) :
    d.Bounded ∧ ∃ x, (x ∈ w.orders ∨ m = .NEW_ORDER x) ∧ d.terms = x.terms := by
  cases h with
  | ignored => exact ⟨hb d hdw, d, .inl hdw, rfl⟩
  | newOrder h =>
    have hl := env.orderDao.matching_subperm w.calls w.orders.docs
    refine ⟨h.bounded (hl _) (ho _ rfl) hb d hdw, ?_⟩
    rcases h.mem_terms (hl _) hdw with ht | ⟨x, hx, ht⟩
    · exact ⟨_, .inr rfl, ht⟩
    · exact ⟨x, .inl hx, ht⟩
  | addOrder => exact absurd rfl (hm _)
  | cancelOrder _ h =>
    rcases h with h | ⟨-, h⟩ <;> rw [h.orders] at hdw
    · exact ⟨hb d hdw, d, .inl hdw, rfl⟩
    · obtain ⟨x, hx, rfl⟩ := mem_setStatuses.1 hdw
      have hxb := hb x hx
      split
      · exact ⟨⟨hxb.pos, hxb.nonneg, hxb.le⟩, x, .inl hx, rfl⟩
      · exact ⟨hxb, x, .inl hx, rfl⟩
  | invalidateMakerOrders h =>
    obtain ⟨x, hx, ht⟩ := h.mem_terms hdw
    exact ⟨h.bounded hb d hdw, x, .inl hx, ht⟩
  | invalidateTakerOrders h =>
    obtain ⟨x, hx, ht⟩ := h.mem_terms hdw
    exact ⟨h.bounded hb d hdw, x, .inl hx, ht⟩

end

/-! ## Runs of the engine -/

/-- Somebody publishes a message on the queue `order`, or the engine handles one of it. -/
inductive QueueOp
  | publish (m : Message)
  | deliver (i : Nat)

namespace QueueOp

def step (e : Engine) (env : Env) (w : World) : QueueOp → World
  | publish m => (publishOrder m env w).2
  | deliver i => e.deliver env i w

/-- The orders published as NEW_ORDER by others than the engine. -/
def published (ops : List QueueOp) : List Order :=
  ops.filterMap fun
    | publish (.NEW_ORDER o) => some o
    | _ => none

theorem mem_published_snoc {ops : List QueueOp} {op : QueueOp} {o : Order} :
    o ∈ published (ops ++ [op]) ↔ o ∈ published ops ∨ op = publish (.NEW_ORDER o) := by
  simp only [published, List.filterMap_append, List.mem_append]
  refine or_congr_right ?_
  cases op with
  | publish m => cases m <;> simp [eq_comm]
  | deliver i => simp

end QueueOp

theorem publishOrder_cases (m : Message) (env : Env) (w : World) :
    w.Same (publishOrder m env w).2 ∨
      w.Became w.orders w.trades [m] [] (publishOrder m env w).2 :=
  Prog.wp_state (P := fun w' => w.Same w' ∨ w.Became w.orders w.trades [m] [] w')
    (wp_call (fun _ => .inl w.same_tick) fun _ => .inr ⟨rfl, rfl, rfl, by simp, rfl, rfl, rfl⟩)

end Dex
