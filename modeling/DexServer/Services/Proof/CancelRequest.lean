import DexServer.Engine.Proof.Handle
import DexServer.Services.Proof.Request
import DexServer.Lib.Run
import DexServer.Sample

/-!
# Cancelling an order that is being filled

`CancelOrder` checks the status and publishes CANCEL_ORDER; the engine then sets the status without
a check of its own. An order that is filled in between becomes CANCELLED although it is complete
(`completed_order_is_cancelled`).

`completed_order_not_cancelled`: this is the only way. In every run in which no CANCEL_ORDER is
handled for an order that is complete by then, no complete order is CANCELLED and ORDER_CANCELLED is
published for none.
-/

namespace Dex

open Lib

/-- A step of clients and engine. -/
inductive CancelOp
  /-- a new order is published -/
  | newOrder (o : Order)
  /-- a client asks for a cancellation -/
  | request (h : Hash)
  | deliver (i : Nat)

namespace CancelOp

def step (e : Engine) (env : Env) (w : World) : CancelOp → World
  | newOrder o => (publishOrder (.NEW_ORDER o) env w).2
  | request h => (Services.cancelOrder h env w).2
  | deliver i => e.deliver env i w

def orders (ops : List CancelOp) : List Order :=
  ops.filterMap fun
    | newOrder o => some o
    | _ => none

/-- Orders are published once, unfilled. -/
def Fresh (ops : List CancelOp) : CancelOp → Prop
  | newOrder o => o.filledAmount = 0 ∧ ∀ o' ∈ orders ops, o'.hash ≠ o.hash
  | request _ | deliver _ => True

/-- An order for which CANCEL_ORDER is handled is not complete. -/
def Incomplete (w : World) : CancelOp → Prop
  | deliver i =>
    match w.orderQueue[i]? with
    | some (.CANCEL_ORDER o) => ∀ d ∈ w.orders.get o.hash, d.filledAmount ≠ d.amount
    | _ => True
  | newOrder _ | request _ => True

instance (ops : List CancelOp) : (op : CancelOp) → Decidable (Fresh ops op)
  | newOrder _ => inferInstanceAs (Decidable (_ ∧ _))
  | request _ | deliver _ => inferInstanceAs (Decidable True)

instance (w : World) : (op : CancelOp) → Decidable (Incomplete w op)
  | newOrder _ | request _ => inferInstanceAs (Decidable True)
  | deliver i => by
    unfold Incomplete
    dsimp only
    exact match w.orderQueue[i]? with
      | none => inferInstanceAs (Decidable True)
      | some (.CANCEL_ORDER o) => inferInstanceAs (Decidable (∀ d ∈ w.orders.get o.hash, _))
      | some (.NEW_ORDER _) | some (.ADD_ORDER _) | some (.INVALIDATE_MAKER_ORDERS _)
      | some (.INVALIDATE_TAKER_ORDERS _) | some (.unknown _) => inferInstanceAs (Decidable True)

end CancelOp

/-! ## The queue -/

/-- The hashes of the orders queued as new. -/
def newHashes (q : List Message) : List Hash :=
  q.filterMap fun
    | .NEW_ORDER o => some o.hash
    | _ => none

theorem newHashes_eraseIdx {q : List Message} {i : Nat} {m : Message} (hm : q[i]? = some m) :
    (newHashes q).Perm (newHashes [m] ++ newHashes (q.eraseIdx i)) := by
  obtain ⟨hi, rfl⟩ := List.getElem?_eq_some_iff.1 hm
  have hp := (List.getElem_cons_eraseIdx_perm hi).symm
  have := hp.filterMap fun
    | Message.NEW_ORDER o => some o.hash
    | _ => none
  rwa [← List.singleton_append, List.filterMap_append] at this

/-! ## One message -/

section
variable {env : Env} {o : Order} {l : List Order} {w w' : World} {ds : List (Time × Order)}
  {rs : List EngineResponse}

theorem processOrder_not_cancelled (h0 : o.filledAmount = 0) :
    (processOrder o l).takerOrder.status ≠ .CANCELLED := by
  unfold processOrder
  split
  · simp [restingOrder, addedOrder, h0]
  · rcases matchOrders_takerStatus l o o.amount with h | h <;> simp [h]

theorem filledMaker_not_cancelled (o mo : Order) : (filledMaker o mo).status ≠ .CANCELLED := by
  unfold filledMaker
  split
  · simp
  · simp

theorem processOrder_response (eth : Eth) :
    ((processOrder o l).response eth).status ≠ .ORDER_CANCELLED := by
  have hm : ∀ (l : List Order) (o : Order) (rem : Int),
      (matchOrders o rem l).status ≠ .ORDER_CANCELLED := by
    intro l
    induction l with
    | nil => simp [matchOrders]
    | cons mo l ih =>
      intro o rem
      unfold matchOrders
      split
      · simp
      · exact ih _ _
  unfold processOrder
  split
  · simp [Outcome.response]
  · exact hm l o o.amount

/-- A hash under which nothing rests, other than the incoming order's, is left alone. -/
theorem NewOrderEffect.get_closed (h : NewOrderEffect env o l w w' ds rs)
    (hl : ∀ mo ∈ l, mo ∈ w.orders ∧ mo.isOpen) {x : Hash} (hx : x ≠ o.hash)
    (hc : ∀ d, w.orders.get x = some d → ¬d.isOpen) : w'.orders.get x = w.orders.get x := by
  rw [h.orders]
  refine get_upserts_other fun p hp hpx => ?_
  rcases h.written_hash hp with he | ⟨mo, hmo, he⟩
  · exact hx (hpx.symm.trans he)
  · obtain ⟨hmw, hmo⟩ := hl mo hmo
    refine hc mo ?_ hmo
    rw [← hpx, ← he]
    exact Coll.get_mem hmw

end

/-! ## The invariant -/

structure Cancelling (ops : List CancelOp) (w : World) : Prop where
  messages : ∀ m ∈ w.orderQueue,
    (∃ o, m = .NEW_ORDER o ∧ o.filledAmount = 0) ∨ ∃ o, m = .CANCEL_ORDER o
  once : (newHashes w.orderQueue).Nodup
  unstored : ∀ h ∈ newHashes w.orderQueue, w.orders.get h = none
  known : ∀ h, h ∈ newHashes w.orderQueue ∨ (w.orders.get h).isSome →
    h ∈ (CancelOp.orders ops).map (·.hash)
  incomplete : ∀ d ∈ w.orders, d.status = .CANCELLED → d.filledAmount ≠ d.amount
  /-- ORDER_CANCELLED is published for an order that is CANCELLED, and stays so -/
  published : ∀ r ∈ w.engineResponses, r.status = .ORDER_CANCELLED →
    ∃ o d, r.order = some o ∧ w.orders.get o.hash = some d ∧ d.status = .CANCELLED

namespace Cancelling

variable {e : Engine} {env : Env} {ops : List CancelOp} {w w' : World}

theorem mono (hi : Cancelling ops w) (op : CancelOp) : Cancelling (ops ++ [op]) w := by
  refine { hi with known := fun h hh => ?_ }
  obtain ⟨o, ho, hoh⟩ := List.mem_map.1 (hi.known h hh)
  refine List.mem_map.2 ⟨o, ?_, hoh⟩
  simp only [CancelOp.orders, List.filterMap_append, List.mem_append]
  exact .inl ho

theorem congr (hi : Cancelling ops w) (ho : w'.orders = w.orders)
    (hq : w'.orderQueue = w.orderQueue) (hr : w'.engineResponses = w.engineResponses) :
    Cancelling ops w' := by
  refine ⟨?_, ?_, ?_, ?_, ?_, ?_⟩
  · exact hq ▸ hi.messages
  · exact hq ▸ hi.once
  · rw [ho, hq]
    exact hi.unstored
  · rw [ho, hq]
    exact hi.known
  · exact ho ▸ hi.incomplete
  · rw [ho, hr]
    exact hi.published

theorem newOrder (hi : Cancelling ops w) {o : Order} (hf : CancelOp.Fresh ops (.newOrder o))
    (ho : w'.orders = w.orders) (hq : w'.orderQueue = w.orderQueue ++ [.NEW_ORDER o])
    (hr : w'.engineResponses = w.engineResponses) : Cancelling (ops ++ [.newOrder o]) w' := by
  have hnew : o.hash ∉ (CancelOp.orders ops).map (·.hash) := by
    intro h
    obtain ⟨o', ho', hh⟩ := List.mem_map.1 h
    exact hf.2 o' ho' hh
  have hqh : newHashes w'.orderQueue = newHashes w.orderQueue ++ [o.hash] := by
    rw [hq, newHashes, List.filterMap_append]
    rfl
  have hops : CancelOp.orders (ops ++ [.newOrder o]) = CancelOp.orders ops ++ [o] := by
    rw [CancelOp.orders, List.filterMap_append]
    rfl
  refine ⟨fun m hm => ?_, ?_, fun h hh => ?_, fun h hh => ?_, ho ▸ hi.incomplete, ?_⟩
  · rw [hq] at hm
    rcases List.mem_append.1 hm with hm | hm
    · exact hi.messages m hm
    · exact .inl ⟨o, List.mem_singleton.1 hm, hf.1⟩
  · rw [hqh, List.nodup_append]
    refine ⟨hi.once, by simp, fun a ha b hb hab => ?_⟩
    rw [List.mem_singleton.1 hb] at hab
    exact hnew (hi.known _ (.inl (hab ▸ ha)))
  · rw [hqh] at hh
    rw [ho]
    rcases List.mem_append.1 hh with hh | hh
    · exact hi.unstored h hh
    · rw [List.mem_singleton.1 hh]
      cases hg : w.orders.get o.hash with
      | none => rfl
      | some d => exact absurd (hi.known _ (.inr (by rw [hg]; rfl))) hnew
  · rw [hqh, ho] at hh
    rw [hops, List.map_append, List.mem_append]
    rcases hh with hh | hh
    · rcases List.mem_append.1 hh with hh | hh
      · exact .inl (hi.known h (.inl hh))
      · exact .inr (by simpa using hh)
    · exact .inl (hi.known h (.inr hh))
  · rw [ho, hr]
    exact hi.published

theorem request (hi : Cancelling ops w) {o : Order} (ho : w'.orders = w.orders)
    (hq : w'.orderQueue = w.orderQueue ++ [.CANCEL_ORDER o])
    (hr : w'.engineResponses = w.engineResponses) : Cancelling ops w' := by
  have hqh : newHashes w'.orderQueue = newHashes w.orderQueue := by
    rw [hq, newHashes, List.filterMap_append]
    exact List.append_nil _
  refine ⟨fun m hm => ?_, by rw [hqh]; exact hi.once, ?_, ?_, ho ▸ hi.incomplete, ?_⟩
  · rw [hq] at hm
    rcases List.mem_append.1 hm with hm | hm
    · exact hi.messages m hm
    · exact .inr ⟨o, List.mem_singleton.1 hm⟩
  · rw [hqh, ho]
    exact hi.unstored
  · rw [hqh, ho]
    exact hi.known
  · rw [ho, hr]
    exact hi.published

theorem taken (hi : Cancelling ops w) {i : Nat} {m : Message} (hm : w.orderQueue[i]? = some m) :
    Cancelling ops (w.take i) := by
  have hp := newHashes_eraseIdx hm
  have hsub : ∀ h ∈ newHashes (w.take i).orderQueue, h ∈ newHashes w.orderQueue := fun h hh =>
    hp.symm.subset (List.mem_append_right _ hh)
  refine { hi with messages := ?_, once := ?_, unstored := ?_, known := ?_ }
  · exact fun m hm => hi.messages m (List.mem_of_mem_eraseIdx hm)
  · exact (List.nodup_append.1 (hp.nodup_iff.1 hi.once)).2.1
  · exact fun h hh => hi.unstored h (hsub h hh)
  · exact fun h hh => hi.known h (hh.imp (hsub h) id)

theorem processed (hi : Cancelling ops w) {o : Order} (h0 : o.filledAmount = 0)
    (hnone : w.orders.get o.hash = none) (honce : o.hash ∉ newHashes w.orderQueue)
    (hknown : o.hash ∈ (CancelOp.orders ops).map (·.hash)) {ds : List (Time × Order)}
    {rs : List EngineResponse}
    (h : NewOrderEffect env o (env.orderDao.matching w.calls w.orders.docs o) w w' ds rs) :
    Cancelling ops w' := by
  have hl : ∀ mo ∈ env.orderDao.matching w.calls w.orders.docs o, mo ∈ w.orders ∧ mo.isOpen :=
    fun mo hm => ⟨(env.orderDao.matching_subperm _ _ _).subset hm,
      (env.orderDao.matching_resting _ _ _ mo hm).1⟩
  refine ⟨h.orderQueue ▸ hi.messages, h.orderQueue ▸ hi.once, ?_, ?_, ?_, ?_⟩
  · rw [h.orderQueue]
    intro x hx
    have hxo : x ≠ o.hash := fun hxo => honce (hxo ▸ hx)
    have hnx := hi.unstored x hx
    rw [h.get_closed hl hxo (by simp [hnx]), hnx]
  · rw [h.orderQueue]
    intro x hx
    rcases hx with hx | hx
    · exact hi.known x (.inl hx)
    · obtain ⟨d, hd⟩ := Option.isSome_iff_exists.1 hx
      have hdh := Coll.get_key hd
      rcases h.mem_terms (env.orderDao.matching_subperm _ _ _) (Coll.mem_of_get hd) with
        ht | ⟨y, hy, ht⟩
      · rw [← hdh, (Order.sameTerms ht).hash]
        exact hknown
      · rw [← hdh, (Order.sameTerms ht).hash]
        exact hi.known _ (.inr (by rw [Coll.get_mem hy]; rfl))
  · intro d hd hs
    rcases h.mem hd with ⟨now, old, rfl⟩ | ⟨p, hp, now, old, rfl⟩ | ⟨hd, -⟩
    · rw [updatedDoc_status] at hs
      exact absurd hs (processOrder_not_cancelled h0)
    · rw [updatedDoc_status] at hs
      exact absurd hs (filledMaker_not_cancelled _ _)
    · exact hi.incomplete d hd hs
  · intro r hr hs
    rw [h.engineResponses] at hr
    rcases List.mem_append.1 hr with hr | hr
    · obtain ⟨x, d, hx, hg, hd⟩ := hi.published r hr hs
      refine ⟨x, d, hx, ?_, hd⟩
      have hxo : x.hash ≠ o.hash := by
        intro hxo
        rw [hxo, hnone] at hg
        cases hg
      rw [h.get_closed hl hxo, hg]
      intro d' hd' ho'
      cases hg.symm.trans hd'
      rcases ho' with ho' | ho' <;> cases hd.symm.trans ho'
    · rcases h.responses r hr with rfl | rfl
      · exact absurd hs (processOrder_response _)
      · cases hs

theorem cancelled (hi : Cancelling ops w) {o : Order} {res : List EngineResponse}
    (hres : ∀ r ∈ res, r = cancelResponse o) (hsome : (w.orders.get o.hash).isSome)
    (hok : ∀ d ∈ w.orders.get o.hash, d.filledAmount ≠ d.amount)
    (h : w.Became (setStatuses w.orders .CANCELLED [o.hash]) w.trades [] res w') :
    Cancelling ops w' := by
  have hq : w'.orderQueue = w.orderQueue := by simpa using h.orderQueue
  have hget := get_setStatuses w.orders .CANCELLED [o.hash]
  rw [← h.orders] at hget
  refine ⟨hq ▸ hi.messages, hq ▸ hi.once, ?_, ?_, ?_, ?_⟩
  · rw [hq]
    intro x hx
    rw [hget, hi.unstored x hx]
    rfl
  · rw [hq]
    intro x hx
    rw [hget, Option.isSome_map] at hx
    exact hi.known x hx
  · intro d hd hs
    rw [h.orders] at hd
    obtain ⟨y, hy, rfl⟩ := mem_setStatuses.1 hd
    split at hs
    · rename_i hyo
      rw [if_pos hyo]
      refine hok y ?_
      rw [← List.mem_singleton.1 hyo]
      exact Coll.get_mem hy
    · rename_i hyo
      rw [if_neg hyo]
      exact hi.incomplete y hy hs
  · intro r hr hs
    rw [h.engineResponses] at hr
    rcases List.mem_append.1 hr with hr | hr
    · obtain ⟨x, d, hx, hg, hd⟩ := hi.published r hr hs
      refine ⟨x, _, hx, by rw [hget, hg]; rfl, ?_⟩
      dsimp only
      split
      · rfl
      · exact hd
    · obtain ⟨d, hd⟩ := Option.isSome_iff_exists.1 hsome
      rw [hres r hr]
      refine ⟨_, _, rfl, by rw [Order.withStatus_hash, hget, hd]; rfl, ?_⟩
      dsimp only
      rw [if_pos (.head _)]
      rfl

theorem deliver (hi : Cancelling ops w) {i : Nat} (hok : CancelOp.Incomplete w (.deliver i)) :
    Cancelling ops (e.deliver env i w) := by
  rcases e.deliver_handled env w i with ⟨-, hw⟩ | ⟨m, hm, h⟩
  · rw [hw]
    exact hi
  · have ht := hi.taken hm
    generalize e.deliver env i w = w' at h
    rcases hi.messages m (List.mem_of_getElem? hm) with ⟨o, rfl, h0⟩ | ⟨o, rfl⟩
    · have hp := newHashes_eraseIdx hm
      have hmem : o.hash ∈ newHashes w.orderQueue := hp.symm.subset (.head _)
      have honce : o.hash ∉ newHashes (w.take i).orderQueue :=
        (List.nodup_cons.1 (hp.nodup_iff.1 hi.once)).1
      cases h with
      | ignored => exact ht
      | newOrder h =>
        exact ht.processed h0 (hi.unstored _ hmem) honce (hi.known _ (.inl hmem)) h
    · simp only [CancelOp.Incomplete, hm] at hok
      cases h with
      | ignored => exact ht
      | cancelOrder hres h =>
        rcases h with h | ⟨hs, h⟩
        · exact ht.congr h.orders (by simpa using h.orderQueue) (by simpa using h.engineResponses)
        · exact ht.cancelled hres hs hok h

theorem of_run (h : Run (fun ops w op => CancelOp.Fresh ops op ∧ CancelOp.Incomplete w op)
    (CancelOp.step e env) World.empty ops w) : Cancelling ops w := by
  refine h.invariant ⟨?_, ?_, ?_, ?_, ?_, ?_⟩ fun ops w op _ hi hok => ?_
  · exact fun m hm => absurd hm List.not_mem_nil
  · exact List.nodup_nil
  · exact fun h hh => absurd hh List.not_mem_nil
  · rintro h (hh | hh) <;> cases hh
  · simp
  · exact fun r hr => absurd hr List.not_mem_nil
  · cases op with
    | newOrder o =>
      rw [CancelOp.step]
      rcases publishOrder_cases (.NEW_ORDER o) env w with hw | hw
      · exact (hi.mono _).congr hw.orders (by simpa using hw.orderQueue)
          (by simpa using hw.engineResponses)
      · exact hi.newOrder hok.1 hw.orders hw.orderQueue (by simpa using hw.engineResponses)
    | request h =>
      rw [CancelOp.step]
      obtain ⟨n, hw | ⟨m, ⟨o, rfl, -⟩, hw⟩⟩ := Services.cancelOrder_requested h env w
      · rw [hw]
        exact (hi.mono _).congr rfl rfl rfl
      · rw [hw]
        exact (hi.mono _).request rfl rfl rfl
    | deliver i => exact (hi.mono _).deliver hok.2

end Cancelling

/-- **A complete order is not cancelled**, in every run in which no CANCEL_ORDER is handled for an
order that is complete by then. -/
theorem completed_order_not_cancelled {e : Engine} {env : Env} {ops : List CancelOp} {w : World}
    (h : Run (fun ops w op => CancelOp.Fresh ops op ∧ CancelOp.Incomplete w op)
      (CancelOp.step e env) World.empty ops w) {d : Order} (hd : d ∈ w.orders)
    (hc : d.filledAmount = d.amount) :
    d.status ≠ .CANCELLED ∧ ∀ r ∈ w.engineResponses, r.status = .ORDER_CANCELLED →
      ∀ o ∈ r.order, o.hash ≠ d.hash := by
  have hi := Cancelling.of_run h
  refine ⟨fun hs => hi.incomplete d hd hs hc, fun r hr hs o ho hoh => ?_⟩
  obtain ⟨x, y, hx, hg, hy⟩ := hi.published r hr hs
  cases hx.symm.trans ho
  rw [hoh, Coll.get_mem hd, Option.some.injEq] at hg
  exact hi.incomplete d hd (hg ▸ hy) hc

/-- A SELL is cancelled before a BUY comes, which fills another one. -/
def cancelInTimeOps : List CancelOp :=
  [.newOrder (.sample 1 .SELL 5 10), .deliver 0, .newOrder (.sample 2 .SELL 5 10), .deliver 0,
    .request 1, .deliver 0, .newOrder (.sample 3 .BUY 5 10), .deliver 0]

theorem completed_order_not_cancelled_sample : ∃ w : World, ∃ d ∈ w.orders,
    d.filledAmount = d.amount ∧ (w.orders.get 1).map (·.status) = some .CANCELLED ∧
    d.status ≠ .CANCELLED ∧ ∀ r ∈ w.engineResponses, r.status = .ORDER_CANCELLED →
      ∀ o ∈ r.order, o.hash ≠ d.hash := by
  have hrun : Run (fun ops w op => CancelOp.Fresh ops op ∧ CancelOp.Incomplete w op)
      (CancelOp.step .sample (.sample .stored)) World.empty cancelInTimeOps _ :=
    Run.of_check _ (by decide +kernel)
  have hd := List.mem_of_getElem? (i := 1)
    (l := (cancelInTimeOps.foldl (CancelOp.step .sample (.sample .stored)) World.empty).orders.docs)
      rfl
  exact ⟨_, _, hd, by decide +kernel, by decide +kernel,
    completed_order_not_cancelled hrun hd (by decide +kernel)⟩

/-- A cancellation is requested for a SELL that is OPEN; a BUY fills it before the message is
handled. -/
def cancelTooLateOps : List CancelOp :=
  [.newOrder (.sample 1 .SELL 5 10), .deliver 0, .request 1, .newOrder (.sample 2 .BUY 5 10),
    .deliver 1, .deliver 0]

theorem completed_order_is_cancelled : ∃ w : World, ∃ d ∈ w.orders,
    Run (fun ops _ op => CancelOp.Fresh ops op) (CancelOp.step .sample (.sample .stored))
      World.empty cancelTooLateOps w ∧
    d.filledAmount = d.amount ∧ d.status = .CANCELLED ∧
    ∃ r ∈ w.engineResponses, r.status = .ORDER_CANCELLED ∧ r.order.map (·.hash) = some d.hash := by
  have hd := List.mem_of_getElem? (i := 0)
    (l := (cancelTooLateOps.foldl (CancelOp.step .sample (.sample .stored))
      World.empty).orders.docs) rfl
  exact ⟨_, _, hd, Run.of_check _ (by decide +kernel), by decide +kernel, by decide +kernel,
    by decide +kernel⟩

end Dex
