import DexServer.Engine.Proof.Republish

/-!
# After a cancellation

No operation of a book looks at the status it overwrites, so a message that was in the queue when
an order was cancelled can put the order back (`republished_order_revives_cancelled`). The messages
that can are NEW_ORDER for the order itself and the invalidations of its trades that give it
amounts back: `Message.Revives`. `cancellation_is_final`: while none of them is handled, the
cancelled order stays closed and is in no trade.
-/

namespace Dex

open Lib

/-- Handling the message can write a status under `h` that is OPEN or PARTIAL_FILLED. -/
def Message.Revives (h : Hash) : Message → Prop
  | .NEW_ORDER o | .ADD_ORDER o => o.hash = h
  | .INVALIDATE_MAKER_ORDERS m => h ∈ m.readHashes (·.takerOrderHash)
  | .INVALIDATE_TAKER_ORDERS m => h ∈ m.trades.map (·.makerOrderHash)
  | .CANCEL_ORDER _ | .unknown _ => False

instance (h : Hash) : (m : Message) → Decidable (m.Revives h)
  | .NEW_ORDER _ | .ADD_ORDER _ => inferInstanceAs (Decidable (_ = _))
  | .INVALIDATE_MAKER_ORDERS _ | .INVALIDATE_TAKER_ORDERS _ => inferInstanceAs (Decidable (_ ∈ _))
  | .CANCEL_ORDER _ | .unknown _ => inferInstanceAs (Decidable False)

/-- The order `h` is not matchable in `w'`, and nothing was traded on it since `w`. -/
structure StaysClosed (h : Hash) (w w' : World) : Prop where
  closed : ∀ d ∈ w'.orders, d.hash = h → ¬d.isOpen
  untraded : ∃ rs, w'.engineResponses = w.engineResponses ++ rs ∧
    ∀ r ∈ rs, ∀ t ∈ r.trades, ¬t.Names h

namespace StaysClosed

variable {env : Env} {h : Hash} {w w₁ w' : World}

theorem trans (h₁ : StaysClosed h w w₁) (h₂ : StaysClosed h w₁ w') : StaysClosed h w w' := by
  obtain ⟨rs, hrs, ht⟩ := h₁.untraded
  obtain ⟨rs', hrs', ht'⟩ := h₂.untraded
  refine ⟨h₂.closed, rs ++ rs', by rw [hrs', hrs, List.append_assoc], fun r hr => ?_⟩
  rcases List.mem_append.1 hr with hr | hr
  · exact ht r hr
  · exact ht' r hr

section
variable (hc : ∀ d ∈ w.orders, d.hash = h → ¬d.isOpen)
include hc

theorem of_quiet (ho : w'.orders = w.orders) (hr : w'.engineResponses = w.engineResponses) :
    StaysClosed h w w' :=
  ⟨ho ▸ hc, [], by simp [hr], by simp⟩

theorem of_status {status : Status} (hs : status ≠ .OPEN ∧ status ≠ .PARTIAL_FILLED)
    {hashes : List Hash} {ts : List Trade} {ms : List Message} {rs : List EngineResponse}
    (hrs : ∀ r ∈ rs, r.trades = []) (hb : w.Became
      (setStatuses w.orders status hashes) ts ms rs w') :
    StaysClosed h w w' := by
  refine ⟨fun d hd hdh => ?_, rs, hb.engineResponses, fun r hr => by simp [hrs r hr]⟩
  rw [hb.orders] at hd
  obtain ⟨x, hx, rfl⟩ := mem_setStatuses.1 hd
  split at hdh
  · rename_i hm
    rw [if_pos hm]
    exact fun ho => ho.elim hs.1 hs.2
  · rename_i hm
    rw [if_neg hm]
    exact hc x hx hdh

/-- The order is not among the matches: those are open. -/
theorem of_newOrder {o : Order} (ho : o.hash ≠ h) {ds : List (Time × Order)}
    {rs : List EngineResponse}
    (he : NewOrderEffect env o (env.orderDao.matching w.calls w.orders.docs o) w w' ds rs) :
    StaysClosed h w w' := by
  have hof := processOrder_of o (env.orderDao.matching w.calls w.orders.docs o)
  have hmaker : ∀ p ∈ (processOrder o (env.orderDao.matching w.calls w.orders.docs o)).fills,
      p.2.hash ≠ h := by
    intro p hp hph
    have hpm := hof.maker_mem hp
    exact hc p.2 ((env.orderDao.matching_subperm _ _ _).subset hpm) hph
      (env.orderDao.matching_resting _ _ _ _ hpm).1
  refine ⟨fun d hd hdh => ?_, rs, he.engineResponses, fun r hr t ht hn => ?_⟩
  · rcases he.mem hd with ⟨now, old, rfl⟩ | ⟨p, hp, now, old, rfl⟩ | ⟨hd, -⟩
    · rw [updatedDoc_hash, hof.hash] at hdh
      exact absurd hdh ho
    · rw [updatedDoc_hash, filledMaker_hash] at hdh
      exact absurd hdh (hmaker p hp)
    · exact hc d hd hdh
  · obtain ⟨-, p, hp, rfl⟩ := he.trade (List.mem_flatMap.2 ⟨r, hr, ht⟩)
    rcases hn with hn | hn
    · exact hmaker p hp hn
    · exact ho ((hof.taker_hash hp).symm.trans hn)

theorem of_invalidate {back marked : List Hash} (hback : h ∉ back) {amounts : List Int}
    {rs qs : List Order} (he : InvalidateEffect back marked amounts w rs qs w') :
    StaysClosed h w w' := by
  obtain ⟨c, ts, res, -, hres, hb⟩ := he.became
  refine ⟨fun d hd hdh => ?_, res, hb.engineResponses, fun r hr => by simp [hres r hr]⟩
  obtain ⟨x, hx, hxw⟩ := he.mem hd
  have hxc : x.hash = h → ¬x.isOpen := by
    rcases hxw with hxw | ⟨y, -, hyb, a, rfl⟩
    · exact hc x hxw
    · intro hyh
      rw [restored_hash] at hyh
      exact absurd (hyh ▸ hyb) hback
  rcases hx with rfl | rfl
  · exact hxc hdh
  · exact fun ho => by rcases ho with ho | ho <;> cases ho

theorem of_handled {m : Message} (hm : ¬m.Revives h) (hh : Handled env w m w') :
    StaysClosed h w w' := by
  cases hh with
  | ignored => exact of_quiet hc rfl rfl
  | newOrder he => exact of_newOrder hc hm he
  | addOrder ds hds hw =>
    obtain ⟨n, rfl⟩ := hw
    refine ⟨fun d hd hdh => ?_, [], rfl, by simp⟩
    rcases mem_upserts hd with ⟨p, hp, old, rfl⟩ | ⟨hd, -⟩
    · rw [updatedDoc_hash, hds p hp] at hdh
      refine absurd ?_ hm
      unfold addedOrder at hdh
      split at hdh <;> exact hdh
    · exact hc d hd hdh
  | cancelOrder hres hw =>
    rcases hw with hw | ⟨-, hw⟩
    · exact of_quiet hc hw.orders (by simpa using hw.engineResponses)
    · refine of_status hc (by simp) (fun r hr => ?_) hw
      rw [hres r hr]
      rfl
  | invalidateMakerOrders he => exact of_invalidate hc hm he
  | invalidateTakerOrders he => exact of_invalidate hc hm he

end

end StaysClosed

/-- No message that can revive `h` is handled. -/
def QueueOp.LeavesClosed (h : Hash) (w : World) : QueueOp → Prop
  | publish _ => True
  | deliver i => ∀ m ∈ w.orderQueue[i]?, ¬m.Revives h

instance (h : Hash) (w : World) : (op : QueueOp) → Decidable (op.LeavesClosed h w)
  | .publish _ => inferInstanceAs (Decidable True)
  | .deliver i => inferInstanceAs (Decidable (∀ m ∈ w.orderQueue[i]?, ¬m.Revives h))

section
variable {e : Engine} {env : Env} {h : Hash} {w w' : World}

theorem QueueOp.LeavesClosed.step {op : QueueOp} (hok : op.LeavesClosed h w)
    (hc : ∀ d ∈ w.orders, d.hash = h → ¬d.isOpen) : StaysClosed h w (op.step e env w) := by
  cases op with
  | publish m =>
    rw [QueueOp.step]
    rcases publishOrder_cases m env w with hw | hw
    · exact .of_quiet hc hw.orders (by simpa using hw.engineResponses)
    · exact .of_quiet hc hw.orders (by simpa using hw.engineResponses)
  | deliver i =>
    rcases e.deliver_handled env w i with ⟨-, hw⟩ | ⟨m, hm, hh⟩
    · exact .of_quiet hc (congrArg World.orders hw) (congrArg World.engineResponses hw)
    · have := StaysClosed.of_handled (w := w.take i) hc (hok m hm) hh
      exact ⟨this.closed, this.untraded⟩

/-- **A cancellation is final**: after `cancelOrder` has gone through, over every run that handles
no message reviving the order, its status is never OPEN or PARTIAL_FILLED and no trade is on it. -/
theorem cancellation_is_final {o : Order} (hc : (cancelOrder o env w).1 = .ok ())
    {ops : List QueueOp}
    (hr : Run (fun _ w op => QueueOp.LeavesClosed o.hash w op) (QueueOp.step e env)
      (cancelOrder o env w).2 ops w') :
    StaysClosed o.hash (cancelOrder o env w).2 w' := by
  have h0 : ∀ d ∈ (cancelOrder o env w).2.orders, d.hash = o.hash → ¬d.isOpen := by
    have hwp : Prog.wp (cancelOrder o) env w _ _ := cancelOrder_wp o w
    unfold Prog.wp at hwp
    generalize cancelOrder o env w = x at hwp hc
    obtain ⟨r, w₁⟩ := x
    cases hc
    intro d hd hdh
    rw [hwp.2.orders] at hd
    obtain ⟨x, -, rfl⟩ := mem_setStatuses.1 hd
    have hx : x.hash ∈ [o.hash] := by
      split at hdh <;> simpa using hdh
    rw [if_pos hx]
    exact fun ho => by rcases ho with ho | ho <;> cases ho
  refine hr.invariant (I := fun _ w' => StaysClosed o.hash (cancelOrder o env w).2 w')
    (.of_quiet h0 rfl rfl) fun ops w' op _ hi hok => ?_
  exact hi.trans (hok.step hi.closed)

end

/-- A SELL of 10 is cancelled; a BUY that crosses it comes after. -/
theorem cancellation_is_final_sample : ∃ w w' : World,
    w'.orders.docs.map (·.status) = [.CANCELLED, .OPEN] ∧
      StaysClosed 1 (cancelOrder (.sample 1 .SELL 5 10) (.sample .stored) w).2 w' := by
  refine ⟨(newOrder (.sample 1 .SELL 5 10) (.sample .stored) World.empty).2, _, ?_,
    cancellation_is_final (e := .sample) (o := .sample 1 .SELL 5 10) (by decide +kernel)
      (Run.of_check [.publish (.NEW_ORDER (.sample 2 .BUY 5 10)), .deliver 0] (by decide +kernel))⟩
  decide +kernel

/-- The BUY that an invalidation has queued again is cancelled; the queued message then puts it
back in the book, where a SELL takes part of it. -/
theorem republished_order_revives_cancelled : ∃ ops w o ops' w',
    Run (fun _ _ _ => True) (QueueOp.step .sample (.sample .stored)) World.empty ops w ∧
    (cancelOrder o (.sample .stored) w).1 = .ok () ∧
    Run (fun _ _ _ => True) (QueueOp.step .sample (.sample .stored))
      (cancelOrder o (.sample .stored) w).2 ops' w' ∧
    (w'.orders.get o.hash).map (·.status) = some .PARTIAL_FILLED ∧
    (cancelOrder o (.sample .stored) w).2.emitted.length < w'.emitted.length ∧
    (w'.emitted.getLast?.map (·.makerOrderHash)) = some o.hash :=
  ⟨invalidatingOps, _, .sample 2 .BUY 5 10,
    [.deliver 0, .publish (.NEW_ORDER (.sample 3 .SELL 5 4)), .deliver 0], _,
    Run.of_check _ (by decide +kernel), by decide +kernel, Run.of_check _ (by decide +kernel),
    by decide +kernel, by decide +kernel, by decide +kernel⟩

end Dex
