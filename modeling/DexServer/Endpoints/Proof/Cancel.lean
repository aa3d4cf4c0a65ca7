import DexServer.Endpoints.Order
import DexServer.Sample

/-!
# Who can cancel

`handleCancelOrder_queue`: what a CANCEL_ORDER payload publishes depends on the store, and on the
payload only through `orderHash`, once it can be decoded. So the owner alone cancels
(`only_owner_cancels`) exactly as far as nobody else asks; `stranger_cancels` is somebody who does.
-/

namespace Dex

open Lib

/-- The request for `h` finds the stored order `o`, with a status that lets it be cancelled, and
neither call fails. -/
structure Cancels (env : Env) (w : World) (h : Hash) (o : Order) : Prop where
  found : env.fails w.calls = false
  stored : w.orders.get h = some o
  status : ¬(o.status = .FILLED ∨ o.status = .ERROR ∨ o.status = .CANCELLED)
  published : env.fails (w.calls + 1) = false

/-- The queue after a request for `h`: the one order it cancels is added. -/
def CancelQueued (env : Env) (w : World) (h : Hash) (q : List Message) : Prop :=
  (∃ o, Cancels env w h o ∧ q = w.orderQueue ++ [.CANCEL_ORDER o]) ∨
    ((∀ o, ¬Cancels env w h o) ∧ q = w.orderQueue)

theorem Services.cancelOrder_queue (h : Hash) (env : Env) (w : World) (ws : List WsEvent) :
    Prog.wp (cancelOrder h) env { w with ws := ws } (fun _ w' => CancelQueued env w h w'.orderQueue)
      (fun _ w' => CancelQueued env w h w'.orderQueue) := by
  unfold cancelOrder
  rw [Prog.wp_bind]
  refine wp_call (fun hf => .inr ⟨fun o hc => ?_, rfl⟩) fun hfound => ?_
  · rw [hc.found] at hf
    cases hf
  · simp only [Prog.Ends, World.tick_orders]
    cases hg : w.orders.get h with
    | none =>
      refine .inr ⟨fun o hc => ?_, rfl⟩
      rw [hc.stored] at hg
      cases hg
    | some o =>
      dsimp only
      split
      · rename_i hs
        refine .inr ⟨fun o' hc => ?_, rfl⟩
        rw [hc.stored] at hg
        cases hg
        exact hc.status hs
      · rename_i hs
        unfold publishCancelOrderMessage publishOrder
        refine wp_call (fun hf => .inr ⟨fun o' hc => ?_, rfl⟩) fun hp => ?_
        · rw [World.tick_calls, hc.published] at hf
          cases hf
        · exact .inl ⟨o, ⟨hfound, hg, hs, hp⟩, rfl⟩

/-- What a payload does: one that cannot be decoded ends the handler, any other asks for the
cancellation of its `orderHash`, whatever its hash and signature are. -/
theorem handleCancelOrder_queue (env : Env) (w : World) (client : Nat) (payload : Json) :
    (∃ oc, OrderCancel.unmarshalJSON env.eth env.byteOf payload = .ok (oc, none) ∧
      CancelQueued env w oc.orderHash (handleCancelOrder client payload env w).2.orderQueue) ∨
    ((∀ oc, OrderCancel.unmarshalJSON env.eth env.byteOf payload ≠ .ok (oc, none)) ∧
      (handleCancelOrder client payload env w).2.orderQueue = w.orderQueue) := by
  refine Prog.wp_state (P := fun w' : World =>
    (∃ oc, OrderCancel.unmarshalJSON env.eth env.byteOf payload = .ok (oc, none) ∧
      CancelQueued env w oc.orderHash w'.orderQueue) ∨
    ((∀ oc, OrderCancel.unmarshalJSON env.eth env.byteOf payload ≠ .ok (oc, none)) ∧
      w'.orderQueue = w.orderQueue)) ?_
  unfold handleCancelOrder
  simp only [Prog.wp_bind, Prog.wp_ask]
  refine wp_unpanicked (fun v hv => ?_) fun e he => .inr ⟨fun oc h => ?_, rfl⟩
  · obtain ⟨oc, err⟩ := v
    have hsig := OrderCancel.unmarshalJSON_signature hv
    refine wp_reportError fun ws => ?_
    cases err with
    | some err =>
      -- the handler goes on with a nil signature and panics
      have hnil : oc.signature = none := by simpa using hsig
      refine wp_unpanicked (fun sender hs => ?_) fun e he => .inr ⟨fun oc' h => ?_, rfl⟩
      · simp [OrderCancel.getSenderAddress, hnil] at hs
      · rw [hv] at h
        cases h
    | none =>
      obtain ⟨sig, hsome⟩ := Option.isSome_iff_exists.1 (hsig.2 rfl)
      refine wp_unpanicked (fun sender _ => ?_) fun e he => ?_
      · refine wp_reportError fun ws => ?_
        unfold registerOrderConnection
        rw [Prog.wp_modify, Prog.wp_attempt]
        refine Prog.wp_mono (Services.cancelOrder_queue oc.orderHash env w _) (fun _ w' h => ?_)
          fun _ w' h => ?_
        · exact wp_reportError fun _ => .inl ⟨oc, hv, h⟩
        · exact wp_reportError fun _ => .inl ⟨oc, hv, h⟩
      · simp [OrderCancel.getSenderAddress, hsome] at he
  · rw [he] at h
    cases h

/-- The payload is published as a cancellation only with the signature of the owner. -/
def OwnerOnly (env : Env) (w : World) (client : Nat) (payload : Json) : Prop :=
  ∀ o, (handleCancelOrder client payload env w).2.orderQueue = w.orderQueue ++ [.CANCEL_ORDER o] →
    ∃ oc, OrderCancel.unmarshalJSON env.eth env.byteOf payload = .ok (oc, none) ∧
      o.hash = oc.orderHash ∧ oc.Authorises env.eth o

theorem only_owner_cancels (env : Env) (w : World) (client : Nat) (payload : Json) :
    OwnerOnly env w client payload ↔
      ∀ oc o, OrderCancel.unmarshalJSON env.eth env.byteOf payload = .ok (oc, none) →
        Cancels env w oc.orderHash o → oc.Authorises env.eth o := by
  have hqueue := handleCancelOrder_queue env w client payload
  constructor
  · intro h oc o hdec hc
    rcases hqueue with ⟨oc', hdec', ⟨o', hc', hq⟩ | ⟨hno, -⟩⟩ | ⟨hno, -⟩
    · rw [hdec] at hdec'
      cases hdec'
      have ho : o' = o := Option.some.inj (hc'.stored.symm.trans hc.stored)
      subst ho
      obtain ⟨oc', hdec', -, hauth⟩ := h o' hq
      rw [hdec] at hdec'
      cases hdec'
      exact hauth
    · rw [hdec] at hdec'
      cases hdec'
      exact absurd hc (hno o)
    · exact absurd hdec (hno oc)
  · intro h o hq
    rcases hqueue with ⟨oc, hdec, ⟨o', hc, hq'⟩ | ⟨-, hq'⟩⟩ | ⟨-, hq'⟩
    · rw [hq] at hq'
      have ho : o = o' := by simpa using hq'
      subst ho
      exact ⟨oc, hdec, Coll.get_key hc.stored, h oc o hdec hc⟩
    · simp [hq] at hq'
    · simp [hq] at hq'

/-- A cancellation signed by `signer`. -/
def cancelPayload (orderHash hash signer : String) : Json :=
  .obj [("orderHash", .str orderHash), ("hash", .str hash),
    ("signature", .obj [("v", .num ⟨27, 0⟩), ("r", .str signer), ("s", .str "0")])]

/-- A book with an order of the user 1 under the hash 1. -/
def World.sellOfOne : World := (newOrder (.sample 1 .SELL 5 10) (.sample .stored) .empty).2

/-- The owner cancels. -/
theorem only_owner_cancels_owner :
    (handleCancelOrder 0 (cancelPayload "1" "7" "1") (.sample .stored)
      World.sellOfOne).2.orderQueue.length = 1 ∧
    OwnerOnly (.sample .stored) World.sellOfOne 0 (cancelPayload "1" "7" "1") := by
  refine ⟨by decide +kernel, (only_owner_cancels _ _ _ _).2 fun oc o hdec hc => ?_⟩
  have hoc : oc = ⟨1, 7, some ⟨27, 1, 0⟩⟩ := by
    have h : OrderCancel.unmarshalJSON (Env.sample .stored).eth (Env.sample .stored).byteOf
        (cancelPayload "1" "7" "1") = .ok (⟨1, 7, some ⟨27, 1, 0⟩⟩, none) := by decide +kernel
    rw [hdec] at h
    cases h
    rfl
  subst hoc
  have howner : ∀ o ∈ World.sellOfOne.orders.get 1, o.userAddress = 1 := by decide +kernel
  refine ⟨_, rfl, ?_⟩
  rw [howner o hc.stored]
  decide +kernel

/-- The user 2 cancels the order of the user 1. -/
theorem stranger_cancels :
    let env := Env.sample .stored
    let payload := cancelPayload "1" "7" "2"
    ∃ oc : OrderCancel, OrderCancel.unmarshalJSON env.eth env.byteOf payload = .ok (oc, none) ∧
      ∃ o : Order, World.sellOfOne.orders.get oc.orderHash = some o ∧ o.userAddress = 1 ∧
        oc.getSenderAddress env.eth = .ok (.ok 2) ∧
        (handleCancelOrder 0 payload env World.sellOfOne).2.orderQueue = [.CANCEL_ORDER o] ∧
        ¬OwnerOnly env World.sellOfOne 0 payload := by
  intro env payload
  have hdec : OrderCancel.unmarshalJSON env.eth env.byteOf payload =
      .ok (⟨1, 7, some ⟨27, 2, 0⟩⟩, none) := by decide +kernel
  have hq : (handleCancelOrder 0 payload env World.sellOfOne).2.orderQueue =
      World.sellOfOne.orderQueue ++ [.CANCEL_ORDER
        { Order.sample 1 .SELL 5 10 with createdAt := 1 }] := by
    decide +kernel
  refine ⟨_, hdec, { Order.sample 1 .SELL 5 10 with createdAt := 1 }, by decide +kernel, rfl,
    by decide +kernel, hq, fun h => ?_⟩
  obtain ⟨oc, hoc, -, hauth⟩ := h _ hq
  rw [hdec] at hoc
  cases hoc
  revert hauth
  decide +kernel

end Dex
