import DexServer.Endpoints.Proof.Reply
import DexServer.Lib.Run
import DexServer.Ws.Orders

/-!
# Who receives the messages of an address

`handleNewOrder` registers its client for the address the payload names, before the signature is
looked at. `handleCancelOrder` registers it for the signer, and for the zero address if there is
none.

* `ws_replied`: a message registers nobody but its client, for `WebsocketEvent.address`.
* `messages_private`: every client that is registered for an address, and every one that has
  received a message for it, has sent a payload signed by it, in every run of signed messages.
-/

namespace Dex

open Lib

namespace WebsocketEvent

/-- The address the client is registered for. -/
def address (env : Env) (msg : WebsocketEvent) : Option Address :=
  if msg.type = "NEW_ORDER" then orderAddress env msg.payload
  else if msg.type = "CANCEL_ORDER" then cancelAddress env msg.payload
  else none

/-- The address that the signature of the payload recovers to, over the hash of the order or of the
cancellation. -/
def recovered (env : Env) (msg : WebsocketEvent) : Option Address :=
  let signer (sig : Option Signature) (h : Hash) : Option Address :=
    sig.bind fun sig => (sig.verify env.eth (signedMessage env.eth h)).toOption
  if msg.type = "NEW_ORDER" then
    match RawOrder.unmarshalJSON env.codec msg.payload with
    | .ok (.ok r) => (r.computeHash env.eth).toOption.bind (signer r.signature)
    | _ => none
  else if msg.type = "CANCEL_ORDER" then
    match OrderCancel.unmarshalJSON env.eth env.byteOf msg.payload with
    | .ok (oc, _) => signer oc.signature oc.hash
    | .error _ => none
  else none

/-- An order is signed by the user it names; the signature of a cancellation is somebody's. -/
def Signed (env : Env) (msg : WebsocketEvent) : Prop :=
  if msg.type = "NEW_ORDER" then
    match RawOrder.unmarshalJSON env.codec msg.payload with
    | .ok (.ok r) =>
      match r.computeHash env.eth, r.signature with
      | .ok h, some sig => sig.verify env.eth (signedMessage env.eth h) = .ok r.userAddress
      | .ok _, none => False
      | .error _, _ => True
    | _ => True
  else if msg.type = "CANCEL_ORDER" then
    match OrderCancel.unmarshalJSON env.eth env.byteOf msg.payload with
    | .ok (oc, _) =>
      match oc.signature with
      | some sig => (sig.verify env.eth (signedMessage env.eth oc.hash)).toOption.isSome
      | none => True
    | .error _ => True
  else True

instance (env : Env) (msg : WebsocketEvent) : Decidable (msg.Signed env) := by
  unfold Signed
  repeat' split
  all_goals infer_instance

section
variable {env : Env} {msg : WebsocketEvent} {a : Address}

theorem Signed.recovered (h : msg.Signed env) (ha : msg.address env = some a) :
    msg.recovered env = some a := by
  unfold address at ha
  unfold Signed at h
  unfold WebsocketEvent.recovered
  by_cases hnew : msg.type = "NEW_ORDER"
  · simp only [hnew, if_true] at h ha ⊢
    unfold orderAddress at ha
    split at ha
    · cases ha
    · match hr : RawOrder.unmarshalJSON env.codec msg.payload with
      | .ok (.ok r) =>
        simp only [hr] at h ha ⊢
        cases hh : r.computeHash env.eth with
        | error e => simp [hh, Except.toOption] at ha
        | ok hash =>
          have huser : r.userAddress = a := by simpa [hh, Except.toOption] using ha
          cases hsig : r.signature with
          | none => simp [hh, hsig] at h
          | some sig =>
            have hverify : sig.verify env.eth (signedMessage env.eth hash) = .ok r.userAddress := by
              simpa [hh, hsig] using h
            simp [hverify, Except.toOption, huser]
      | .ok (.error e) => simp [hr] at ha
      | .error e => simp [hr] at ha
  · by_cases hcancel : msg.type = "CANCEL_ORDER"
    · have hne : ("CANCEL_ORDER" : String) ≠ "NEW_ORDER" := by decide
      simp only [hcancel, if_neg hne, if_true] at h ha ⊢
      unfold cancelAddress at ha
      match hr : OrderCancel.unmarshalJSON env.eth env.byteOf msg.payload with
      | .ok (oc, none) =>
        simp only [hr] at h ha ⊢
        cases hsig : oc.signature with
        | none => simp [hsig] at ha
        | some sig =>
          simp only [hsig, Option.map_some, Option.some.injEq] at h ha
          cases hverify : sig.verify env.eth (signedMessage env.eth oc.hash) with
          | error e => simp [hverify, Except.toOption] at h
          | ok signer => simpa [hverify, Except.toOption] using ha
      | .ok (oc, some e) => simp [hr] at ha
      | .error e => simp [hr] at ha
    · simp [hnew, hcancel] at ha

end

end WebsocketEvent

/-- A message registers nobody but its client, for one address. -/
theorem ws_replied (s : Services) (env : Env) (client : Nat) (msg : WebsocketEvent) (w : World) :
    w.Replied client (msg.address env) (OrderEndpoint.ws s.newOrder client msg env w).2 := by
  refine Prog.wp_state (P := w.Replied client (msg.address env)) ?_
  unfold OrderEndpoint.ws WebsocketEvent.address
  split
  · exact Prog.wp_mono (handleNewOrder_wp (s.submits env) ..) (fun _ _ h => h.1.1) fun _ _ h => h.1
  · split
    · exact Prog.wp_mono (handleCancelOrder_wp ..) (fun _ _ h => h.1.1) fun _ _ h => h.1
    · exact w.replied_rfl

/-! ## Runs -/

/-- The client has sent a payload that is signed by `a`. -/
def Sockets.Proven (env : Env) (σ : Sockets) (client : Nat) (a : Address) : Prop :=
  ∃ msg, (client, msg) ∈ σ.received ∧ msg.recovered env = some a

/-- Only clients that have proven to own an address are registered for it, and have received its
messages. -/
structure Sockets.Private (env : Env) (σ : Sockets) : Prop where
  registered : ∀ a, ∀ client ∈ σ.connections a, σ.Proven env client a
  delivered : ∀ p ∈ σ.delivered, σ.Proven env p.1 p.2

/-- The messages are signed. -/
def SocketOp.Signed (env : Env) : SocketOp → Prop
  | message _ msg => msg.Signed env
  | _ => True

instance (env : Env) : (op : SocketOp) → Decidable (op.Signed env)
  | .message _ msg => inferInstanceAs (Decidable (msg.Signed env))
  | .send _ | .other _ | .unsubscribe _ _ | .crash => inferInstanceAs (Decidable True)

namespace Sockets.Private

variable {env : Env} {σ : Sockets}

theorem sent (h : σ.Private env) (a : Address) : (σ.sendOrderMessage a).Private env := by
  refine ⟨h.registered, fun p hp => ?_⟩
  rcases List.mem_append.1 hp with hp | hp
  · exact h.delivered p hp
  · obtain ⟨client, hclient, rfl⟩ := List.mem_map.1 hp
    exact h.registered a client hclient

theorem replied (h : σ.Private env) {client : Nat} {addr : Option Address} {e : WsEvent}
    (he : e.Replies client addr) (hproven : ∀ a, addr = some a → σ.Proven env client a) :
    (σ.apply e).Private env := by
  cases he with
  | @register b hb =>
    refine ⟨fun a c hc => ?_, h.delivered⟩
    simp only [Sockets.apply, OrderConnections.register] at hc
    split at hc
    · rename_i hab
      rcases List.mem_append.1 hc with hc | hc
      · rw [hab.1]
        exact h.registered b c hc
      · rw [List.mem_singleton.1 hc, hab.1]
        exact hproven b hb
    · exact h.registered a c hc
  | orderError err hash => exact h
  | clientError text => exact h

theorem apply_received (e : WsEvent) : (σ.apply e).received = σ.received := by
  cases e <;> rfl

theorem replied_all {client : Nat} {addr : Option Address} {events : List WsEvent}
    (hevents : ∀ e ∈ events, e.Replies client addr) (h : σ.Private env)
    (hproven : ∀ a, addr = some a → σ.Proven env client a) :
    (events.foldl Sockets.apply σ).Private env := by
  induction events generalizing σ with
  | nil => exact h
  | cons e events ih =>
    refine ih (fun e' he' => hevents e' (List.mem_cons_of_mem _ he'))
      (h.replied (hevents e List.mem_cons_self) hproven) fun a ha => ?_
    obtain ⟨msg, hmsg, hrecovered⟩ := hproven a ha
    exact ⟨msg, (apply_received e).symm ▸ hmsg, hrecovered⟩

theorem closed (h : σ.Private env) : Sockets.Private env { σ with connections := fun _ => [] } :=
  ⟨fun _ _ hc => absurd hc List.not_mem_nil, h.delivered⟩

/-- **Every step keeps it**, if its message is signed. -/
theorem step {s : Services} (h : σ.Private env) {op : SocketOp} (hop : op.Signed env) :
    (op.step s env σ).Private env := by
  cases op with
  | message client msg =>
    obtain ⟨events, hevents, hreplies⟩ := ws_replied s env client msg { σ.world with ws := [] }
    unfold SocketOp.step
    dsimp only
    generalize OrderEndpoint.ws s.newOrder client msg env { σ.world with ws := [] } = x at hevents ⊢
    obtain ⟨x, w⟩ := x
    have hws : w.ws = events := hevents
    have hreceived : Sockets.Private env { σ with
        world := w
        received := σ.received ++ [(client, msg)] } := by
      refine ⟨fun a c hc => ?_, fun p hp => ?_⟩
      · obtain ⟨msg', hmsg', hrecovered⟩ := h.registered a c hc
        exact ⟨msg', List.mem_append_left _ hmsg', hrecovered⟩
      · obtain ⟨msg', hmsg', hrecovered⟩ := h.delivered p hp
        exact ⟨msg', List.mem_append_left _ hmsg', hrecovered⟩
    have hall := replied_all (hws ▸ hreplies) hreceived fun a ha =>
      ⟨msg, List.mem_append_right _ List.mem_cons_self, WebsocketEvent.Signed.recovered hop ha⟩
    dsimp only
    split
    · exact hall.closed
    · exact hall
  | send a => exact h.sent a
  | other w => exact ⟨h.registered, h.delivered⟩
  | unsubscribe a client =>
    refine ⟨fun b c hc => ?_, h.delivered⟩
    simp only [SocketOp.step, OrderConnections.unsubscribe] at hc
    split at hc
    · rename_i hb
      rw [hb]
      exact h.registered a c (List.mem_of_mem_erase hc)
    · exact h.registered b c hc
  | crash => exact h.closed

end Sockets.Private

/-- **Messages are private**: in every run of signed messages, a client that is registered for an
address, or has received a message for it, has sent a payload signed by it. -/
theorem messages_private {s : Services} {env : Env} {σ₀ σ : Sockets} {ops : List SocketOp}
    (hconnections : ∀ a, σ₀.connections a = []) (hdelivered : σ₀.delivered = [])
    (h : Run (fun _ _ op => op.Signed env) (SocketOp.step s env) σ₀ ops σ) : σ.Private env := by
  refine h.invariant (I := fun _ σ => σ.Private env) ⟨fun a client hc => ?_, fun p hp => ?_⟩
    fun _ _ _ _ hp hop => hp.step hop
  · rw [hconnections] at hc
    cases hc
  · rw [hdelivered] at hp
    cases hp

def Sockets.sample : Sockets := ⟨World.empty, fun _ => [], [], []⟩

/-- A NEW_ORDER of the user 1, with a signature or without. -/
def WebsocketEvent.sample (signature : Json) : WebsocketEvent where
  type := "NEW_ORDER"
  payload := .obj [("userAddress", .str "1"), ("amount", .str "1"), ("pricepoint", .str "1"),
    ("nonce", .str "1"), ("makeFee", .str "0"), ("takeFee", .str "0"), ("signature", signature)]

theorem messages_private_signed :
    let signature : Json := .obj [("V", .num ⟨27, 0⟩), ("R", .str "1"), ("S", .str "0")]
    ∃ σ, Run (fun _ _ op => op.Signed (.sample .stored))
      (SocketOp.step .sample (.sample .stored)) .sample
        [.message 7 (.sample signature), .send 1] σ ∧
      σ.delivered = [(7, 1)] ∧ σ.Private (.sample .stored) := by
  intro signature
  have hrun : Run (fun _ _ op => op.Signed (.sample .stored))
      (SocketOp.step .sample (.sample .stored))
      .sample [.message 7 (.sample signature), .send 1] _ := Run.of_check _ (by decide +kernel)
  exact ⟨_, hrun, by decide +kernel, messages_private (fun _ => rfl) rfl hrun⟩

/-- A client names the user 1 in an order without signature, and receives what is sent to 1. A
client sends a cancellation whose signature recovers to nobody, and is registered for the zero
address. -/
theorem messages_exposed :
    let env := Env.sample .stored
    let failing :=
      { env with eth := { Eth.sample with recover := fun _ _ => .error "recovery failed" } }
    let cancel : WebsocketEvent :=
      ⟨"CANCEL_ORDER", .obj [("orderHash", .str "1"), ("hash", .str "1"),
      ("signature", .obj [("v", .num ⟨27, 0⟩), ("r", .str "1"), ("s", .str "0")])]⟩
    (∃ σ, Run (fun _ _ _ => True) (SocketOp.step .sample env) .sample
        [.message 7 (.sample .null), .send 1] σ ∧ σ.delivered = [(7, 1)] ∧ ¬σ.Proven env 7 1) ∧
    ∃ σ, Run (fun _ _ _ => True) (SocketOp.step .sample failing) .sample [.message 7 cancel] σ ∧
      7 ∈ σ.connections 0 ∧ ¬σ.Proven failing 7 0 := by
  intro env failing cancel
  refine ⟨⟨_, Run.of_check _ (by decide +kernel), by decide +kernel, fun h => ?_⟩,
    ⟨_, Run.of_check _ (by decide +kernel), by decide +kernel, fun h => ?_⟩⟩
  · obtain ⟨msg, hmsg, hrecovered⟩ := h
    have hmsg' : msg = .sample .null := by simpa using List.mem_singleton.1 hmsg
    rw [hmsg'] at hrecovered
    exact absurd hrecovered (by decide +kernel)
  · obtain ⟨msg, hmsg, hrecovered⟩ := h
    have hmsg' : msg = cancel := by simpa using List.mem_singleton.1 hmsg
    rw [hmsg'] at hrecovered
    exact absurd hrecovered (by decide +kernel)

end Dex
