import DexServer.Endpoints.Subscriptions
import DexServer.Lib.Run
import DexServer.Ws.Proof.Channels
import DexServer.Ws.Proof.Connections

/-!
# Subscriptions end with the connection

`Hub.Stepped` says what a step can do. From it, `Hub.Inv`: a subscription has a handler that will
end it, or its `SUBSCRIBE` is still under way; and `Hub.Frame`: what a step does to a client that
has not sent anything. Only a handler that was started for the client ends its subscriptions then.

* `crashes_only_on_null`: what ends the process.
* `closed_client_gets_nothing`: a closed connection is in no subscription once its handlers have
  run.
-/

namespace Dex

open Lib

/-! ## The connections -/

theorem Connections.register_handlers {eth : Eth} {k : ConnectionKind} {spare : List Nat}
    {a : Address} {c : Nat} {σ σ' : Connections} (h : register eth k spare a c σ = .ok σ') :
    ∀ x ∈ σ'.handlers, x ∈ σ.handlers ∨ x = (c, k, a) := by
  have hget : ∀ key, ConnectionMap.get (some ((σ.map k).getD ∅)) key = (σ.map k).get key :=
    fun _ => rfl
  unfold register at h
  cases hs : (σ.map k).get (eth.hex a) with
  | none =>
    have hconnected : isClientConnected (.ofList [c] []) c = true := by simp [isClientConnected]
    simp only [hget, hs, ConnectionMap.set, ConnectionMap.get_insert, if_pos, ok_bind, pure_bind,
      hconnected] at h
    cases h
    simp
  | some s =>
    simp only [hget, hs, ConnectionMap.set, ok_bind, pure_bind] at h
    split at h
    · cases h
      exact fun x hx => .inl hx
    · cases h
      simp

theorem Connections.unsubscribe_handlers {eth : Eth} {k : ConnectionKind} {a : Address} {c : Nat}
    {σ σ' : Connections} (h : unsubscribe eth k a c σ = .ok σ') : σ'.handlers = σ.handlers := by
  unfold unsubscribe at h
  cases hs : (σ.map k).get (eth.hex a) with
  | none =>
    simp only [hs, pure_bind, bind_eq_ok] at h
    obtain ⟨m, -, h⟩ := h
    cases h
    rfl
  | some s =>
    simp only [hs, pure_bind, bind_eq_ok] at h
    obtain ⟨s, -, m, -, h⟩ := h
    cases h
    rfl

/-- What a call that returns has done. -/
structure ConnectionOp.Done (eth : Eth) (σ : Connections) (op : ConnectionOp) (σ' : Connections) :
    Prop where
  exact : σ'.Exact eth
  mem : ∀ k a c, decide (c ∈ σ'.list eth k a) = (op.bears k a c).getD (decide (c ∈ σ.list eth k a))
  handlers : ∀ x ∈ σ'.handlers, x ∈ σ.handlers ∨ ∃ spare, op = .register x.2.1 x.2.2 x.1 spare
  registered : ∀ k a c spare, op = .register k a c spare → (σ'.map k).isSome
  mapped : ∀ k, (σ.map k).isSome → (σ'.map k).isSome

theorem ConnectionOp.done {eth : Eth} (heth : eth.ReadsBack) {σ σ' : Connections} (hσ : σ.Exact eth)
    {op : ConnectionOp} (h : op.call eth σ = .ok σ') : op.Done eth σ σ' := by
  rcases op.call_cases heth hσ with ⟨σ'', heq, hexact, hlist, hself, hsome⟩ | ⟨k, a, c, -, -, heq⟩
  · rw [h] at heq
    cases heq
    refine ⟨hexact, fun k a c => ?_, fun x hx => ?_, hself, hsome⟩
    · rw [hlist]
      exact mem_on (hσ.nodup k a) op
    · cases op with
      | register k a c spare =>
        have hcall : Connections.register eth k spare a c σ = .ok σ' := by cases k <;> exact h
        rcases Connections.register_handlers hcall x hx with hx | rfl
        · exact .inl hx
        · exact .inr ⟨spare, rfl⟩
      | unsubscribe k a c =>
        have hcall : Connections.unsubscribe eth k a c σ = .ok σ' := by cases k <;> exact h
        rw [Connections.unsubscribe_handlers hcall] at hx
        exact .inl hx
  · rw [h] at heq
    cases heq

/-! ## What a step can do -/

/-- The endpoint reads the fields of the payload. -/
def SocketKind.Reads (type : String) : SocketKind → Prop
  | .orderBook => type ≠ "UNSUBSCRIBE"
  | .rawOrderBook => type ≠ "UNSUBSCRIBE"
  | .trade => type = "SUBSCRIBE"
  | .ohlcv => type = "SUBSCRIBE"

/-- The queries of the services return. -/
structure Answers.Returns (db : Answers) : Prop where
  getOrderBook : ∀ bt qt text, db.getOrderBook bt qt ≠ .panics text
  getRawOrderBook : ∀ bt qt text, db.getRawOrderBook bt qt ≠ .panics text
  getSortedTrades : ∀ bt qt n text, db.getSortedTrades bt qt n ≠ .panics text
  getOHLCV : ∀ pairs duration unit start stop text,
    db.getOHLCV pairs duration unit start stop ≠ .panics text

namespace Hub

/-- What an endpoint does about a message of a client: it replies, or ends subscriptions of the
client, or subscribes it. -/
inductive Handled (k : SocketKind) (c : Nat) (h : Hub) : Hub → Prop
  | replied (sent : List (ClientMessage Json)) : Handled k c h { h with sent }
  | ended (op : ChannelOp) (sent : List (ClientMessage Json))
      (hop : op = .unsubscribe (some c) ∨ ∃ id, op = .unsubscribeChannel id (some c)) :
      Handled k c h { h.onSocket k op with sent }
  | subscribed (id : String) (data : Json) (sent : List (ClientMessage Json)) :
      Handled k c h { h.onSocket k (.subscribe id (some c)) with
        opening := h.opening ++ [⟨c, k, id, data⟩], sent }

section
variable {k : SocketKind} {c : Nat} {h h' : Hub}

theorem Handled.of_sent {sent : List (ClientMessage Json)} (hh : Handled k c { h with sent } h') :
    Handled k c h h' := by
  cases hh with
  | replied sent => exact .replied sent
  | ended op sent hop => exact .ended op sent hop
  | subscribed id data sent => exact .subscribed id data sent

/-- What comes of a message: `reads` says that the endpoint reads a payload that is nil, `returns`
that the queries of the services return. -/
inductive Replies (k : SocketKind) (c : Nat) (h : Hub) (reads returns : Prop) :
    Except Err Hub → Prop
  | handled {h' : Hub} (hread : ¬ reads) (hh : Handled k c h h') :
      Replies k c h reads returns (.ok h')
  | nilPayload {e : Err} (hread : reads) : Replies k c h reads returns (.error e)
  | unanswered {e : Err} (hreturn : ¬ returns) : Replies k c h reads returns (.error e)

theorem Replies.of_sent (sent : List (ClientMessage Json)) {reads returns : Prop}
    {r : Except Err Hub} (hr : Replies k c { h with sent } reads returns r) :
    Replies k c h reads returns r := by
  cases hr with
  | handled hread hh => exact .handled hread hh.of_sent
  | nilPayload hread => exact .nilPayload hread
  | unanswered hreturn => exact .unanswered hreturn

theorem subscribe_replies {id : String} {wrap : String → Json} {fetched : Fetched}
    {reads returns : Prop} (hread : ¬ reads) (hf : returns → ∀ text, fetched ≠ .panics text) :
    Replies k c h reads returns (subscribe k id wrap fetched c h) := by
  cases fetched with
  | panics text => exact .unanswered fun hreturn => hf hreturn text rfl
  | failed err => exact .handled hread (.replied _)
  | found data => exact .handled hread (.subscribed id data h.sent)

/-- Only `null` leaves the pointer nil. -/
theorem unmarshal_cases (decode : PayloadDecoder) (v : Json) :
    v = .null ∧ decode.unmarshal v = (none, none) ∨
      (∀ q : Prop, ¬ (v = .null ∧ q)) ∧ ∃ p err, decode.unmarshal v = (some p, err) := by
  cases v with
  | null => exact .inl ⟨rfl, rfl⟩
  | _ => exact .inr ⟨by simp, _, _, rfl⟩

section
variable {decode : PayloadDecoder} {ev : WebsocketEvent}

theorem bookWebSocket_replies {undecoded unsubscribe : Hub → Hub} {noBase noQuote : String}
    {subscribe : Address → Address → Hub → Except Err Hub} {returns : Prop}
    (hundecoded : ∀ h, ∃ sent, undecoded h = { h with sent })
    (hunsubscribe : ∀ h, Handled k c h (unsubscribe h))
    (hsubscribe : ∀ {reads : Prop} bt qt h, ¬ reads →
      Replies k c h reads returns (subscribe bt qt h)) :
    Replies k c h (ev.payload = .null ∧ ev.type ≠ "UNSUBSCRIBE") returns
      (OrderBookEndpoint.bookWebSocket decode ev c k undecoded noBase noQuote unsubscribe
        subscribe h) := by
  unfold OrderBookEndpoint.bookWebSocket
  rcases unmarshal_cases decode ev.payload with ⟨hnull, hu⟩ | ⟨hnull, p, err, hu⟩ <;>
    rw [hu] <;> dsimp only
  · split
    case isTrue htype => exact .handled (fun hread => hread.2 htype) (hunsubscribe h)
    case isFalse htype => exact .nilPayload ⟨hnull, htype⟩
  · have hread := hnull (ev.type ≠ "UNSUBSCRIBE")
    obtain ⟨sent, hsent⟩ : ∃ sent, (if err.isSome then undecoded h else h) = { h with sent } := by
      split
      · exact hundecoded h
      · exact ⟨h.sent, rfl⟩
    rw [hsent]
    refine Replies.of_sent sent ?_
    split
    · exact .handled hread (hunsubscribe _)
    split
    · exact .handled hread (.replied _)
    split
    · exact .handled hread (.replied _)
    split
    · exact hsubscribe _ _ _ hread
    · exact .handled hread (.replied sent)

variable {eth : Eth} {db : Answers}

theorem tradeWebsocket_replies :
    Replies .trade c h (ev.payload = .null ∧ ev.type = "SUBSCRIBE") db.Returns
    (TradeEndpoint.tradeWebsocket eth decode db ev c h) := by
  unfold TradeEndpoint.tradeWebsocket
  split
  case isTrue htype => exact .handled (fun hread => htype.1 hread.2) (.replied _)
  rcases unmarshal_cases decode ev.payload with ⟨hnull, hu⟩ | ⟨hnull, p, err, hu⟩ <;> rw [hu]
  · dsimp only
    split
    case isTrue htype => exact .nilPayload ⟨hnull, htype⟩
    case isFalse htype => exact .handled (fun hread => htype hread.2) (.ended _ h.sent (.inl rfl))
  · have hread := hnull (ev.type = "SUBSCRIBE")
    cases err with
    | some err => exact .handled hread (.replied h.sent)
    | none =>
      dsimp only
      split
      · split
        · exact .handled hread (.replied _)
        split
        · exact .handled hread (.replied _)
        · exact subscribe_replies hread fun hdb => hdb.getSortedTrades _ _ 40
      · exact .handled hread (.ended _ h.sent (.inr ⟨_, rfl⟩))

theorem ohlcvWebSocket_replies {now : Time} :
    Replies .ohlcv c h (ev.payload = .null ∧ ev.type = "SUBSCRIBE") db.Returns
      (OHLCVEndpoint.ohlcvWebSocket eth decode db ev c now h) := by
  unfold OHLCVEndpoint.ohlcvWebSocket
  split
  case isTrue htype => exact .handled (fun hread => htype.1 hread.2) (.replied _)
  split
  case isTrue htype =>
    rcases unmarshal_cases decode ev.payload with ⟨hnull, hu⟩ | ⟨hnull, p, err, hu⟩ <;>
      rw [hu] <;> dsimp only
    · exact .nilPayload ⟨hnull, htype⟩
    · have hread := hnull (ev.type = "SUBSCRIBE")
      split
      · exact .handled hread (.replied _)
      split
      · exact .handled hread (.replied _)
      · exact subscribe_replies hread fun hdb => hdb.getOHLCV _ _ _ _ _
  case isFalse htype => exact .handled (fun hread => htype hread.2) (.ended _ h.sent (.inl rfl))

/-- **Every message.** -/
theorem webSocket_replies {now : Time} :
    Replies k c h (ev.payload = .null ∧ k.Reads ev.type) db.Returns
    (webSocket eth decode c ev db now k h) := by
  cases k with
  | orderBook =>
    rw [webSocket, OrderBookEndpoint.orderBookWebSocket, SocketKind.Reads]
    exact bookWebSocket_replies (fun h => ⟨_, rfl⟩) (fun h => .ended _ h.sent (.inl rfl))
      fun bt qt h hread => subscribe_replies hread fun hdb => hdb.getOrderBook bt qt
  | rawOrderBook =>
    rw [webSocket, OrderBookEndpoint.rawOrderBookWebSocket, SocketKind.Reads]
    exact bookWebSocket_replies (fun h => ⟨h.sent, rfl⟩) (fun h => .ended _ h.sent (.inl rfl))
      fun bt qt h hread => subscribe_replies hread fun hdb => hdb.getRawOrderBook bt qt
  | trade => exact tradeWebsocket_replies
  | ohlcv => exact ohlcvWebSocket_replies

end

end

/-- What a step does that does not panic. -/
inductive Stepped (eth : Eth) (h : Hub) : Step → Hub → Prop
  | message {c : Nat} {k : SocketKind} {ev : WebsocketEvent} {db : Answers} {now : Time} {h' : Hub}
      (hh : Handled k c h h') : Stepped eth h (.message c k ev db now) h'
  | idle {s : Step} : Stepped eth h s h
  | opened {i : Nat} {x : Opening} (hx : h.opening[i]? = some x) :
      Stepped eth h (.opened i) ({ h with opening := h.opening.eraseIdx i }.opened x)
  | connect {k : ConnectionKind} {a : Address} {c : Nat} {spare : List Nat} {σ : Connections}
      (hσ : (ConnectionOp.register k a c spare).call eth h.connections = .ok σ) :
      Stepped eth h (.connect k a c spare) { h with connections := σ }
  | close {c : Nat} : Stepped eth h (.close c) (h.closeConnection c)
  | channel {i c : Nat} {k : SocketKind} {id : String}
      (hx : h.closing[i]? = some (c, .channel k id)) : Stepped eth h (.handler i)
        { h.onSocket k (.unsubscribeChannel id (some c)) with closing := h.closing.eraseIdx i }
  | connection {i c : Nat} {k : ConnectionKind} {a : Address} {σ : Connections}
      (hx : h.closing[i]? = some (c, .connection k a))
      (hσ : (ConnectionOp.unsubscribe k a c).call eth h.connections = .ok σ) :
      Stepped eth h (.handler i) { h with connections := σ, closing := h.closing.eraseIdx i }

theorem step_stepped {eth : Eth} {decode : PayloadDecoder} {h h' : Hub} {s : Step}
    (hs : h.step eth decode s = .ok h') : Stepped eth h s h' := by
  cases s with
  | message c k ev db now =>
    have hreplies : Replies k c h _ _ (h.step eth decode (.message c k ev db now)) :=
      webSocket_replies
    rw [hs] at hreplies
    cases hreplies with
    | handled _ hh => exact .message hh
  | opened i =>
    cases hx : h.opening[i]? with
    | none =>
      simp only [step, hx] at hs
      cases hs
      exact .idle
    | some x =>
      simp only [step, hx] at hs
      cases hs
      exact .opened hx
  | connect k a c spare =>
    obtain ⟨σ, hσ, heq⟩ := bind_eq_ok.1 hs
    cases heq
    exact .connect hσ
  | close c =>
    cases hs
    exact .close
  | handler i =>
    cases hx : h.closing[i]? with
    | none =>
      simp only [step, hx] at hs
      cases hs
      exact .idle
    | some x =>
      obtain ⟨c, fn⟩ := x
      simp only [step, hx] at hs
      cases fn with
      | channel k id =>
        cases hs
        exact .channel hx
      | connection k a =>
        obtain ⟨σ, hσ, heq⟩ := bind_eq_ok.1 hs
        cases heq
        exact .connection hx hσ

theorem Goes.stepped {eth : Eth} {decode : PayloadDecoder} {h : Hub} {s : Step}
    (hs : h.Goes eth decode s) : Stepped eth h s (h.next eth decode s) := by
  unfold Goes at hs
  unfold next
  cases hstep : h.step eth decode s with
  | error e =>
    rw [hstep] at hs
    cases hs
  | ok h' => exact step_stepped hstep

/-! ## The invariant -/

/-- The client is subscribed. -/
def subscribed (h : Hub) (k : SocketKind) (id : String) (c : Nat) : Bool :=
  (h.sockets.get k).1.active id (some c)

/-- Each subscription and each connection has a handler that ends it, or its `SUBSCRIBE` is under
way. A handler of an address finds the map it writes to. -/
structure Inv (eth : Eth) (h : Hub) : Prop where
  listed : ∀ k, (h.sockets.get k).1.Listed
  exact : h.connections.Exact eth
  tracked : ∀ k id c, h.subscribed k id c = true →
    (c, k, id) ∈ h.handlers ∨ ∃ x ∈ h.opening, x.client = c ∧ x.kind = k ∧ x.id = id
  kept : ∀ x ∈ h.connections.handlers, (h.connections.map x.2.1).isSome
  started : ∀ c k a, (c, .connection k a) ∈ h.closing → (h.connections.map k).isSome

theorem subscribed_onSocket {h : Hub} (hlisted : ∀ k, (h.sockets.get k).1.Listed) (k : SocketKind)
    (op : ChannelOp) (k' : SocketKind) (id : String) (c : Nat) :
    (h.onSocket k op).subscribed k' id c =
      if k' = k then (op.bears id (some c)).getD (h.subscribed k' id c)
        else h.subscribed k' id c := by
  unfold subscribed onSocket
  rw [ChannelSockets.get_step]
  split
  · exact ChannelSocket.active_step (hlisted k') op id c
  · rfl

theorem listed_onSocket {h : Hub} (hlisted : ∀ k, (h.sockets.get k).1.Listed) (k : SocketKind)
    (op : ChannelOp) (k' : SocketKind) : ((h.onSocket k op).sockets.get k').1.Listed := by
  unfold onSocket
  rw [ChannelSockets.get_step]
  split
  · exact (hlisted k').step op
  · exact hlisted k'

theorem eq_or_mem_eraseIdx {α : Type} {l : List α} {i : Nat} {x y : α} (hy : l[i]? = some y)
    (hx : x ∈ l) : x = y ∨ x ∈ l.eraseIdx i := by
  obtain ⟨j, hj⟩ := List.mem_iff_getElem?.1 hx
  by_cases hij : j = i
  · subst hij
    rw [hy] at hj
    exact .inl (Option.some.inj hj).symm
  · exact .inr (List.mem_eraseIdx_iff_getElem?.2 ⟨j, hij, hj⟩)

theorem subscribed_of_onSocket {h : Hub} (hlisted : ∀ k, (h.sockets.get k).1.Listed)
    {k k' : SocketKind} {op : ChannelOp} {id : String} {c : Nat}
    (hs : (h.onSocket k op).subscribed k' id c = true) :
    h.subscribed k' id c = true ∨ k' = k ∧ op = .subscribe id (some c) := by
  rw [subscribed_onSocket hlisted] at hs
  split at hs
  · rename_i hk
    cases op with
    | subscribe id' c' =>
      rw [ChannelOp.bears] at hs
      split at hs
      · rename_i heq
        obtain ⟨rfl, rfl⟩ := heq
        exact .inr ⟨hk, rfl⟩
      · exact .inl hs
    | unsubscribeChannel | unsubscribe =>
      rw [ChannelOp.bears] at hs
      split at hs
      · cases hs
      · exact .inl hs
  · exact .inl hs

theorem mem_unsubscribeHandlers {h : Hub} {c : Nat} {fn : UnsubscribeHandler} :
    fn ∈ h.unsubscribeHandlers c ↔
      (∃ k id, fn = .channel k id ∧ (c, k, id) ∈ h.handlers) ∨
        ∃ k a, fn = .connection k a ∧ (c, k, a) ∈ h.connections.handlers := by
  simp only [unsubscribeHandlers, List.mem_append, List.mem_map, List.mem_filter, decide_eq_true_eq,
    Prod.exists]
  constructor
  · intro hfn
    rcases hfn with ⟨c', k, id, ⟨hx, rfl⟩, rfl⟩ | ⟨c', k, a, ⟨hx, rfl⟩, rfl⟩
    · exact .inl ⟨k, id, rfl, hx⟩
    · exact .inr ⟨k, a, rfl, hx⟩
  · intro hfn
    rcases hfn with ⟨k, id, rfl, hx⟩ | ⟨k, a, rfl, hx⟩
    · exact .inl ⟨c, k, id, ⟨hx, rfl⟩, rfl⟩
    · exact .inr ⟨c, k, a, ⟨hx, rfl⟩, rfl⟩

theorem mem_closeConnection {h : Hub} {c c' : Nat} {fn : UnsubscribeHandler} :
    (c', fn) ∈ (h.closeConnection c).closing ↔
      (c', fn) ∈ h.closing ∨ c' = c ∧ fn ∈ h.unsubscribeHandlers c := by
  simp only [closeConnection, List.mem_append, List.mem_map, Prod.mk.injEq]
  constructor
  · intro hx
    rcases hx with hx | ⟨fn', hfn, rfl, rfl⟩
    · exact .inl hx
    · exact .inr ⟨rfl, hfn⟩
  · intro hx
    rcases hx with hx | ⟨rfl, hfn⟩
    · exact .inl hx
    · exact .inr ⟨fn, hfn, rfl, rfl⟩

theorem Inv.start (eth : Eth) : Inv eth start where
  listed _ := ChannelSocket.Listed.new
  exact := Connections.Exact.start eth
  tracked _ _ _ hs := Bool.noConfusion hs
  kept _ hx := absurd hx List.not_mem_nil
  started _ _ _ hx := absurd hx List.not_mem_nil

section
variable {eth : Eth} {h : Hub} (hinv : Inv eth h)
include hinv

theorem Inv.unsubscribed {k : SocketKind} {op : ChannelOp}
    (hop : ∀ id c, op ≠ .subscribe id (some c)) (sent : List (ClientMessage Json))
    {closing : List (Nat × UnsubscribeHandler)} (hc : closing ⊆ h.closing) :
    Inv eth { h.onSocket k op with sent, closing } := by
  refine ⟨listed_onSocket hinv.listed k op, hinv.exact, fun k' id c hs => ?_, hinv.kept,
    fun c k a hx => hinv.started c k a (hc hx)⟩
  rcases subscribed_of_onSocket hinv.listed hs with hs | ⟨-, heq⟩
  · exact hinv.tracked k' id c hs
  · exact absurd heq (hop id c)

theorem Inv.connected {op : ConnectionOp} {σ : Connections} (hdone : op.Done eth h.connections σ)
    {closing : List (Nat × UnsubscribeHandler)} (hc : closing ⊆ h.closing) :
    Inv eth { h with connections := σ, closing } := by
  refine ⟨hinv.listed, hdone.exact, hinv.tracked, fun x hx => ?_, fun c k a hx => ?_⟩
  · rcases hdone.handlers x hx with hx | ⟨spare, heq⟩
    · exact hdone.mapped _ (hinv.kept x hx)
    · exact hdone.registered _ _ _ spare heq
  · exact hdone.mapped k (hinv.started c k a (hc hx))

theorem Inv.handled {k : SocketKind} {c : Nat} {h' : Hub} (hh : Handled k c h h') : Inv eth h' := by
  cases hh with
  | replied sent => exact ⟨hinv.listed, hinv.exact, hinv.tracked, hinv.kept, hinv.started⟩
  | ended op sent hop =>
    refine hinv.unsubscribed (fun id c' heq => ?_) sent (List.Subset.refl _)
    rcases hop with rfl | ⟨id', rfl⟩ <;> cases heq
  | subscribed id data sent =>
    refine ⟨listed_onSocket hinv.listed k _, hinv.exact, fun k' id' c' hs => ?_, hinv.kept,
      hinv.started⟩
    rcases subscribed_of_onSocket hinv.listed hs with hs | ⟨rfl, heq⟩
    · rcases hinv.tracked k' id' c' hs with hx | ⟨x, hx, hc⟩
      · exact .inl hx
      · exact .inr ⟨x, List.mem_append_left _ hx, hc⟩
    · cases heq
      exact .inr ⟨_, List.mem_append_right _ (List.mem_singleton_self _), rfl, rfl, rfl⟩

theorem Inv.stepped (heth : eth.ReadsBack) {s : Step} {h' : Hub} (hs : Stepped eth h s h') :
    Inv eth h' := by
  cases hs with
  | message hh => exact hinv.handled hh
  | idle => exact hinv
  | @opened i x hx =>
    refine ⟨hinv.listed, hinv.exact, fun k id c hs => ?_, hinv.kept, hinv.started⟩
    rcases hinv.tracked k id c hs with hy | ⟨y, hy, hc⟩
    · exact .inl (List.mem_append_left _ hy)
    · rcases eq_or_mem_eraseIdx hx hy with rfl | hy
      · obtain ⟨rfl, rfl, rfl⟩ := hc
        exact .inl (List.mem_append_right _ (List.mem_singleton_self _))
      · exact .inr ⟨y, hy, hc⟩
  | connect hσ => exact hinv.connected (ConnectionOp.done heth hinv.exact hσ) (List.Subset.refl _)
  | @close c =>
    refine ⟨hinv.listed, hinv.exact, hinv.tracked, hinv.kept, fun c' k a hx => ?_⟩
    rcases mem_closeConnection.1 hx with hx | ⟨rfl, hfn⟩
    · exact hinv.started c' k a hx
    · rcases mem_unsubscribeHandlers.1 hfn with ⟨k', id, heq, -⟩ | ⟨k', a', heq, hx⟩
      · cases heq
      · cases heq
        exact hinv.kept _ hx
  | channel => exact hinv.unsubscribed (fun _ _ heq => by cases heq) h.sent List.eraseIdx_subset
  | connection _ hσ =>
    exact hinv.connected (ConnectionOp.done heth hinv.exact hσ) List.eraseIdx_subset

end

/-- The runs of the process. -/
abbrev Runs (eth : Eth) (decode : PayloadDecoder) : List Step → Hub → Prop :=
  Run (fun _ h s => h.Goes eth decode s) (next eth decode) start

theorem inv_run {eth : Eth} (heth : eth.ReadsBack) {decode : PayloadDecoder}
    {steps : List Step} {h : Hub} (hrun : Runs eth decode steps h) : Inv eth h :=
  hrun.invariant (I := fun _ h => Inv eth h) (Inv.start eth)
    fun _ _ _ _ hinv hgo => hinv.stepped heth hgo.stepped

end Hub

/-! ## What ends the process -/

namespace Hub.Step

/-- A message whose payload is `null`, or missing, to an endpoint that reads its fields. -/
def NilPayload : Step → Prop
  | .message _ k ev _ _ => ev.payload = .null ∧ k.Reads ev.type
  | _ => False

end Hub.Step

/-- Every query finds something. -/
def Answers.sample : Answers :=
  ⟨fun _ _ => .found .null, fun _ _ => .found .null, fun _ _ _ => .found .null,
    fun _ _ _ _ _ => .found .null⟩

theorem Answers.sample_returns : Answers.sample.Returns := by
  refine ⟨?_, ?_, ?_, ?_⟩ <;> simp [Answers.sample]

/-- Every payload is read as one for the pair of 1 and 2. -/
def PayloadDecoder.sample : PayloadDecoder := fun _ => (⟨2, 1, 0, 0, 0, ""⟩, none)

/-- The services answer the message. -/
def Hub.Step.Answered : Hub.Step → Prop
  | .message _ _ _ db _ => db.Returns
  | _ => True

namespace Hub

/-- What panics, as long as the services answer. -/
theorem Inv.panics {eth : Eth} (heth : eth.ReadsBack) {decode : PayloadDecoder} {h : Hub}
    (hinv : Inv eth h) {s : Step}
    (hs : s.Answered) : (∃ e, h.step eth decode s = .error e) ↔ s.NilPayload := by
  have hok : ∀ {r : Except Err Hub} {h' : Hub}, r = .ok h' → ¬ s.NilPayload →
      ((∃ e, r = .error e) ↔ s.NilPayload) := by
    rintro _ h' rfl hno
    exact ⟨fun he => (by obtain ⟨e, he⟩ := he; cases he), fun hnil => absurd hnil hno⟩
  cases s with
  | message c k ev db now =>
    have hreplies : Replies k c h _ _ (h.step eth decode (.message c k ev db now)) :=
      webSocket_replies
    generalize h.step eth decode (.message c k ev db now) = r at hreplies ⊢
    cases hreplies with
    | handled hread => exact hok rfl hread
    | nilPayload hread => exact ⟨fun _ => hread, fun _ => ⟨_, rfl⟩⟩
    | unanswered hreturn => exact absurd hs hreturn
  | opened i =>
    simp only [step]
    split
    · exact hok rfl id
    · exact hok rfl id
  | connect k a c spare =>
    rcases (ConnectionOp.register k a c spare).call_cases heth hinv.exact with
      ⟨σ, heq, -⟩ | ⟨_, _, _, heq, -⟩
    · exact hok (bind_eq_ok.2 ⟨σ, heq, rfl⟩) id
    · cases heq
  | close c => exact hok rfl id
  | handler i =>
    simp only [step]
    split
    · exact hok rfl id
    · rename_i c fn hx
      cases fn with
      | channel k id => exact hok rfl fun hnil => hnil
      | connection k a =>
        -- the handler was kept when the client was registered, so that there is a map
        have hmap := hinv.started c k a (List.mem_of_getElem? hx)
        rcases (ConnectionOp.unsubscribe k a c).call_cases heth hinv.exact with
          ⟨σ, heq, -⟩ | ⟨k', a', c', heq, hnone, -⟩
        · exact hok (bind_eq_ok.2 ⟨σ, heq, rfl⟩) id
        · cases heq
          rw [hnone] at hmap
          cases hmap

theorem runs_of_answered {eth : Eth} (heth : eth.ReadsBack) (decode : PayloadDecoder)
    {steps : List Step} (hs : ∀ s ∈ steps, s.Answered ∧ ¬ s.NilPayload) :
    Runs eth decode steps (steps.foldl (next eth decode) start) := by
  induction steps using List.reverseRecOn with
  | nil => exact .nil
  | append_singleton steps s ih =>
    have hrun := ih fun s hs' => hs s (List.mem_append_left _ hs')
    obtain ⟨hanswered, hnil⟩ := hs s (by simp)
    rw [List.foldl_append]
    refine .snoc s hrun ?_
    unfold Goes
    cases heq : step eth decode (steps.foldl (next eth decode) start) s with
    | ok h' => rfl
    | error e => exact absurd (((inv_run heth hrun).panics heth hanswered).1 ⟨e, heq⟩) hnil

end Hub

/-- As long as the queries of the services return, the process is ended only by a message whose
payload is `null` or missing, of a type for which the endpoint reads its fields, and always by such
a message. No handler and no registration panics, in whatever order they run. -/
theorem crashes_only_on_null {eth : Eth} (heth : eth.ReadsBack) {decode : PayloadDecoder}
    {steps : List Hub.Step} {h : Hub} (hrun : Hub.Runs eth decode steps h) (s : Hub.Step)
    (hs : s.Answered) : (∃ e, h.step eth decode s = .error e) ↔ s.NilPayload :=
  (Hub.inv_run heth hrun).panics heth hs

/-- Two clients subscribe to the trades of a pair, one of them is connected to an address. -/
def openSteps : List Hub.Step :=
  let subscribe (c : Nat) : Hub.Step := .message c .trade ⟨"SUBSCRIBE", .obj []⟩ .sample 0
  [subscribe 7, .opened 0, subscribe 8, .opened 0, .connect .order 3 7 []]

theorem openSteps_answered : ∀ s ∈ openSteps, s.Answered ∧ ¬ s.NilPayload := by
  simp [openSteps, Hub.Step.Answered, Hub.Step.NilPayload, Answers.sample_returns]

/-- After these, an `UNSUBSCRIBE` is handled: the endpoint does not read its payload, which is
`null`. -/
theorem crashes_only_on_null_open :
    ¬ ∃ e, (openSteps.foldl (Hub.next .sample .sample) .start).step .sample .sample
    (.message 8 .trade ⟨"UNSUBSCRIBE", .null⟩ .sample 0) = .error e := by
  have hrun := Hub.runs_of_answered Eth.sample_readsBack .sample openSteps_answered
  have hiff := crashes_only_on_null Eth.sample_readsBack hrun
    (.message 8 .trade ⟨"UNSUBSCRIBE", .null⟩ .sample 0) Answers.sample_returns
  rw [hiff]
  simp [Hub.Step.NilPayload, SocketKind.Reads]

namespace Hub

/-! ## What a step does to the others -/

/-- The client has what the handler ends. -/
def Has (eth : Eth) (h : Hub) (c : Nat) : UnsubscribeHandler → Prop
  | .channel k id => h.subscribed k id c = true
  | .connection k a => c ∈ h.connections.list eth k a

/-- The client that a message or a registration comes from. -/
def Step.speaker : Step → Option Nat
  | .message c _ _ _ _ => some c
  | .connect _ _ c _ => some c
  | _ => none

/-- What is done to a client that does not speak: it gets nothing, and loses only what a handler
ends that was started for it. A handler stays until it has run. -/
structure Frame (eth : Eth) (c : Nat) (h h' : Hub) : Prop where
  has : ∀ fn, (h'.Has eth c fn ↔ h.Has eth c fn) ∨ (c, fn) ∈ h.closing ∧ ¬ h'.Has eth c fn
  closing : ∀ fn, (c, fn) ∈ h.closing → (c, fn) ∈ h'.closing ∨ ¬ h'.Has eth c fn
  opening : ∀ x ∈ h'.opening, x.client = c → x ∈ h.opening

section
variable {eth : Eth} {c c' : Nat} {h h' : Hub} {fn : UnsubscribeHandler}

theorem has_onSocket_of_ne (hlisted : ∀ k, (h.sockets.get k).1.Listed) (k : SocketKind)
    {op : ChannelOp}
    (hbears : ∀ id, op.bears id (some c) = none) : (h.onSocket k op).Has eth c fn ↔
      h.Has eth c fn := by
  cases fn with
  | channel k' id =>
    rw [Has, subscribed_onSocket hlisted, hbears, Option.getD_none, ite_self]
    rfl
  | connection k' a => rfl

theorem has_unsubscribeChannel (hlisted : ∀ k, (h.sockets.get k).1.Listed) (k : SocketKind)
    (id : String) : (h.onSocket k (.unsubscribeChannel id (some c'))).Has eth c fn ↔
      h.Has eth c fn ∧ (c, fn) ≠ (c', .channel k id) := by
  cases fn with
  | channel k' id' =>
    rw [Has, subscribed_onSocket hlisted, ChannelOp.bears, Has]
    by_cases heq : k' = k ∧ id' = id ∧ c = c'
    · obtain ⟨rfl, rfl, rfl⟩ := heq
      simp
    · by_cases hk : k' = k
      · subst hk
        by_cases hid : id' = id ∧ c = c'
        · exact absurd ⟨rfl, hid⟩ heq
        · rw [if_pos rfl, if_neg (by simpa using hid), Option.getD_none]
          simp only [ne_eq, Prod.mk.injEq, UnsubscribeHandler.channel.injEq, true_and]
          exact ⟨fun hs => ⟨hs, fun he => hid ⟨he.2, he.1⟩⟩, fun hs => hs.1⟩
      · rw [if_neg hk]
        simp [hk]
  | connection k' a => simp [Has, onSocket]

theorem has_of_register {k : ConnectionKind} {a : Address} {spare : List Nat} {σ : Connections}
    (hc : c ≠ c') (hdone : (ConnectionOp.register k a c' spare).Done eth h.connections σ) :
    { h with connections := σ }.Has eth c fn ↔ h.Has eth c fn := by
  cases fn with
  | channel k' id => rfl
  | connection k' a' =>
    have hmem := hdone.mem k' a' c
    rw [ConnectionOp.bears, if_neg fun heq => hc heq.2.2, Option.getD_none] at hmem
    exact decide_eq_decide.1 hmem

theorem has_of_unsubscribe {k : ConnectionKind} {a : Address} {σ : Connections}
    (hdone : (ConnectionOp.unsubscribe k a c').Done eth h.connections σ) :
    { h with connections := σ }.Has eth c fn ↔
      h.Has eth c fn ∧ (c, fn) ≠ (c', .connection k a) := by
  cases fn with
  | channel k' id => simp [Has, subscribed]
  | connection k' a' =>
    have hmem := hdone.mem k' a' c
    rw [ConnectionOp.bears] at hmem
    by_cases heq : k' = k ∧ a' = a ∧ c = c'
    · rw [if_pos heq, Option.getD_some, decide_eq_false_iff_not] at hmem
      obtain ⟨rfl, rfl, rfl⟩ := heq
      simpa [Has] using hmem
    · rw [if_neg heq, Option.getD_none, decide_eq_decide] at hmem
      simp only [Has, hmem, ne_eq, Prod.mk.injEq, UnsubscribeHandler.connection.injEq]
      exact ⟨fun hs => ⟨hs, fun he => heq ⟨he.2.1, he.2.2, he.1⟩⟩, fun hs => hs.1⟩

theorem Frame.of_same (hhas : ∀ fn, h'.Has eth c fn ↔ h.Has eth c fn)
    (hclosing : ∀ fn, (c, fn) ∈ h.closing → (c, fn) ∈ h'.closing)
    (hopening : ∀ x ∈ h'.opening, x.client = c → x ∈ h.opening) : Frame eth c h h' :=
  ⟨fun fn => .inl (hhas fn), fun fn hfn => .inl (hclosing fn hfn), hopening⟩

theorem Frame.of_ran {i : Nat} {y : Nat × UnsubscribeHandler} (hy : h.closing[i]? = some y)
    (hhas : ∀ fn, h'.Has eth c fn ↔ h.Has eth c fn ∧ (c, fn) ≠ y)
    (hclosing : h'.closing = h.closing.eraseIdx i)
    (hopening : h'.opening = h.opening) : Frame eth c h h' := by
  refine ⟨fun fn => ?_, fun fn hfn => ?_, fun x hx _ => hopening ▸ hx⟩
  · by_cases hne : (c, fn) = y
    · exact .inr ⟨hne ▸ List.mem_of_getElem? hy, fun hs => ((hhas fn).1 hs).2 hne⟩
    · exact .inl ⟨fun hs => ((hhas fn).1 hs).1, fun hs => (hhas fn).2 ⟨hs, hne⟩⟩
  · rcases eq_or_mem_eraseIdx hy hfn with hne | hfn
    · exact .inr fun hs => ((hhas fn).1 hs).2 hne
    · exact .inl (hclosing ▸ hfn)

theorem Inv.frame_handled (hinv : Inv eth h) {k : SocketKind} (hc : c ≠ c')
    (hh : Handled k c' h h') : Frame eth c h h' := by
  have hne : some c ≠ some c' := fun heq => hc (Option.some.inj heq)
  cases hh with
  | replied sent =>
    exact .of_same (fun fn => by cases fn <;> rfl) (fun _ hfn => hfn) fun _ hx _ => hx
  | ended op sent hop =>
    have hbears : ∀ id, op.bears id (some c) = none := by
      intro id
      rcases hop with rfl | ⟨id', rfl⟩
      · rw [ChannelOp.bears, if_neg hne]
      · rw [ChannelOp.bears, if_neg fun heq => hne heq.2]
    refine .of_same (fun fn => ?_) (fun _ hfn => hfn) fun _ hx _ => hx
    exact Iff.trans (by cases fn <;> rfl) (has_onSocket_of_ne hinv.listed k hbears)
  | subscribed id data sent =>
    have hbears : ∀ id', (ChannelOp.subscribe id (some c')).bears id' (some c) = none :=
      fun id' => by
      rw [ChannelOp.bears, if_neg fun heq => hne heq.2]
    refine .of_same (fun fn => ?_) (fun _ hfn => hfn) fun x hx hxc => ?_
    · exact Iff.trans (by cases fn <;> rfl) (has_onSocket_of_ne hinv.listed k hbears)
    · rcases List.mem_append.1 hx with hx | hx
      · exact hx
      · rw [List.mem_singleton.1 hx] at hxc
        exact absurd hxc.symm hc

theorem Inv.frame (hinv : Inv eth h) (heth : eth.ReadsBack) {s : Step} (hs : Stepped eth h s h')
    (hspeaker : s.speaker ≠ some c) : Frame eth c h h' := by
  cases hs with
  | message hh => exact hinv.frame_handled (fun heq => hspeaker (by rw [heq]; rfl)) hh
  | idle => exact .of_same (fun _ => Iff.rfl) (fun _ hfn => hfn) fun _ hx _ => hx
  | opened hx =>
    exact .of_same (fun fn => by cases fn <;> rfl) (fun _ hfn => hfn)
      fun _ hy _ => List.mem_of_mem_eraseIdx hy
  | connect hσ =>
    have hdone := ConnectionOp.done heth hinv.exact hσ
    exact .of_same (fun fn => has_of_register (fun heq => hspeaker (by rw [heq]; rfl)) hdone)
      (fun _ hfn => hfn) fun _ hx _ => hx
  | close =>
    exact .of_same (fun fn => by cases fn <;> rfl) (fun fn hfn => mem_closeConnection.2 (.inl hfn))
      fun _ hx _ => hx
  | @channel i c' k id hx =>
    refine .of_ran hx (fun fn => ?_) rfl rfl
    exact Iff.trans (by cases fn <;> rfl) (has_unsubscribeChannel hinv.listed k id)
  | @connection i c' k a σ hx hσ =>
    refine .of_ran hx (fun fn => ?_) rfl rfl
    exact Iff.trans (by cases fn <;> rfl) (has_of_unsubscribe
      (ConnectionOp.done heth hinv.exact hσ))

end

/-! ## A connection that is closed -/

/-- The client is to lose all it has: for each of it a handler has been started. -/
structure Leaving (eth : Eth) (c : Nat) (h : Hub) : Prop where
  opening : ∀ x ∈ h.opening, x.client ≠ c
  has : ∀ fn, h.Has eth c fn → (c, fn) ∈ h.closing

theorem Inv.leaving {eth : Eth} {h : Hub} (hinv : Inv eth h) {c : Nat}
    (hopening : ∀ x ∈ h.opening, x.client ≠ c) : Leaving eth c (h.closeConnection c) := by
  refine ⟨hopening, fun fn hfn => mem_closeConnection.2 (.inr ⟨rfl, mem_unsubscribeHandlers.2 ?_⟩)⟩
  cases fn with
  | channel k id =>
    rcases hinv.tracked k id c hfn with hx | ⟨x, hx, hc, -⟩
    · exact .inl ⟨k, id, rfl, hx⟩
    · exact absurd hc (hopening x hx)
  | connection k a => exact .inr ⟨k, a, rfl, hinv.exact.handled k a c hfn⟩

theorem Leaving.frame {eth : Eth} {c : Nat} {h h' : Hub} (hl : Leaving eth c h)
    (hf : Frame eth c h h') : Leaving eth c h' := by
  refine ⟨fun x hx hc => hl.opening x (hf.opening x hx hc) hc, fun fn hfn => ?_⟩
  have hclosing : (c, fn) ∈ h.closing := by
    rcases hf.has fn with hiff | ⟨hclosing, -⟩
    · exact hl.has fn (hiff.1 hfn)
    · exact hclosing
  exact (hf.closing fn hclosing).resolve_right fun hno => hno hfn

end Hub

theorem ChannelSocket.exists_mem_updates {P : Type} {r : MapRange} {channel id : String} {p : P}
    {s : ChannelSocket}
    {c : ClientRef} : (∃ m ∈ s.updates r channel id p, m.client = c) ↔ s.active id c = true := by
  obtain ⟨clients, heq, -, hmem⟩ := s.updates_eq r channel id p
  rw [heq, ← hmem]
  constructor
  · intro hm
    obtain ⟨m, hm, rfl⟩ := hm
    obtain ⟨c, hc, rfl⟩ := List.mem_map.1 hm
    exact hc
  · intro hc
    exact ⟨_, List.mem_map_of_mem hc, rfl⟩

/-- A connection is closed when none of its `SUBSCRIBE`s is under way, and nothing that the client
has sent is handled after that, whatever the others do. Once its handlers have run, in any order, no
broadcast reaches it, and it is connected to no address. -/
theorem closed_client_gets_nothing {eth : Eth} (heth : eth.ReadsBack) {decode : PayloadDecoder}
    {before after : List Hub.Step} {c : Nat} {h : Hub}
    (hrun : Hub.Runs eth decode (before ++ .close c :: after) h)
    (hopening : ∀ x ∈ (before.foldl (Hub.next eth decode) .start).opening, x.client ≠ c)
    (hafter : ∀ s ∈ after, s.speaker ≠ some c) (hclosing : ∀ x ∈ h.closing, x.1 ≠ c) :
    (∀ (P : Type) (r : MapRange) (k : SocketKind) (id : String) (p : P),
      ∃ msgs, h.sockets.broadcast r k id p = .ok msgs ∧ ∀ m ∈ msgs, m.client ≠ some c) ∧
    ∀ k a, c ∉ h.connections.list eth k a := by
  rw [← List.singleton_append, ← List.append_assoc] at hrun
  have hleaving : Hub.Leaving eth c h := by
    refine hrun.since (I := fun _ => Hub.Leaving eth c) (fun hr => ?_)
      fun cs h' s hr hgo hs hl => ?_
    · have hinv := Hub.inv_run heth (hr.of_prefix (List.prefix_append before [.close c]))
      rw [List.foldl_append]
      exact hinv.leaving hopening
    · exact hl.frame ((Hub.inv_run heth hr).frame heth hgo.stepped (hafter s hs))
  have hno : ∀ fn, ¬ h.Has eth c fn := fun fn hfn => hclosing _ (hleaving.has fn hfn) rfl
  refine ⟨fun P r k id p => ⟨_, ChannelSockets.broadcast_eq r k id p h.sockets, fun m hm hc => ?_⟩,
    fun k a => hno (.connection k a)⟩
  exact hno (.channel k id) (ChannelSocket.exists_mem_updates.1 ⟨m, hm, hc⟩)

/-- The two handlers of a client run. -/
def handlerSteps : List Hub.Step := [.handler 1, .handler 0]

theorem closed_run : Hub.Runs .sample .sample (openSteps ++ .close 7 :: handlerSteps)
    ((openSteps ++ .close 7 :: handlerSteps).foldl (Hub.next .sample .sample) .start) := by
  refine Hub.runs_of_answered Eth.sample_readsBack .sample fun s hs => ?_
  rcases List.mem_append.1 hs with hs | hs
  · exact openSteps_answered s hs
  · simp only [handlerSteps, List.mem_cons, List.not_mem_nil, or_false] at hs
    rcases hs with rfl | rfl | rfl <;> exact ⟨trivial, fun h => h⟩

/-- One of two clients is closed. -/
theorem closed_client_gets_nothing_two :
    let h := (openSteps ++ .close 7 :: handlerSteps).foldl (Hub.next .sample .sample) .start
    (∀ (P : Type) (r : MapRange) (k : SocketKind) (id : String) (p : P),
      ∃ msgs, h.sockets.broadcast r k id p = .ok msgs ∧ ∀ m ∈ msgs, m.client ≠ some 7) ∧
    ∀ k a, 7 ∉ h.connections.list .sample k a :=
  closed_client_gets_nothing Eth.sample_readsBack closed_run (by decide) (by decide) (by decide)

end Dex
