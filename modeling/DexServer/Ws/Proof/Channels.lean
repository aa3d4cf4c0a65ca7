import DexServer.Lib.Latest
import DexServer.Ws.Channels

/-!
# Broadcasts reach the subscribers

`active ch c`: the client `c` is subscribed to the channel id `ch`. Each call sets it, clears it or
keeps it as `ChannelOp.bears` says. For `Unsubscribe` that rests on an invariant, `Listed`: an id to
which a client is subscribed is in the client's list, whatever else is in there.

* `active_step`: what a call does.
* `ChannelSockets.active_run`: who is subscribed after a sequence of calls.
* `broadcasts_reach_subscribers`: who gets a broadcast then.
-/

namespace Dex

open Lib

namespace ChannelSocket

/-- The client is subscribed to the channel id. -/
def active (s : ChannelSocket) (ch : String) (c : ClientRef) : Bool :=
  (s.clients ch).lookup c = some true

/-- The ids that are listed for a client. -/
def listed (s : ChannelSocket) (c : ClientRef) : List String :=
  (s.subscriptionsList.lookup c).getD []

/-! ## What a call does -/

theorem clients_insert (s : ChannelSocket) (ch ch' : String) (m : AList fun _ : ClientRef => Bool)
    (l : AList fun _ : ClientRef => List String) :
    (ChannelSocket.mk (s.subscriptions.insert ch m) l).clients ch' = if ch' = ch then m
      else s.clients ch' := by
  unfold clients
  split
  case isTrue h =>
    subst h
    rw [AList.lookup_insert, Option.getD_some]
  case isFalse h => rw [AList.lookup_insert_ne h]

theorem active_subscribe {s s' : ChannelSocket} {ch : String} {c : ClientRef}
    (h : s.subscribe ch c = .ok s')
    (ch' : String) (c' : ClientRef) : s'.active ch' c' = if ch' = ch ∧ c' = c then true
      else s.active ch' c' := by
  unfold subscribe at h
  split at h
  · cases h
  · cases h
    unfold active
    rw [clients_insert]
    by_cases hch : ch' = ch
    · subst hch
      by_cases hc : c' = c
      · subst hc
        simp
      · simp [hc]
    · simp [hch]

theorem active_unsubscribeChannel (s : ChannelSocket) (ch ch' : String) (c c' : ClientRef) :
    (s.unsubscribeChannel ch c).active ch' c' = if ch' = ch ∧ c' = c then false
      else s.active ch' c' := by
  unfold unsubscribeChannel
  split
  case isTrue h =>
    unfold active
    rw [clients_insert]
    by_cases hch : ch' = ch
    · subst hch
      by_cases hc : c' = c
      · subst hc
        simp
      · simp [hc, AList.lookup_erase_ne, AList.lookup_insert_ne]
    · simp [hch]
  case isFalse h =>
    split
    · rename_i heq
      obtain ⟨rfl, rfl⟩ := heq
      exact decide_eq_false h
    · rfl

theorem step_subscribe {s s' : ChannelSocket} {ch : String} {c : ClientRef}
    (h : s.subscribe ch c = .ok s') : s.step (.subscribe ch c) = s' := by
  rw [step, h]
  rfl

theorem active_foldl_unsubscribeChannel (ids : List String) (s : ChannelSocket) (ch : String)
    (c c' : ClientRef) : (ids.foldl (fun s id => s.unsubscribeChannel id c) s).active ch c' =
      if ch ∈ ids ∧ c' = c then false else s.active ch c' := by
  induction ids generalizing s with
  | nil => simp
  | cons id ids ih =>
    rw [List.foldl_cons, ih, active_unsubscribeChannel]
    by_cases hc : c' = c
    · by_cases hid : ch = id
      · simp [hc, hid]
      · simp [hc, hid]
    · simp [hc]

theorem active_unsubscribe (s : ChannelSocket) (ch : String) (c c' : ClientRef) :
    (s.unsubscribe c).active ch c' = if ch ∈ s.listed c ∧ c' = c then false
      else s.active ch c' := by
  unfold unsubscribe listed
  cases s.subscriptionsList.lookup c with
  | none => simp
  | some ids => exact active_foldl_unsubscribeChannel ids s ch c c'

/-! ## The lists of the clients -/

theorem listed_subscribe {s s' : ChannelSocket} {ch : String} {c : ClientRef}
    (h : s.subscribe ch c = .ok s')
    (c' : ClientRef) : s'.listed c' = if c' = c then s.listed c ++ [ch] else s.listed c' := by
  unfold subscribe at h
  split at h
  · cases h
  · cases h
    unfold listed
    by_cases hc : c' = c
    · subst hc
      simp
    · simp [hc]

theorem listed_unsubscribeChannel (s : ChannelSocket) (ch : String) (c c' : ClientRef) :
    (s.unsubscribeChannel ch c).listed c' = s.listed c' := by
  unfold unsubscribeChannel
  split
  · rfl
  · rfl

theorem listed_unsubscribe (s : ChannelSocket) (c c' : ClientRef) :
    (s.unsubscribe c).listed c' = s.listed c' := by
  unfold unsubscribe
  cases s.subscriptionsList.lookup c with
  | none => rfl
  | some ids =>
    dsimp only
    induction ids generalizing s with
    | nil => rfl
    | cons id ids ih => rw [List.foldl_cons, ih, listed_unsubscribeChannel]

/-- What a client is subscribed to is listed for it, and nil is subscribed to nothing. -/
structure Listed (s : ChannelSocket) : Prop where
  mem : ∀ ch c, s.active ch c = true → ch ∈ s.listed c
  nil : ∀ ch, s.active ch none = false

theorem Listed.new : Listed new := ⟨fun _ _ h => Bool.noConfusion h, fun _ => rfl⟩

theorem Listed.of_ended {s s' : ChannelSocket} (h : Listed s)
    (hlisted : ∀ c, s'.listed c = s.listed c)
    (hended : ∀ ch c, s'.active ch c = true → s.active ch c = true) : Listed s' := by
  refine ⟨fun ch c hactive => ?_, fun ch => ?_⟩
  · rw [hlisted]
    exact h.mem ch c (hended ch c hactive)
  · refine Bool.eq_false_iff.2 fun hactive => ?_
    have hs := hended ch none hactive
    rw [h.nil] at hs
    cases hs

theorem Listed.step {s : ChannelSocket} (h : Listed s) (op : ChannelOp) : Listed (s.step op) := by
  cases op with
  | subscribe ch c =>
    cases c with
    | none => exact h
    | some c =>
      obtain ⟨s', hs⟩ : ∃ s', s.subscribe ch (some c) = .ok s' := ⟨_, rfl⟩
      rw [step_subscribe hs]
      refine ⟨fun ch' c' hactive => ?_, fun ch' => ?_⟩
      · rw [active_subscribe hs] at hactive
        rw [listed_subscribe hs]
        split at hactive
        · rename_i heq
          rw [if_pos heq.2, heq.1]
          exact List.mem_append_right _ (List.mem_singleton_self ch)
        · have hmem := h.mem ch' c' hactive
          split
          · rename_i heq
            subst heq
            exact List.mem_append_left _ hmem
          · exact hmem
      · rw [active_subscribe hs, if_neg fun heq => Option.some_ne_none c heq.2.symm]
        exact h.nil ch'
  | unsubscribeChannel ch c =>
    refine h.of_ended (listed_unsubscribeChannel s ch c) fun ch' c' hactive => ?_
    rw [ChannelSocket.step, active_unsubscribeChannel] at hactive
    split at hactive
    · cases hactive
    · exact hactive
  | unsubscribe c =>
    refine h.of_ended (listed_unsubscribe s c) fun ch' c' hactive => ?_
    rw [ChannelSocket.step, active_unsubscribe] at hactive
    split at hactive
    · cases hactive
    · exact hactive

end ChannelSocket

/-! ## Who is subscribed -/

/-- The calls that bear on the subscription of a client to a channel id: `Subscribe` makes it, the
others end it. -/
def ChannelOp.bears (ch : String) (c : ClientRef) : ChannelOp → Option Bool
  | subscribe ch' c' => if ch = ch' ∧ c = c' then some true else none
  | unsubscribeChannel ch' c' => if ch = ch' ∧ c = c' then some false else none
  | unsubscribe c' => if c = c' then some false else none

theorem ChannelSocket.active_step {s : ChannelSocket} (h : s.Listed) (op : ChannelOp) (ch : String)
    (c : Nat) :
    (s.step op).active ch (some c) = (op.bears ch (some c)).getD (s.active ch (some c)) := by
  cases op with
  | subscribe ch' c' =>
    rw [ChannelOp.bears]
    cases c' with
    | none =>
      rw [if_neg fun heq => Option.some_ne_none c heq.2]
      rfl
    | some c' =>
      obtain ⟨s', hs⟩ : ∃ s', s.subscribe ch' (some c') = .ok s' := ⟨_, rfl⟩
      rw [step_subscribe hs, active_subscribe hs]
      split <;> rfl
  | unsubscribeChannel ch' c' =>
    rw [ChannelSocket.step, active_unsubscribeChannel, ChannelOp.bears]
    split <;> rfl
  | unsubscribe c' =>
    rw [ChannelSocket.step, active_unsubscribe, ChannelOp.bears]
    by_cases hc : some c = c'
    · subst hc
      rw [if_pos rfl, Option.getD_some]
      cases hactive : s.active ch (some c) with
      | false => exact ite_self _
      | true => rw [if_pos ⟨h.mem ch _ hactive, rfl⟩]
    · rw [if_neg fun heq => hc heq.2, if_neg hc]
      rfl

namespace ChannelSockets

theorem get_step (σ : ChannelSockets) (op : SocketKind × ChannelOp) (k : SocketKind) :
    ((σ.step op).get k).1 = if k = op.1 then (σ.get k).1.step op.2 else (σ.get k).1 := by
  have hget : ∀ σ : ChannelSockets, (σ.get k).1 = (σ k).getD .new := fun σ => by
    unfold get
    cases σ k <;> rfl
  have hset : k ≠ op.1 → (σ.get op.1).2 k = σ k := fun hk => by
    unfold get
    split
    · rfl
    · exact Function.update_of_ne hk _ _
  rw [hget, step]
  by_cases hk : k = op.1
  · subst hk
    simp
  · rw [if_neg hk, Function.update_of_ne hk, hset hk, hget]

/-- The subscriptions after a sequence of calls. -/
theorem active_run (ops : List (SocketKind × ChannelOp)) (k : SocketKind) (ch : String) (c : Nat) :
    ((run ops).get k).1.Listed ∧ ((run ops).get k).1.active ch (some c) =
      (latest (fun op => if k = op.1 then op.2.bears ch (some c) else none) ops).getD false := by
  refine foldl_latest (s := start) (g := fun σ : ChannelSockets => (σ.get k).1.active ch (some c))
    (I := fun σ : ChannelSockets => (σ.get k).1.Listed) ChannelSocket.Listed.new
    (fun σ op h => ?_) (fun σ op h => ?_) ops
  · rw [get_step]
    split
    · exact h.step op.2
    · exact h
  · rw [get_step]
    split
    · exact ChannelSocket.active_step h op.2 ch c
    · rfl

end ChannelSockets

/-! ## Who gets a broadcast -/

theorem ChannelSocket.updates_eq {P : Type} (r : MapRange) (channel ch : String) (p : P)
    (s : ChannelSocket) :
    ∃ clients : List ClientRef, s.updates r channel ch p =
      clients.map (fun c => ⟨c, channel, .UPDATE, p⟩) ∧
      clients.Nodup ∧ ∀ c, c ∈ clients ↔ s.active ch c = true := by
  refine ⟨((r.range (s.clients ch).entries).filter (·.2)).map (·.1), ?_, ?_, fun c => ?_⟩
  · rw [List.map_map]
    rfl
  · have hkeys : ((r.range (s.clients ch).entries).map Sigma.fst).Nodup :=
      ((r.perm _).map _).nodup_iff.2 (s.clients ch).nodupKeys
    exact hkeys.sublist (List.filter_sublist.map _)
  · have hrange : ∀ e, e ∈ r.range (s.clients ch).entries ↔ e ∈ (s.clients ch).entries :=
      fun _ => (r.perm _).mem_iff
    rw [active, decide_eq_true_eq, ← Option.mem_def, AList.mem_lookup_iff, ← hrange, List.mem_map]
    constructor
    · rintro ⟨⟨c', b⟩, hmem, rfl⟩
      obtain ⟨he, hb⟩ := List.mem_filter.1 hmem
      obtain rfl : b = true := hb
      exact he
    · intro he
      exact ⟨⟨c, true⟩, List.mem_filter.2 ⟨he, rfl⟩, rfl⟩

/-- `GetTradeSocket` has set the variable that the broadcast reads. -/
theorem ChannelSockets.broadcast_eq {P : Type} (r : MapRange) (k : SocketKind) (ch : String) (p : P)
    (σ : ChannelSockets) : σ.broadcast r k ch p = .ok ((σ.get k).1.updates r k.channel ch p) := by
  have hset : (σ.get .trade).2 .trade = some (σ.get .trade).1 := by
    unfold get
    split
    · rename_i hs
      exact hs
    · exact Function.update_self SocketKind.trade (some ChannelSocket.new) σ
  cases k with
  | trade =>
    show TradeSocket.broadcastMessage r ch p σ = _
    rw [TradeSocket.broadcastMessage, hset]
  | _ => rfl

/-- After any calls on the sockets, a broadcast is sent once to each client whose last call that
bears on the channel id was to subscribe, and to nobody else. -/
theorem broadcasts_reach_subscribers {P : Type} (r : MapRange) (ops : List (SocketKind × ChannelOp))
    (k : SocketKind) (ch : String) (p : P) :
    ∃ clients : List ClientRef,
      (ChannelSockets.run ops).broadcast r k ch p =
        .ok (clients.map fun c => ⟨c, k.channel, .UPDATE, p⟩) ∧
      clients.Nodup ∧ none ∉ clients ∧
      ∀ c : Nat, some c ∈ clients ↔
        latest (fun op => if k = op.1 then op.2.bears ch (some c) else none) ops = some true := by
  obtain ⟨clients, hsent, hnodup, hmem⟩ :=
    ((ChannelSockets.run ops).get k).1.updates_eq r k.channel ch p
  refine ⟨clients, ?_, hnodup, ?_, fun c => ?_⟩
  · rw [ChannelSockets.broadcast_eq, hsent]
  · rw [hmem, (ChannelSockets.active_run ops k ch 0).1.nil ch]
    exact Bool.false_ne_true
  · rw [hmem, (ChannelSockets.active_run ops k ch c).2]
    exact getD_latest

end Dex
