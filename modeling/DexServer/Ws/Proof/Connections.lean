import DexServer.Lib.Latest
import DexServer.Sample
import DexServer.Ws.Connections
import DexServer.Ws.Orders

/-!
# The connections of an address are exact

A slice without repetitions loses exactly the client that is removed: once it has been found, the
loop goes over the elements behind it one place too far, and over the last one twice, but not over
the client again (`removeClient_eq`). No slice has repetitions, since a client is appended only if
it is not connected.

* `Connections.register_eq`, `Connections.unsubscribe_eq`: what a call does under each key.
* `ConnectionOp.call_cases`: what a call does to the clients of each address, as `ConnectionOp.on`
  says; of the order socket this is what `OrderConnections` has been modelled by
  (`ConnectionOp.on_eq`).
* `Connections.exact_run`: the invariant, for every sequence of calls.
-/

namespace Dex

open Lib

/-! ## Removing a client -/

theorem foldlM_fixed {σ α ε : Type} {f : σ → α → Except ε σ} {s : σ} {as : List α}
    (h : ∀ a ∈ as, f s a = .ok s) : as.foldlM f s = .ok s := by
  induction as with
  | nil => rfl
  | cons a as ih =>
    rw [List.foldlM_cons, h a List.mem_cons_self, ok_bind]
    exact ih fun b hb => h b (List.mem_cons_of_mem a hb)

theorem removeAt_ne {client c : Nat} {s : Slice Nat} {i : Nat} (hc : s.array[i]? = some c)
    (hne : client ≠ c) : removeAt client s i = .ok s := by
  unfold removeAt
  rw [hc]
  exact if_neg hne

theorem removeAt_self {client : Nat} {s : Slice Nat} {i : Nat} (hi : i < s.len)
    (hc : s.array[i]? = some client) :
    ∃ s', removeAt client s i = .ok s' ∧ s'.toList = s.toList.eraseIdx i ∧
      ∀ k, i < k → k < s.len → s'.array[k]? = s.toList[if k + 1 < s.len then k + 1 else k]? := by
  obtain ⟨front, back, hfront, hback, hlist, harray⟩ := s.append_sub? hi []
  refine ⟨front.append back.toList [], ?_, hlist, harray⟩
  unfold removeAt slicing
  rw [hc, hfront, hback]
  exact if_pos rfl

theorem removeClient_eq (client : Nat) {s : Slice Nat} (hnodup : s.toList.Nodup) :
    ∃ s', removeClient client s = .ok s' ∧ s'.toList = s.toList.erase client := by
  have harray : ∀ i < s.len, s.array[i]? = s.toList[i]? :=
    fun i hi => (List.getElem?_take_of_lt hi).symm
  have hlen : s.toList.length = s.len := s.length_toList
  unfold removeClient
  by_cases hmem : client ∈ s.toList
  · -- the client is found once, in round `j`
    obtain ⟨j, hj, hget⟩ := List.getElem_of_mem hmem
    have hother : ∀ i c, i ≠ j → s.toList[i]? = some c → client ≠ c := by
      rintro i c hij hi rfl
      obtain ⟨hi, hc⟩ := List.getElem?_eq_some_iff.1 hi
      exact hij (hnodup.getElem_inj_iff.1 (hc.trans hget.symm))
    have hsome : ∀ i < s.len, ∃ c, s.toList[i]? = some c :=
      fun i hi => ⟨_, List.getElem?_eq_getElem (by omega)⟩
    rw [hlen] at hj
    obtain ⟨s', hremove, hlist, hbehind⟩ := removeAt_self hj (by
      rw [harray j hj]
      exact List.getElem?_eq_some_iff.2 ⟨by omega, hget⟩)
    have hsplit : List.range s.len = List.range j ++
        j :: (List.range (s.len - (j + 1))).map (j + 1 + ·) := by
      have hsum : s.len = j + 1 + (s.len - (j + 1)) := by omega
      conv_lhs => rw [hsum, List.range_add, List.range_succ, List.append_assoc]
      rfl
    refine ⟨s', ?_, ?_⟩
    · rw [hsplit, List.foldlM_append, foldlM_fixed (fun i hi => ?_), ok_bind, List.foldlM_cons,
        hremove, ok_bind]
      · refine foldlM_fixed fun i hi => ?_
        obtain ⟨x, hx, rfl⟩ := List.mem_map.1 hi
        have hx : x < s.len - (j + 1) := List.mem_range.1 hx
        have hi := hbehind (j + 1 + x) (by omega) (by omega)
        obtain ⟨c, hc⟩ := hsome (if j + 1 + x + 1 < s.len then j + 1 + x + 1 else j + 1 + x)
          (by split <;> omega)
        exact removeAt_ne (hi.trans hc) (hother _ c (by split <;> omega) hc)
      · have hi : i < j := List.mem_range.1 hi
        obtain ⟨c, hc⟩ := hsome i (by omega)
        exact removeAt_ne ((harray i (by omega)).trans hc) (hother i c (by omega) hc)
    · rw [hlist, ← hget, hnodup.erase_getElem]
  · refine ⟨s, foldlM_fixed fun i hi => ?_, (List.erase_of_not_mem hmem).symm⟩
    have hi : i < s.len := List.mem_range.1 hi
    have hc : s.toList[i]? = some s.toList[i] := List.getElem?_eq_getElem (by omega)
    refine removeAt_ne ((harray i hi).trans hc) ?_
    intro heq
    exact hmem (heq ▸ List.getElem_mem _)

/-! ## The clients under a key -/

namespace ConnectionMap

theorem get_insert (m : AList fun _ : String => ConnectionSlice) (key key' : String)
    (s : ConnectionSlice) :
    get (some (m.insert key s)) key' = if key' = key then s else get (some m) key' := by
  unfold get
  rw [Option.getD_some, Option.getD_some]
  split
  case isTrue h =>
    subst h
    rw [AList.lookup_insert]
    rfl
  case isFalse h => rw [AList.lookup_insert_ne h]

theorem clients_insert (m : AList fun _ : String => ConnectionSlice) (key key' : String)
    (s : ConnectionSlice) : clients (some (m.insert key s)) key' =
      if key' = key then (s.map Slice.toList).getD [] else clients (some m) key' := by
  unfold clients
  rw [get_insert]
  split <;> rfl

theorem clients_of_get {m : ConnectionMap} {key : String} {s : ConnectionSlice}
    (h : m.get key = s) : m.clients key = (s.map Slice.toList).getD [] := by
  rw [clients, h]

theorem clients_getD (m : ConnectionMap) (key : String) :
    clients (some (m.getD ∅)) key = m.clients key := rfl

end ConnectionMap

namespace Connections

variable (eth : Eth) (k : ConnectionKind) (a : Address) (c : Nat) (σ : Connections)

theorem register_eq (spare : List Nat) :
    ∃ m hs, register eth k spare a c σ = .ok ⟨Function.update σ.map k (some m), σ.handlers ++ hs⟩ ∧
      (c ∉ (σ.map k).clients (eth.hex a) → (c, k, a) ∈ hs) ∧
      ∀ key, ConnectionMap.clients (some m) key =
        if key = eth.hex a then
          if c ∈ (σ.map k).clients key then (σ.map k).clients key else (σ.map k).clients key ++ [c]
        else (σ.map k).clients key := by
  have hget : ∀ key, ConnectionMap.get (some ((σ.map k).getD ∅)) key = (σ.map k).get key :=
    fun _ => rfl
  unfold register
  cases hs : (σ.map k).get (eth.hex a) with
  | none =>
    have hclients : (σ.map k).clients (eth.hex a) = [] := ConnectionMap.clients_of_get hs
    have hconnected : isClientConnected (.ofList [c] []) c = true := by simp [isClientConnected]
    simp only [hget, hs, ConnectionMap.set, ConnectionMap.get_insert, if_pos, ok_bind, pure_bind,
      hconnected, hclients]
    refine ⟨_, [(c, k, a)], rfl, fun _ => List.mem_singleton_self _, fun key => ?_⟩
    rw [ConnectionMap.clients_insert, ConnectionMap.clients_getD]
    split
    case isTrue h => simp [h, hclients]
    case isFalse => rfl
  | some s =>
    have hclients : (σ.map k).clients (eth.hex a) = s.toList := ConnectionMap.clients_of_get hs
    have hiff : isClientConnected s c = true ↔ c ∈ s.toList := by simp [isClientConnected]
    simp only [hget, hs, ConnectionMap.set, ok_bind, pure_bind, hclients]
    by_cases hmem : c ∈ s.toList
    · rw [if_pos (hiff.2 hmem)]
      refine ⟨_, [], by rw [List.append_nil]; rfl, fun hc => absurd hmem hc, fun key => ?_⟩
      rw [ConnectionMap.clients_getD]
      split
      case isTrue h => rw [h, hclients, if_pos hmem]
      case isFalse => rfl
    · rw [if_neg fun h => hmem (hiff.1 h)]
      refine ⟨_, [(c, k, a)], rfl, fun _ => List.mem_singleton_self _, fun key => ?_⟩
      rw [ConnectionMap.clients_insert, ConnectionMap.clients_getD]
      split
      case isTrue h => simp [h, hclients, hmem, Slice.toList_append]
      case isFalse => rfl

theorem unsubscribe_eq {m : AList fun _ : String => ConnectionSlice} (hm : σ.map k = some m)
    (hnodup : (ConnectionMap.clients (some m) (eth.hex a)).Nodup) :
    ∃ m', unsubscribe eth k a c σ = .ok { σ with map := Function.update σ.map k (some m') } ∧
      ∀ key, ConnectionMap.clients (some m') key =
        if key = eth.hex a then (ConnectionMap.clients (some m) key).erase c
        else ConnectionMap.clients (some m) key := by
  unfold unsubscribe
  rw [hm]
  cases hs : ConnectionMap.get (some m) (eth.hex a) with
  | none =>
    have hclients : ConnectionMap.clients (some m) (eth.hex a) = [] :=
      ConnectionMap.clients_of_get hs
    refine ⟨m.insert (eth.hex a) none, rfl, fun key => ?_⟩
    rw [ConnectionMap.clients_insert]
    split
    case isTrue h => rw [h, hclients]; rfl
    case isFalse => rfl
  | some s =>
    have hclients : ConnectionMap.clients (some m) (eth.hex a) = s.toList :=
      ConnectionMap.clients_of_get hs
    rw [hclients] at hnodup
    obtain ⟨s', hremove, hlist⟩ := removeClient_eq c hnodup
    refine ⟨m.insert (eth.hex a) (some s'), ?_, fun key => ?_⟩
    · simp only [hremove, ok_bind, pure_bind, ConnectionMap.set]
      rfl
    · rw [ConnectionMap.clients_insert]
      split
      case isTrue h =>
        rw [h, hclients]
        exact hlist
      case isFalse => rfl

theorem unsubscribe_nil (hm : σ.map k = none) :
    unsubscribe eth k a c σ = .error (.panic "assignment to entry in nil map") := by
  unfold unsubscribe
  rw [hm]
  rfl

variable {eth k a σ} in
theorem list_update (heth : eth.ReadsBack) {m : AList fun _ : String => ConnectionSlice}
    {f : List Nat → List Nat} (hm : ∀ key, ConnectionMap.clients (some m) key =
      if key = eth.hex a then f ((σ.map k).clients key) else (σ.map k).clients key)
    (hs : List (Nat × ConnectionKind × Address)) (k' : ConnectionKind) (a' : Address) :
    (Connections.mk (Function.update σ.map k (some m)) hs).list eth k' a' =
      if k' = k ∧ a' = a then f (σ.list eth k' a') else σ.list eth k' a' := by
  unfold list
  dsimp only
  by_cases hk : k' = k
  · subst hk
    rw [Function.update_self, hm]
    by_cases ha : a' = a
    · simp [ha]
    · have hhex : eth.hex a' ≠ eth.hex a := fun h => ha (hex_injective heth h)
      simp [ha, hhex]
  · rw [Function.update_of_ne hk, if_neg fun h => hk h.1]

end Connections

/-! ## The clients of an address -/

namespace ConnectionOp

/-- What a call is to do with the clients of an address. -/
def on (k : ConnectionKind) (a : Address) (clients : List Nat) : ConnectionOp → List Nat
  | register k' a' c _ => if k = k' ∧ a = a' ∧ c ∉ clients then clients ++ [c] else clients
  | unsubscribe k' a' c => if k = k' ∧ a = a' then clients.erase c else clients

/-- The calls that bear on the connection of a client. -/
def bears (k : ConnectionKind) (a : Address) (c : Nat) : ConnectionOp → Option Bool
  | register k' a' c' _ => if k = k' ∧ a = a' ∧ c = c' then some true else none
  | unsubscribe k' a' c' => if k = k' ∧ a = a' ∧ c = c' then some false else none

/-- The order sockets of `Ws.Orders`. -/
theorem on_eq (m : OrderConnections) (a : Address) (c : Nat) (spare : List Nat) :
    (fun b => (register .order a c spare).on .order b (m b)) = m.register a c ∧
      (fun b => (unsubscribe .order a c).on .order b (m b)) = m.unsubscribe a c := by
  constructor
  · funext b
    by_cases hb : b = a
    · subst hb
      simp [on, OrderConnections.register]
    · simp [on, OrderConnections.register, hb]
  · funext b
    by_cases hb : b = a
    · subst hb
      simp [on, OrderConnections.unsubscribe]
    · simp [on, OrderConnections.unsubscribe, hb]

theorem on_register (k k' : ConnectionKind) (a a' : Address) (c : Nat) (spare clients : List Nat) :
    (register k' a' c spare).on k a clients =
      if k = k' ∧ a = a' then if c ∈ clients then clients else clients ++ [c] else clients := by
  rw [on]
  by_cases hka : k = k' ∧ a = a'
  · by_cases hc : c ∈ clients
    · simp [hka, hc]
    · simp [hka, hc]
  · rw [if_neg hka, if_neg fun h => hka ⟨h.1, h.2.1⟩]

theorem nodup_on {k : ConnectionKind} {a : Address} {clients : List Nat} (h : clients.Nodup)
    (op : ConnectionOp) : (op.on k a clients).Nodup := by
  cases op with
  | register k' a' c spare =>
    rw [on]
    split
    · rename_i hc
      exact List.nodup_append.2 ⟨h, List.nodup_singleton c, fun x hx y hy => by
        rw [List.mem_singleton.1 hy]
        rintro rfl
        exact hc.2.2 hx⟩
    · exact h
  | unsubscribe k' a' c =>
    rw [on]
    split
    · exact h.erase c
    · exact h

theorem mem_on {k : ConnectionKind} {a : Address} {c : Nat} {clients : List Nat} (h : clients.Nodup)
    (op : ConnectionOp) : decide (c ∈ op.on k a clients) =
      (op.bears k a c).getD (decide (c ∈ clients)) := by
  cases op with
  | register k' a' c' spare =>
    rw [on, bears]
    by_cases hka : k = k' ∧ a = a'
    · obtain ⟨rfl, rfl⟩ := hka
      by_cases hc : c = c'
      · subst hc
        by_cases hmem : c ∈ clients
        · simp [hmem]
        · simp [hmem]
      · by_cases hmem : c' ∈ clients
        · simp [hmem, hc]
        · simp [hmem, hc]
    · rw [if_neg fun h => hka ⟨h.1, h.2.1⟩, if_neg fun h => hka ⟨h.1, h.2.1⟩]
      rfl
  | unsubscribe k' a' c' =>
    rw [on, bears]
    by_cases hka : k = k' ∧ a = a'
    · obtain ⟨rfl, rfl⟩ := hka
      by_cases hc : c = c'
      · subst hc
        simp [h.mem_erase_iff]
      · simp [h.mem_erase_iff, hc]
    · rw [if_neg hka, if_neg fun h => hka ⟨h.1, h.2.1⟩]
      rfl

end ConnectionOp

/-- No client is connected twice to an address, and each has a handler that will remove it. -/
structure Connections.Exact (eth : Eth) (σ : Connections) : Prop where
  nodup : ∀ k a, (σ.list eth k a).Nodup
  handled : ∀ k a c, c ∈ σ.list eth k a → (c, k, a) ∈ σ.handlers

/-- It holds again after a call, if the call keeps the handlers and adds one for a new client. -/
theorem Connections.Exact.of_on {eth : Eth} {σ σ' : Connections} (hσ : σ.Exact eth)
    {op : ConnectionOp} (hlist : ∀ k a, σ'.list eth k a = op.on k a (σ.list eth k a))
    (hkept : σ.handlers ⊆ σ'.handlers)
    (hnew : ∀ k a c spare, op = .register k a c spare → c ∉ σ.list eth k a →
      (c, k, a) ∈ σ'.handlers) :
    σ'.Exact eth := by
  refine ⟨fun k a => ?_, fun k a c hc => ?_⟩
  · rw [hlist]
    exact ConnectionOp.nodup_on (hσ.nodup k a) op
  · rw [hlist] at hc
    cases op with
    | register k' a' c' spare =>
      rw [ConnectionOp.on] at hc
      split at hc
      · rename_i h
        obtain ⟨rfl, rfl, hc'⟩ := h
        rcases List.mem_append.1 hc with hc | hc
        · exact hkept (hσ.handled _ _ _ hc)
        · rw [List.mem_singleton.1 hc]
          exact hnew _ _ _ spare rfl hc'
      · exact hkept (hσ.handled _ _ _ hc)
    | unsubscribe k' a' c' =>
      rw [ConnectionOp.on] at hc
      split at hc
      · exact hkept (hσ.handled _ _ _ (List.mem_of_mem_erase hc))
      · exact hkept (hσ.handled _ _ _ hc)

theorem isSome_update {σ : Connections} {k : ConnectionKind}
    (m : AList fun _ : String => ConnectionSlice) (k' : ConnectionKind)
    (h : k' = k ∨ (σ.map k').isSome) : (Function.update σ.map k (some m) k').isSome := by
  by_cases hk : k' = k
  · subst hk
    rw [Function.update_self]
    rfl
  · rw [Function.update_of_ne hk]
    exact h.resolve_left hk

section
variable {eth : Eth} (heth : eth.ReadsBack) {σ : Connections} (hσ : σ.Exact eth)
include heth hσ

theorem Connections.register_cases (k : ConnectionKind) (a : Address) (c : Nat) (spare : List Nat) :
    ∃ σ', register eth k spare a c σ = .ok σ' ∧ σ'.Exact eth ∧
      (∀ k' a', σ'.list eth k' a' = (ConnectionOp.register k a c spare).on k' a'
        (σ.list eth k' a')) ∧
      (σ'.map k).isSome ∧ ∀ k', (σ.map k').isSome → (σ'.map k').isSome := by
  obtain ⟨m, hs, heq, hhandler, hclients⟩ := register_eq eth k a c σ spare
  have hlist : ∀ k' a', (Connections.mk (Function.update σ.map k (some m)) (σ.handlers ++ hs)).list
      eth k' a' = (ConnectionOp.register k a c spare).on k' a' (σ.list eth k' a') := by
    intro k' a'
    rw [ConnectionOp.on_register]
    exact list_update (f := fun l => if c ∈ l then l else l ++ [c]) heth hclients _ k' a'
  refine ⟨_, heq, hσ.of_on hlist (List.subset_append_left _ _) ?_, hlist,
    isSome_update m k (.inl rfl), fun k' h => isSome_update m k' (.inr h)⟩
  intro k' a' c' spare' hop hc'
  cases hop
  exact List.mem_append_right _ (hhandler hc')

theorem Connections.unsubscribe_cases {k : ConnectionKind} (a : Address) (c : Nat)
    (hk : (σ.map k).isSome) : ∃ σ', unsubscribe eth k a c σ = .ok σ' ∧ σ'.Exact eth ∧
      (∀ k' a', σ'.list eth k' a' = (ConnectionOp.unsubscribe k a c).on k' a' (σ.list eth k' a')) ∧
      ∀ k', (σ.map k').isSome → (σ'.map k').isSome := by
  obtain ⟨m, hm⟩ := Option.isSome_iff_exists.1 hk
  obtain ⟨m', heq, hclients⟩ := unsubscribe_eq eth k a c σ hm (hm ▸ hσ.nodup k a)
  rw [← hm] at hclients
  have hlist : ∀ k' a', (Connections.mk (Function.update σ.map k (some m')) σ.handlers).list
      eth k' a' = (ConnectionOp.unsubscribe k a c).on k' a' (σ.list eth k' a') :=
    list_update (f := (List.erase · c)) heth hclients _
  refine ⟨_, heq, hσ.of_on hlist (List.Subset.refl _) ?_, hlist,
    fun k' h => isSome_update m' k' (.inr h)⟩
  intro k' a' c' spare' hop
  cases hop

/-- A call does what it is to do. Only a handler may panic, if its socket has no map yet. -/
theorem ConnectionOp.call_cases (op : ConnectionOp) :
    (∃ σ', op.call eth σ = .ok σ' ∧ σ'.Exact eth ∧
      (∀ k a, σ'.list eth k a = op.on k a (σ.list eth k a)) ∧
      (∀ k a c spare, op = .register k a c spare → (σ'.map k).isSome) ∧ ∀ k, (σ.map k).isSome →
      (σ'.map k).isSome) ∨
    ∃ k a c, op = .unsubscribe k a c ∧ σ.map k = none ∧
      op.call eth σ = .error (.panic "assignment to entry in nil map") := by
  cases op with
  | register k a c spare =>
    left
    have hcall : (ConnectionOp.register k a c spare).call eth σ =
        Connections.register eth k spare a c σ := by
      cases k <;> rfl
    obtain ⟨σ', heq, hexact, hlist, hself, hsome⟩ := Connections.register_cases heth hσ k a c spare
    refine ⟨σ', hcall.trans heq, hexact, hlist, ?_, hsome⟩
    rintro k' a' c' spare' hop
    cases hop
    exact hself
  | unsubscribe k a c =>
    have hcall : (ConnectionOp.unsubscribe k a c).call eth σ =
        Connections.unsubscribe eth k a c σ := by
      cases k <;> rfl
    cases hm : σ.map k with
    | none =>
      exact .inr ⟨k, a, c, rfl, hm, hcall.trans (Connections.unsubscribe_nil eth k a c σ hm)⟩
    | some m =>
      left
      obtain ⟨σ', heq, hexact, hlist, hsome⟩ :=
        Connections.unsubscribe_cases heth hσ a c (by rw [hm]; rfl)
      exact ⟨σ', hcall.trans heq, hexact, hlist, fun _ _ _ _ hop => (by cases hop), hsome⟩

/-- So does a step, since there is nothing to remove without a map. -/
theorem Connections.step_cases (op : ConnectionOp) :
    (σ.step eth op).Exact eth ∧ (∀ k a, (σ.step eth op).list eth k a = op.on k a (σ.list eth k a)) ∧
      (∀ k a c spare, op = .register k a c spare → ((σ.step eth op).map k).isSome) ∧
      ∀ k, (σ.map k).isSome → ((σ.step eth op).map k).isSome := by
  rcases op.call_cases heth hσ with ⟨σ', heq, hσ'⟩ | ⟨k, a, c, rfl, hm, heq⟩
  · have hstep : σ.step eth op = σ' := by
      rw [step, heq]
      rfl
    rw [hstep]
    exact hσ'
  · have hstep : σ.step eth (.unsubscribe k a c) = σ := by
      rw [step, heq]
      rfl
    rw [hstep]
    refine ⟨hσ, fun k' a' => ?_, fun _ _ _ _ hop => (by cases hop), fun _ h => h⟩
    rw [ConnectionOp.on]
    split
    · rename_i h
      have hempty : σ.list eth k' a' = [] := by
        rw [list, h.1, hm]
        rfl
      rw [hempty]
      rfl
    · rfl

end

theorem Connections.Exact.start (eth : Eth) : start.Exact eth :=
  ⟨fun _ _ => List.nodup_nil, fun _ _ _ h => absurd h List.not_mem_nil⟩

section
variable {eth : Eth} (heth : eth.ReadsBack)
include heth

/-- The invariant, and who is connected, after any sequence of calls. -/
theorem Connections.exact_run (ops : List ConnectionOp) (k : ConnectionKind) (a : Address)
    (c : Nat) :
    (run eth ops).Exact eth ∧ (c ∈ (run eth ops).list eth k a ↔
      latest (ConnectionOp.bears k a c) ops = some true) := by
  have hrun : (run eth ops).Exact eth ∧ decide (c ∈ (run eth ops).list eth k a) =
      (latest (ConnectionOp.bears k a c) ops).getD (decide (c ∈ start.list eth k a)) := by
    refine foldl_latest (I := Exact eth) (g := fun σ => decide (c ∈ list eth σ k a))
      (Exact.start eth) (fun σ op hσ => (step_cases heth hσ op).1) (fun σ op hσ => ?_) ops
    rw [(step_cases heth hσ op).2.1]
    exact ConnectionOp.mem_on (hσ.nodup k a) op
  have hstart : decide (c ∈ start.list eth k a) = false := decide_eq_false List.not_mem_nil
  obtain ⟨hexact, hmem⟩ := hrun
  refine ⟨hexact, ?_⟩
  rw [hstart] at hmem
  rw [← decide_eq_true_iff (p := c ∈ list eth (run eth ops) k a), hmem]
  exact getD_latest

theorem Connections.isSome_run {ops : List ConnectionOp} {k : ConnectionKind}
    {a : Address} {c : Nat} {spare : List Nat} (h : .register k a c spare ∈ ops) :
    ((run eth ops).map k).isSome := by
  induction ops using List.reverseRecOn with
  | nil => cases h
  | append_singleton ops op ih =>
    obtain ⟨-, -, hself, hsome⟩ := step_cases heth (exact_run heth ops k a c).1 op
    rw [run, List.foldl_append]
    rcases List.mem_append.1 h with h | h
    · exact hsome k (ih h)
    · exact hself k a c spare (List.mem_singleton.1 h).symm

/-- After any calls, the clients of an address are those whose last call for it was to register,
each once, in the order in which they were registered: a further call appends a client that is not
there, or removes one. No call fails, except for a handler that is called before any client was
registered with its socket. -/
theorem connection_lists_exact (ops : List ConnectionOp) :
    let σ := Connections.run eth ops
    (∀ k a, (σ.list eth k a).Nodup ∧
      ∀ c, c ∈ σ.list eth k a ↔ latest (ConnectionOp.bears k a c) ops = some true) ∧
    ∀ op : ConnectionOp,
      (∃ σ', op.call eth σ = .ok σ' ∧ ∀ k a, σ'.list eth k a = op.on k a (σ.list eth k a)) ∨
      ∃ k a c, op = .unsubscribe k a c ∧ (∀ a' c' spare, .register k a' c' spare ∉ ops) ∧
        op.call eth σ = .error (.panic "assignment to entry in nil map") := by
  refine ⟨fun k a => ?_, fun op => ?_⟩
  · exact ⟨(Connections.exact_run heth ops k a 0).1.nodup k a,
      fun c => (Connections.exact_run heth ops k a c).2⟩
  · rcases op.call_cases heth (Connections.exact_run heth ops .order 0 0).1 with
      ⟨σ', heq, -, hlist, -⟩ | ⟨k, a, c, hop, hm, heq⟩
    · exact .inl ⟨σ', heq, hlist⟩
    · refine .inr ⟨k, a, c, hop, fun a' c' spare h => ?_, heq⟩
      have hsome := Connections.isSome_run heth h
      rw [hm] at hsome
      cases hsome

end

/-- Two clients are registered, one of them twice, and that one is unsubscribed. -/
theorem connection_lists_exact_two :
    let ops : List ConnectionOp :=
      [.register .order 1 7 [], .register .order 1 8 [], .register .order 1 7 [],
        .unsubscribe .order 1 7]
    let σ := Connections.run Eth.sample ops
    8 ∈ σ.list Eth.sample .order 1 ∧ 7 ∉ σ.list Eth.sample .order 1 := by
  intro ops σ
  have h := ((connection_lists_exact Eth.sample_readsBack ops).1 .order 1).2
  exact ⟨(h 8).2 (by decide), fun hmem => absurd ((h 7).1 hmem) (by decide)⟩

end Dex
