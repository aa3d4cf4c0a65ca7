import DexServer.Endpoints.Order
import DexServer.Sample
import DexServer.Services.Pair
import DexServer.Services.Proof.Request

/-!
# What a client is answered

The decoders assert the types of the values they find, the hash is computed before the numbers are
checked, and a handler goes on after it has reported an error. `NewOrder` dereferences the fees of
the order's pair, which may be nil.

* `Services.submits`, `PairStore.submits`: `NewOrder` publishes or returns an error, unless it meets
  a pair without fees.
* `handleNewOrder_wp`, `handleCancelOrder_wp`: a handler that returns has answered its client; when
  it panics, and for whom it registers the client.
* `ws_returns_iff`: the payloads after which the endpoint returns.
-/

namespace Dex

open Lib

/-! ## Errors that are no panics -/

/-- The error is returned. -/
def Err.Returned (e : Err) : Prop := ∀ s, e ≠ .panic s

theorem Err.returned_io : Err.io.Returned := by
  intro s h
  cases h

theorem Err.returned_msg (text : String) : (Err.msg text).Returned := by
  intro s h
  cases h

section
variable {α : Type} {env : Env} {w : World}

theorem call_returned {f : Env → Nat → World → Except Err α × World} {Q : α → World → Prop}
    (h : env.fails w.calls = false → Prog.Ends Q (fun e _ => e.Returned) (f env w.calls w.tick)) :
    Prog.wp (call f) env w Q (fun e _ => e.Returned) :=
  wp_call (fun _ => Err.returned_io) h

theorem attempted_returned {m : M α} {Q : Except Err α → World → Prop} {E : Err → World → Prop}
    (h : Prog.wp m env w (fun a => Q (.ok a)) fun e w' => e.Returned ∧ Q (.error e) w') :
    Prog.wp (attempted m) env w Q E :=
  wp_attempted_cases <| Prog.wp_mono h (fun _ _ ha => ha) fun _ _ he =>
    ⟨fun s hs => absurd hs (he.1 s), fun _ => he.2⟩

theorem retry_returned {m : M α} (hm : ∀ w,
    Prog.wp m env w (fun _ _ => True) fun e _ => e.Returned) :
    ∀ n w, Prog.wp (retry m n) env w (fun _ _ => True) fun e _ => e.Returned
  | 0, w => hm w
  | 1, w => hm w
  | n + 2, w => by
    unfold retry
    rw [Prog.wp_bind, Prog.wp_attempt]
    exact Prog.wp_mono (hm w) (fun _ _ _ => trivial) fun _ w' _ => retry_returned hm (n + 1) w'

end

namespace Services

variable {s : Services} {env : Env} {w : World}

/-- With its pair known, the check of the balance does not panic. -/
theorem validateAvailableBalance_returned {o : Order} (ho : s.Lists o) (w : World) :
    Prog.wp (s.validateAvailableBalance o) env w (fun _ _ => True) fun e _ => e.Returned := by
  obtain ⟨p, hp⟩ := Option.isSome_iff_exists.1 ho
  have hquery : ∀ {α : Type} (f : Nat → α) w, Prog.wp (call fun _ n w => (.ok (f n), w)) env w
      (fun _ _ => True) fun e _ => e.Returned := fun f w => call_returned fun _ => trivial
  unfold validateAvailableBalance sellTokenFunds getByTokenAddress getUserLockedBalance
  simp only [Prog.wp_bind]
  refine call_returned fun _ => ?_
  rw [hp, Prog.ends_ok]
  simp only [Prog.wp_bind, Prog.wp_pure]
  refine Prog.wp_mono (retry_returned (hquery _) 3 _) (fun balance w₁ _ => ?_) fun _ _ h => h
  refine Prog.wp_mono (retry_returned (hquery _) 3 _) (fun allowance w₂ _ => ?_) fun _ _ h => h
  refine call_returned fun _ => ?_
  rw [Prog.ends_ok]
  split
  · exact Err.returned_msg _
  · split
    · exact Err.returned_msg _
    · split
      · exact Err.returned_msg _
      · split
        · exact Err.returned_msg _
        · trivial

theorem publishOrder_returned (m : Message) (w : World) : Prog.wp (publishOrder m) env w
    (fun _ w' => w'.orderQueue = w.orderQueue ++ [m]) fun e _ => e.Returned := by
  unfold publishOrder
  exact call_returned fun _ => rfl

/-- **`NewOrder`** publishes the order or returns an error. -/
theorem newOrder_returned (r : RawOrder) (env : Env) (w : World) : Prog.wp (s.newOrder r) env w
    (fun _ w' => ∃ m, w'.orderQueue = w.orderQueue ++ [m]) fun e _ => e.Returned := by
  unfold newOrder getByTokenAddress
  simp only [Prog.wp_bind, Prog.wp_ask, Prog.wp_get]
  refine wp_checked (fun v _ => ?_) Err.returned_msg
  refine wp_checked (fun o _ => ?_) Err.returned_msg
  refine call_returned fun _ => ?_
  rw [Prog.ends_ok]
  refine wp_checked (fun p hp => ?_) Err.returned_msg
  refine wp_checked (fun _ _ => ?_) Err.returned_msg
  refine wp_checked (fun o₁ ho₁ => ?_) Err.returned_msg
  have hlists : s.Lists o₁ := by
    obtain ⟨rfl, -⟩ := Order.process_eq_ok ho₁
    exact Option.isSome_iff_exists.2 ⟨p, required_eq_ok.1 hp⟩
  obtain ⟨n, hn⟩ := s.validateAvailableBalance_quiet o₁ env w.tick
  refine Prog.wp_mono (Prog.wp_and (validateAvailableBalance_returned hlists w.tick)
    (Prog.wp_of_state (P := (· = { w.tick with calls := n })) hn)) (fun _ w₁ h => ?_)
      fun _ _ h => h.1
  obtain ⟨-, rfl⟩ := h
  exact Prog.wp_mono (publishOrder_returned _ _) (fun _ w' hw' => ⟨_, hw'⟩) fun _ _ h => h

/-- **`CancelOrder`** publishes the order or returns an error. -/
theorem cancelOrder_returned (h : Hash) (env : Env) (w : World) : Prog.wp (cancelOrder h) env w
    (fun _ w' => ∃ m, w'.orderQueue = w.orderQueue ++ [m]) fun e _ => e.Returned := by
  unfold cancelOrder
  rw [Prog.wp_bind]
  refine call_returned fun _ => ?_
  rw [Prog.ends_ok, World.tick_orders]
  cases w.orders.get h with
  | none => exact Err.returned_msg _
  | some o =>
    dsimp only
    split
    · exact Err.returned_msg _
    · exact Prog.wp_mono (publishOrder_returned _ _) (fun _ w' hw' => ⟨_, hw'⟩) fun _ _ h => h

end Services

/-! ## `NewOrder`, as the handler relies on it -/

/-- The order that `newOrder` is given is published, or an error returned; it panics exactly with
the orders of `Crashes`, given the number of its first call. -/
structure Submits (newOrder : RawOrder → M Unit) (env : Env) (Crashes : Nat → RawOrder → Prop) :
    Prop where
  requested : ∀ r w, ∃ P, Services.Requested P w (newOrder r env w).2
  returned : ∀ r w, Prog.wp (newOrder r) env w
    (fun _ w' => (∃ m, w'.orderQueue = w.orderQueue ++ [m]) ∧ ¬Crashes w.calls r)
    (fun e _ => e.Returned ↔ ¬Crashes w.calls r)

theorem Services.submits (s : Services) (env : Env) : Submits s.newOrder env fun _ _ => False where
  requested r w := ⟨_, s.newOrder_requested r env w⟩
  returned r w := Prog.wp_mono (s.newOrder_returned r env w) (fun _ _ h => ⟨h, id⟩)
    fun _ _ h => iff_of_true h id

namespace PairStore

/-- The order is valid, and call `n` answers with a pair of its tokens that lacks a fee. -/
structure MeetsNilFee (st : PairStore) (s : Services) (env : Env) (n : Nat) (r : RawOrder) :
    Prop where
  valid : ∃ o sig, r.Valid s.exchangeAddress env.eth o sig
  answered : env.fails n = false
  pair : ∃ p, st.getByTokenAddress r.baseToken r.quoteToken = some p ∧
    (p.makeFee = none ∨ p.takeFee = none)

theorem meetsNilFee_hash {st : PairStore} {s : Services} {env : Env} {n : Nat} {r : RawOrder}
    (h : Hash) : st.MeetsNilFee s env n { r with hash := h } ↔ st.MeetsNilFee s env n r := by
  have hvalid : ∀ {r : RawOrder} (h : Hash) {o sig}, r.Valid s.exchangeAddress env.eth o sig →
      RawOrder.Valid s.exchangeAddress env.eth { r with hash := h } o sig :=
    fun h _ _ hv => { hv with raw := congrArg ({ · with hash := h }) hv.raw }
  constructor
  · rintro ⟨⟨o, sig, hv⟩, ha, hp⟩
    exact ⟨⟨o, sig, hvalid (r := { r with hash := h }) r.hash hv⟩, ha, hp⟩
  · rintro ⟨⟨o, sig, hv⟩, ha, hp⟩
    exact ⟨⟨o, sig, hvalid h hv⟩, ha, hp⟩

/-- **Without fees** nothing is published: a valid order whose pair is found panics. -/
theorem newOrderWithoutFees_wp (s : Services) (r : RawOrder) (env : Env) (w : World) :
    Prog.wp (newOrderWithoutFees s r) env w (fun _ _ => False) fun e _ =>
      (e.Returned ∧
        ¬((∃ o sig, r.Valid s.exchangeAddress env.eth o sig) ∧ env.fails w.calls = false)) ∨
      (e = .panic "nil pointer dereference" ∧
        (∃ o sig, r.Valid s.exchangeAddress env.eth o sig) ∧ env.fails w.calls = false) := by
  unfold newOrderWithoutFees
  simp only [Prog.wp_bind, Prog.wp_ask]
  cases hv : r.validate s.exchangeAddress env.eth with
  | error err =>
    refine .inl ⟨Err.returned_msg _, ?_⟩
    rintro ⟨⟨o, sig, hvalid⟩, -⟩
    rw [hvalid.validate] at hv
    cases hv
  | ok v =>
    obtain ⟨o, sig⟩ := v
    have hvalid := RawOrder.validate_eq_ok hv
    have hverify : o.verifySignature env.eth sig = .ok o := hvalid.verifySignature o.hash
    show Prog.wp (checked ((o.verifySignature env.eth sig).mapError _)) env w _ _
    rw [hverify]
    refine wp_call (fun hf => .inl ⟨Err.returned_io, fun h => ?_⟩) fun hf => ?_
    · rw [hf] at h
      cases h.2
    · exact .inr ⟨rfl, ⟨o, sig, hvalid⟩, hf⟩

theorem submits (st : PairStore) (s : Services) (env : Env) :
    Submits (st.newOrder s) env (st.MeetsNilFee s env) where
  requested r w := by
    unfold newOrder
    cases st.getByTokenAddress r.baseToken r.quoteToken with
    | none => exact ⟨_, Services.newOrder_requested _ r env w⟩
    | some p =>
      dsimp only
      cases p.pair? with
      | some pair => exact ⟨_, Services.newOrder_requested _ r env w⟩
      | none =>
        obtain ⟨n, hn⟩ := newOrderWithoutFees_quiet s r env w
        exact ⟨fun _ => False, hn ▸ .quiet n⟩
  returned r w := by
    have hfees : ∀ s', (∀ p ∈ st.getByTokenAddress r.baseToken r.quoteToken, p.pair? ≠ none) →
        Prog.wp (Services.newOrder s' r) env w
          (fun _ w' => (∃ m, w'.orderQueue = w.orderQueue ++ [m]) ∧ ¬st.MeetsNilFee s env w.calls r)
          (fun e _ => e.Returned ↔ ¬st.MeetsNilFee s env w.calls r) := by
      intro s' hp
      have hno : ¬st.MeetsNilFee s env w.calls r := by
        rintro ⟨-, -, p, hfind, hnil⟩
        exact hp p hfind (RawPair.pair?_eq_none.2 hnil)
      exact Prog.wp_mono (s'.newOrder_returned r env w) (fun _ _ h => ⟨h, hno⟩)
        fun _ _ h => iff_of_true h hno
    unfold newOrder
    cases hfind : st.getByTokenAddress r.baseToken r.quoteToken with
    | none => exact hfees _ (by simp [hfind])
    | some p =>
      dsimp only
      cases hpair : p.pair? with
      | some pair => exact hfees _ (by simp [hfind, hpair])
      | none =>
        refine Prog.wp_mono (newOrderWithoutFees_wp s r env w) (fun _ _ h => h.elim)
          fun e w' h => ?_
        rcases h with ⟨he, hno⟩ | ⟨rfl, hv, hf⟩
        · exact iff_of_true he fun hm => hno ⟨hm.valid, hm.answered⟩
        · refine iff_of_false (fun he => he _ rfl) (not_not.2 ⟨hv, hf, p, hfind, ?_⟩)
          exact RawPair.pair?_eq_none.1 hpair

end PairStore

/-! ## The handlers -/

/-- What a handler does on the sockets: it registers its client for `a`, or tells it an error. -/
inductive WsEvent.Replies (client : Nat) (a : Option Address) : WsEvent → Prop
  | register {b : Address} (h : a = some b) : Replies client a (.register b client)
  | orderError (err : Err) (h : Hash) : Replies client a (.orderError client err h)
  | clientError (text : String) : Replies client a (.clientError client text)

/-- Since `w`, this and nothing else has been done on the sockets. -/
def World.Replied (client : Nat) (a : Option Address) (w w' : World) : Prop :=
  ∃ events, w'.ws = w.ws ++ events ∧ ∀ e ∈ events, e.Replies client a

/-- A message has been published, or the client has been told an error. -/
def World.Answered (client : Nat) (w w' : World) : Prop :=
  (∃ m, w'.orderQueue = w.orderQueue ++ [m]) ∨
    ∃ events err h, w'.ws = w.ws ++ events ∧ WsEvent.orderError client err h ∈ events

section
variable {client : Nat} {a : Option Address} {w w' : World}

theorem World.replied_rfl (w : World) : w.Replied client a w :=
  ⟨[], (List.append_nil _).symm, fun _ h => absurd h List.not_mem_nil⟩

theorem World.Replied.snoc (h : w.Replied client a w') {w'' : World} {e : WsEvent}
    (he : e.Replies client a) (hw : w''.ws = w'.ws ++ [e]) : w.Replied client a w'' := by
  obtain ⟨events, hevents, hreplies⟩ := h
  refine ⟨events ++ [e], by rw [hw, hevents, List.append_assoc], fun e' he' => ?_⟩
  rcases List.mem_append.1 he' with he' | he'
  · exact hreplies e' he'
  · rw [List.mem_singleton.1 he']
    exact he

theorem World.Replied.answers (h : w.Replied client a w') {w'' : World} {err : Err} {hash : Hash}
    (hw : w''.ws = w'.ws ++ [.orderError client err hash]) :
    w.Replied client a w'' ∧ w.Answered client w'' := by
  refine ⟨h.snoc (.orderError err hash) hw, .inr ?_⟩
  obtain ⟨events, hevents, -⟩ := h
  exact ⟨events ++ [.orderError client err hash], err, hash, by rw [hw, hevents, List.append_assoc],
    by simp⟩

end

/-- The number of calls that load an account, or make it. -/
def World.accountCalls (w : World) (addr : Address) : Nat :=
  if (w.accounts.get addr).isSome then 1 else 3

/-- The account can be loaded, or made. -/
def AccountLoads (env : Env) (w : World) (addr : Address) : Prop :=
  ∀ i < w.accountCalls addr, env.fails (w.calls + i) = false

theorem findOrCreate_loads (addr : Address) (env : Env) (w : World) :
    Prog.wp (findOrCreate addr) env w
    (fun _ _ => AccountLoads env w addr) (fun e _ => e.Returned ∧ ¬AccountLoads env w addr) := by
  have hfails : ∀ {i}, env.fails (w.calls + i) = true → i < w.accountCalls addr →
      ¬AccountLoads env w addr :=
    fun hi hlt h => Bool.false_ne_true ((h _ hlt).symm.trans hi)
  have hpos : 0 < w.accountCalls addr := by
    unfold World.accountCalls
    split <;> decide
  unfold findOrCreate getByAddress
  rw [Prog.wp_bind]
  refine wp_call (fun hf => ⟨Err.returned_io, hfails (i := 0) hf hpos⟩) fun hf => ?_
  rw [Prog.ends_ok, show w.tick.accounts.get addr = w.accounts.get addr from rfl]
  cases hg : w.accounts.get addr with
  | some a =>
    intro i hi
    rw [World.accountCalls, hg] at hi
    have hi' : i = 0 := Nat.lt_one_iff.1 hi
    rw [hi']
    exact hf
  | none =>
    have hlt : ∀ i, i < 3 → i < w.accountCalls addr := by
      rw [World.accountCalls, hg]
      exact fun i hi => hi
    simp only [Prog.wp_bind]
    refine wp_call (fun hf₁ => ⟨Err.returned_io, hfails (i := 1) hf₁ (hlt 1 (by decide))⟩)
      fun hf₁ => ?_
    rw [Prog.ends_ok]
    unfold createAccount
    refine wp_call (fun hf₂ => ⟨Err.returned_io, hfails (i := 2) hf₂ (hlt 2 (by decide))⟩)
      fun hf₂ => ?_
    have hnew : ¬(w.tick.tick.tick.accounts.get addr).isSome := by
      rw [show w.tick.tick.tick.accounts.get addr = none from hg]
      exact Bool.false_ne_true
    rw [if_neg hnew, Prog.ends_ok, Prog.wp_pure]
    intro i hi
    rw [World.accountCalls, hg] at hi
    have hi' : i = 0 ∨ i = 1 ∨ i = 2 := by
      have : i < 3 := hi
      omega
    rcases hi' with rfl | rfl | rfl
    · exact hf
    · exact hf₁
    · exact hf₂

/-- The address a NEW_ORDER registers its client for. -/
def orderAddress (env : Env) (payload : Json) : Option Address :=
  if payload.isNull then none
  else
    match RawOrder.unmarshalJSON env.codec payload with
    | .ok (.ok r) => (r.computeHash env.eth).toOption.map fun _ => r.userAddress
    | _ => none

/-- A NEW_ORDER after which the handler returns: the payload is refused, or it decodes, the hash of
the order can be computed and its account loaded, and `NewOrder` returns. -/
def OrderReturns (Crashes : Nat → RawOrder → Prop) (env : Env) (w : World) (payload : Json) :
    Prop :=
  payload.isNull = false ∧
    match RawOrder.unmarshalJSON env.codec payload with
    | .ok (.ok r) => ∃ h, r.computeHash env.eth = .ok h ∧ AccountLoads env w r.userAddress ∧
        ¬Crashes (w.calls + w.accountCalls r.userAddress) { r with hash := h }
    | .ok (.error _) => True
    | .error _ => False

/-- A request and the report of its error: it is published, or the client is told. -/
theorem request_answered {client : Nat} {a : Option Address} {m : M Unit} {P : Message → Prop}
    (hash : Hash) {env : Env} {w w₁ : World} {E : Err → World → Prop}
    (hreplied : w.Replied client a w₁) (hqueue : w₁.orderQueue = w.orderQueue)
    (hm : Services.Requested P w₁ (m env w₁).2)
    (hpublished : Prog.wp m env w₁ (fun _ w' => ∃ k, w'.orderQueue = w₁.orderQueue ++ [k])
      fun _ _ => True) :
    Prog.wp m env w₁
      (fun x w' => Prog.wp (reportError client (errOf (.ok x : Except Err Unit)) hash) env w'
        (fun _ w' => w.Replied client a w' ∧ w.Answered client w') E)
      (fun e w' => w.Replied client a w' ∧
        Prog.wp (reportError client (errOf (.error e : Except Err Unit)) hash) env w'
          (fun _ w' => w.Replied client a w' ∧ w.Answered client w') E) := by
  have hws : (m env w₁).2.ws = w₁.ws := by
    obtain ⟨n, hw | ⟨k, -, hw⟩⟩ := hm
    · rw [hw]
    · rw [hw]
  obtain ⟨events, hevents, hreplies⟩ := hreplied
  have hkept : ∀ w' : World, w'.ws = w₁.ws → w.Replied client a w' :=
    fun w' hw' => ⟨events, hw'.trans hevents, hreplies⟩
  refine Prog.wp_mono
    (Prog.wp_and hpublished (Prog.wp_of_state (P := fun w' : World => w'.ws = w₁.ws) hws))
    (fun _ w' hw' => ?_) fun err w' hw' => ⟨hkept w' hw'.2, (hkept w' hw'.2).answers rfl⟩
  obtain ⟨⟨k, hk⟩, hws'⟩ := hw'
  exact ⟨hkept w' hws', .inl ⟨k, by rw [hk, hqueue]⟩⟩

section
variable {newOrder : RawOrder → M Unit} {env : Env} {Crashes : Nat → RawOrder → Prop}
  (hnew : Submits newOrder env Crashes)
include hnew

theorem submitOrder_wp {client : Nat} {a : Option Address} {r : RawOrder} {h : Hash} {w w₁ : World}
    (hreplied : w.Replied client a w₁) (hqueue : w₁.orderQueue = w.orderQueue) :
    Prog.wp (attempted (newOrder r) >>= fun err => reportError client (errOf err) h) env w₁
      (fun _ w' => (w.Replied client a w' ∧ w.Answered client w') ∧ ¬Crashes w₁.calls r)
      (fun _ w' => w.Replied client a w' ∧ ¬¬Crashes w₁.calls r) := by
  obtain ⟨P, hP⟩ := hnew.requested r w₁
  have hreturned := hnew.returned r w₁
  have hanswered := request_answered (E := fun _ _ => False) h hreplied hqueue hP
    (Prog.wp_mono hreturned (fun _ _ h => h.1) fun _ _ _ => trivial)
  rw [Prog.wp_bind]
  refine wp_attempted_cases (Prog.wp_mono (Prog.wp_and hanswered hreturned) (fun _ w' h => ?_)
    fun e w' h => ⟨fun s hs => ⟨h.1.1, fun hno => h.2.2 hno s hs⟩, fun he => ?_⟩)
  · exact Prog.wp_mono h.1 (fun _ _ hw => ⟨hw, h.2.2⟩) fun _ _ hw => hw.elim
  · exact Prog.wp_mono h.1.2 (fun _ _ hw => ⟨hw, h.2.1 he⟩) fun _ _ hw => hw.elim

/-- **`handleNewOrder`**: when it returns it has answered, and it does so exactly if
`OrderReturns`. -/
theorem handleNewOrder_wp (client : Nat) (payload : Json) (w : World) :
    Prog.wp (handleNewOrder newOrder client payload) env w
      (fun _ w' => (w.Replied client (orderAddress env payload) w' ∧ w.Answered client w') ∧
        OrderReturns Crashes env w payload)
      (fun _ w' => w.Replied client (orderAddress env payload) w' ∧
        ¬OrderReturns Crashes env w payload) := by
  unfold handleNewOrder
  split
  · exact ⟨w.replied_rfl, fun h => by cases h.1⟩
  · rename_i hnull
    have hnull' : payload.isNull = false := by
      cases payload with
      | null => exact absurd rfl hnull
      | _ => rfl
    have haddress : orderAddress env payload =
        match RawOrder.unmarshalJSON env.codec payload with
        | .ok (.ok r) => (r.computeHash env.eth).toOption.map fun _ => r.userAddress
        | _ => none := if_neg (by rw [hnull']; exact Bool.false_ne_true)
    rw [haddress]
    simp only [Prog.wp_bind, Prog.wp_ask]
    refine wp_unpanicked (fun x hx => ?_) fun e he => ?_
    · rw [hx]
      cases x with
      | error err => exact ⟨w.replied_rfl.answers rfl, hnull', by rw [hx]; trivial⟩
      | ok r =>
        simp only [Prog.wp_bind]
        refine wp_unpanicked (fun h hh => ?_) fun e he => ?_
        · rw [hh]
          have hreturns : OrderReturns Crashes env w payload ↔ AccountLoads env w r.userAddress ∧
              ¬Crashes (w.calls + w.accountCalls r.userAddress) { r with hash := h } := by
            simp [OrderReturns, hnull', hx, hh]
          have hregistered : w.Replied client (some r.userAddress)
              { w with ws := w.ws ++ [.register r.userAddress client] } :=
            w.replied_rfl.snoc (.register rfl) rfl
          unfold registerOrderConnection
          rw [Prog.wp_modify]
          refine attempted_returned (Prog.wp_mono (Prog.wp_and (findOrCreate_wp ..)
            (findOrCreate_loads ..)) (fun a w₁ ha => ?_) fun err w₁ herr => ⟨herr.2.1, ?_⟩)
          · obtain ⟨⟨-, -, -, hcalls, hw₁⟩, hloads⟩ := ha
            have hcalls : w₁.calls = w.calls + w.accountCalls r.userAddress := hcalls
            have hloads : AccountLoads env w r.userAddress := hloads
            rw [← hcalls, and_iff_right hloads] at hreturns
            have hreplied : w.Replied client (some r.userAddress) w₁ := by
              rw [hw₁]
              exact hregistered
            have hqueue : w₁.orderQueue = w.orderQueue := by rw [hw₁]
            simp only [hreturns]
            split
            · rw [Prog.wp_bind, Prog.wp_modify]
              exact submitOrder_wp hnew (hreplied.snoc (.clientError _) rfl) hqueue
            · exact submitOrder_wp hnew hreplied hqueue
          · obtain ⟨hw₁, -, hloads⟩ := herr
            have hreplied : w.Replied client (some r.userAddress) w₁ := by
              rw [hw₁]
              exact hregistered
            exact ⟨hreplied.snoc (.orderError _ _) rfl, fun h => hloads (hreturns.1 h).1⟩
        · rw [he]
          exact ⟨w.replied_rfl, by simp [OrderReturns, hx, he]⟩
    · rw [he]
      exact ⟨w.replied_rfl, by simp [OrderReturns, he]⟩

end

/-- The address a CANCEL_ORDER registers its client for. -/
def cancelAddress (env : Env) (payload : Json) : Option Address :=
  match OrderCancel.unmarshalJSON env.eth env.byteOf payload with
  | .ok (oc, none) => oc.signature.map fun sig =>
      (sig.verify env.eth (signedMessage env.eth oc.hash)).toOption.getD 0
  | _ => none

/-- A CANCEL_ORDER after which the handler returns: it decodes. -/
def CancelReturns (env : Env) (payload : Json) : Prop :=
  ∃ oc, OrderCancel.unmarshalJSON env.eth env.byteOf payload = .ok (oc, none)

theorem reportError_replied {client : Nat} {a : Option Address} {w w₁ : World} {env : Env}
    {E : Err → World → Prop} (h : w.Replied client a w₁) (err : Option Err) (hash : Hash)
    {Q : Unit → World → Prop}
    (hQ : ∀ ws, w.Replied client a { w₁ with ws := ws } → Q () { w₁ with ws := ws }) :
    Prog.wp (reportError client err hash) env w₁ Q E := by
  cases err with
  | none => exact hQ w₁.ws h
  | some err => exact hQ _ (h.snoc (.orderError err hash) rfl)

/-- **`handleCancelOrder`**: when it returns it has answered, and it does so exactly if the payload
decodes. -/
theorem handleCancelOrder_wp (client : Nat) (payload : Json) (env : Env) (w : World) :
    Prog.wp (handleCancelOrder client payload) env w
      (fun _ w' => (w.Replied client (cancelAddress env payload) w' ∧ w.Answered client w') ∧
        CancelReturns env payload)
      (fun _ w' => w.Replied client (cancelAddress env payload) w' ∧
        ¬CancelReturns env payload) := by
  unfold handleCancelOrder CancelReturns
  generalize haddress : cancelAddress env payload = a
  unfold cancelAddress at haddress
  simp only [Prog.wp_bind, Prog.wp_ask]
  refine wp_unpanicked (fun x hx => ?_) fun e he => ?_
  · obtain ⟨oc, err⟩ := x
    have hsignature := OrderCancel.unmarshalJSON_signature hx
    rw [hx] at haddress ⊢
    refine reportError_replied (a := a) w.replied_rfl _ _ fun ws hreplied => ?_
    cases err with
    | some err =>
      -- without a signature the next call panics
      have hnil : oc.signature = none := by simpa using hsignature
      refine wp_unpanicked (fun sender hs => ?_) fun e he => ⟨hreplied, ?_⟩
      · simp [OrderCancel.getSenderAddress, hnil] at hs
      · rintro ⟨oc', hoc'⟩
        cases hoc'
    | none =>
      obtain ⟨sig, hsome⟩ := Option.isSome_iff_exists.1 (hsignature.2 rfl)
      refine wp_unpanicked (fun sender hs => ?_) fun e he => ?_
      · have hsender : sig.verify env.eth (signedMessage env.eth oc.hash) = sender := by
          simpa [OrderCancel.getSenderAddress, hsome] using hs
        simp only [hsome, Option.map_some, hsender] at haddress
        refine reportError_replied hreplied _ _ fun ws' hreplied' => ?_
        unfold registerOrderConnection
        rw [Prog.wp_modify, Prog.wp_attempt]
        refine Prog.wp_mono (request_answered (E := fun _ _ => False) oc.hash
          (hreplied'.snoc (.register haddress.symm) rfl) rfl
          (Services.cancelOrder_requested oc.orderHash env _)
          (Prog.wp_mono (Services.cancelOrder_returned ..) (fun _ _ h => h) fun _ _ _ => trivial))
          (fun _ w' h => ?_) fun _ w' h => ?_
        · exact Prog.wp_mono h (fun _ _ h => ⟨h, oc, rfl⟩) fun _ _ h => h.elim
        · exact Prog.wp_mono h.2 (fun _ _ h => ⟨h, oc, rfl⟩) fun _ _ h => h.elim
      · simp [OrderCancel.getSenderAddress, hsome] at he
  · rw [he]
    refine ⟨w.replied_rfl, ?_⟩
    rintro ⟨oc, hoc⟩
    cases hoc

/-! ## The payloads -/

namespace Json

/-- A string, or nothing. -/
def IsText : Json → Prop
  | null | str _ => True
  | bool _ | num _ | arr _ | obj _ => False

def IsString : Json → Prop
  | str _ => True
  | null | bool _ | num _ | arr _ | obj _ => False

def IsNumber : Json → Prop
  | num _ => True
  | null | bool _ | str _ | arr _ | obj _ => False

/-- A signature under the keys `v`, `r`, `s`. -/
def IsSignature (v r s : String) : Json → Prop
  | obj sig => (get sig v).IsNumber ∧ (get sig r).IsString ∧ (get sig s).IsString
  | null | bool _ | num _ | str _ | arr _ => False

theorem asString_isOk {j : Json} : (∃ t, j.asString = .ok t) ↔ j.IsString := by
  cases j <;> simp [asString, IsString]

theorem asFloat64_isOk {j : Json} : (∃ x, j.asFloat64 = .ok x) ↔ j.IsNumber := by
  cases j <;> simp [asFloat64, IsNumber]

theorem asSignature_isOk {v r s : String} (eth : Eth) (byteOf : Decimal → Byte) {j : Json} :
    (∃ sig, j.asSignature v r s eth byteOf = .ok sig) ↔ j.IsSignature v r s := by
  cases j with
  | obj sig =>
    simp only [asSignature, asMap, ok_bind, IsSignature, ← asString_isOk, ← asFloat64_isOk]
    constructor
    · rintro ⟨x, hx⟩
      simp only [bind_eq_ok] at hx
      obtain ⟨n, hn, r', hr, s', hs, -⟩ := hx
      exact ⟨⟨n, hn⟩, ⟨r', hr⟩, ⟨s', hs⟩⟩
    · rintro ⟨⟨n, hn⟩, ⟨r', hr⟩, ⟨s', hs⟩⟩
      rw [hn, hr, hs]
      exact ⟨_, rfl⟩
  | _ => simp [asSignature, asMap, IsSignature, bind, Except.bind]

theorem optString_isOk {m : List (String × Json)} {k : String} :
    (∃ t, optString m k = .ok t) ↔ (get m k).IsText := by
  unfold optString
  cases get m k <;> simp [asString, IsText, Except.map]

theorem optString_isSome {m : List (String × Json)} {k : String} {t : Option String}
    (h : optString m k = .ok t) : t.isSome ↔ (get m k).isNull = false := by
  unfold optString at h
  cases hv : get m k <;> simp [hv, asString, Except.map] at h <;> simp [← h, isNull]

theorem optSignature_isOk {c : Codec} {m : List (String × Json)} {k : String} :
    (∃ sig, optSignature c m k = .ok sig) ↔
      (get m k).isNull ∨ (get m k).IsSignature "V" "R" "S" := by
  have hmap : ∀ {j : Json}, (∃ sig, (j.asSignature "V" "R" "S" c.eth c.byteOf).map some = .ok sig) ↔
      j.IsSignature "V" "R" "S" := by
    intro j
    rw [← asSignature_isOk c.eth c.byteOf]
    cases j.asSignature "V" "R" "S" c.eth c.byteOf <;> simp [Except.map]
  unfold optSignature
  cases hv : get m k with
  | null => simp [isNull]
  | _ => simpa [isNull] using hmap

end Json

namespace RawOrder

/-- The keys `UnmarshalJSON` reads texts from. -/
def textKeys : List String :=
  ["id", "pairName", "exchangeAddress", "userAddress", "baseToken", "quoteToken",
    "pricepoint", "amount", "filledAmount", "nonce", "makeFee", "takeFee", "hash", "side", "status",
    "createdAt", "updatedAt"]

/-- The numbers `ComputeHash` reads. -/
def hashedKeys : List String := ["amount", "pricepoint", "nonce", "takeFee", "makeFee"]

/-- Every value is of the type that is asserted. -/
structure WellTyped (m : List (String × Json)) : Prop where
  texts : ∀ k ∈ textKeys, (Json.get m k).IsText
  signature : (Json.get m "signature").isNull ∨ (Json.get m "signature").IsSignature "V" "R" "S"

theorem ofMap_numbers {c : Codec} {m : List (String × Json)} {r : RawOrder}
    (h : ofMap c m = .ok r) : (r.amount.isSome ↔ (Json.get m "amount").isNull = false) ∧
    (r.pricePoint.isSome ↔ (Json.get m "pricepoint").isNull = false) ∧
    (r.nonce.isSome ↔ (Json.get m "nonce").isNull = false) ∧
    (r.takeFee.isSome ↔ (Json.get m "takeFee").isNull = false) ∧
    (r.makeFee.isSome ↔ (Json.get m "makeFee").isNull = false) := by
  simp only [ofMap, bind_eq_ok] at h
  obtain ⟨_, -, _, -, _, -, _, -, _, -, _, -, pricepoint, hp, amount, ha, _, -, nonce, hn,
    makeFee, hm, takeFee, ht, _, -, _, -, _, -, _, -, _, -, _, -, hr⟩ := h
  cases hr
  simp only [ofTexts, Option.isSome_map]
  exact ⟨Json.optString_isSome ha, Json.optString_isSome hp, Json.optString_isSome hn,
    Json.optString_isSome ht, Json.optString_isSome hm⟩

theorem ofMap_isOk {c : Codec} {m : List (String × Json)} : (∃ r, ofMap c m = .ok r) ↔
    WellTyped m := by
  constructor
  · rintro ⟨r, h⟩
    simp only [ofMap, bind_eq_ok] at h
    obtain ⟨_, h₁, _, h₂, _, h₃, _, h₄, _, h₅, _, h₆, _, h₇, _, h₈, _, h₉, _, h₁₀, _, h₁₁, _,
      h₁₂, _, h₁₃, _, h₁₄, _, h₁₅, _, hs, _, h₁₆, _, h₁₇, -⟩ := h
    refine ⟨?_, Json.optSignature_isOk.1 ⟨_, hs⟩⟩
    simp only [textKeys, List.forall_mem_cons, ← Json.optString_isOk]
    exact ⟨⟨_, h₁⟩, ⟨_, h₂⟩, ⟨_, h₃⟩, ⟨_, h₄⟩, ⟨_, h₅⟩, ⟨_, h₆⟩, ⟨_, h₇⟩, ⟨_, h₈⟩,
      ⟨_, h₉⟩, ⟨_, h₁₀⟩,
      ⟨_, h₁₁⟩, ⟨_, h₁₂⟩, ⟨_, h₁₃⟩, ⟨_, h₁₄⟩, ⟨_, h₁₅⟩, ⟨_, h₁₆⟩, ⟨_, h₁₇⟩, by simp⟩
  · rintro ⟨htexts, hsignature⟩
    simp only [textKeys, List.forall_mem_cons, ← Json.optString_isOk] at htexts
    obtain ⟨⟨_, h₁⟩, ⟨_, h₂⟩, ⟨_, h₃⟩, ⟨_, h₄⟩, ⟨_, h₅⟩, ⟨_, h₆⟩, ⟨_, h₇⟩, ⟨_, h₈⟩,
      ⟨_, h₉⟩, ⟨_, h₁₀⟩,
      ⟨_, h₁₁⟩, ⟨_, h₁₂⟩, ⟨_, h₁₃⟩, ⟨_, h₁₄⟩, ⟨_, h₁₅⟩, ⟨_, h₁₆⟩, ⟨_, h₁₇⟩, -⟩ := htexts
    obtain ⟨sig, hs⟩ := (Json.optSignature_isOk (c := c)).2 hsignature
    simp only [ofMap, h₁, h₂, h₃, h₄, h₅, h₆, h₇, h₈, h₉, h₁₀, h₁₁, h₁₂, h₁₃, h₁₄, h₁₅, h₁₆, h₁₇,
      hs, ok_bind]
    exact ⟨_, rfl⟩

theorem computeHash_isOk {eth : Eth} {r : RawOrder} : (∃ h, r.computeHash eth = .ok h) ↔
    r.amount.isSome ∧ r.pricePoint.isSome ∧ r.nonce.isSome ∧ r.takeFee.isSome ∧
    r.makeFee.isSome := by
  unfold computeHash
  cases r.amount <;> cases r.pricePoint <;> cases r.nonce <;> cases r.takeFee <;>
    cases r.makeFee <;> simp

end RawOrder

/-- The address a payload names. -/
def userAddressOf (eth : Eth) (m : List (String × Json)) : Address :=
  match Json.get m "userAddress" with
  | .str a => eth.hexToAddress a
  | _ => 0

theorem RawOrder.ofMap_userAddress {c : Codec} {m : List (String × Json)} {r : RawOrder}
    (h : ofMap c m = .ok r) : r.userAddress = userAddressOf c.eth m := by
  simp only [ofMap, bind_eq_ok] at h
  obtain ⟨_, -, _, -, _, -, userAddress, hu, _, -, _, -, _, -, _, -, _, -, _, -, _, -, _, -,
    _, -, _, -, _, -, _, -, _, -, _, -, hr⟩ := h
  cases hr
  unfold Json.optString at hu
  unfold ofTexts userAddressOf
  cases hv : Json.get m "userAddress" <;> simp [hv, Json.asString, Except.map] at hu <;> simp [← hu]

/-- **A NEW_ORDER payload after which the endpoint returns**: it is refused at once, or it is an
object whose values have the asserted types, the hashed numbers are there, the account can be
loaded, and the order it holds does not meet a pair without fees. -/
def NewOrderPayload (st : PairStore) (s : Services) (env : Env) (w : World) : Json → Prop
  | .null => False
  | .bool _ | .num _ | .str _ | .arr _ => True
  | .obj m => RawOrder.WellTyped m ∧ (∀ k ∈ RawOrder.hashedKeys, (Json.get m k).isNull = false) ∧
      AccountLoads env w (userAddressOf env.eth m) ∧
      ∀ r, RawOrder.ofMap env.codec m = .ok r →
        ¬st.MeetsNilFee s env (w.calls + w.accountCalls (userAddressOf env.eth m)) r

theorem orderReturns_iff {st : PairStore} {s : Services} {env : Env} {w : World} {payload : Json} :
    OrderReturns (st.MeetsNilFee s env) env w payload ↔ NewOrderPayload st s env w payload := by
  cases payload with
  | null => simp [OrderReturns, NewOrderPayload, Json.isNull]
  | obj m =>
    have hnull : (Json.obj m).isNull = false := rfl
    simp only [OrderReturns, NewOrderPayload, hnull, RawOrder.unmarshalJSON, Json.toMap, true_and]
    rw [← RawOrder.ofMap_isOk (c := env.codec)]
    cases hr : RawOrder.ofMap env.codec m with
    | error e => simp [Except.map]
    | ok r =>
      obtain ⟨ha, hp, hn, ht, hm⟩ := RawOrder.ofMap_numbers hr
      have haddress : r.userAddress = userAddressOf env.eth m := RawOrder.ofMap_userAddress hr
      have hhashed : (∃ h, r.computeHash env.eth = .ok h) ↔
          ∀ k ∈ RawOrder.hashedKeys, (Json.get m k).isNull = false := by
        simp [RawOrder.computeHash_isOk, ha, hp, hn, ht, hm, RawOrder.hashedKeys]
      rw [show (Except.map Except.ok (Except.ok r) : Except String (Except String RawOrder)) =
        .ok (.ok r) from rfl, ← hhashed, ← haddress]
      simp only [PairStore.meetsNilFee_hash, exists_and_right, Except.ok.injEq, exists_eq',
        forall_eq', true_and]
  | _ => simp [OrderReturns, NewOrderPayload, Json.isNull, RawOrder.unmarshalJSON, Json.toMap]

/-- **A CANCEL_ORDER payload after which the endpoint returns**: an object with both hashes and a
signature. -/
def CancelPayload : Json → Prop
  | .obj m => (Json.get m "orderHash").IsString ∧ (Json.get m "hash").IsString ∧
      (Json.get m "signature").IsSignature "v" "r" "s"
  | .null | .bool _ | .num _ | .str _ | .arr _ => False

theorem cancelReturns_iff {env : Env} {payload : Json} :
    CancelReturns env payload ↔ CancelPayload payload := by
  cases payload with
  | obj m =>
    simp only [CancelReturns, CancelPayload, OrderCancel.unmarshalJSON, Json.toMap]
    cases Json.get m "orderHash" with
    | str orderHash =>
      simp only [Json.asString, ok_bind, Json.IsString, true_and]
      cases Json.get m "hash" with
      | str hash =>
        simp only [ok_bind, true_and]
        rw [← Json.asSignature_isOk env.eth env.byteOf]
        unfold OrderCancel.parsedSignature
        cases (Json.get m "signature").asSignature "v" "r" "s" env.eth env.byteOf <;>
          simp [bind, Except.bind]
      | _ => simp [bind, Except.bind]
    | _ => simp [Json.asString, Json.IsString, bind, Except.bind]
  | _ => simp [CancelReturns, CancelPayload, OrderCancel.unmarshalJSON, Json.toMap, Json.get]

/-- The endpoint returns, and the client's request has been published or the client told an
error. -/
def Completes (st : PairStore) (s : Services) (env : Env) (w : World) (client : Nat)
    (msg : WebsocketEvent) : Prop :=
  (OrderEndpoint.ws (st.newOrder s) client msg env w).1 = .ok () ∧
    w.Answered client (OrderEndpoint.ws (st.newOrder s) client msg env w).2

theorem completes_iff {st : PairStore} {s : Services} {env : Env} {w : World} {client : Nat}
    {msg : WebsocketEvent} {P R : Prop} {A : World → Prop}
    (h : Prog.wp (OrderEndpoint.ws (st.newOrder s) client msg) env w
      (fun _ w' => (A w' ∧ w.Answered client w') ∧ R) (fun _ w' => A w' ∧ ¬R)) (hR : R ↔ P) :
    Completes st s env w client msg ↔ P := by
  rw [← hR]
  refine Prog.wp_result (P := fun x => x.1 = .ok () ∧ w.Answered client x.2 ↔ R) h ?_ ?_
  · exact fun _ w' ⟨⟨_, ha⟩, hr⟩ => iff_of_true ⟨rfl, ha⟩ hr
  · exact fun e w' ⟨_, hr⟩ => iff_of_false (fun h => nomatch h.1) hr

/-- **The endpoint returns and has answered** exactly for these payloads. -/
theorem ws_returns_iff (st : PairStore) (s : Services) (env : Env) (w : World) (client : Nat)
    (payload : Json) :
    (Completes st s env w client ⟨"NEW_ORDER", payload⟩ ↔ NewOrderPayload st s env w payload) ∧
    (Completes st s env w client ⟨"CANCEL_ORDER", payload⟩ ↔ CancelPayload payload) := by
  constructor
  · have h : OrderEndpoint.ws (st.newOrder s) client ⟨"NEW_ORDER", payload⟩ =
        handleNewOrder (st.newOrder s) client payload := rfl
    exact completes_iff (h ▸ handleNewOrder_wp (st.submits s env) client payload w) orderReturns_iff
  · have h : OrderEndpoint.ws (st.newOrder s) client ⟨"CANCEL_ORDER", payload⟩ =
        handleCancelOrder client payload := rfl
    exact completes_iff (h ▸ handleCancelOrder_wp client payload env w) cancelReturns_iff

/-- A NEW_ORDER payload of the user 1: a signed sell order, and whatever else it carries. -/
def orderPayload (more : List (String × Json)) : Json :=
  .obj ([("userAddress", .str "1"), ("exchangeAddress", .str "2"), ("baseToken", .str "3"),
    ("quoteToken", .str "4"), ("pricepoint", .str "5"), ("amount", .str "10"), ("nonce", .str "1"),
    ("makeFee", .str "0"), ("takeFee", .str "0"), ("side", .str "SELL"),
    ("signature", .obj [("V", .num ⟨27, 0⟩), ("R", .str "1"), ("S", .str "0")])] ++ more)

/-- Payloads that end the server: nothing at all, a missing number, a number that is not written as
a string, an account that cannot be loaded, a signed order for a pair without fees, a cancellation
without its hashes or its signature. -/
theorem ws_panics :
    let env := Env.sample .stored
    let order (amount : Json) : Json := .obj [("userAddress", .str "1"), ("amount", amount),
      ("pricepoint", .str "1"), ("nonce", .str "1"), ("makeFee", .str "0"), ("takeFee", .str "0")]
    let st : PairStore := ⟨[⟨"ZRX", 3, 18, "WETH", 4, 18, none, none⟩], []⟩
    let Panics (env : Env) (msg : WebsocketEvent) (text : String) : Prop :=
      (OrderEndpoint.ws (st.newOrder .sample) 7 msg env World.empty).1 = .error (.panic text)
    let failing := { env with fails := fun _ => true }
    let nil := "invalid memory address or nil pointer dereference"
    Panics env ⟨"NEW_ORDER", .null⟩ "nil pointer dereference" ∧
    Panics env ⟨"NEW_ORDER", order .null⟩ nil ∧
    Panics env ⟨"NEW_ORDER", order (.num ⟨1, 0⟩)⟩ "interface conversion" ∧
    Panics failing ⟨"NEW_ORDER", order (.str "1")⟩ "nil pointer dereference" ∧
    Panics env ⟨"NEW_ORDER", orderPayload []⟩ "nil pointer dereference" ∧
    Panics env ⟨"CANCEL_ORDER", .obj []⟩ nil ∧
    Panics env ⟨"CANCEL_ORDER", .obj [("orderHash", .str "1"), ("hash", .str "1")]⟩
      "interface conversion" := by
  intro env order st Panics failing nil
  exact ⟨by decide +kernel, by decide +kernel, by decide +kernel, by decide +kernel,
    by decide +kernel, by decide +kernel, by decide +kernel⟩

end Dex
