import DexServer.Endpoints.Proof.Reply
import DexServer.Engine.Engine

/-!
# What is admitted

`handleNewOrder_queue`: a NEW_ORDER payload publishes nothing, or the order it decodes to, validated
and processed (`Admits`). Two results follow.

* `admission_control`: every check holds of a published order but one, that its account is not
  blocked; the handler tells a blocked account so and goes on.
* `admitted_unfilled`: the fill and the status are the payload's, and no check looks at them.
-/

namespace Dex

open Lib

/-- The payload decodes to `r`, and `o` is published for it. -/
structure Admits (s : Services) (env : Env) (w : World) (payload : Json) (r : RawOrder) (o₀ : Order)
    (p : Pair) (o : Order) (w' : World) : Prop where
  decoded : RawOrder.unmarshalJSON env.codec payload = .ok (.ok r)
  account : ∃ a, w'.accounts.get r.userAddress = some a ∧
    (∀ b ∈ w.accounts.get r.userAddress, b = a) ∧
    (w.accounts.get r.userAddress = none → a.isBlocked = false)
  published : ∃ h w₁, w₁.calls = w.calls +
    (if (w.accounts.get r.userAddress).isSome then 1 else 3) ∧
    s.Publishes env w₁ { r with hash := h } o₀ p o
  queue : w'.orderQueue = w.orderQueue ++ [.NEW_ORDER o]

/-- The handler publishes nothing, or the order of the payload. -/
def Admitted (s : Services) (env : Env) (w : World) (payload : Json) (w' : World) : Prop :=
  w'.orderQueue = w.orderQueue ∨ ∃ r o₀ p o, Admits s env w payload r o₀ p o w'

section
variable {s : Services} {env : Env} {w : World} {payload : Json}

theorem Admitted.ws {w' : World} (h : Admitted s env w payload w') (ws : List WsEvent) :
    Admitted s env w payload { w' with ws := ws } := by
  rcases h with h | ⟨r, o₀, p, o, h⟩
  · exact .inl h
  · exact .inr ⟨r, o₀, p, o, h.decoded, h.account, h.published, h.queue⟩

theorem submit_wp {client : Nat} {r : RawOrder} {h : Hash} {a : Account} {w₁ : World}
    (hdec : RawOrder.unmarshalJSON env.codec payload = .ok (.ok r))
    (ha : w₁.accounts.get r.userAddress = some a) (hold : ∀ b ∈ w.accounts.get r.userAddress, b = a)
    (hnew : w.accounts.get r.userAddress = none → a.isBlocked = false)
    (hcalls : w₁.calls = w.calls + (if (w.accounts.get r.userAddress).isSome then 1 else 3))
    (hq : w₁.orderQueue = w.orderQueue) :
    Prog.wp (attempted (s.newOrder { r with hash := h }) >>= fun err =>
      reportError client (errOf err) h) env w₁ (fun _ => Admitted s env w payload)
      (fun _ => Admitted s env w payload) := by
  have hn : Admitted s env w payload (s.newOrder { r with hash := h } env w₁).2 := by
    obtain ⟨n, hr | ⟨m, ⟨o₀, p, o, rfl, hp⟩, hr⟩⟩ :=
      s.newOrder_requested { r with hash := h } env w₁
    · rw [hr]
      exact .inl hq
    · rw [hr]
      refine .inr ⟨r, o₀, p, o, hdec, ⟨a, ha, hold, hnew⟩, ⟨h, w₁, hcalls, hp⟩, ?_⟩
      rw [hq]
  rw [Prog.wp_bind]
  refine wp_attempted (Prog.wp_mono (Prog.wp_of_state hn) (fun _ w' hw' => ?_) fun _ w' hw' => ?_)
  · exact wp_reportError hw'.ws
  · exact ⟨wp_reportError hw'.ws, hw'⟩

end

theorem handleNewOrder_queue (s : Services) (env : Env) (w : World) (client : Nat)
    (payload : Json) :
    Admitted s env w payload (handleNewOrder s.newOrder client payload env w).2 := by
  refine Prog.wp_state (P := Admitted s env w payload) ?_
  unfold handleNewOrder
  split
  · exact .inl rfl
  · simp only [Prog.wp_bind, Prog.wp_ask]
    refine wp_unpanicked (fun x hx => ?_) fun _ _ => .inl rfl
    cases x with
    | error err => exact .inl rfl
    | ok r =>
      simp only [Prog.wp_bind]
      refine wp_unpanicked (fun h _ => ?_) fun _ _ => .inl rfl
      unfold registerOrderConnection
      rw [Prog.wp_modify]
      refine wp_attempted (Prog.wp_mono (findOrCreate_wp ..) (fun a w₁ ha => ?_) fun e w₁ he => ?_)
      · obtain ⟨ha, hold, hnew, hcalls, hw₁⟩ := ha
        have hq : w₁.orderQueue = w.orderQueue := by rw [hw₁]
        dsimp only
        split
        · rw [Prog.wp_bind, Prog.wp_modify]
          exact submit_wp hx ha hold hnew hcalls hq
        · exact submit_wp hx ha hold hnew hcalls hq
      · have hq : w₁.orderQueue = w.orderQueue := by rw [he]
        exact ⟨.inl hq, .inl hq⟩

theorem admits_of_queue {s : Services} {env : Env} {w : World} {client : Nat} {payload : Json}
    {o : Order} (h : (handleNewOrder s.newOrder client payload env w).2.orderQueue =
      w.orderQueue ++ [.NEW_ORDER o]) :
    ∃ r o₀ p, Admits s env w payload r o₀ p o
      (handleNewOrder s.newOrder client payload env w).2 := by
  rcases handleNewOrder_queue s env w client payload with hq | ⟨r, o₀, p, o', ha⟩
  · simp [hq] at h
  · have ho : o = o' := by simpa [ha.queue] using h.symm
    subst ho
    exact ⟨r, o₀, p, ha⟩

/-! ## The checks -/

/-- What the checks of the endpoint, of `Validate`, of `Process` and of the service ask of `o`. -/
structure AdmissionChecked (s : Services) (eth : Eth) (accounts : Coll Account.address)
    (o : Order) : Prop where
  signer : ∃ sig, o.signature = some sig ∧
    sig.verify eth (signedMessage eth (o.computeHash eth)) = .ok o.userAddress
  exchange : o.exchangeAddress = s.exchangeAddress
  account : ∃ a, accounts.get o.userAddress = some a ∧ a.isBlocked = false
  pair : ∃ p ∈ s.pairs, p.baseTokenAddress = o.baseToken ∧ p.quoteTokenAddress = o.quoteToken ∧
    o.makeFee = p.makeFee ∧ o.takeFee = p.takeFee ∧ o.pairName = p.name ∧
    2 * (o.makeFee + o.takeFee) ≤ o.quoteAmount p
  amount : 0 < o.amount
  pricePoint : 0 < o.pricePoint

section
variable {s : Services} {env : Env} {w w₁ : World} {r : RawOrder} {o₀ o : Order} {p : Pair}

theorem Services.Publishes.checked (h : s.Publishes env w₁ r o₀ p o)
    {accounts : Coll Account.address}
    (ha : ∃ a, accounts.get o.userAddress = some a ∧ a.isBlocked = false) :
    AdmissionChecked s env.eth accounts o := by
  obtain ⟨sig, hv⟩ := h.valid
  have hvalid := RawOrder.validate_eq_ok hv
  obtain ⟨rfl, hm, ht⟩ := Order.process_eq_ok h.processed
  refine ⟨⟨sig, hvalid.signed, ?_⟩, hvalid.exchange, ha, ⟨p, List.mem_of_find?_eq_some h.pair, ?_⟩,
    hvalid.amount, hvalid.pricePoint⟩
  · have hsigner := hvalid.signer
    rw [hvalid.hash] at hsigner
    exact hsigner
  · have hfound := List.find?_some h.pair
    simp only [decide_eq_true_eq] at hfound
    have hlarge : p.minQuoteAmount ≤ o₀.quoteAmount p := Int.not_lt.1 h.large
    refine ⟨hfound.1, hfound.2, hm, ht, rfl, ?_⟩
    calc 2 * (o₀.makeFee + o₀.takeFee) = p.minQuoteAmount := by
          rw [hm, ht, Int.mul_add]
          rfl
      _ ≤ o₀.quoteAmount p := hlarge

end

/-- A published order has passed every check if and only if its account was not blocked. -/
theorem admission_control {s : Services} {env : Env} {w : World} {client : Nat} {payload : Json}
    {o : Order} (h : (handleNewOrder s.newOrder client payload env w).2.orderQueue =
      w.orderQueue ++ [.NEW_ORDER o]) :
    AdmissionChecked s env.eth (handleNewOrder s.newOrder client payload env w).2.accounts o ↔
      ∀ a ∈ w.accounts.get o.userAddress, a.isBlocked = false := by
  obtain ⟨r, o₀, p, hadm⟩ := admits_of_queue h
  obtain ⟨x, w₁, -, hp⟩ := hadm.published
  obtain ⟨a, ha, hold, hnew⟩ := hadm.account
  have huser : o.userAddress = r.userAddress := hp.userAddress
  rw [← huser] at ha hold hnew
  constructor
  · intro hc b hb
    obtain ⟨a', ha', hopen⟩ := hc.account
    rw [ha] at ha'
    cases ha'
    rw [hold b hb]
    exact hopen
  · intro hopen
    refine hp.checked ⟨a, ha, ?_⟩
    cases hg : w.accounts.get o.userAddress with
    | none => exact hnew hg
    | some b => exact hold b hg ▸ hopen b hg

/-- The order of `orderPayload []`, as it is published at the call `n`. -/
def publishedSample (n : Nat) : Order :=
  { Order.sample 0 .SELL 5 10 with
    status := .ofText ""
    signature := some ⟨27, 1, 0⟩
    hash := (Order.sample 0 .SELL 5 10).computeHash .sample
    createdAt := n }

/-- A store that knows the user 1. -/
def World.withAccount (isBlocked : Bool) : World :=
  { World.empty with accounts := World.empty.accounts.put ⟨1, isBlocked⟩ }

/-- The account of the user 1 is made, and the order passes every check. -/
theorem admission_control_new_account :
    let env := Env.sample .stored
    (handleNewOrder Services.sample.newOrder 0 (orderPayload []) env .empty).2.orderQueue =
      [.NEW_ORDER (publishedSample 4)] ∧
    AdmissionChecked .sample env.eth
      (handleNewOrder Services.sample.newOrder 0 (orderPayload []) env .empty).2.accounts
      (publishedSample 4) := by
  intro env
  have h : (handleNewOrder Services.sample.newOrder 0 (orderPayload []) env .empty).2.orderQueue =
      [.NEW_ORDER (publishedSample 4)] := by decide +kernel
  exact ⟨h, (admission_control h).2 fun a ha => by cases ha⟩

/-- The account of the user 1 is blocked; the order is published. -/
theorem blocked_account_admitted :
    let env := Env.sample .stored
    let w := World.withAccount true
    (handleNewOrder Services.sample.newOrder 0 (orderPayload []) env w).2.orderQueue =
      [.NEW_ORDER (publishedSample 2)] ∧
    ¬AdmissionChecked .sample env.eth
      (handleNewOrder Services.sample.newOrder 0 (orderPayload []) env w).2.accounts
      (publishedSample 2) := by
  intro env w
  refine ⟨by decide +kernel, fun hc => ?_⟩
  have hblocked : ∀ a ∈ (handleNewOrder Services.sample.newOrder
      0 (orderPayload []) env w).2.accounts.get 1, a.isBlocked = true := by decide +kernel
  obtain ⟨a, ha, hopen⟩ := hc.account
  rw [hblocked a ha] at hopen
  cases hopen

/-! ## The engine's own fields -/

/-- The ten signed fields and the signature agree. -/
structure RawOrder.SameSigned (r r' : RawOrder) : Prop where
  exchangeAddress : r.exchangeAddress = r'.exchangeAddress
  userAddress : r.userAddress = r'.userAddress
  baseToken : r.baseToken = r'.baseToken
  quoteToken : r.quoteToken = r'.quoteToken
  amount : r.amount = r'.amount
  pricePoint : r.pricePoint = r'.pricePoint
  side : r.side = r'.side
  nonce : r.nonce = r'.nonce
  takeFee : r.takeFee = r'.takeFee
  makeFee : r.makeFee = r'.makeFee
  signature : r.signature = r'.signature

/-- Two orders that start the same: unfilled, with one status, and no engine tells them apart. -/
structure SameStart (o o' : Order) : Prop where
  unfilled : o.filledAmount = 0 ∧ o'.filledAmount = 0
  status : o.status = o'.status
  treated : ∀ (e : Engine) (env : Env) (w : World),
    e.handleOrders (.NEW_ORDER o) env w = e.handleOrders (.NEW_ORDER o') env w

theorem RawOrder.SameSigned.eq {r r' : RawOrder} (h : r.SameSigned r') : r' = { r with
    status := r'.status
    hash := r'.hash
    filledAmount := r'.filledAmount
    pairName := r'.pairName
    createdAt := r'.createdAt } :=
  RawOrder.ext h.userAddress.symm h.exchangeAddress.symm h.baseToken.symm h.quoteToken.symm rfl
    h.side.symm rfl h.signature.symm h.pricePoint.symm h.amount.symm rfl h.nonce.symm h.makeFee.symm
    h.takeFee.symm rfl rfl

/-- Validated orders of two requests that agree in what is signed differ at most in what is not. -/
theorem RawOrder.Valid.agree {x : Address} {eth : Eth} {r r' : RawOrder} {o o' : Order}
    {sig sig' : Signature} (h : r.Valid x eth o sig) (h' : r'.Valid x eth o' sig')
    (hs : r.SameSigned r') : o' = { o with
      status := r'.status
      filledAmount := r'.filledAmount.getD 0
      pairName := r'.pairName
      createdAt := r'.createdAt } := by
  have heq : o' = { o with
      status := r'.status
      hash := o'.hash
      filledAmount := r'.filledAmount.getD 0
      pairName := r'.pairName
      createdAt := r'.createdAt } := by
    apply Order.raw_injective
    have hr : r = { o.raw with hash := r.hash, filledAmount := r.filledAmount } :=
      congrArg ({ · with filledAmount := r.filledAmount }) h.raw
    have hr' : o'.raw =
        { r' with hash := o'.hash, filledAmount := some (r'.filledAmount.getD 0) } :=
      congrArg ({ · with hash := o'.hash }) h'.raw.symm
    rw [hr', hs.eq, hr]
    rfl
  -- the hash is computed from what was signed
  have hash : o'.hash = o.hash := by
    rw [h'.hash, heq, h.hash]
    rfl
  rw [hash] at heq
  exact heq

/-- The published orders start the same exactly if neither payload says that its order is filled,
and both say the same of its status. -/
theorem admitted_unfilled {s : Services} {env : Env} {w : World} {client client' : Nat}
    {payload payload' : Json} {r r' : RawOrder} {o o' : Order}
    (hr : RawOrder.unmarshalJSON env.codec payload = .ok (.ok r))
    (hr' : RawOrder.unmarshalJSON env.codec payload' = .ok (.ok r')) (hs : r.SameSigned r')
    (hq : (handleNewOrder s.newOrder client payload env w).2.orderQueue =
      w.orderQueue ++ [.NEW_ORDER o])
    (hq' : (handleNewOrder s.newOrder client' payload' env w).2.orderQueue =
      w.orderQueue ++ [.NEW_ORDER o']) :
    SameStart o o' ↔
      r.filledAmount.getD 0 = 0 ∧ r'.filledAmount.getD 0 = 0 ∧ r.status = r'.status := by
  obtain ⟨r₁, o₀, p, hadm⟩ := admits_of_queue hq
  obtain ⟨r₁', o₀', p', hadm'⟩ := admits_of_queue hq'
  cases hr.symm.trans hadm.decoded
  cases hr'.symm.trans hadm'.decoded
  obtain ⟨x, w₁, hcalls, hp⟩ := hadm.published
  obtain ⟨x', w₁', hcalls', hp'⟩ := hadm'.published
  obtain ⟨sig, hv⟩ := hp.valid
  obtain ⟨sig', hv'⟩ := hp'.valid
  have hvalid := RawOrder.validate_eq_ok hv
  have hvalid' := RawOrder.validate_eq_ok hv'
  have hfill : o.filledAmount = r.filledAmount.getD 0 ∧ o.status = r.status := by
    rw [hp.eq]
    exact hvalid.unchecked
  have hfill' : o'.filledAmount = r'.filledAmount.getD 0 ∧ o'.status = r'.status := by
    rw [hp'.eq]
    exact hvalid'.unchecked
  constructor
  · intro h
    exact ⟨hfill.1 ▸ h.unfilled.1, hfill'.1 ▸ h.unfilled.2, hfill.2 ▸ hfill'.2 ▸ h.status⟩
  · intro ⟨h0, h0', hst⟩
    have hagree := hvalid.agree hvalid' ⟨hs.exchangeAddress, hs.userAddress, hs.baseToken,
      hs.quoteToken, hs.amount, hs.pricePoint, hs.side, hs.nonce, hs.takeFee, hs.makeFee,
      hs.signature⟩
    have hpair : p' = p := by
      have hfound := hp'.pair
      rw [hagree] at hfound
      exact Option.some.inj (hfound.symm.trans hp.pair)
    have hnow : w₁'.tick.calls = w₁.tick.calls := by
      rw [World.tick_calls, World.tick_calls, hcalls', hcalls, hs.userAddress]
    have ho : o' = o := by
      obtain ⟨hfilled, hstatus⟩ := hvalid.unchecked
      have hfilled : r'.filledAmount.getD 0 = o₀.filledAmount := by rw [h0', hfilled, h0]
      have hstatus : r'.status = o₀.status := by rw [hstatus, hst]
      rw [hp'.eq, hp.eq, hagree, hpair, hnow]
      simp only [hfilled, hstatus]
    subst ho
    exact ⟨⟨hfill.1.trans h0, hfill.1.trans h0⟩, rfl, fun _ _ _ => rfl⟩

/-- The decoded payload, with the fill and the status it carries. -/
def decodedSample (filledAmount : Option Int) (status : String) : RawOrder :=
  { RawOrder.sample 1 .SELL 5 10 with filledAmount := filledAmount, status := .ofText status }

theorem decodedSample_sameSigned (f f' : Option Int) (st st' : String) :
    (decodedSample f st).SameSigned (decodedSample f' st') :=
  ⟨rfl, rfl, rfl, rfl, rfl, rfl, rfl, rfl, rfl, rfl, rfl⟩

/-- A payload without the two fields, and one that says its order is not filled. -/
theorem admitted_unfilled_zero :
    let env := Env.sample .stored
    let w := World.withAccount false
    let payload' := orderPayload [("filledAmount", .str "0")]
    (handleNewOrder Services.sample.newOrder 0 (orderPayload []) env w).2.orderQueue =
      [.NEW_ORDER (publishedSample 2)] ∧
    (handleNewOrder Services.sample.newOrder 0 payload' env w).2.orderQueue =
      [.NEW_ORDER (publishedSample 2)] ∧
    SameStart (publishedSample 2) (publishedSample 2) := by
  intro env w payload'
  have hdec : RawOrder.unmarshalJSON env.codec (orderPayload []) =
      .ok (.ok (decodedSample none "")) := by
    decide +kernel
  have hdec' : RawOrder.unmarshalJSON env.codec payload' =
      .ok (.ok (decodedSample (some 0) "")) := by
    decide +kernel
  have hq : (handleNewOrder Services.sample.newOrder 0 (orderPayload []) env w).2.orderQueue =
      [.NEW_ORDER (publishedSample 2)] := by decide +kernel
  have hq' : (handleNewOrder Services.sample.newOrder 0 payload' env w).2.orderQueue =
      [.NEW_ORDER (publishedSample 2)] := by decide +kernel
  exact ⟨hq, hq', (admitted_unfilled hdec hdec' (decodedSample_sameSigned ..) hq hq').2
    ⟨rfl, rfl, rfl⟩⟩

/-- An order of 10, signed as the one above, that arrives with 6 of it filled. -/
theorem filled_order_admitted :
    let env := Env.sample .stored
    let w := World.withAccount false
    let payload := orderPayload [("filledAmount", .str "6"), ("status", .str "FILLED")]
    let o := { publishedSample 2 with filledAmount := 6, status := .FILLED }
    RawOrder.unmarshalJSON env.codec payload = .ok (.ok (decodedSample (some 6) "FILLED")) ∧
    (handleNewOrder Services.sample.newOrder 0 (orderPayload []) env w).2.orderQueue =
      [.NEW_ORDER (publishedSample 2)] ∧
    (handleNewOrder Services.sample.newOrder 0 payload env w).2.orderQueue = [.NEW_ORDER o] ∧
    (Engine.sample.handleOrders (.NEW_ORDER (publishedSample 2)) env .empty).2.orders.docs ≠
      (Engine.sample.handleOrders (.NEW_ORDER o) env .empty).2.orders.docs ∧
    ¬SameStart (publishedSample 2) o := by
  intro env w payload o
  refine ⟨by decide +kernel, by decide +kernel, by decide +kernel, by decide +kernel, fun h => ?_⟩
  exact absurd h.unfilled.2 (by decide)

end Dex
