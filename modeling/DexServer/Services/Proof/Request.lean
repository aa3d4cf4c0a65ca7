import DexServer.Services.Order

/-!
# What the requests of clients do

Neither request writes to the store: `NewOrder` publishes the validated order or does nothing,
`CancelOrder` publishes the stored order or does nothing.
-/

namespace Dex

open Lib

namespace Services

/-- `NewOrder` publishes `o` for `r`: the validated order `o₀`, processed with its pair `p`, and
funded. -/
structure Publishes (s : Services) (env : Env) (w : World) (r : RawOrder) (o₀ : Order) (p : Pair)
    (o : Order) : Prop where
  valid : ∃ sig, r.validate s.exchangeAddress env.eth = .ok (o₀, sig)
  pair : (s.pairs.find? fun p =>
    p.baseTokenAddress = o₀.baseToken ∧ p.quoteTokenAddress = o₀.quoteToken) = some p
  large : ¬o₀.quoteAmount p < p.minQuoteAmount
  processed : o₀.process p (env.now w.tick.calls) = .ok o
  funded : (s.validateAvailableBalance o env w.tick).1 = .ok ()

namespace Publishes

variable {s : Services} {env : Env} {w : World} {r : RawOrder} {o₀ o : Order} {p : Pair}

theorem lists (h : s.Publishes env w r o₀ p o) : s.Lists o₀ :=
  Option.isSome_iff_exists.2 ⟨p, h.pair⟩

theorem eq (h : s.Publishes env w r o₀ p o) :
    o = { o₀ with pairName := p.name, createdAt := env.now w.tick.calls } :=
  (Order.process_eq_ok h.processed).1

/-- The published order is the request, but for its hash, pair name and creation time. -/
theorem order (h : s.Publishes env w r o₀ p o) : r.order = { o with
    hash := r.hash
    pairName := r.pairName
    createdAt := r.createdAt } := by
  obtain ⟨sig, hv⟩ := h.valid
  have horder := (RawOrder.validate_eq_ok hv).order
  have hname : o₀.pairName = r.pairName := (congrArg Order.pairName horder).symm
  have htime : o₀.createdAt = r.createdAt := (congrArg Order.createdAt horder).symm
  rw [h.eq, horder, ← hname, ← htime]

theorem userAddress (h : s.Publishes env w r o₀ p o) : o.userAddress = r.userAddress :=
  (congrArg Order.userAddress h.order).symm

end Publishes

/-- The end of a request. -/
def Requested (P : Message → Prop) (w w' : World) : Prop :=
  ∃ n, w' = { w with calls := n } ∨
    ∃ m, P m ∧ w' = { w with orderQueue := w.orderQueue ++ [m], calls := n }

section
variable {P : Message → Prop} {env : Env} {w : World}

theorem Requested.quiet (n : Nat) : Requested P w { w with calls := n } := ⟨n, .inl rfl⟩

theorem Requested.became {w' : World} (h : Requested P w w') :
    w.Same w' ∨ ∃ m, P m ∧ w.Became w.orders w.trades [m] [] w' := by
  obtain ⟨n, rfl | ⟨m, hm, rfl⟩⟩ := h
  · exact .inl ⟨rfl, rfl, by simp, by simp, rfl, rfl, rfl⟩
  · exact .inr ⟨m, hm, rfl, rfl, rfl, by simp, rfl, rfl, rfl⟩

theorem publishOrder_requested {m : Message} (hm : P m) (n : Nat) :
    Prog.wp (publishOrder m) env { w with calls := n } (fun _ => Requested P w)
      (fun _ => Requested P w) :=
  wp_call (fun _ => Requested.quiet (n + 1)) fun _ => ⟨n + 1, .inr ⟨m, hm, rfl⟩⟩

end

variable (s : Services)

theorem checkOrder_wp (r : RawOrder) (env : Env) (w : World) : Prog.wp (s.checkOrder r) env w
    (fun o w' => (∃ n, w' = { w with calls := n }) ∧ ∃ o₀ p, s.Publishes env w r o₀ p o)
    (fun _ w' => ∃ n, w' = { w with calls := n }) := by
  unfold checkOrder
  simp only [Prog.wp_bind, Prog.wp_ask, Prog.wp_get]
  refine wp_checked (fun v hv => ?_) fun _ => ⟨w.calls, rfl⟩
  obtain ⟨o, sig⟩ := v
  refine wp_checked (fun o' ho' => ?_) fun _ => ⟨w.calls, rfl⟩
  -- the second verification computes the same hash
  have ho : o' = o := by
    cases hs : o.verifySignature env.eth sig with
    | error e => rw [hs] at ho'; cases ho'
    | ok o₁ =>
      rw [hs] at ho'
      cases ho'
      rw [(Order.verifySignature_eq_ok hs).1, ← (RawOrder.validate_eq_ok hv).hash]
  subst ho
  refine wp_call (fun _ => ⟨w.calls + 1, rfl⟩) fun _ => ?_
  rw [Prog.ends_ok]
  refine wp_checked (fun p hp => ?_) fun _ => ⟨w.calls + 1, rfl⟩
  refine wp_checked (fun _ hlarge => ?_) fun _ => ⟨w.calls + 1, rfl⟩
  refine wp_checked (fun o₁ ho₁ => ?_) fun _ => ⟨w.calls + 1, rfl⟩
  refine (s.validateAvailableBalance_quiet o₁).wp_ok (fun _ n hfunds => ?_) fun _ n => ⟨n, rfl⟩
  exact ⟨⟨n, rfl⟩, o', p, ⟨sig, hv⟩, required_eq_ok.1 hp, require_eq_ok.1 hlarge, ho₁, hfunds⟩

theorem newOrder_requested (r : RawOrder) (env : Env) (w : World) :
    Requested (fun m => ∃ o₀ p o, m = .NEW_ORDER o ∧ s.Publishes env w r o₀ p o) w
      (s.newOrder r env w).2 := by
  apply Prog.wp_state
  rw [newOrder_eq, Prog.wp_bind]
  refine Prog.wp_mono (s.checkOrder_wp r env w) (fun o w' h => ?_) fun _ w' h => ?_
  · obtain ⟨⟨n, rfl⟩, o₀, p, hp⟩ := h
    exact publishOrder_requested ⟨o₀, p, o, rfl, hp⟩ n
  · obtain ⟨n, rfl⟩ := h
    exact Requested.quiet n

omit s in
theorem cancelOrder_requested (h : Hash) (env : Env) (w : World) :
    Requested (fun m => ∃ o, m = .CANCEL_ORDER o ∧ w.orders.get h = some o ∧
      ¬(o.status = .FILLED ∨ o.status = .ERROR ∨ o.status = .CANCELLED)) w
      (cancelOrder h env w).2 := by
  apply Prog.wp_state
  unfold cancelOrder
  simp only [Prog.wp_bind]
  refine wp_call (fun _ => Requested.quiet (w.calls + 1)) fun _ => ?_
  simp only [Prog.Ends, World.tick_orders]
  cases hg : w.orders.get h with
  | none => exact Requested.quiet (w.calls + 1)
  | some o =>
    dsimp only
    split
    · exact Requested.quiet (w.calls + 1)
    · rename_i hs
      exact publishOrder_requested ⟨o, rfl, rfl, hs⟩ (w.calls + 1)

end Services

end Dex
