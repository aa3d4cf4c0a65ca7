import DexServer.Services.Validator

/-!
# What the balance checks decide

Both checks ask the store for the pair and the node for a balance and an allowance, each up to three
times. `validateBalance_iff` says when `ValidateBalance` succeeds; `validateAvailableBalance_funded`
what `ValidateAvailableBalance` has compared when it does.
-/

namespace Dex

open Lib

theorem Pair.pairMultiplier_pos (p : Pair) : 0 < p.pairMultiplier := by
  unfold pairMultiplier
  exact Int.mul_pos (by decide) (Int.pow_pos (by decide))

/-- The user's open orders that sell the token, as `GetUserLockedBalance` finds them. -/
def World.openSelling (w : World) (account token : Address) : List Order :=
  w.orders.docs.filter fun o => o.userAddress = account ∧ o.isOpen ∧
    (o.quoteToken = token ∧ o.side = .BUY ∨ o.baseToken = token ∧ o.side = .SELL)

/-- What they lock. -/
def World.lockedBalance (w : World) (account token : Address) (p : Pair) : Int :=
  ((w.openSelling account token).map (·.remainingSellAmount p)).sum

/-- The first call from `n` on that does not fail, of `k` (and at least one). -/
def answered (env : Env) : Nat → Nat → Option Nat
  | k + 2, n => if env.fails n then answered env (k + 1) (n + 1) else some n
  | _, n => if env.fails n then none else some n

/-- The pair `p` was found, and the calls `n₁` and `n₂` were answered with balance and allowance. -/
structure Services.Answers (s : Services) (env : Env) (o : Order) (n : Nat) (p : Pair)
    (n₁ n₂ : Nat) : Prop where
  found : env.fails n = false
  pair : (s.pairs.find? fun p =>
    p.baseTokenAddress = o.baseToken ∧ p.quoteTokenAddress = o.quoteToken) = some p
  balance : answered env 3 (n + 1) = some n₁
  allowance : answered env 3 (n₁ + 1) = some n₂

namespace Services

variable {s : Services} {env : Env}

omit s in
theorem retry_query_answered {α : Type} (f : Nat → α) : ∀ (k : Nat) (w : World), Prog.wp
    (retry (call fun _ n w => (.ok (f n), w)) k) env w
    (fun a w' => ∃ n, answered env k w.calls = some n ∧ a = f n ∧ w' = { w with calls := n + 1 })
    (fun _ _ => answered env k w.calls = none)
  | 0, w | 1, w => by
    refine wp_call (fun h => ?_) fun h => ⟨w.calls, ?_, rfl, rfl⟩
    · rw [answered, if_pos h]
      all_goals simp
    · rw [answered, if_neg (by rw [h]; decide)]
      all_goals simp
  | k + 2, w => by
    unfold retry
    rw [Prog.wp_bind, Prog.wp_attempt]
    refine wp_call (fun h => ?_) fun h => ⟨w.calls, ?_, rfl, rfl⟩
    · rw [answered, if_pos h]
      exact retry_query_answered f (k + 1) w.tick
    · rw [answered, if_neg (by rw [h]; decide)]

theorem sellTokenFunds_answered (o : Order) (w : World) : Prog.wp (s.sellTokenFunds o) env w
    (fun x w' => ∃ p n₁ n₂, s.Answers env o w.calls p n₁ n₂ ∧
      x = (p, s.balanceOf n₁ o.userAddress o.sellToken,
        s.allowance n₂ o.userAddress s.exchangeAddress o.sellToken) ∧
      w' = { w with calls := n₂ + 1 })
    (fun _ _ => ¬∃ p n₁ n₂, s.Answers env o w.calls p n₁ n₂) := by
  unfold sellTokenFunds getByTokenAddress
  rw [Prog.wp_bind]
  refine wp_call (fun hf => ?_) fun hf => ?_
  · rintro ⟨p, n₁, n₂, ha⟩
    rw [ha.found] at hf
    cases hf
  · rw [Prog.ends_ok]
    cases hp : s.pairs.find? fun p =>
        p.baseTokenAddress = o.baseToken ∧ p.quoteTokenAddress = o.quoteToken with
    | none =>
      rintro ⟨p, n₁, n₂, ha⟩
      rw [ha.pair] at hp
      cases hp
    | some p =>
      simp only [Prog.wp_bind]
      refine Prog.wp_mono (retry_query_answered _ 3 w.tick) (fun balance w₁ h₁ => ?_)
        fun _ _ hnone => ?_
      · obtain ⟨n₁, hn₁, rfl, rfl⟩ := h₁
        refine Prog.wp_mono (retry_query_answered _ 3 _) (fun allowance w₂ h₂ => ?_)
          fun _ _ hnone => ?_
        · obtain ⟨n₂, hn₂, rfl, rfl⟩ := h₂
          exact ⟨p, n₁, n₂, ⟨hf, hp, hn₁, hn₂⟩, rfl, rfl⟩
        · rintro ⟨p', n₁', n₂, ha⟩
          cases hn₁.symm.trans ha.balance
          cases hnone.symm.trans ha.allowance
      · rintro ⟨p', n₁, n₂, ha⟩
        cases hnone.symm.trans ha.balance

/-- **`ValidateBalance`** looks at the full amount of the order. -/
theorem validateBalance_iff (o : Order) (w : World) : (s.validateBalance o env w).1 = .ok () ↔
    ∃ p n₁ n₂, s.Answers env o w.calls p n₁ n₂ ∧
      o.totalRequiredSellAmount p ≤ s.balanceOf n₁ o.userAddress o.sellToken ∧
      o.totalRequiredSellAmount p ≤ s.allowance n₂ o.userAddress s.exchangeAddress o.sellToken := by
  have hu : (∃ a : Unit, (s.validateBalance o env w).1 = .ok a) ↔
      (s.validateBalance o env w).1 = .ok () := ⟨fun ⟨_, h⟩ => h, fun h => ⟨(), h⟩⟩
  rw [← hu]
  apply Prog.wp_ok_iff
  unfold validateBalance
  rw [Prog.wp_bind]
  refine Prog.wp_mono (sellTokenFunds_answered o w) (fun x w' hx => ?_) fun _ _ hno => ?_
  · obtain ⟨p, n₁, n₂, ha, rfl, rfl⟩ := hx
    -- the answers are determined
    have hunique : ∀ {p' : Pair} {m₁ m₂ : Nat}, s.Answers env o w.calls p' m₁ m₂ →
        p' = p ∧ m₁ = n₁ ∧ m₂ = n₂ := by
      intro p' m₁ m₂ ha'
      cases ha'.pair.symm.trans ha.pair
      cases ha'.balance.symm.trans ha.balance
      cases ha'.allowance.symm.trans ha.allowance
      exact ⟨rfl, rfl, rfl⟩
    dsimp only
    split
    · rename_i hlt
      rintro ⟨p', m₁, m₂, ha', hb, -⟩
      obtain ⟨rfl, rfl, rfl⟩ := hunique ha'
      omega
    · split
      · rename_i hlt
        rintro ⟨p', m₁, m₂, ha', -, hb⟩
        obtain ⟨rfl, rfl, rfl⟩ := hunique ha'
        omega
      · exact ⟨p, n₁, n₂, ha, by omega, by omega⟩
  · rintro ⟨p, n₁, n₂, ha, -⟩
    exact hno ⟨p, n₁, n₂, ha⟩

/-- **`ValidateAvailableBalance`** has compared the amount with what is not locked. -/
theorem validateAvailableBalance_funded {o : Order} {w : World}
    (h : (s.validateAvailableBalance o env w).1 = .ok ()) : ∃ p n₁ n₂,
      s.Answers env o w.calls p n₁ n₂ ∧
      o.totalRequiredSellAmount p + w.lockedBalance o.userAddress o.sellToken p ≤
        s.balanceOf n₁ o.userAddress o.sellToken ∧
      o.totalRequiredSellAmount p + w.lockedBalance o.userAddress o.sellToken p ≤
        s.allowance n₂ o.userAddress s.exchangeAddress o.sellToken := by
  refine Prog.wp_of_ok (E := fun _ _ => True) ?_ h
  unfold validateAvailableBalance
  rw [Prog.wp_bind]
  refine Prog.wp_mono (sellTokenFunds_answered o w) (fun x w' hx => ?_) fun _ _ _ => trivial
  obtain ⟨p, n₁, n₂, ha, rfl, rfl⟩ := hx
  unfold getUserLockedBalance
  simp only [Prog.wp_bind]
  refine wp_call (fun _ => trivial) fun _ => ?_
  rw [Prog.ends_ok]
  show Prog.wp (if s.balanceOf n₁ o.userAddress o.sellToken < o.totalRequiredSellAmount p then _
    else if s.balanceOf n₁ o.userAddress o.sellToken - w.lockedBalance o.userAddress o.sellToken p <
      o.totalRequiredSellAmount p then _ else _) _ _ _ _
  split
  · trivial
  · split
    · trivial
    · rename_i hb
      split
      · trivial
      · split
        · trivial
        · rename_i ha'
          refine ⟨p, n₁, n₂, ha, by omega, ?_⟩
          have : ¬s.allowance n₂ o.userAddress s.exchangeAddress o.sellToken -
            w.lockedBalance o.userAddress o.sellToken p < o.totalRequiredSellAmount p := ha'
          omega

end Services

end Dex
