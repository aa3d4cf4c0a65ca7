import DexServer.Types.RawOrder
import DexServer.Daos.Session

/-!
# Balances (`services/validator.go`)

The balances and allowances are the Ethereum node's, which may change and fail between two calls.
-/

namespace Dex

open Lib

/-- What the services are configured with, and what they ask the node. -/
structure Services where
  /-- `app.Config.Ethereum["exchange_address"]` -/
  exchangeAddress : Address
  /-- the `pairs` collection -/
  pairs : List Pair
  /-- `ethereumProvider.BalanceOf(owner, token)` at call `n` -/
  balanceOf : Nat → Address → Address → Int
  /-- `ethereumProvider.Allowance(owner, spender, token)` at call `n` -/
  allowance : Nat → Address → Address → Address → Int

/-- `utils.Retry`: `m` is run again when it fails, `n` times in all. -/
def retry {α : Type} (m : M α) : Nat → M α
  | 0 => m
  | 1 => m
  | n + 2 => do
    match ← Prog.attempt m with
    | .ok a => pure a
    | .error _ => retry m (n + 1)

/-- `OrderDao.GetUserLockedBalance`: what is left of the user's open orders that sell the token. -/
def getUserLockedBalance (account token : Address) (p : Pair) : M Int := call fun _ _ w =>
  let orders := w.orders.docs.filter fun o => o.userAddress = account ∧ o.isOpen ∧
    (o.quoteToken = token ∧ o.side = .BUY ∨ o.baseToken = token ∧ o.side = .SELL)
  (.ok (orders.map (·.remainingSellAmount p)).sum, w)

namespace Services

variable (s : Services)

/-- `PairDao.GetByTokenAddress`. -/
def getByTokenAddress (baseToken quoteToken : Address) : M (Option Pair) := call fun _ _ w =>
  (.ok (s.pairs.find? fun p =>
    p.baseTokenAddress = baseToken ∧ p.quoteTokenAddress = quoteToken), w)

/-- The beginning of both checks: the amount required, the balance and the allowance. A missing
pair is dereferenced. -/
def sellTokenFunds (o : Order) : M (Pair × Int × Int) := do
  let some pair ← s.getByTokenAddress o.baseToken o.quoteToken
    | Prog.throw (.panic "nil pointer dereference")
  let balance ← retry (call fun _ n w => (.ok (s.balanceOf n o.userAddress o.sellToken), w)) 3
  let allowance ← retry (call fun _ n w =>
    (.ok (s.allowance n o.userAddress s.exchangeAddress o.sellToken), w)) 3
  pure (pair, balance, allowance)

/-- `ValidateAvailableBalance`. The second message is what `fmt` makes of its `% a`. -/
def validateAvailableBalance (o : Order) : M Unit := do
  let (pair, balance, allowance) ← s.sellTokenFunds o
  let required := o.totalRequiredSellAmount pair
  let locked ← getUserLockedBalance o.userAddress o.sellToken pair
  if balance < required then
    Prog.throw (.msg ("Insufficient " ++ o.sellTokenSymbol ++ " Balance"))
  else if balance - locked < required then
    Prog.throw (.msg ("Insufficient %!a(string=" ++ o.sellTokenSymbol ++ ")vailable"))
  else if allowance < required then
    Prog.throw (.msg ("Insufficient " ++ o.sellTokenSymbol ++ " Allowance"))
  else if allowance - locked < required then
    Prog.throw (.msg ("Insufficient " ++ o.sellTokenSymbol ++ " allowance available"))
  else pure ()

/-- `ValidateBalance`: what the user's other orders lock is not counted. -/
def validateBalance (o : Order) : M Unit := do
  let (pair, balance, allowance) ← s.sellTokenFunds o
  let required := o.totalRequiredSellAmount pair
  if balance < required then
    Prog.throw (.msg ("Insufficient " ++ o.sellTokenSymbol ++ " Balance"))
  else if allowance < required then
    Prog.throw (.msg ("Insufficient " ++ o.sellTokenSymbol ++ " Allowance"))
  else pure ()

/-- The pair of the order is in the `pairs` collection, as `NewOrder` checks. -/
def Lists (o : Order) : Prop :=
  (s.pairs.find? fun p =>
    p.baseTokenAddress = o.baseToken ∧ p.quoteTokenAddress = o.quoteToken).isSome

instance (o : Order) : Decidable (s.Lists o) := inferInstanceAs (Decidable (_ = true))

/-! ## The checks only read -/

theorem getByTokenAddress_quiet (b q : Address) : Quiet (s.getByTokenAddress b q) :=
  Quiet.query fun _ _ _ => _

omit s in
theorem retry_quiet {α : Type} {m : M α} (hm : Quiet m) : ∀ n, Quiet (retry m n)
  | 0 => hm
  | 1 => hm
  | n + 2 => by
    unfold retry
    refine hm.attempt.bind fun x => ?_
    cases x with
    | ok a => exact Quiet.pure a
    | error e => exact retry_quiet hm (n + 1)

theorem sellTokenFunds_quiet (o : Order) : Quiet (s.sellTokenFunds o) := by
  refine (s.getByTokenAddress_quiet _ _).bind fun p => ?_
  cases p with
  | none => exact Quiet.throw _
  | some p =>
    refine (retry_quiet (Quiet.query _) 3).bind fun balance => ?_
    exact (retry_quiet (Quiet.query _) 3).bind fun allowance => Quiet.pure _

theorem validateAvailableBalance_quiet (o : Order) : Quiet (s.validateAvailableBalance o) := by
  refine (s.sellTokenFunds_quiet o).bind fun x => ?_
  refine (Quiet.query fun _ _ _ => _ : Quiet (getUserLockedBalance _ _ _)).bind fun locked => ?_
  exact .ite (.throw _) (.ite (.throw _) (.ite (.throw _) (.ite (.throw _) (.pure _))))

theorem validateBalance_quiet (o : Order) : Quiet (s.validateBalance o) :=
  (s.sellTokenFunds_quiet o).bind fun _ => .ite (.throw _) (.ite (.throw _) (.pure _))

section
variable {s} {env : Env} (hf : env.Faultless)
include hf

omit s in
theorem retry_query_wp {α : Type} (f : Nat → α) (w : World) : ∀ n, Prog.wp
    (retry (call fun _ n w => (.ok (f n), w)) n) env w (fun _ _ => True) (fun _ _ => False)
  | 0 | 1 => wp_call (fun h => absurd hf (Env.not_faultless h)) fun _ => trivial
  | n + 2 => by
    unfold retry
    rw [Prog.wp_bind, Prog.wp_attempt]
    exact wp_call (fun h => absurd hf (Env.not_faultless h)) fun _ => trivial

/-- With its pair known, the check does not panic. -/
theorem validateBalance_wp {o : Order} (ho : s.Lists o) (w : World) : Prog.wp (s.validateBalance o)
    env w (fun _ _ => True) (fun e _ => ∃ text, e = .msg text) := by
  have hfunds : ∀ w, Prog.wp (s.sellTokenFunds o) env w (fun _ _ => True) (fun _ _ => False) := by
    intro w
    obtain ⟨p, hp⟩ := Option.isSome_iff_exists.1 ho
    unfold sellTokenFunds getByTokenAddress
    rw [Prog.wp_bind]
    refine wp_call (fun h => absurd hf (Env.not_faultless h)) fun _ => ?_
    rw [hp, Prog.ends_ok]
    simp only [Prog.wp_bind]
    refine Prog.wp_mono (retry_query_wp hf _ _ 3) (fun _ w₁ _ => ?_) fun _ _ h => h
    exact Prog.wp_mono (retry_query_wp hf _ w₁ 3) (fun _ _ _ => trivial) fun _ _ h => h
  unfold validateBalance
  rw [Prog.wp_bind]
  refine Prog.wp_mono (hfunds w) (fun x w₁ _ => ?_) fun _ _ h => h.elim
  dsimp only
  split
  · exact ⟨_, rfl⟩
  · split
    · exact ⟨_, rfl⟩
    · trivial

end

end Services

end Dex
