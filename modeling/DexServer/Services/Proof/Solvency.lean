import DexServer.Engine.OrderBook
import DexServer.Lib.Run
import DexServer.Sample
import DexServer.Services.Proof.Funds
import DexServer.Services.Proof.Request
import Mathlib.Algebra.Order.Group.Int

/-!
# The open orders of a user and the user's funds

A user submits orders on one pair, one after another; each order that is published is stored as
resting before the next one is submitted. The check of an order counts its fee, and what the user's
other orders lock without theirs: the fees of two BUY orders are not both backed
(`fees_not_locked`).

`open_orders_solvent`: where no fee is left out, the open orders that sell a token require at most
the balance and the allowance of it.
-/

namespace Dex

open Lib

/-- What the user's open orders that sell the token require. -/
def World.requiredTotal (w : World) (account token : Address) (p : Pair) : Int :=
  ((w.openSelling account token).map (·.totalRequiredSellAmount p)).sum

/-- A request, and the order it publishes stored at once. -/
def Services.restingStep (s : Services) (env : Env) (w : World) (r : RawOrder) : World :=
  let w' := (s.newOrder r env w).2
  match w'.orderQueue[w.orderQueue.length]? with
  | some (.NEW_ORDER o) => (addOrder o env { w' with orderQueue := w.orderQueue }).2
  | _ => w'

/-- A request of the user for an unfilled order on the pair. -/
structure RawOrder.Submits (account : Address) (p : Pair) (r : RawOrder) : Prop where
  user : r.userAddress = account
  base : r.baseToken = p.baseTokenAddress
  quote : r.quoteToken = p.quoteTokenAddress
  unfilled : r.filledAmount.getD 0 = 0

instance (account : Address) (p : Pair) (r : RawOrder) : Decidable (r.Submits account p) :=
  decidable_of_iff (r.userAddress = account ∧ r.baseToken = p.baseTokenAddress ∧
      r.quoteToken = p.quoteTokenAddress ∧ r.filledAmount.getD 0 = 0)
    ⟨fun h => ⟨h.1, h.2.1, h.2.2.1, h.2.2.2⟩, fun h => ⟨h.user, h.base, h.quote, h.unfilled⟩⟩

/-- No fee is left out of what is locked: the pair has none, or the user's open orders that sell the
token of the request are SELL orders. -/
def FeesLocked (account : Address) (p : Pair) (w : World) (r : RawOrder) : Prop :=
  max p.makeFee p.takeFee ≤ 0 ∨ ∀ d ∈ w.openSelling account r.order.sellToken, d.side = .SELL

instance (account : Address) (p : Pair) (w : World) (r : RawOrder) :
    Decidable (FeesLocked account p w r) := inferInstanceAs (Decidable (_ ∨ _))

/-! ## Amounts -/

section
variable {o : Order} {p : Pair}

theorem Order.remainingSellAmount_nonneg (hf : o.filledAmount = 0) (ha : 0 < o.amount)
    (hp : 0 < o.pricePoint) : 0 ≤ o.remainingSellAmount p := by
  have hr : o.remainingAmount = o.amount := by simp only [remainingAmount]; omega
  unfold remainingSellAmount
  rw [hr]
  split
  · exact Int.ediv_nonneg (Int.mul_nonneg ha.le hp.le) p.pairMultiplier_pos.le
  · exact ha.le

theorem Order.required_le_remaining (hf : o.filledAmount = 0)
    (h : max p.makeFee p.takeFee ≤ 0 ∨ o.side = .SELL) :
    o.totalRequiredSellAmount p ≤ o.remainingSellAmount p := by
  have hr : o.remainingAmount = o.amount := by simp only [remainingAmount]; omega
  unfold totalRequiredSellAmount remainingSellAmount
  rw [hr]
  by_cases hs : o.side = .BUY
  · rw [if_pos hs, if_pos hs]
    rcases h with h | h
    · omega
    · rw [hs] at h
      cases h
  · rw [if_neg hs, if_neg hs]

end

/-! ## One request -/

section
variable {s : Services} {env : Env} {w : World} {r : RawOrder}

theorem restingStep_cases : (s.restingStep env w r).orders = w.orders ∨
    ∃ o₀ p o now, s.Publishes env w r o₀ p o ∧
      (s.restingStep env w r).orders = upsert now w.orders (addedOrder o) := by
  unfold Services.restingStep
  obtain ⟨n, h | ⟨m, ⟨o₀, p, o, rfl, hp⟩, h⟩⟩ := s.newOrder_requested r env w
  · rw [h]
    left
    simp
  · rw [h]
    have hlast : (w.orderQueue ++ [Message.NEW_ORDER o])[w.orderQueue.length]? =
        some (.NEW_ORDER o) := by simp
    dsimp only
    rw [hlast]
    dsimp only
    generalize hw₁ : { w with calls := n } = w₁
    have hadd : (addOrder o env w₁).2.orders = w₁.orders ∨
        ∃ now, (addOrder o env w₁).2.orders = upsert now w₁.orders (addedOrder o) := by
      refine Prog.wp_state (P := fun w' : World => w'.orders = w₁.orders ∨
        ∃ now, w'.orders = upsert now w₁.orders (addedOrder o)) ?_
      unfold addOrder findAndModify
      rw [Prog.wp_bind]
      exact wp_call (fun _ => .inl rfl) fun _ => .inr ⟨env.now w₁.calls, rfl⟩
    subst hw₁
    rcases hadd with hadd | ⟨now, hadd⟩
    · exact .inl hadd
    · exact .inr ⟨o₀, p, o, now, hp, hadd⟩

end

/-! ## The run -/

/-- The orders of the user, and what those that sell the token require; what would be negative is
not set off against the others. -/
structure Solvent (account token : Address) (p : Pair) (funds : Int) (w : World) : Prop where
  resting : ∀ d ∈ w.orders, d.userAddress = account →
    d.filledAmount = 0 ∧ 0 < d.amount ∧ 0 < d.pricePoint
  backed :
    ((w.openSelling account token).map fun d => max (d.totalRequiredSellAmount p) 0).sum ≤ funds

section
variable {account token : Address} {p : Pair} {funds : Int} {w : World}

theorem mem_openSelling {d : Order} : d ∈ w.openSelling account token ↔ d ∈ w.orders ∧
    d.userAddress = account ∧ d.isOpen ∧
      (d.quoteToken = token ∧ d.side = .BUY ∨ d.baseToken = token ∧ d.side = .SELL) := by
  simp [World.openSelling, Coll.mem_def]

theorem Solvent.requiredTotal_le (h : Solvent account token p funds w) :
    w.requiredTotal account token p ≤ funds := by
  refine Int.le_trans ?_ h.backed
  exact List.sum_le_sum fun d _ => le_max_left _ _

theorem Solvent.backed_le_locked (h : Solvent account token p funds w)
    (hf : max p.makeFee p.takeFee ≤ 0 ∨ ∀ d ∈ w.openSelling account token, d.side = .SELL) :
    ((w.openSelling account token).map fun d => max (d.totalRequiredSellAmount p) 0).sum ≤
      w.lockedBalance account token p := by
  refine List.sum_le_sum fun d hd => ?_
  obtain ⟨hw, hu, -⟩ := mem_openSelling.1 hd
  obtain ⟨h0, ha, hp⟩ := h.resting d hw hu
  exact max_le (Order.required_le_remaining h0 (hf.imp_right fun h => h d hd))
    (Order.remainingSellAmount_nonneg h0 ha hp)

/-- The order `d` is stored: it is backed if it fits next to what is locked. -/
theorem Solvent.put {w' : World} (h : Solvent account token p funds w) {d : Order}
    (hw' : w'.orders = w.orders.put d)
    (hd : d.userAddress = account → d.filledAmount = 0 ∧ 0 < d.amount ∧ 0 < d.pricePoint)
    (hfits : d ∈ w'.openSelling account token → 0 ≤ d.totalRequiredSellAmount p →
      d.totalRequiredSellAmount p +
        ((w.openSelling account token).map fun x => max (x.totalRequiredSellAmount p) 0).sum ≤
          funds) :
    Solvent account token p funds w' := by
  refine ⟨fun x hx hu => ?_, ?_⟩
  · rw [hw'] at hx
    rcases Coll.mem_put.1 hx with rfl | ⟨hx, -⟩
    · exact hd hu
    · exact h.resting x hx hu
  · have hsum := Coll.sum_put_le (c := w.orders) (d := d) (p := fun o => o.userAddress = account ∧
      o.isOpen ∧ (o.quoteToken = token ∧ o.side = .BUY ∨ o.baseToken = token ∧ o.side = .SELL))
      (f := fun d => max (d.totalRequiredSellAmount p) 0) fun x _ => le_max_right _ _
    rw [← hw'] at hsum
    refine Int.le_trans hsum ?_
    have hold := h.backed
    split
    · rename_i hsel
      have hmem : d ∈ w'.openSelling account token := by
        rw [mem_openSelling, hw']
        exact ⟨Coll.mem_put.2 (.inl rfl), of_decide_eq_true hsel⟩
      by_cases hpos : 0 ≤ d.totalRequiredSellAmount p
      · rw [max_eq_left hpos]
        exact hfits hmem hpos
      · rw [max_eq_right (by omega), zero_add]
        exact hold
    · rw [zero_add]
      exact hold

end

section
variable {s : Services} {env : Env} {account token : Address} {p : Pair} {A B : Int}
  (hpair : (s.pairs.find? fun q => q.baseTokenAddress = p.baseTokenAddress ∧
    q.quoteTokenAddress = p.quoteTokenAddress) = some p)
  (hB : ∀ n, s.balanceOf n account token = B)
  (hA : ∀ n, s.allowance n account s.exchangeAddress token = A)
include hpair hB hA

theorem Solvent.step {w : World} {r : RawOrder} (hi : Solvent account token p (min A B) w)
    (hr : r.Submits account p) (hf : FeesLocked account p w r) :
    Solvent account token p (min A B) (s.restingStep env w r) := by
  obtain h | ⟨o₀, q, o, now, hp, h⟩ : (s.restingStep env w r).orders = w.orders ∨
      ∃ o₀ p o now, s.Publishes env w r o₀ p o ∧
        (s.restingStep env w r).orders = upsert now w.orders (addedOrder o) := restingStep_cases
  · refine ⟨fun d hd => hi.resting d (h ▸ hd), ?_⟩
    have hsame : (s.restingStep env w r).openSelling account token =
        w.openSelling account token := by
      unfold World.openSelling
      rw [h]
    rw [hsame]
    exact hi.backed
  · have horder := hp.order
    have huser : o.userAddress = account := hp.userAddress.trans hr.user
    have hbase : o.baseToken = p.baseTokenAddress :=
      (congrArg Order.baseToken horder).symm.trans hr.base
    have hquote : o.quoteToken = p.quoteTokenAddress :=
      (congrArg Order.quoteToken horder).symm.trans hr.quote
    have hfill : o.filledAmount = 0 := (congrArg Order.filledAmount horder).symm.trans hr.unfilled
    have hsell : r.order.sellToken = o.sellToken := by
      rw [horder]
      rfl
    have hvalid : 0 < o.amount ∧ 0 < o.pricePoint := by
      obtain ⟨sig, hv⟩ := hp.valid
      have hvalid := RawOrder.validate_eq_ok hv
      rw [hp.eq]
      exact ⟨hvalid.amount, hvalid.pricePoint⟩
    have hadded : addedOrder o = o.withStatus .OPEN := if_pos hfill
    rw [hadded] at h
    unfold upsert at h
    generalize hdoc :
      updatedDoc now (w.orders.get (o.withStatus .OPEN).hash) (o.withStatus .OPEN) = d at h
    have hterms : d.terms = o.terms := by
      rw [← hdoc]
      exact updatedDoc_terms now _ (o.withStatus .OPEN)
    have hsame := Order.sameTerms hterms
    refine hi.put h (fun _ => ?_) fun hmem _ => ?_
    · refine ⟨?_, hsame.amount ▸ hvalid.1, hsame.pricePoint ▸ hvalid.2⟩
      rw [← hdoc, updatedDoc_filledAmount]
      exact hfill
    · -- the order sells the token: the check has compared it with the funds
      have htoken : o.sellToken = token := by
        obtain ⟨-, -, -, hsel⟩ := mem_openSelling.1 hmem
        rw [hsame.side, hsame.quoteToken, hsame.baseToken] at hsel
        unfold Order.sellToken
        rcases hsel with ⟨ht, hs⟩ | ⟨ht, hs⟩
        · rw [if_pos hs]
          exact ht
        · rw [if_neg (by rw [hs]; decide)]
          exact ht
      have htotal : d.totalRequiredSellAmount p = o.totalRequiredSellAmount p := by
        show d.terms.totalRequiredSellAmount p = o.terms.totalRequiredSellAmount p
        rw [hterms]
      obtain ⟨p', n₁, n₂, ha, hbal, hall⟩ := Services.validateAvailableBalance_funded hp.funded
      have hp' : p' = p := by
        have hfound := ha.pair
        rw [hbase, hquote, hpair] at hfound
        exact (Option.some.inj hfound).symm
      subst hp'
      rw [huser, htoken, hB] at hbal
      rw [huser, htoken, hA] at hall
      have hlocked := hi.backed_le_locked (by
        unfold FeesLocked at hf
        rwa [hsell, htoken] at hf)
      have hw : w.tick.lockedBalance account token p' = w.lockedBalance account token p' := rfl
      rw [htotal]
      omega

end

/-- **The open orders of a user are backed**, as long as no fee is left out: after every request the
open orders that sell the token require at most the balance and the allowance. -/
theorem open_orders_solvent {s : Services} {env : Env} {account token : Address} {p : Pair}
    {A B : Int} (hpair : (s.pairs.find? fun q => q.baseTokenAddress = p.baseTokenAddress ∧
      q.quoteTokenAddress = p.quoteTokenAddress) = some p)
    (hB : ∀ n, s.balanceOf n account token = B) (hB0 : 0 ≤ B)
    (hA : ∀ n, s.allowance n account s.exchangeAddress token = A) (hA0 : 0 ≤ A)
    {w₀ : World} (h0 : ∀ d ∈ w₀.orders, d.userAddress ≠ account) {rs : List RawOrder} {w : World}
    (h : Run (fun _ w r => r.Submits account p ∧ FeesLocked account p w r) (s.restingStep env)
      w₀ rs w) :
    w.requiredTotal account token p ≤ min A B := by
  have hstart : Solvent account token p (min A B) w₀ := by
    have hnone : w₀.openSelling account token = [] := by
      refine List.eq_nil_iff_forall_not_mem.2 fun d hd => ?_
      obtain ⟨hw, hu, -⟩ := mem_openSelling.1 hd
      exact h0 d hw hu
    refine ⟨fun d hd hu => absurd hu (h0 d hd), ?_⟩
    rw [hnone]
    exact le_min hA0 hB0
  have hi : Solvent account token p (min A B) w :=
    h.invariant (I := fun _ w => Solvent account token p (min A B) w) hstart
      fun _ w r _ hi hok => hi.step hpair hB hA hok.1 hok.2
  exact hi.requiredTotal_le

/-- A pair with a fee, on which 10 of the base token at the price `10 ^ 18` are 10 of the quote
token. -/
def Services.sampleFee (funds : Int) : Services where
  exchangeAddress := 2
  pairs := [⟨"ZRX", 3, 0, "WETH", 4, 1, 0⟩]
  balanceOf _ _ _ := funds
  allowance _ _ _ _ := funds

/-- A signed order with the fees of that pair. -/
def RawOrder.sampleFee (nonce : Int) (side : Side) (amount : Int) : RawOrder :=
  { RawOrder.sample nonce side (10 ^ 18) amount with makeFee := some 1 }

/-- A BUY of 10, then two SELL orders of 4 and 6: the orders that sell a token require 11, and
10. -/
theorem open_orders_solvent_both_sides :
    let s := Services.sampleFee 11
    let p : Pair := ⟨"ZRX", 3, 0, "WETH", 4, 1, 0⟩
    let rs := [RawOrder.sampleFee 1 .BUY 10, .sampleFee 2 .SELL 4, .sampleFee 3 .SELL 6]
    ∃ w, Run (fun _ w r => r.Submits 1 p ∧ FeesLocked 1 p w r)
        (s.restingStep (.sample .stored)) .empty rs w ∧
      (w.requiredTotal 1 4 p = 11 ∧ w.requiredTotal 1 4 p ≤ min 11 11) ∧
      (w.requiredTotal 1 3 p = 10 ∧ w.requiredTotal 1 3 p ≤ min 11 11) := by
  intro s p rs
  have hrun : Run (fun _ w r => r.Submits 1 p ∧ FeesLocked 1 p w r)
      (s.restingStep (.sample .stored)) .empty rs _ := Run.of_check _ (by decide +kernel)
  refine ⟨_, hrun, ⟨by decide +kernel, ?_⟩, by decide +kernel, ?_⟩
  · exact open_orders_solvent rfl (fun _ => rfl) (by decide) (fun _ => rfl) (by decide)
      (fun d hd => by cases hd) hrun
  · exact open_orders_solvent rfl (fun _ => rfl) (by decide) (fun _ => rfl) (by decide)
      (fun d hd => by cases hd) hrun

/-- Two BUY orders of 10 with a fee of 1 each are accepted on funds of 21. -/
theorem fees_not_locked :
    let s := Services.sampleFee 21
    let p : Pair := ⟨"ZRX", 3, 0, "WETH", 4, 1, 0⟩
    ∃ w, Run (fun _ _ r => r.Submits 1 p) (s.restingStep (.sample .stored)) .empty
        [.sampleFee 1 .BUY 10, .sampleFee 2 .BUY 10] w ∧
      (w.openSelling 1 4).length = 2 ∧ w.requiredTotal 1 4 p = 22 ∧
      ¬w.requiredTotal 1 4 p ≤ min 21 21 :=
  ⟨_, Run.of_check _ (by decide +kernel), by decide +kernel, by decide +kernel, by decide +kernel⟩

end Dex
