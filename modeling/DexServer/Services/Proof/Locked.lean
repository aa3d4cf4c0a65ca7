import DexServer.Sample
import DexServer.Services.Proof.Funds
import Mathlib.Algebra.Order.BigOperators.Group.List
import Mathlib.Algebra.Order.Group.Int

/-!
# What the orders of several pairs lock

`GetUserLockedBalance` finds the open orders of a user on every pair, and computes what is left to
sell of each with the one pair of the caller. For a BUY that divides by the multiplier of the pair,
and so by the decimals of a base token that need not be the order's.

* `locked_iff_foreign`: what decides are the BUY orders on pairs with other decimals.
* `locked_per_order_iff`: for every pair a caller may pass, the orders lock what they do with their
  own pairs exactly if each BUY is worth nothing with either pair, or the decimals are the same.
-/

namespace Dex

open Lib

/-- The user's open orders whose sell token is `token`. -/
def World.openWithSellToken (w : World) (account token : Address) : List Order :=
  w.orders.docs.filter fun o => o.userAddress = account ∧ o.isOpen ∧
    (o.side = .BUY ∨ o.side = .SELL) ∧ o.sellToken = token

theorem World.openSelling_eq (w : World) (account token : Address) :
    w.openSelling account token = w.openWithSellToken account token := by
  refine List.filter_congr fun o _ => ?_
  rw [decide_eq_decide]
  cases hs : o.side <;> simp [Order.sellToken, hs]

/-- What the orders lock, each computed with its own pair. -/
def World.lockedPerOrder (w : World) (account token : Address) (own : Order → Pair) : Int :=
  ((w.openWithSellToken account token).map fun o => o.remainingSellAmount (own o)).sum

/-- `GetByTokenAddress` finds the pair `own o` for the order `o`. -/
def Services.OwnPairs (s : Services) (own : Order → Pair) (l : List Order) : Prop :=
  ∀ o ∈ l, (s.pairs.find? fun p =>
    p.baseTokenAddress = o.baseToken ∧ p.quoteTokenAddress = o.quoteToken) = some (own o)

instance (s : Services) (own : Order → Pair) (l : List Order) : Decidable (s.OwnPairs own l) :=
  inferInstanceAs (Decidable (∀ o ∈ l, _))

/-! ## One order under two pairs -/

namespace Order

/-- The order is a BUY on a pair whose base token has other decimals than that of `p`. -/
def Foreign (own : Order → Pair) (p : Pair) (o : Order) : Prop :=
  o.side = .BUY ∧ (own o).baseTokenDecimals ≠ p.baseTokenDecimals

instance (own : Order → Pair) (p : Pair) (o : Order) : Decidable (o.Foreign own p) :=
  inferInstanceAs (Decidable (_ ∧ _))

/-- What is left of the order, as a BUY, is below one unit of the quote token with both pairs. -/
def Worthless (o : Order) (p q : Pair) : Prop :=
  o.remainingAmount * o.pricePoint < 10 ^ 18 * 10 ^ min p.baseTokenDecimals q.baseTokenDecimals

instance (o : Order) (p q : Pair) : Decidable (o.Worthless p q) :=
  inferInstanceAs (Decidable (_ < _))

variable {o : Order} {p q : Pair}

theorem remainingSellAmount_congr (h : o.side = .BUY → p.baseTokenDecimals = q.baseTokenDecimals) :
    o.remainingSellAmount p = o.remainingSellAmount q := by
  unfold remainingSellAmount
  split
  · rename_i hs
    rw [Pair.pairMultiplier, Pair.pairMultiplier, h hs]
  · rfl

/-- With `k` more decimals, the amount is divided by `10 ^ k` once more. -/
theorem remainingSellAmount_buy (hs : o.side = .BUY) {k : Nat}
    (hd : q.baseTokenDecimals = p.baseTokenDecimals + k) :
    o.remainingSellAmount q = o.remainingSellAmount p / 10 ^ k := by
  have hm : q.pairMultiplier = p.pairMultiplier * 10 ^ k := by
    rw [Pair.pairMultiplier, Pair.pairMultiplier, hd, Int.pow_add, Int.mul_assoc]
  rw [remainingSellAmount, remainingSellAmount, if_pos hs, if_pos hs, hm,
    Int.ediv_ediv_of_nonneg p.pairMultiplier_pos.le]

section
variable (h0 : 0 ≤ o.remainingAmount * o.pricePoint)
include h0

theorem remainingSellAmount_buy_nonneg (hs : o.side = .BUY) (p : Pair) :
    0 ≤ o.remainingSellAmount p := by
  rw [remainingSellAmount, if_pos hs]
  exact Int.ediv_nonneg h0 p.pairMultiplier_pos.le

theorem remainingSellAmount_anti (hd : p.baseTokenDecimals ≤ q.baseTokenDecimals) :
    o.remainingSellAmount q ≤ o.remainingSellAmount p := by
  by_cases hs : o.side = .BUY
  · obtain ⟨k, hk⟩ := Nat.exists_eq_add_of_le hd
    rw [remainingSellAmount_buy hs hk]
    exact Int.ediv_le_self _ (remainingSellAmount_buy_nonneg h0 hs p)
  · exact (remainingSellAmount_congr fun h => absurd h hs).le

theorem remainingSellAmount_eq_zero_iff (hs : o.side = .BUY) :
    o.remainingSellAmount p = 0 ↔ o.remainingAmount * o.pricePoint < p.pairMultiplier := by
  have hpos := p.pairMultiplier_pos
  have hlt : o.remainingSellAmount p < 1 ↔ o.remainingAmount * o.pricePoint < p.pairMultiplier := by
    rw [remainingSellAmount, if_pos hs, Int.ediv_lt_iff_lt_mul hpos, Int.one_mul]
  rw [← hlt]
  have hnn := remainingSellAmount_buy_nonneg h0 hs p
  omega

theorem remainingSellAmount_eq_iff_of_lt (hs : o.side = .BUY)
    (hd : p.baseTokenDecimals < q.baseTokenDecimals) :
    o.remainingSellAmount p = o.remainingSellAmount q ↔ o.remainingSellAmount p = 0 := by
  obtain ⟨k, hk⟩ := Nat.exists_eq_add_of_lt hd
  have hk : q.baseTokenDecimals = p.baseTokenDecimals + (k + 1) := by omega
  have hnn := remainingSellAmount_buy_nonneg h0 hs p
  rw [remainingSellAmount_buy hs hk]
  constructor
  · intro h
    by_contra hne
    have hone : (10 : Int) ^ (k + 1) ≠ 1 := by
      have := Int.pow_lt_pow_of_lt (a := 10) (by decide) (Nat.succ_pos k)
      omega
    have hlt := Int.ediv_lt_self_of_pos_of_ne_one (lt_of_le_of_ne hnn (Ne.symm hne)) hone
    omega
  · intro h
    rw [h, Int.zero_ediv]

theorem remainingSellAmount_eq_iff (hs : o.side = .BUY)
    (hd : p.baseTokenDecimals ≠ q.baseTokenDecimals) :
    o.remainingSellAmount p = o.remainingSellAmount q ↔ o.Worthless p q := by
  unfold Worthless
  rcases Nat.lt_or_gt_of_ne hd with hlt | hlt
  · rw [remainingSellAmount_eq_iff_of_lt h0 hs hlt, remainingSellAmount_eq_zero_iff h0 hs,
      Nat.min_eq_left hlt.le]
    rfl
  · rw [eq_comm, remainingSellAmount_eq_iff_of_lt h0 hs hlt, remainingSellAmount_eq_zero_iff h0 hs,
      Nat.min_eq_right hlt.le]
    rfl

end

end Order

/-! ## All orders -/

theorem sum_eq_iff_filter {f g : Order → Int} {c : Order → Prop} [DecidablePred c] :
    ∀ {l : List Order}, (∀ o ∈ l, ¬c o → f o = g o) →
      ((l.map f).sum = (l.map g).sum ↔ ((l.filter c).map f).sum = ((l.filter c).map g).sum) := by
  intro l h
  have hdiff : (l.map f).sum - (l.map g).sum =
      ((l.filter c).map f).sum - ((l.filter c).map g).sum := by
    induction l with
    | nil => rfl
    | cons o l ih =>
      have ih := ih fun o' ho' => h o' (.tail _ ho')
      by_cases hc : c o
      · simp only [hc, decide_true, List.filter_cons_of_pos, List.map_cons, List.sum_cons]
        omega
      · have ho := h o (.head _) hc
        simp only [hc, decide_false, Bool.false_eq_true, not_false_eq_true, List.filter_cons_of_neg,
          List.map_cons, List.sum_cons]
        omega
  omega

theorem eq_of_sum_eq {f g : Order → Int} {l : List Order} (hle : ∀ o ∈ l, f o ≤ g o)
    (h : (l.map f).sum = (l.map g).sum) : ∀ o ∈ l, f o = g o := by
  intro o ho
  by_contra hne
  have hlt : f o < g o := lt_of_le_of_ne (hle o ho) hne
  exact absurd h (List.sum_lt_sum f g hle ⟨o, ho, hlt⟩).ne

section
variable {env : Env} {w : World} {account token : Address} {own : Order → Pair}

/-- The BUY orders on pairs with other decimals lock with `p` what they do with their own pairs. -/
def World.ForeignAgree (w : World) (account token : Address) (own : Order → Pair) (p : Pair) :
    Prop :=
  let foreign := (w.openWithSellToken account token).filter (·.Foreign own p)
  (foreign.map (·.remainingSellAmount p)).sum =
    (foreign.map fun o => o.remainingSellAmount (own o)).sum

theorem getUserLockedBalance_iff (hf : env.fails w.calls = false) (p : Pair) :
    (getUserLockedBalance account token p env w).1 = .ok (w.lockedPerOrder account token own) ↔
      ((w.openWithSellToken account token).map (·.remainingSellAmount p)).sum =
        w.lockedPerOrder account token own := by
  have hres : getUserLockedBalance account token p env w =
      (.ok ((w.openSelling account token).map (·.remainingSellAmount p)).sum, w.tick) := by
    rw [getUserLockedBalance, call, if_neg (by simp [hf])]
    rfl
  rw [hres, Except.ok.injEq, World.openSelling_eq]

theorem locked_iff_foreign (hf : env.fails w.calls = false) (p : Pair) :
    (getUserLockedBalance account token p env w).1 = .ok (w.lockedPerOrder account token own) ↔
      w.ForeignAgree account token own p := by
  rw [getUserLockedBalance_iff hf]
  refine sum_eq_iff_filter fun o _ ho => Order.remainingSellAmount_congr fun hs => ?_
  by_contra hne
  exact ho ⟨hs, Ne.symm hne⟩

theorem remainingSellAmount_eq_of_sum {l : List Order} {p q : Pair}
    (h0 : ∀ o ∈ l, 0 ≤ o.remainingAmount * o.pricePoint)
    (h : (l.map (·.remainingSellAmount p)).sum = (l.map (·.remainingSellAmount q)).sum) :
    ∀ o ∈ l, o.remainingSellAmount p = o.remainingSellAmount q := by
  rcases Nat.le_total p.baseTokenDecimals q.baseTokenDecimals with hd | hd
  · intro o ho
    exact (eq_of_sum_eq (fun o ho => Order.remainingSellAmount_anti (h0 o ho) hd) h.symm o ho).symm
  · exact eq_of_sum_eq (fun o ho => Order.remainingSellAmount_anti (h0 o ho) hd) h

/-- **What the orders of a user lock is computed per order** exactly if the BUY orders on pairs with
other decimals than the caller's agree. If no order is overfilled, this is so for every listed pair
exactly if each of these BUY orders is worth nothing. -/
theorem locked_per_order_iff (s : Services) (w : World) (account token : Address)
    (own : Order → Pair) (hf : env.fails w.calls = false)
    (hown : s.OwnPairs own (w.openWithSellToken account token)) :
    (∀ p, (getUserLockedBalance account token p env w).1 =
        .ok (w.lockedPerOrder account token own) ↔ w.ForeignAgree account token own p) ∧
      ((∀ o ∈ w.openWithSellToken account token, 0 ≤ o.remainingAmount * o.pricePoint) →
        ((∀ p ∈ s.pairs, (getUserLockedBalance account token p env w).1 =
            .ok (w.lockedPerOrder account token own)) ↔
          ∀ o ∈ w.openWithSellToken account token, ∀ p ∈ s.pairs,
            o.Foreign own p → o.Worthless p (own o))) := by
  refine ⟨locked_iff_foreign hf, fun h0 => ?_⟩
  have hlisted : ∀ o ∈ w.openWithSellToken account token, own o ∈ s.pairs :=
    fun o ho => List.mem_of_find?_eq_some (hown o ho)
  constructor
  · intro h o ho p hp hfor
    -- the sum with `p` is the sum with the order's own pair, so every term is
    have hp := (getUserLockedBalance_iff hf p).1 (h p hp)
    have hq := (getUserLockedBalance_iff hf (own o)).1 (h (own o) (hlisted o ho))
    have heq := remainingSellAmount_eq_of_sum h0 (hp.trans hq.symm) o ho
    exact (Order.remainingSellAmount_eq_iff (h0 o ho) hfor.1 (Ne.symm hfor.2)).1 heq
  · intro h p hp
    rw [getUserLockedBalance_iff hf]
    refine congrArg List.sum (List.map_congr_left fun o ho => ?_)
    by_cases hfor : o.Foreign own p
    · exact (Order.remainingSellAmount_eq_iff (h0 o ho) hfor.1 (Ne.symm hfor.2)).2
        (h o ho p hp hfor)
    · refine Order.remainingSellAmount_congr fun hs => ?_
      by_contra hne
      exact hfor ⟨hs, Ne.symm hne⟩

end

/-- The pair `ZRX/WETH`, with 18 decimals, and the pair `USDC/WETH`, with 6. -/
def Pair.sampleZrx : Pair := ⟨"ZRX", 3, 18, "WETH", 4, 0, 0⟩
def Pair.sampleUsdc : Pair := ⟨"USDC", 5, 6, "WETH", 4, 0, 0⟩

/-- A BUY of two ZRX for one WETH each. -/
def Order.sampleZrx : Order := Order.sample 1 .BUY (10 ^ 36) (2 * 10 ^ 18)

/-- A BUY of one USDC for a hundredth of a WETH. -/
def Order.sampleUsdc : Order :=
  { Order.sample 2 .BUY (10 ^ 34) (10 ^ 6) with baseToken := 5, pairName := "USDC/WETH" }

/-- One listed pair: two WETH are locked. -/
theorem locked_on_one_pair :
    let s := { Services.sample with pairs := [.sampleZrx] }
    let w := { World.empty with orders := Coll.empty.put .sampleZrx }
    ∀ p ∈ s.pairs, (getUserLockedBalance 1 4 p (.sample .stored) w).1 =
      .ok (w.lockedPerOrder 1 4 fun _ => .sampleZrx) := by
  intro s w
  have h := locked_per_order_iff s w 1 4 (fun _ => .sampleZrx) (Env.sample_faultless .stored 0)
    (by decide)
  exact (h.2 (by decide)).2 (by decide)

/-- Two pairs: with the pair `ZRX/WETH`, the BUY of a USDC locks next to nothing. -/
theorem locked_depends_on_pair :
    let own := fun o : Order => if o.baseToken = 3 then Pair.sampleZrx else .sampleUsdc
    let w := { World.empty with orders := Coll.empty.putAll [.sampleZrx, .sampleUsdc] }
    (getUserLockedBalance 1 4 .sampleZrx (.sample .stored) w).1 = .ok (2 * 10 ^ 18 + 10 ^ 4) ∧
      w.lockedPerOrder 1 4 own = 2 * 10 ^ 18 + 10 ^ 16 := by
  decide

end Dex
