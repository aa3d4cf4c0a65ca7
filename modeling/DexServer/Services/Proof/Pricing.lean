import DexServer.Sample
import DexServer.Services.Deposit
import DexServer.Types.Proof.Rational
import Mathlib.Algebra.Order.Ring.Rat
import Mathlib.Tactic.Ring

/-!
# The base tokens a deposit buys

An order at the price point `pp` pays `amount * pp / PairMultiplier` of the quote token. A deposit
is converted at the best bid with `PricepointMultiplier`, which is smaller by a factor of at least a
billion; without a bid it is multiplied by the price of the oracle if that is an integer, and taken
as it is if not.

* `converted_iff`: at a bid, the amount is what the quote tokens buy exactly if they buy nothing.
* `oracle_priced_iff`: at the oracle's price `r`, exactly if multiplying by `r` (or by one) happens
  to divide by it.
* `base_amount_priced_iff`: both, for `GetBaseTokenAmount`.
-/

namespace Dex

open Lib

/-- With the multiplier `m`, `a` is the largest amount that `q` of the quote token buy at `pp`. -/
def Bought (m pp q a : Int) : Prop := a * pp ≤ q * m ∧ q * m < (a + 1) * pp

instance (m pp q a : Int) : Decidable (Bought m pp q a) := inferInstanceAs (Decidable (_ ∧ _))

theorem Bought.eq_ediv {m pp q a : Int} (hpp : 0 < pp) : Bought m pp q a ↔ a = q * m / pp := by
  unfold Bought
  rw [← Int.le_ediv_iff_mul_le hpp, ← Int.ediv_lt_iff_lt_mul hpp]
  omega

namespace TokenPair

theorem pricepointMultiplier_nonneg (p : TokenPair) : 0 ≤ p.pricepointMultiplier :=
  Int.ediv_nonneg (Int.mul_nonneg (Int.pow_nonneg (by decide)) (by decide))
    (Int.pow_nonneg (by decide))

/-- The multiplier of a conversion is at least a billion times smaller than that of an order. -/
theorem pricepointMultiplier_le (p : TokenPair) :
    10 ^ 9 * p.pricepointMultiplier ≤ p.pairMultiplier := by
  have hle : p.pricepointMultiplier ≤ 10 ^ p.baseTokenDecimals * 10 ^ 9 :=
    Int.ediv_le_self _ (Int.mul_nonneg (Int.pow_nonneg (by decide)) (by decide))
  unfold Pair.pairMultiplier
  omega

end TokenPair

/-- **At a bid**: the conversion gives what an order at that price buys exactly if that is
nothing. -/
theorem converted_iff (p : TokenPair) {pp q : Int} (hpp : 0 < pp) (hq : 0 ≤ q) :
    Bought p.pairMultiplier pp q (q * p.pricepointMultiplier / pp) ↔ q * p.pairMultiplier < pp := by
  have hle : 10 ^ 9 * (q * p.pricepointMultiplier) ≤ q * p.pairMultiplier := by
    calc 10 ^ 9 * (q * p.pricepointMultiplier) = q * (10 ^ 9 * p.pricepointMultiplier) := by ring
      _ ≤ q * p.pairMultiplier := Int.mul_le_mul_of_nonneg_left p.pricepointMultiplier_le hq
  have hnn : 0 ≤ q * p.pricepointMultiplier := Int.mul_nonneg hq p.pricepointMultiplier_nonneg
  rw [Bought.eq_ediv hpp]
  generalize q * p.pricepointMultiplier = x at hle hnn ⊢
  generalize q * p.pairMultiplier = y at hle ⊢
  constructor
  · intro h
    by_contra hge
    -- a quotient of at least one cannot be the same after a division by a billion
    have hone : 1 ≤ x / pp := by
      rw [h, Int.le_ediv_iff_mul_le hpp]
      omega
    have hpos : 1 * pp ≤ x / pp * pp := Int.mul_le_mul_of_nonneg_right hone hpp.le
    have hx : x / pp * pp ≤ x := Int.ediv_mul_le x hpp.ne'
    have hy : y < x / pp * pp + pp := by
      have hlt := Int.lt_ediv_add_one_mul_self y hpp
      rw [← h, Int.add_mul, Int.one_mul] at hlt
      exact hlt
    omega
  · intro h
    rw [Int.ediv_eq_zero_of_lt hnn (by omega), Int.ediv_eq_zero_of_lt (by omega) h]

/-! ## The oracle -/

/-- At the price `r`, of whole quote tokens for a whole base token, `a` is the largest amount that
`q` buy; the tokens have `bd` and `qd` decimals. -/
def BoughtAt (bd qd : Nat) (r : Rat) (q a : Int) : Prop :=
  a * r * 10 ^ qd ≤ q * 10 ^ bd ∧ q * 10 ^ bd < (a + 1) * r * 10 ^ qd

instance (bd qd : Nat) (r : Rat) (q a : Int) : Decidable (BoughtAt bd qd r q a) :=
  inferInstanceAs (Decidable (_ ∧ _))

/-- To multiply `q` by `c` is to divide it by the price `r`, up to rounding. -/
def MultiplyDivides (bd qd : Nat) (r c : Rat) (q : Int) : Prop :=
  0 ≤ q * (10 ^ bd - c * r * 10 ^ qd) ∧ q * (10 ^ bd - c * r * 10 ^ qd) < r * 10 ^ qd

instance (bd qd : Nat) (r c : Rat) (q : Int) : Decidable (MultiplyDivides bd qd r c q) :=
  inferInstanceAs (Decidable (_ ∧ _))

theorem boughtAt_mul_iff (bd qd : Nat) (r : Rat) (q c : Int) :
    BoughtAt bd qd r q (q * c) ↔ MultiplyDivides bd qd r c q := by
  have hrest : (q : Rat) * (10 ^ bd - c * r * 10 ^ qd) =
      q * 10 ^ bd - ((q * c : Int) : Rat) * r * 10 ^ qd := by
    push_cast
    ring
  have hnext : (((q * c : Int) : Rat) + 1) * r * 10 ^ qd =
      ((q * c : Int) : Rat) * r * 10 ^ qd + r * 10 ^ qd := by ring
  unfold BoughtAt MultiplyDivides
  rw [hrest, hnext, sub_nonneg, sub_lt_iff_lt_add']

namespace DepositService

variable (s : DepositService) (env : Env)

/-- The oracle answers call `n` with a text that is the price `r`. -/
structure PriceAt (n : Nat) (text : String) (r : Rat) : Prop where
  answered : env.fails n = false
  price : s.lastPrice n = .ok text
  rat : s.ratOf text = some r
  pos : 0 < r

/-- The result is what `q` buy at the price of call `n`, or an error. -/
def PricedByOracle (bd qd : Nat) (q : Int) (n : Nat) : Except Err Int → Prop
  | .ok a => ∃ text r, s.PriceAt env n text r ∧ BoughtAt bd qd r q a
  | .error (.panic _) => False
  | .error _ => True

/-- There is a price, and what the code does with its text divides by it. -/
def OracleFits (bd qd : Nat) (q : Int) (n : Nat) : Prop :=
  ∃ text r, s.PriceAt env n text r ∧
    MultiplyDivides bd qd r (if (setString text).isSome then r else 1) q

variable {s env}

/-- What `getTokenAmountFromOracle` makes of the answer to its call. -/
theorem getTokenAmountFromOracle_eq (base quote : String) (q : Int) (w : World) :
    (s.getTokenAmountFromOracle base quote q env w).1 =
      match if env.fails w.calls then .error .io else s.lastPrice w.calls with
      | .error (.panic m) => .error (.panic m)
      | .error _ => .ok q
      | .ok text => .ok (q * (setString text).getD 1) := by
  unfold getTokenAmountFromOracle getLastPrice
  have hquery : attempted (call fun _ n w => (s.lastPrice n, w)) env w = _ :=
    attempted_query fun _ n _ => s.lastPrice n
  generalize (if env.fails w.calls then .error .io else s.lastPrice w.calls) = x at hquery ⊢
  match x, hquery with
  | .error (.panic m), hquery =>
    rw [Prog.bind_error hquery]
  | .error .io, hquery | .error .notFound, hquery | .error (.msg m), hquery =>
    rw [Prog.bind_ok hquery]
    rfl
  | .ok text, hquery =>
    rw [Prog.bind_ok hquery]
    dsimp only
    cases setString text with
    | none => simp [pure]
    | some n => rfl

/-- **At the oracle's price**: the amount fits if multiplying happens to divide. -/
theorem oracle_priced_iff (hrat : ∀ text n, setString text = some n → s.ratOf text = some (n : Rat))
    (bd qd : Nat) (base quote : String) (q : Int) (w : World) :
    s.PricedByOracle env bd qd q w.calls (s.getTokenAmountFromOracle base quote q env w).1 ↔
      s.OracleFits env bd qd q w.calls := by
  -- without a price there is no amount that fits
  have hnone : (∀ text, ¬(env.fails w.calls = false ∧ s.lastPrice w.calls = .ok text)) →
      ∀ a, (s.PricedByOracle env bd qd q w.calls (.ok a) ↔ s.OracleFits env bd qd q w.calls) := by
    intro h a
    constructor
    · rintro ⟨text, r, hp, -⟩
      exact absurd ⟨hp.answered, hp.price⟩ (h text)
    · rintro ⟨text, r, hp, -⟩
      exact absurd ⟨hp.answered, hp.price⟩ (h text)
  rw [getTokenAmountFromOracle_eq]
  cases hf : env.fails w.calls with
  | true => exact hnone (by simp [hf]) q
  | false =>
    rw [if_neg Bool.false_ne_true]
    cases hprice : s.lastPrice w.calls with
    | error e =>
      cases e with
      | panic m =>
        refine ⟨False.elim, ?_⟩
        rintro ⟨text, r, hp, -⟩
        rw [hp.price] at hprice
        cases hprice
      | io => exact hnone (by simp [hprice]) q
      | notFound => exact hnone (by simp [hprice]) q
      | msg m => exact hnone (by simp [hprice]) q
    | ok text =>
      have hfits : ∀ r, s.PriceAt env w.calls text r →
          (BoughtAt bd qd r q (q * (setString text).getD 1) ↔
            MultiplyDivides bd qd r (if (setString text).isSome then r else 1) q) := by
        intro r hp
        rw [boughtAt_mul_iff]
        cases hint : setString text with
        | none => simp
        | some n =>
          have hr : (n : Rat) = r := by
            rw [← Option.some.injEq, ← hrat text n hint, hp.rat]
          simp [hr]
      constructor
      · rintro ⟨text', r, hp, hb⟩
        cases hprice.symm.trans hp.price
        exact ⟨text, r, hp, (hfits r hp).1 hb⟩
      · rintro ⟨text', r, hp, hm⟩
        cases hprice.symm.trans hp.price
        exact ⟨text, r, hp, (hfits r hp).2 hm⟩

/-! ## `GetBaseTokenAmount` -/

variable (s env)

/-- The pair of the two symbols, as the collection finds it. -/
def pairOf (base quote : String) : Option TokenPair :=
  s.pairs.find? fun p => p.baseTokenSymbol = base ∧ p.quoteTokenSymbol = quote

/-- The store answers with the pair `p`, and with `pp` as its best bid. -/
structure BestBid (w : World) (base quote : String) (p : TokenPair) (pp : Int) : Prop where
  pair : s.pairOf base quote = some p
  pairAnswered : env.fails w.calls = false
  bid : (s.sideOrderBook (w.calls + 1) w.orders.docs p).head? = some pp
  bidAnswered : env.fails (w.calls + 1) = false

/-- The store knows no pair of the two symbols, or no bid on it: the oracle is asked in call `n`. -/
inductive NoBid (w : World) (base quote : String) : Nat → Prop
  | noPair (pair : s.pairOf base quote = none) (answered : env.fails w.calls = false) :
      NoBid w base quote (w.calls + 1)
  | noBid {p : TokenPair} (pair : s.pairOf base quote = some p)
      (pairAnswered : env.fails w.calls = false)
      (bids : s.sideOrderBook (w.calls + 1) w.orders.docs p = [])
      (bidsAnswered : env.fails (w.calls + 1) = false) : NoBid w base quote (w.calls + 2)

variable {s env} {w : World} {pairName : String} {base quote : List Char}
  (hname : pairName.toList.splitOn '/' = [base, quote])
include hname

theorem getBaseTokenAmount_same (hsame : s.toUpper base = s.toUpper quote) (q : Int) :
    s.getBaseTokenAmount pairName q env w = (.ok q, w) := by
  unfold getBaseTokenAmount
  rw [hname]
  dsimp only
  rw [if_pos hsame]
  rfl

theorem getBaseTokenAmount_pair (hne : s.toUpper base ≠ s.toUpper quote)
    (hf : env.fails w.calls = false) (q : Int) : s.getBaseTokenAmount pairName q env w =
      (match s.pairOf (s.toUpper base) (s.toUpper quote) with
        | none => s.getTokenAmountFromOracle (s.toUpper base) (s.toUpper quote) q
        | some pair => do
          let bids ← call fun _ n w => (.ok (s.sideOrderBook n w.orders.docs pair), w)
          match bids with
          | [] => s.getTokenAmountFromOracle (s.toUpper base) (s.toUpper quote) q
          | pricepoint :: _ =>
            if pricepoint = 0 then Prog.throw (.msg "Pricepoint is zero")
            else pure (q * pair.pricepointMultiplier / pricepoint)) env w.tick := by
  unfold getBaseTokenAmount
  rw [hname]
  dsimp only
  rw [if_neg hne]
  have hcall : call (fun _ _ w => (.ok (s.pairOf (s.toUpper base) (s.toUpper quote)), w)) env w =
      (.ok (s.pairOf (s.toUpper base) (s.toUpper quote)), w.tick) := by simp [call, hf]
  exact Prog.bind_ok hcall

theorem getBaseTokenAmount_bid (hne : s.toUpper base ≠ s.toUpper quote) {p : TokenPair} {pp : Int}
    (hpp : 0 < pp) (hb : s.BestBid env w (s.toUpper base) (s.toUpper quote) p pp) (q : Int) :
    (s.getBaseTokenAmount pairName q env w).1 = .ok (q * p.pricepointMultiplier / pp) := by
  obtain ⟨rest, hbids⟩ := List.head?_eq_some_iff.1 hb.bid
  have hcall : call (fun _ n w => (.ok (s.sideOrderBook n w.orders.docs p), w)) env w.tick =
      (.ok (pp :: rest), w.tick.tick) := by simp [call, hb.bidAnswered, hbids]
  rw [getBaseTokenAmount_pair hname hne hb.pairAnswered, hb.pair]
  dsimp only
  rw [Prog.bind_ok hcall]
  dsimp only
  rw [if_neg hpp.ne']
  rfl

theorem getBaseTokenAmount_oracle (hne : s.toUpper base ≠ s.toUpper quote) {n : Nat}
    (h : s.NoBid env w (s.toUpper base) (s.toUpper quote) n) (q : Int) :
    ∃ w₁ : World, w₁.calls = n ∧ s.getBaseTokenAmount pairName q env w =
      s.getTokenAmountFromOracle (s.toUpper base) (s.toUpper quote) q env w₁ := by
  cases h with
  | noPair pair answered =>
    refine ⟨w.tick, rfl, ?_⟩
    rw [getBaseTokenAmount_pair hname hne answered, pair]
  | @noBid p pair pairAnswered bids bidsAnswered =>
    refine ⟨w.tick.tick, rfl, ?_⟩
    have hcall : call (fun _ n w => (.ok (s.sideOrderBook n w.orders.docs p), w)) env w.tick =
        (.ok [], w.tick.tick) := by simp [call, bidsAnswered, bids]
    rw [getBaseTokenAmount_pair hname hne pairAnswered, pair]
    dsimp only
    rw [Prog.bind_ok hcall]

end DepositService

/-- **The base tokens of a deposit.** At a bid they are what the exchange would sell exactly if that
is nothing; without one they are what the oracle's price gives exactly if multiplying happens to
divide. -/
theorem base_amount_priced_iff (s : DepositService) (env : Env) (w : World) {pairName : String}
    {base quote : List Char} (hname : pairName.toList.splitOn '/' = [base, quote]) {q : Int}
    (hq : 0 ≤ q) (hrat : ∀ text n, setString text = some n → s.ratOf text = some (n : Rat)) :
    (∀ p pp, s.BestBid env w (s.toUpper base) (s.toUpper quote) p pp → 0 < pp →
      ((∃ a, (s.getBaseTokenAmount pairName q env w).1 = .ok a ∧ Bought p.pairMultiplier pp q a) ↔
        if s.toUpper base = s.toUpper quote then
          0 ≤ q * (p.pairMultiplier - pp) ∧ q * (p.pairMultiplier - pp) < pp
        else q * p.pairMultiplier < pp)) ∧
      (s.toUpper base ≠ s.toUpper quote → ∀ n, s.NoBid env w (s.toUpper base) (s.toUpper quote) n →
        ∀ bd qd, s.PricedByOracle env bd qd q n (s.getBaseTokenAmount pairName q env w).1 ↔
          s.OracleFits env bd qd q n) := by
  constructor
  · intro p pp hb hpp
    by_cases hsame : s.toUpper base = s.toUpper quote
    · rw [if_pos hsame, DepositService.getBaseTokenAmount_same hname hsame]
      simp only [Except.ok.injEq, exists_eq_left', Bought, Int.mul_sub, Int.add_mul, Int.one_mul]
      omega
    · rw [if_neg hsame, DepositService.getBaseTokenAmount_bid hname hsame hpp hb,
        ← converted_iff p hpp hq]
      simp
  · intro hne n hn bd qd
    obtain ⟨w₁, rfl, heq⟩ := DepositService.getBaseTokenAmount_oracle hname hne hn q
    rw [heq]
    exact DepositService.oracle_priced_iff hrat bd qd _ _ q w₁

/-- The pair `TOMO/ETH`, of two tokens with 18 decimals. -/
def TokenPair.sampleTomo : TokenPair := ⟨⟨"TOMO", 3, 18, "ETH", 4, 0, 0⟩, 18⟩

/-- A deposit service with `bids` as the best bids and `price` as the answer of the oracle. -/
def DepositService.sampleQuoting (bids : List Int) (price : Except Err String) :
    DepositService where
  minimumValueWei := 1
  minimumValueSat := 1
  signerPublicKey := 0
  pairs := [.sampleTomo]
  sideOrderBook _ _ _ := bids
  lastPrice _ := price
  toUpper cs := .ofList (cs.map Char.toUpper)
  ratOf := ratSetString

/-- A deposit too small to buy anything buys nothing, and at an oracle price of one it buys
itself. -/
theorem base_amount_priced_tiny :
    let env := Env.sample .stored
    let s := DepositService.sampleQuoting [10 ^ 37] (.ok "1")
    let s' := DepositService.sampleQuoting [] (.ok "1")
    (∃ a, (s.getBaseTokenAmount "TOMO/ETH" 9 env .empty).1 = .ok a ∧
        Bought (10 ^ 36) (10 ^ 37) 9 a) ∧
      s'.PricedByOracle env 18 18 9 2 (s'.getBaseTokenAmount "TOMO/ETH" 9 env .empty).1 := by
  intro env s s'
  have hname : "TOMO/ETH".toList.splitOn '/' = [['T', 'O', 'M', 'O'], ['E', 'T', 'H']] := by decide
  constructor
  · have h :=
      (base_amount_priced_iff s env .empty hname (q := 9) (by decide) ratSetString_of_setString).1
      .sampleTomo (10 ^ 37) ⟨by decide, rfl, rfl, rfl⟩ (by decide)
    exact h.2 (by decide)
  · have h := (base_amount_priced_iff s' env .empty hname (q := 9) (by decide)
      ratSetString_of_setString).2
      (by decide) 2 (.noBid (p := .sampleTomo) (by decide) rfl rfl rfl) 18 18
    exact h.2 ⟨"1", 1, ⟨rfl, rfl, ratSetString_of_setString _ 1 (by decide), by decide⟩,
      by decide +kernel⟩

/-- A deposit of one `ETH`. The best bid is one `ETH` for a `TOMO`, and nothing is bought. The
oracle's price is a half and one `TOMO` is bought, or there is no price and one `TOMO` is bought.
Its price is two and two are bought. -/
theorem base_amount_mispriced :
    let env := Env.sample .stored
    let amount := fun bids price =>
      ((DepositService.sampleQuoting bids price).getBaseTokenAmount "TOMO/ETH"
        (10 ^ 18) env .empty).1
    amount [10 ^ 36] (.ok "1") = .ok 0 ∧ Bought (10 ^ 36) (10 ^ 36) (10 ^ 18) (10 ^ 18) ∧
      amount [] (.ok "0.5") = .ok (10 ^ 18) ∧ BoughtAt 18 18 (1 / 2) (10 ^ 18) (2 * 10 ^ 18) ∧
      amount [] (.error .io) = .ok (10 ^ 18) ∧
      amount [] (.ok "2") = .ok (2 * 10 ^ 18) ∧ BoughtAt 18 18 2 (10 ^ 18) (10 ^ 18 / 2) := by
  decide +kernel

end Dex
