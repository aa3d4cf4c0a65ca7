import DexServer.Engine.Proof.Priority

/-!
# A taker that comes with a fill

The loop of `buyOrder` and `sellOrder` counts down from the full amount of the order
(`remainingOrder`), the trades from what is left of it. The two agree for an order nothing of which
was filled; for an order that is published again after an invalidation the counter does not get to
zero.

* `FillsRest`: the order trades what is left of it, with as many makers as that takes, and what it
  ends as is reported.
* `rest_filled_iff`: it does exactly if nothing of it was filled before, or the makers have less
  than what is left of it.
* `refilled_order_runs_on`: an order of 10 of which 4 were filled takes 6 from the first maker,
  nothing from the second, and ends full and PARTIAL_FILLED.
-/

namespace Dex

open Lib

/-- What is left of the makers together. -/
def leftOf (l : List Order) : Int := (l.map (·.remainingAmount)).sum

/-- The order `o` was matched with the makers `l`, from the orders `c` to the orders `c'`. -/
structure FillsRest (o : Order) (l : List Order) (c c' : Coll Order.hash)
    (res : EngineResponse) : Prop where
  positive : ∀ t ∈ res.trades, 0 < t.amount
  total : (res.trades.map (·.amount)).sum = min o.remainingAmount (leftOf l)
  makers : res.trades.map (·.makerOrderHash) <+: l.map Order.hash
  /-- there is a trade only while something is left of the order -/
  stops : ∀ i < res.trades.length, leftOf (l.take i) < o.remainingAmount
  reported : ∃ o' d, res.order = some o' ∧ c'.get o.hash = some d ∧
    o'.filledAmount = d.filledAmount ∧ o'.status = d.status ∧
    if d.filledAmount = o.amount then res.status = .ORDER_FILLED ∧ d.status = .FILLED
    else res.status = .ORDER_PARTIALLY_FILLED ∧ d.status = .PARTIAL_FILLED
  /-- makers after the one that uses up the order are not written -/
  untouched : ∀ i mo, l[i]? = some mo → o.remainingAmount ≤ leftOf (l.take i) →
    mo.hash ≠ o.hash → c'.get mo.hash = c.get mo.hash

/-- Some maker matches, and the counter of the loop counts what is left of the order or the makers
do not use the order up. -/
def Order.CountsRest (o : Order) (l : List Order) : Prop :=
  l ≠ [] ∧ (o.filledAmount = 0 ∨ leftOf l < o.remainingAmount)

instance (o : Order) (l : List Order) : Decidable (o.CountsRest l) :=
  inferInstanceAs (Decidable (_ ∧ _))

/-! ## The counter -/

/-- The counter is ahead of what is left of the order: the loop runs to the end of the list. -/
theorem matchOrders_runsOn : ∀ (l : List Order) (o : Order) (rem : Int), o.remainingAmount < rem →
    (matchOrders o rem l).status = .ORDER_PARTIALLY_FILLED
  | [], _, _, _ => rfl
  | mo :: l, o, rem, h => by
    have hmin := tradeAmount_eq_min o mo
    have hne : rem - tradeAmount o mo ≠ 0 := by omega
    have hrem : (filledTaker o mo).remainingAmount < rem - tradeAmount o mo := by
      simp only [filledTaker, Order.remainingAmount] at h ⊢
      omega
    unfold matchOrders
    rw [if_neg hne]
    exact matchOrders_runsOn l (filledTaker o mo) (rem - tradeAmount o mo) hrem

section
variable {o : Order} {l : List Order} (h0 : 0 ≤ o.filledAmount) (hlt : o.filledAmount < o.amount)
  (hl : ∀ mo ∈ l, 0 < mo.remainingAmount)
include h0 hlt

theorem processOrder_shares : (processOrder o l).fills.map (fun p => (p.2, tradeAmount p.1 p.2)) =
    allot Order.remainingAmount (o.filledAmount = 0) o.remainingAmount l :=
  processOrder_allot ⟨by omega, h0, by omega⟩ l

omit hlt in
theorem processOrder_filledAmount :
    (processOrder o l).takerOrder.filledAmount = o.filledAmount + (processOrder o l).filled := by
  unfold processOrder
  split
  · simp [Outcome.filled]
  · exact matchOrders_filledAmount l o o.amount (by simp only [Order.remainingAmount]; omega)

include hl

theorem processOrder_filled : (processOrder o l).filled = min o.remainingAmount (leftOf l) := by
  have hr : 0 ≤ o.remainingAmount := by simp only [Order.remainingAmount]; omega
  have hshares := congrArg (List.map Prod.snd) (processOrder_shares (l := l) h0 hlt)
  rw [List.map_map] at hshares
  have hsum : ((allot Order.remainingAmount (o.filledAmount = 0) o.remainingAmount l).map
      Prod.snd).sum = min o.remainingAmount (leftOf l) := allot_sum (fun mo hm => (hl mo hm).le) hr
  rw [← hshares] at hsum
  exact hsum

/-- What the order ends as is reported exactly if the order counts what is left of it. -/
theorem processOrder_reported (hne : l ≠ []) :
    (if (processOrder o l).takerOrder.filledAmount = o.amount then
      (processOrder o l).status = .ORDER_FILLED ∧ (processOrder o l).takerOrder.status = .FILLED
    else (processOrder o l).status = .ORDER_PARTIALLY_FILLED ∧
      (processOrder o l).takerOrder.status = .PARTIAL_FILLED) ↔
    o.filledAmount = 0 ∨ leftOf l < o.remainingAmount := by
  have hfilled := processOrder_filledAmount (l := l) h0
  rw [processOrder_filled h0 hlt hl] at hfilled
  have hloop : processOrder o l = matchOrders o o.amount l := by
    simp [processOrder, hne]
  rw [hloop] at hfilled ⊢
  have hends := matchOrders_ends l o o.amount
  by_cases hfresh : o.filledAmount = 0
  · have hrem : o.remainingAmount = o.amount := by simp only [Order.remainingAmount]; omega
    have hfr := (matchOrders_fresh l o ⟨by omega, h0, by omega⟩ hl (by omega)).ends
    rw [hrem] at hfr
    refine iff_of_true ?_ (.inl hfresh)
    rcases hfr with ⟨hs, hf⟩ | ⟨hs, hf, -⟩
    · rw [if_pos hf]
      exact hends.resolve_right fun h => by rw [hs] at h; exact absurd h.2 (by decide)
    · rw [if_neg hf.ne]
      exact hends.resolve_left fun h => by rw [hs] at h; exact absurd h.2 (by decide)
  · have hahead : o.remainingAmount < o.amount := by simp only [Order.remainingAmount]; omega
    have hstatus := matchOrders_runsOn l o o.amount hahead
    have hpartial := hends.resolve_left fun h => by rw [hstatus] at h; exact absurd h.1 (by decide)
    simp only [Order.remainingAmount] at hfilled ⊢
    split
    · rename_i hfull
      refine iff_of_false (fun h => ?_) (by omega)
      rw [hstatus] at h
      exact absurd h.1 (by decide)
    · exact iff_of_true hpartial (by omega)

end

/-! ## The loop and the store -/

section
variable {o : Order} {l : List Order} (h0 : 0 ≤ o.filledAmount) (hlt : o.filledAmount < o.amount)
  (hl : ∀ mo ∈ l, 0 < mo.remainingAmount) {c : Coll Order.hash} {ds : List (Time × Order)}
include h0 hlt hl

theorem processOrder_fills_rest (h : o.filledAmount = 0 ∨ leftOf l < o.remainingAmount) :
    (∀ p ∈ (processOrder o l).fills, 0 < tradeAmount p.1 p.2) ∧
      ∀ i < (processOrder o l).fills.length, leftOf (l.take i) < o.remainingAmount := by
  have hr : 0 < o.remainingAmount := by simp only [Order.remainingAmount]; omega
  have hshares := processOrder_shares (l := l) h0 hlt
  have hmem : ∀ p ∈ (processOrder o l).fills, (p.2, tradeAmount p.1 p.2) ∈
      (processOrder o l).fills.map (fun p => (p.2, tradeAmount p.1 p.2)) :=
    fun p hp => List.mem_map.2 ⟨p, hp, rfl⟩
  rcases h with hfresh | hless
  · rw [decide_eq_true hfresh] at hshares
    refine ⟨fun p hp => allot_pos hl hr _ (hshares ▸ hmem p hp), fun i hi => ?_⟩
    refine allot_reached hr ?_
    rw [← hshares, List.length_map]
    exact hi
  · have hall : allot Order.remainingAmount (o.filledAmount = 0) o.remainingAmount (l ++ []) = _ :=
      allot_append (.inl hless) fun mo hm => (hl mo hm).le
    rw [List.append_nil, allot, List.append_nil] at hall
    refine ⟨fun p hp => ?_, fun i _ => ?_⟩
    · obtain ⟨mo, hmo, he⟩ := List.mem_map.1 (hall ▸ hshares ▸ hmem p hp)
      have hamount : mo.remainingAmount = tradeAmount p.1 p.2 := congrArg Prod.snd he
      rw [← hamount]
      exact hl mo hmo
    · refine lt_of_le_of_lt ?_ hless
      exact sum_le_of_sublist (List.take_sublist i l) fun mo hm => (hl mo hm).le

theorem processOrder_untouched (h : o.filledAmount = 0 ∨ leftOf l < o.remainingAmount)
    (hn : (l.map Order.hash).Nodup) (hds : ds.map (·.2) = (processOrder o l).written) {i : Nat}
    {mo : Order} (hi : l[i]? = some mo) (hdone : o.remainingAmount ≤ leftOf (l.take i))
    (hself : mo.hash ≠ o.hash) : (upserts c ds).get mo.hash = c.get mo.hash := by
  have hof := processOrder_of o l
  refine get_upserts_other fun p hp hph => ?_
  have hmem : p.2 ∈ (processOrder o l).written := hds ▸ List.mem_map_of_mem hp
  rcases List.mem_append.1 hmem with hmem | hmem
  · -- the maker of a fill: the fill is before place `i`
    obtain ⟨q, hq, hqp⟩ := List.mem_map.1 hmem
    obtain ⟨j, hj, rfl⟩ := List.getElem_of_mem hq
    have hlj : l[j]? = some (processOrder o l).fills[j].2 := by
      have hpre := List.prefix_iff_getElem?.1 hof.makers j (by simpa using hj)
      rwa [List.getElem_map] at hpre
    have hreach := (processOrder_fills_rest h0 hlt hl h).2 j hj
    have hhash : (l.map Order.hash)[j]? = (l.map Order.hash)[i]? := by
      rw [List.getElem?_map, List.getElem?_map, hlj, hi]
      simp only [Option.map_some, ← hph, ← hqp, filledMaker_hash]
    have hjl : j < (l.map Order.hash).length := by
      rw [List.length_map]
      exact (List.getElem?_eq_some_iff.1 hlj).1
    obtain rfl := (List.getElem?_inj hjl hn).1 hhash
    omega
  · rw [List.mem_singleton.1 hmem, hof.hash] at hph
    exact hself hph.symm

theorem processOrder_fillsRest_iff (eth : Eth) (hne : l ≠ []) (hn : (l.map Order.hash).Nodup)
    (hds : ds.map (·.2) = (processOrder o l).written) :
    FillsRest o l c (upserts c ds) ((processOrder o l).response eth) ↔ o.CountsRest l := by
  have hof := processOrder_of o l
  have hreported := processOrder_reported h0 hlt hl hne
  -- what is stored under the hash of the order is the order as the loop leaves it
  obtain ⟨ms, ts, rfl, -, hts⟩ := List.map_eq_append_iff.1 hds
  obtain ⟨d, rfl, hd⟩ := List.map_eq_singleton_iff.1 hts
  obtain ⟨old, hget⟩ := get_upserts_snoc c ms d
  rw [hd, hof.hash] at hget
  constructor
  · intro h
    refine ⟨hne, hreported.1 ?_⟩
    obtain ⟨o', d', -, hd', -, -, h⟩ := h.reported
    rw [hget, Option.some.injEq] at hd'
    subst hd'
    rw [updatedDoc_filledAmount, updatedDoc_status] at h
    exact h
  · rintro ⟨-, h⟩
    have htrades := processOrder_trades o l eth
    obtain ⟨hpos, hstops⟩ := processOrder_fills_rest h0 hlt hl h
    refine ⟨?_, ?_, ?_, ?_, ?_, fun i mo hi hdone hself => ?_⟩
    · rw [htrades]
      intro t ht
      obtain ⟨p, hp, rfl⟩ := List.mem_map.1 ht
      exact hpos p hp
    · rw [htrades, Outcome.trades, List.map_map]
      exact processOrder_filled h0 hlt hl
    · rw [htrades, Outcome.trades, List.map_map]
      have hmakers := hof.makers.map Order.hash
      rwa [List.map_map] at hmakers
    · rw [htrades, Outcome.trades, List.length_map]
      exact hstops
    · refine ⟨_, _, rfl, hget, by rw [updatedDoc_filledAmount], by rw [updatedDoc_status], ?_⟩
      rw [updatedDoc_filledAmount, updatedDoc_status]
      exact hreported.2 h
    · exact processOrder_untouched h0 hlt hl h hn hds hi hdone hself

end

/-- `buyOrder` or `sellOrder`, the query having answered `l`; `o'` is the order they add. -/
theorem bookOrder_rest {env : Env} {o o' : Order} {l : List Order} {w : World}
    (h0 : 0 ≤ o.filledAmount) (hlt : o.filledAmount < o.amount)
    (hl : ∀ mo ∈ l, 0 < mo.remainingAmount) (hsub : l.Subperm w.orders.docs) :
    Prog.wp (if l.isEmpty then do
        let _ ← Prog.attempt (addOrder o')
        pure { status := .ORDER_ADDED, order := some (addedOrder o') }
      else matchLoop o o.amount ⟨[], o, []⟩ l) env w.tick
      (fun res w' => FillsRest o l w.orders w'.orders res ↔ o.CountsRest l)
      (fun e _ => e = .io ∧ ¬env.Faultless) := by
  by_cases hne : l = []
  · subst hne
    -- nothing is matched: the order is reported as added
    have hadded : ∀ c' : Coll Order.hash, FillsRest o [] w.orders c'
        { status := .ORDER_ADDED, order := some (addedOrder o') } ↔ o.CountsRest [] := by
      intro c'
      refine iff_of_false (fun h => ?_) fun h => h.1 rfl
      obtain ⟨_, d, -, -, -, -, h⟩ := h.reported
      split at h
      · exact absurd h.1 (by simp)
      · exact absurd h.1 (by simp)
    simp only [List.isEmpty_nil, if_true, Prog.wp_bind, Prog.wp_attempt, addOrder, Prog.wp_pure]
    apply wp_findAndModify
    · exact fun _ => hadded _
    · exact fun _ _ _ => hadded _
  · rw [if_neg (by simpa using hne)]
    refine Prog.wp_mono (matchedOrder_wp hne w.tick) ?_ ?_
    · rintro res w' ⟨ds, ⟨⟨n, rfl⟩, rfl, -, hall⟩, -⟩
      exact processOrder_fillsRest_iff h0 hlt hl env.eth hne (Coll.nodup_of_subperm hsub)
        (hall.resolve_right fun h => hne h.1)
    · rintro e w' ⟨he, _, h⟩
      exact ⟨he, Env.not_faultless h.failed⟩

/-- **A partly filled taker trades what is left of it** exactly if the counter of the loop counts
that, or the makers do not use it up. The list is what the query answers, whatever that is. -/
theorem rest_filled_iff (env : Env) (w : World) {o : Order} (h0 : 0 ≤ o.filledAmount)
    (hlt : o.filledAmount < o.amount) :
    (∀ l, l = env.orderDao.getMatchingSellOrders w.calls w.orders.docs o →
      (∀ mo ∈ l, 0 < mo.remainingAmount) →
      Prog.wp (buyOrder o) env w
        (fun res w' => FillsRest o l w.orders w'.orders res ↔ o.CountsRest l)
        (fun e _ => e = .io ∧ ¬env.Faultless)) ∧
    (∀ l, l = env.orderDao.getMatchingBuyOrders w.calls w.orders.docs o →
      (∀ mo ∈ l, 0 < mo.remainingAmount) →
      Prog.wp (sellOrder o) env w
        (fun res w' => FillsRest o l w.orders w'.orders res ↔ o.CountsRest l)
        (fun e _ => e = .io ∧ ¬env.Faultless)) := by
  constructor
  · rintro l rfl hl
    simp only [buyOrder, Prog.wp_bind]
    refine wp_call (fun hf => ⟨rfl, Env.not_faultless hf⟩) fun _ => ?_
    exact bookOrder_rest h0 hlt hl (env.orderDao.sell_subperm _ _ _)
  · rintro l rfl hl
    simp only [sellOrder, Prog.wp_bind]
    refine wp_call (fun hf => ⟨rfl, Env.not_faultless hf⟩) fun _ => ?_
    exact bookOrder_rest h0 hlt hl (env.orderDao.buy_subperm _ _ _)

/-- Two SELL orders, of 6 and of 5. -/
def World.sampleAsks : World :=
  { World.empty with orders := Coll.empty.putAll [.sample 1 .SELL 5 6, .sample 2 .SELL 5 5] }

/-- A BUY of 20 of which 4 were filled takes both. -/
theorem rest_filled_partly :
    let o := { Order.sample 3 .BUY 5 20 with filledAmount := 4 }
    let w := World.sampleAsks
    let l := (Env.sample .stored).orderDao.getMatchingSellOrders w.calls w.orders.docs o
    ∃ res w', buyOrder o (.sample .stored) w = (.ok res, w') ∧ l.length = 2 ∧
      FillsRest o l w.orders w'.orders res := by
  intro o w l
  have hl : ∀ mo ∈ l, 0 < mo.remainingAmount := by decide +kernel
  have h := (rest_filled_iff (.sample .stored) w (o := o) (by decide) (by decide)).1 l rfl hl
  exact ⟨_, _, rfl, by decide +kernel, h.2 (by decide +kernel)⟩

/-- A BUY of 10 of which 4 were filled takes the first; the second is visited for nothing and
becomes PARTIAL_FILLED, and the BUY, which is full, is reported and stored as partly filled. -/
theorem refilled_order_runs_on :
    let o := { Order.sample 3 .BUY 5 10 with filledAmount := 4 }
    let w := World.sampleAsks
    let l := (Env.sample .stored).orderDao.getMatchingSellOrders w.calls w.orders.docs o
    ∃ res w', buyOrder o (.sample .stored) w = (.ok res, w') ∧ (∀ mo ∈ l, 0 < mo.remainingAmount) ∧
      res.trades.map (·.amount) = [6, 0] ∧ res.status = .ORDER_PARTIALLY_FILLED ∧
      (w'.orders.get 2).map (·.status) = some .PARTIAL_FILLED ∧
      (w'.orders.get 3).map (fun d => (d.filledAmount, d.status)) = some (10, .PARTIAL_FILLED) ∧
      ¬FillsRest o l w.orders w'.orders res := by
  intro o w l
  refine ⟨_, _, rfl, by decide +kernel, by decide +kernel, by decide +kernel, by decide +kernel,
    by decide +kernel, fun h => ?_⟩
  exact absurd h.positive (by decide +kernel)

end Dex
