import DexServer.Engine.Proof.AtFault
import DexServer.Engine.Proof.Atomic

/-!
# What the responses of the engine say

Several errors are turned into success: `buyOrder` and `sellOrder` do not look at the error of
`addOrder`, and the updates of statuses return nothing instead of an error.

* `OrderAddedTruly`, `CancelReported`: what `ORDER_ADDED` and `TRADES_CANCELLED` claim is in the
  store.
* `responses_truthful_iff`: of a response that is published it is true exactly if the calls whose
  errors are dropped succeed, or nothing depends on them.
* `responses_untrue`: an order that is announced and not stored, a maker that is not invalidated.
-/

namespace Dex

open Lib

/-- From `w` to `w'` the response `r` was published, and no other. -/
def World.Published (w w' : World) (r : EngineResponse) : Prop :=
  w'.engineResponses = w.engineResponses ++ [r]

theorem World.Published.eq {w w' : World} {r r' : EngineResponse} (h : w.Published w' r)
    (h' : w'.engineResponses = w.engineResponses ++ [r']) : r = r' := by
  rw [World.Published, h', List.append_cancel_left_eq, List.cons.injEq] at h
  exact h.1.symm

theorem World.Published.ne_nil {w w' : World} {r : EngineResponse} (h : w.Published w' r) :
    w'.engineResponses ≠ w.engineResponses := by
  intro he
  rw [World.Published, he] at h
  simp at h

/-! ## Added orders -/

/-- The order is stored and rests. -/
def OrderAddedTruly (o : Order) (w' : World) : Prop :=
  ∃ d ∈ w'.orders.get o.hash, d.isOpen

/-- The write succeeds and gives the order the status of a resting one; or it fails, and a resting
order was stored already. -/
def AddIsTrue (env : Env) (o : Order) (w : World) : Prop :=
  if env.fails (w.calls + 1) then ∃ d ∈ w.orders.get o.hash, d.isOpen
  else o.side = .SELL ∨ o.filledAmount = 0 ∨ o.isOpen

theorem restingOrder_isOpen_iff (o : Order) :
    (restingOrder o).isOpen ↔ o.side = .SELL ∨ o.filledAmount = 0 ∨ o.isOpen := by
  unfold restingOrder addedOrder
  by_cases hs : o.side = .SELL
  · simp [hs, Order.isOpen]
  · by_cases h0 : o.filledAmount = 0
    · simp [hs, h0, Order.isOpen]
    · simp [hs, h0]

theorem processOrder_added {o : Order} {l : List Order}
    (h : (processOrder o l).status = .ORDER_ADDED) : l = [] := by
  by_contra hne
  have hloop : processOrder o l = matchOrders o o.amount l := by simp [processOrder, hne]
  rw [hloop] at h
  exact matchOrders_status l o o.amount h

section
variable {env : Env} {o : Order} {w : World}

theorem added_iff {ds : List (Time × Order)}
    (hds : (ds.map (·.2) = [restingOrder o] ∧ ¬env.FailsWithin (w.calls + 1) ds.length) ∨
      (ds = [] ∧ env.fails (w.calls + 1) = true)) :
    (∃ d ∈ (upserts w.orders ds).get o.hash, d.isOpen) ↔ AddIsTrue env o w := by
  unfold AddIsTrue
  rcases hds with ⟨hds, hok⟩ | ⟨rfl, hf⟩
  · obtain ⟨d, rfl, hd⟩ := List.map_eq_singleton_iff.1 hds
    rw [List.length_singleton, Env.failsWithin_one] at hok
    obtain ⟨old, hget⟩ := get_upserts_snoc w.orders [] d
    rw [hd, (Order.sameTerms (restingOrder_terms o)).hash, List.nil_append] at hget
    rw [hget, if_neg hok, ← restingOrder_isOpen_iff]
    simp [Order.isOpen]
  · rw [if_pos hf, upserts_nil]

theorem newOrder_added : Prog.wp (newOrder o) env w
    (fun _ w' => ∀ r, w.Published w' r → r.status = .ORDER_ADDED →
      (OrderAddedTruly o w' ↔ AddIsTrue env o w))
    (fun _ w' => ∀ r, ¬w.Published w' r) := by
  refine wp_newOrder rfl (fun _ r hr => hr.ne_nil rfl) ?_ ?_ ?_
  · rintro - - res w₁ ds ⟨⟨⟨n, rfl⟩, rfl, -, -⟩, -, hmade⟩
    refine wp_call (fun _ r hr => hr.ne_nil (by simp [World.tick])) fun _ r hr hs => ?_
    have hres : r = (processOrder o (env.orderDao.matching w.calls w.orders.docs o)).response
        env.eth :=
      hr.eq (by simp [World.tick])
    rw [hres] at hs
    rw [processOrder_added hs] at hmade
    exact added_iff (hmade.imp id And.right)
  · rintro - - w₁ ds ⟨⟨n, rfl⟩, -⟩ r hr
    exact hr.ne_nil (by simp [World.tick])
  · intro _
    refine wp_call (fun _ r hr => hr.ne_nil rfl) fun _ r hr hadded => ?_
    rw [hr.eq rfl] at hadded
    cases hadded

end

/-! ## Cancelled trades -/

/-- The orders `subjects` are stored INVALIDATED, and the lists of the response are the orders and
trades that were updated, those with a hash in `marked` and with a maker in `back`. -/
structure CancelReported (subjects marked back : List Hash) (w' : World) (r : EngineResponse) :
    Prop where
  invalidated : ∀ h ∈ subjects, ∃ d ∈ w'.orders.get h, d.status = .INVALIDATED
  orders : ∃ os, r.invalidatedOrders = some os ∧ os.Perm (w'.found marked) ∧
    ∀ x ∈ os, x.status = .INVALIDATED
  trades : ∃ ts, r.cancelledTrades = some ts ∧
    ts.Perm (w'.trades.filter (·.makerOrderHash ∈ back)) ∧ ∀ t ∈ ts, t.status = .CANCELLED

/-- The subjects are stored, among those that are marked (or INVALIDATED before and not given back
to); the calls that update and read the orders succeed, unless there is none to update, and so for
the trades. -/
structure CancelIsTrue (env : Env) (subjects marked back : List Hash) (w : World) : Prop where
  stored : ∀ h ∈ subjects, ∃ d ∈ w.orders.get h,
    h ∈ marked ∨ (d.status = .INVALIDATED ∧ h ∉ back)
  orders : (env.fails (w.restoreEnd back) = false ∧ env.fails (w.restoreEnd back + 1) = false) ∨
    w.found marked = []
  trades : (env.fails (env.cancelCall (w.restoreEnd back)) = false ∧
      env.fails (env.cancelCall (w.restoreEnd back) + 1) = false) ∨
    w.trades.filter (·.makerOrderHash ∈ back) = []

theorem restored_status_ne (d : Order) (a : Int) : (restored d a).status ≠ .INVALIDATED := by
  unfold restored
  dsimp only
  split
  · simp
  · split <;> simp

theorem found_eq_nil_iff {w : World} {hashes : List Hash} :
    w.found hashes = [] ↔ ∀ h ∈ hashes, w.orders.get h = none := by
  rw [World.found, List.filter_eq_nil_iff]
  constructor
  · intro hnone h hh
    refine Coll.get_eq_none.2 fun d hd hk => hnone d hd ?_
    rw [hk]
    exact decide_eq_true hh
  · intro hnone d hd hin
    have hget := hnone d.hash (of_decide_eq_true hin)
    rw [Coll.get_mem hd] at hget
    cases hget

/-- Documents read back after an update: what is answered is what is stored, as the update leaves
it, exactly if neither call fails, or there is nothing to read. -/
theorem answered_iff {α : Type} {updateFails readFails : Bool} {read stored : List α} {P : α → Prop}
    (hread : read.Perm stored) (hP : updateFails = false → ∀ x ∈ stored, P x) :
    ((if updateFails = true ∨ readFails = true then [] else read).Perm stored ∧
      ∀ x ∈ (if updateFails = true ∨ readFails = true then [] else read), P x) ↔
    (updateFails = false ∧ readFails = false) ∨ stored = [] := by
  by_cases hf : updateFails = true ∨ readFails = true
  · -- nothing was read
    rw [if_pos hf, or_iff_right (by simpa [or_iff_not_imp_left] using hf)]
    constructor
    · exact fun h => h.1.nil_eq.symm
    · intro hnil
      rw [hnil]
      exact ⟨.rfl, by simp⟩
  · rw [if_neg hf]
    simp only [not_or, Bool.not_eq_true] at hf
    exact iff_of_true ⟨hread, fun x hx => hP hf.1 x (hread.mem_iff.1 hx)⟩ (.inl hf)

theorem filter_setTradeStatuses (back : List Hash) (status : TradeStatus) (ts : List Trade) :
    (setTradeStatuses (·.makerOrderHash ∈ back) status ts).filter (·.makerOrderHash ∈ back) =
      (ts.filter (·.makerOrderHash ∈ back)).map fun t => { t with status := status } := by
  induction ts with
  | nil => rfl
  | cons t ts ih =>
    unfold setTradeStatuses at ih ⊢
    rw [List.map_cons]
    by_cases ht : t.makerOrderHash ∈ back
    · simp only [ht, decide_true, if_true, List.filter_cons_of_pos, List.map_cons, ih]
    · simp only [ht, decide_false, Bool.false_eq_true, if_false, not_false_eq_true,
        List.filter_cons_of_neg, ih]

section
variable {env : Env} {back marked : List Hash} {amounts : List Int} {w w' : World} {qs : List Order}
  {res : List EngineResponse} (h : InvalidateTrace env back marked amounts w qs res w')
include h

omit h in
theorem get_putAll_restored (k : Hash) :
    ((w.orders.putAll (env.restoredOrders w back amounts)).get k).isSome =
      (w.orders.get k).isSome := by
  by_cases hk : ∃ x ∈ env.restoredOrders w back amounts, x.hash = k
  · obtain ⟨x, hx, rfl⟩ := hk
    have hg := (env.givenBackAll w back amounts).givenBack
    obtain ⟨d, hd, -, a, rfl⟩ := hg.mem hx
    rw [Coll.get_putAll_mem hg.nodup hx, restored_hash, Coll.get_mem hd]
    rfl
  · rw [Coll.get_putAll_other fun d hd he => hk ⟨d, hd, he⟩]

theorem InvalidateTrace.isSome (k : Hash) : (w'.orders.get k).isSome = (w.orders.get k).isSome := by
  rw [h.became.orders, Env.invalidated]
  split
  · exact get_putAll_restored k
  · rw [get_setStatuses, Option.isSome_map]
    exact get_putAll_restored k

theorem InvalidateTrace.found_eq_nil (hashes : List Hash) :
    w'.found hashes = [] ↔ w.found hashes = [] := by
  rw [found_eq_nil_iff, found_eq_nil_iff]
  refine forall₂_congr fun k _ => ?_
  rw [← Option.not_isSome_iff_eq_none, ← Option.not_isSome_iff_eq_none, h.isSome k]

/-- An order that is not marked is INVALIDATED exactly if it was, and nothing was given back to
it. -/
theorem InvalidateTrace.unmarked {k : Hash} (hk : k ∉ marked)
    (hlen : back.length ≤ amounts.length) :
    (∃ d ∈ w'.orders.get k, d.status = .INVALIDATED) ↔
      ∃ d ∈ w.orders.get k, d.status = .INVALIDATED ∧ k ∉ back := by
  have hget : w'.orders.get k = (w.orders.putAll (env.restoredOrders w back amounts)).get k := by
    rw [h.became.orders, Env.invalidated]
    split
    · rfl
    · rw [get_setStatuses]
      simp [hk]
  have hg := (env.givenBackAll w back amounts).givenBack
  rw [hget]
  by_cases hx : ∃ x ∈ env.restoredOrders w back amounts, x.hash = k
  · obtain ⟨x, hx, rfl⟩ := hx
    rw [Coll.get_putAll_mem hg.nodup hx]
    obtain ⟨d, hd, hback, a, rfl⟩ := hg.mem hx
    refine iff_of_false ?_ ?_
    · rintro ⟨y, hy, hs⟩
      rw [Option.mem_some_iff] at hy
      subst hy
      exact restored_status_ne d a hs
    · rintro ⟨y, -, -, hno⟩
      rw [restored_hash] at hno
      exact hno hback
  · rw [Coll.get_putAll_other fun d hd he => hx ⟨d, hd, he⟩]
    refine exists_congr fun d => and_congr_right fun hd => ?_
    refine ⟨fun hs => ⟨hs, fun hback => hx ?_⟩, And.left⟩
    -- every order found is given back to, for there are enough amounts
    obtain ⟨hdmem, hkey⟩ := Coll.get_eq_some.1 hd
    have hfound : d ∈ w.found back := by
      refine List.mem_filter.2 ⟨hdmem, ?_⟩
      rw [hkey]
      exact decide_eq_true hback
    obtain ⟨a, ha⟩ := env.mem_restoredOrders hfound hlen
    exact ⟨_, ha, by rw [restored_hash, hkey]⟩

/-- The subjects are INVALIDATED exactly if they were stored to be marked, or were INVALIDATED
already. -/
theorem InvalidateTrace.invalidated_iff (hlen : back.length ≤ amounts.length)
    (horders : env.fails (w.restoreEnd back) = false ∨ w.found marked = []) (k : Hash) :
    (∃ d ∈ w'.orders.get k, d.status = .INVALIDATED) ↔
      ∃ d ∈ w.orders.get k, k ∈ marked ∨ (d.status = .INVALIDATED ∧ k ∉ back) := by
  by_cases hk : k ∈ marked
  · have hsome := h.isSome k
    simp only [hk, true_or, and_true]
    constructor
    · rintro ⟨d, hd, -⟩
      rw [Option.mem_def] at hd
      rw [hd, Option.isSome_some] at hsome
      exact Option.isSome_iff_exists.1 hsome.symm
    · rintro ⟨d, hd⟩
      rw [Option.mem_def] at hd
      have hok : env.fails (w.restoreEnd back) = false := by
        refine horders.resolve_right fun hnil => ?_
        rw [found_eq_nil_iff.1 hnil k hk] at hd
        cases hd
      rw [hd, Option.isSome_some] at hsome
      obtain ⟨y, hy⟩ := Option.isSome_iff_exists.1 hsome
      refine ⟨y, hy, ?_⟩
      rw [h.became.orders, Env.invalidated, if_neg (ne_true_of_eq_false hok), get_setStatuses,
        Option.map_eq_some_iff] at hy
      obtain ⟨x, -, rfl⟩ := hy
      rw [if_pos hk]
      rfl
  · rw [h.unmarked hk hlen]
    simp only [hk, false_or]

/-- The orders of the response are those updated exactly if they were updated and read, or there is
none. -/
theorem InvalidateTrace.orders_iff {r : EngineResponse}
    (hr : r = env.cancelResponse (w.restoreEnd back)
      marked back (w.orders.putAll (env.restoredOrders w back amounts)) w.trades) :
    (∃ os, r.invalidatedOrders = some os ∧ os.Perm (w'.found marked) ∧
      ∀ x ∈ os, x.status = .INVALIDATED) ↔
    (env.fails (w.restoreEnd back) = false ∧ env.fails (w.restoreEnd back + 1) = false) ∨
      w.found marked = [] := by
  rw [← h.found_eq_nil, hr, Env.cancelResponse]
  simp only [Option.some.injEq, exists_eq_left', ← h.became.orders]
  refine answered_iff (env.scanOrders_perm _ _) fun hok x hx => ?_
  rw [List.mem_filter, h.became.orders, Env.invalidated, if_neg (ne_true_of_eq_false hok)] at hx
  obtain ⟨d, -, rfl⟩ := mem_setStatuses.1 hx.1
  have hin : d.hash ∈ marked := by
    have hin := of_decide_eq_true hx.2
    split at hin
    · simpa using hin
    · exact hin
  rw [if_pos hin]
  rfl

theorem InvalidateTrace.trades_iff {r : EngineResponse}
    (hr : r = env.cancelResponse (w.restoreEnd back)
      marked back (w.orders.putAll (env.restoredOrders w back amounts)) w.trades) :
    (∃ ts, r.cancelledTrades = some ts ∧
      ts.Perm (w'.trades.filter (·.makerOrderHash ∈ back)) ∧ ∀ t ∈ ts, t.status = .CANCELLED) ↔
    (env.fails (env.cancelCall (w.restoreEnd back)) = false ∧
        env.fails (env.cancelCall (w.restoreEnd back) + 1) = false) ∨
      w.trades.filter (·.makerOrderHash ∈ back) = [] := by
  have hnil : w'.trades.filter (·.makerOrderHash ∈ back) = [] ↔
      w.trades.filter (·.makerOrderHash ∈ back) = [] := by
    rw [h.became.trades, Env.cancelled]
    split
    · rfl
    · rw [filter_setTradeStatuses, List.map_eq_nil_iff]
  rw [← hnil, hr, Env.cancelResponse]
  simp only [Option.some.injEq, exists_eq_left', ← h.became.trades]
  refine answered_iff (env.scanTrades_perm _ _) fun hok t ht => ?_
  rw [h.became.trades, Env.cancelled, if_neg (ne_true_of_eq_false hok),
    filter_setTradeStatuses] at ht
  obtain ⟨x, -, rfl⟩ := List.mem_map.1 ht
  rfl

/-- What an invalidation reports is true exactly under the condition. -/
theorem InvalidateTrace.reported_iff (hlen : back.length ≤ amounts.length) {r : EngineResponse}
    (hr : w.Published w' r) (subjects : List Hash) :
    CancelReported subjects marked back w' r ↔ CancelIsTrue env subjects marked back w := by
  have hresponse : r = env.cancelResponse (w.restoreEnd back) marked back
      (w.orders.putAll (env.restoredOrders w back amounts)) w.trades := by
    have hres := h.became.engineResponses
    rcases h.response with hnil | hone
    · rw [hnil, List.append_nil] at hres
      exact absurd hres hr.ne_nil
    · rw [hone] at hres
      exact hr.eq hres
  constructor
  · intro hrep
    have horders := (h.orders_iff hresponse).1 hrep.orders
    refine ⟨fun k hk => ?_, horders, (h.trades_iff hresponse).1 hrep.trades⟩
    exact (h.invalidated_iff hlen (horders.imp And.left id) k).1 (hrep.invalidated k hk)
  · intro hc
    refine ⟨fun k hk => ?_, (h.orders_iff hresponse).2 hc.orders,
      (h.trades_iff hresponse).2 hc.trades⟩
    exact (h.invalidated_iff hlen (hc.orders.imp And.left id) k).2 (hc.stored k hk)

end

theorem InvalidateStop.not_published {back : List Hash} {amounts : List Int} {w w' : World}
    (h : InvalidateStop back amounts w w') (r : EngineResponse) : ¬w.Published w' r := by
  obtain ⟨rs, -, hb⟩ := h
  exact fun hr => hr.ne_nil (by rw [hb.engineResponses, List.append_nil])

/-- **The responses of the engine report what was stored** exactly if the calls whose errors are
dropped succeed, or nothing depends on them. -/
theorem responses_truthful_iff (env : Env) (w : World) :
    (∀ o r, w.Published (newOrder o env w).2 r → r.status = .ORDER_ADDED →
      (OrderAddedTruly o (newOrder o env w).2 ↔ AddIsTrue env o w)) ∧
    (∀ m r, w.Published (invalidateMakerOrders m env w).2 r → r.status = .TRADES_CANCELLED →
      (CancelReported (m.makerOrders.map Order.hash) (m.readHashes (·.makerOrderHash))
          (m.readHashes (·.takerOrderHash)) (invalidateMakerOrders m env w).2 r ↔
        CancelIsTrue env (m.makerOrders.map Order.hash) (m.readHashes (·.makerOrderHash))
          (m.readHashes (·.takerOrderHash)) w)) ∧
    (∀ m r, w.Published (invalidateTakerOrders m env w).2 r → r.status = .TRADES_CANCELLED →
      (CancelReported [m.takerOrder.hash] [m.takerOrder.hash] (m.trades.map (·.makerOrderHash))
          (invalidateTakerOrders m env w).2 r ↔
        CancelIsTrue env [m.takerOrder.hash] [m.takerOrder.hash]
          (m.trades.map (·.makerOrderHash)) w)) := by
  refine ⟨fun o r => ?_, fun m r => ?_, fun m r => ?_⟩
  · exact Prog.wp_state (P := fun w' => w.Published w' r → r.status = .ORDER_ADDED →
      (OrderAddedTruly o w' ↔ AddIsTrue env o w))
      (Prog.wp_mono newOrder_added (fun _ _ h => h r) fun _ _ h hr => absurd hr (h r))
  · have hlen : (m.readHashes (·.takerOrderHash)).length ≤ m.tradeAmounts.length := by
      simp [Matches.readHashes, Matches.tradeAmounts]
    refine Prog.wp_state (P := fun w' => w.Published w' r → r.status = .TRADES_CANCELLED →
      (CancelReported (m.makerOrders.map Order.hash) (m.readHashes (·.makerOrderHash))
          (m.readHashes (·.takerOrderHash)) w' r ↔
        CancelIsTrue env (m.makerOrders.map Order.hash) (m.readHashes (·.makerOrderHash))
          (m.readHashes (·.takerOrderHash)) w))
      (Prog.wp_mono (invalidateMakerOrders_trace m w) ?_ ?_)
    · rintro _ w' ⟨-, qs, res, h⟩ hr _
      exact h.reported_iff hlen hr _
    · rintro e w' (⟨-, rfl⟩ | ⟨-, -, -, ⟨-, h⟩ | ⟨qs, res, h⟩⟩) hr _
      · exact absurd rfl hr.ne_nil
      · exact absurd hr (h.not_published r)
      · exact h.reported_iff hlen hr _
  · have hlen : (m.trades.map (·.makerOrderHash)).length ≤ m.tradeAmounts.length := by
      simp [Matches.tradeAmounts]
    refine Prog.wp_state (P := fun w' => w.Published w' r → r.status = .TRADES_CANCELLED →
      (CancelReported [m.takerOrder.hash] [m.takerOrder.hash]
        (m.trades.map (·.makerOrderHash)) w' r ↔
        CancelIsTrue env [m.takerOrder.hash] [m.takerOrder.hash]
          (m.trades.map (·.makerOrderHash)) w))
      (Prog.wp_mono (invalidateTakerOrders_trace m w) ?_ ?_)
    · rintro _ w' ⟨qs, res, h⟩ hr _
      exact h.reported_iff hlen hr _
    · rintro e w' ⟨-, -, ⟨-, h⟩ | ⟨qs, res, h⟩⟩ hr _
      · exact absurd hr (h.not_published r)
      · exact h.reported_iff hlen hr _

/-- A BUY is announced as added although its write failed. The status update fails: TRADES_CANCELLED
is published, no order is listed, and the maker stays FILLED. -/
theorem responses_untrue :
    let o := Order.sample 3 .BUY 5 10
    let m := Matches.sampleOf [(1, 4)]
    (∃ r, World.empty.Published (newOrder o (.failingAt 1) .empty).2 r ∧ r.status = .ORDER_ADDED ∧
      ¬OrderAddedTruly o (newOrder o (.failingAt 1) .empty).2) ∧
    ∃ r, World.sampleTraded.Published (invalidateMakerOrders m (.failingAt 2) .sampleTraded).2 r ∧
      r.status = .TRADES_CANCELLED ∧ r.invalidatedOrders = some [] ∧
      ((invalidateMakerOrders m (.failingAt 2) .sampleTraded).2.orders.get 1).map (·.status) =
        some .FILLED := by
  intro o m
  refine ⟨⟨_, rfl, rfl, ?_⟩, _, rfl, rfl, by decide +kernel, by decide +kernel⟩
  rintro ⟨d, hd, -⟩
  cases hd

end Dex
