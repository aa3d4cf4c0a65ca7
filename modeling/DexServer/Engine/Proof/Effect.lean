import DexServer.Engine.Proof.Match

/-!
# What the operations of a book do, whichever calls fail

A failed call stops the matching loop after some of its writes. `newOrder_wp`: the orders written
are the first of those `processOrder` lists (the makers, then the taker), the trades are published
only after all of them, all at once, and nothing else changes. When no call fails all is written
and published (`newOrder_step`).
-/

namespace Dex

open Lib

/-! ## Updates -/

/-- Updates made one after another, each at its own time. -/
def upserts (c : Coll Order.hash) (ds : List (Time × Order)) : Coll Order.hash :=
  ds.foldl (fun c d => upsert d.1 c d.2) c

@[simp] theorem upserts_nil (c : Coll Order.hash) : upserts c [] = c := rfl

@[simp] theorem upserts_cons (c : Coll Order.hash) (d : Time × Order) (ds : List (Time × Order)) :
    upserts c (d :: ds) = upserts (upsert d.1 c d.2) ds := rfl

theorem upserts_append (c : Coll Order.hash) (ds es : List (Time × Order)) :
    upserts c (ds ++ es) = upserts (upserts c ds) es :=
  List.foldl_append

theorem mem_upserts : ∀ {ds : List (Time × Order)} {c : Coll Order.hash} {d : Order},
    d ∈ upserts c ds → (∃ p ∈ ds, ∃ old, d = updatedDoc p.1 old p.2) ∨
      (d ∈ c ∧ ∀ p ∈ ds, p.2.hash ≠ d.hash)
  | [], _, _, h => .inr ⟨h, by simp⟩
  | p :: ds, c, d, h => by
    rw [upserts_cons] at h
    rcases mem_upserts h with ⟨q, hq, old, rfl⟩ | ⟨hd, hne⟩
    · exact .inl ⟨q, .tail _ hq, old, rfl⟩
    · rcases Coll.mem_put.1 hd with rfl | ⟨hd, hh⟩
      · exact .inl ⟨p, .head _, _, rfl⟩
      · refine .inr ⟨hd, fun q hq => ?_⟩
        rcases List.mem_cons.1 hq with rfl | hq
        · rw [updatedDoc_hash] at hh
          exact Ne.symm hh
        · exact hne q hq

theorem get_upserts_other {h : Hash} : ∀ {ds : List (Time × Order)} {c : Coll Order.hash},
    (∀ p ∈ ds, p.2.hash ≠ h) → (upserts c ds).get h = c.get h
  | [], _, _ => rfl
  | p :: ds, c, hne => by
    rw [upserts_cons, get_upserts_other fun q hq => hne q (.tail _ hq), upsert]
    refine Coll.get_put_other ?_
    rw [updatedDoc_hash]
    exact Ne.symm (hne p (.head _))

theorem get_upserts_isSome {h : Hash} : ∀ {ds : List (Time × Order)} {c : Coll Order.hash},
    (h ∈ ds.map (·.2.hash) ∨ (c.get h).isSome) → ((upserts c ds).get h).isSome
  | [], c, hc => hc.resolve_left (by simp)
  | q :: ds, c, hc => by
    rw [upserts_cons]
    refine get_upserts_isSome ?_
    by_cases hq : h = q.2.hash
    · exact .inr (by simp [upsert, Coll.get_put, hq])
    · rcases hc with hc | hc
      · exact .inl (List.mem_of_ne_of_mem hq hc)
      · exact .inr (by simpa [upsert, Coll.get_put, hq] using hc)

theorem get_upserts_snoc (c : Coll Order.hash) (ds : List (Time × Order)) (d : Time × Order) :
    ∃ old, (upserts c (ds ++ [d])).get d.2.hash = some (updatedDoc d.1 old d.2) := by
  rw [upserts_append, upserts_cons, upserts_nil, upsert]
  exact ⟨_, by rw [Coll.get_put, if_pos (by simp)]⟩

theorem upserts_makers {fs : List (Order × Order)} {ds : List (Time × Order)} {c : Coll Order.hash}
    (hds : ds.map (·.2) = fs.map fun p => filledMaker p.1 p.2) (hc : ∀ p ∈ fs, p.2 ∈ c)
    (hn : (fs.map (·.2.hash)).Nodup) :
    upserts c ds = c.putAll (fs.map fun p => filledMaker p.1 p.2) := by
  induction fs generalizing ds c with
  | nil =>
    rw [List.map_eq_nil_iff.1 hds]
    rfl
  | cons p fs ih =>
    obtain ⟨d, ds, rfl, hd, hds⟩ := List.map_eq_cons_iff.1 hds
    simp only [List.map_cons, List.nodup_cons] at hn
    have hup : upsert d.1 c d.2 = c.put (filledMaker p.1 p.2) := by
      rw [upsert, hd, filledMaker_hash, Coll.get_mem (hc p (.head _)), updatedDoc_filledMaker]
    rw [upserts_cons, hup, List.map_cons, Coll.putAll_cons]
    refine ih hds (fun q hq => Coll.mem_put.2 (.inr ⟨hc q (.tail _ hq), ?_⟩)) hn.2
    rw [filledMaker_hash]
    exact fun e => hn.1 (List.mem_map.2 ⟨q, hq, e⟩)

/-- The orders an outcome writes. -/
def Outcome.written (m : Outcome) : List Order := m.makerOrders ++ [m.takerOrder]

theorem upserts_written {o : Order} {l : List Order} {m : Outcome} (hm : m.Of o l)
    {c : Coll Order.hash} (hl : l.Subperm c.docs) (hself : ∀ mo ∈ l, mo.hash ≠ o.hash)
    {ds : List (Time × Order)} (hds : ds.map (·.2) = m.written) :
    ∃ now, upserts c ds = m.store now c := by
  obtain ⟨ms, ts, rfl, hms, hts⟩ := List.map_eq_append_iff.1 hds
  obtain ⟨d, rfl, hd⟩ := List.map_eq_singleton_iff.1 hts
  have hmem : ∀ p ∈ m.fills, p.2 ∈ c := fun p hp => hl.subset (hm.maker_mem hp)
  refine ⟨d.1, ?_⟩
  rw [upserts_append, upserts_makers hms hmem (fills_nodup hm hl), upserts_cons,
    upserts_nil, upsert, hd, Outcome.store, Outcome.makerOrders, Coll.get_putAll_other]
  intro x hx
  obtain ⟨p, hp, rfl⟩ := List.mem_map.1 hx
  rw [filledMaker_hash, hm.hash]
  exact hself _ (hm.maker_mem hp)

/-! ## Matching -/

section
variable {env : Env}

theorem wp_findAndModify {w : World} {Q : Order → World → Prop} {E : Err → World → Prop} {o : Order}
    (hE : env.fails w.calls = true → E .io w.tick)
    (h : env.fails w.calls = false →
      ∀ now d, Q d { w with orders := upsert now w.orders o, calls := w.calls + 1 }) :
    Prog.wp (findAndModify o) env w Q E :=
  wp_call hE fun hf => h hf _ _

/-- The operation wrote `ds` and published `rs`. -/
def World.Wrote (w : World) (ds : List (Time × Order)) (rs : List EngineResponse) (w' : World) :
    Prop :=
  ∃ n, w' = { w with orders := upserts w.orders ds, engineResponses := w.engineResponses ++ rs,
                     calls := n }

/-- The loop writes the orders of the outcome one after another, each in a call of its own, up to
the first call that fails. -/
theorem matchLoop_wp : ∀ (l : List Order) (o : Order) (rem : Int) (acc : Matches) (w : World),
    Prog.wp (matchLoop o rem acc l) env w
      (fun res w' => (∃ ds, ds.map (·.2) = (matchOrders o rem l).written ∧
          ¬env.FailsWithin w.calls ds.length ∧ w'.calls = w.calls + ds.length ∧ w.Wrote ds [] w') ∧
        res = { status := (matchOrders o rem l).status
                order := some (matchOrders o rem l).takerOrder
                matches? := some ⟨acc.makerOrders ++ (matchOrders o rem l).makerOrders,
                  (matchOrders o rem l).takerOrder,
                  acc.trades ++ (matchOrders o rem l).trades env.eth⟩ })
      (fun e w' => e = .io ∧ ∃ ds, ds.map (·.2) <+: (matchOrders o rem l).written ∧
        ds.length < (matchOrders o rem l).written.length ∧ ¬env.FailsWithin w.calls ds.length ∧
        env.fails (w.calls + ds.length) = true ∧ w.Wrote ds [] w')
  | [], o, rem, acc, w => by
    simp only [matchLoop, Prog.wp_bind]
    apply wp_findAndModify
    · intro hf
      exact ⟨rfl, [], List.nil_prefix, by simp [Outcome.written], env.failsWithin_zero _, hf,
        w.calls + 1, by simp [World.tick]⟩
    · intro hf now d
      refine ⟨⟨[(now, o.withStatus .PARTIAL_FILLED)], rfl, ?_, rfl, w.calls + 1, by simp⟩, ?_⟩
      · rw [List.length_singleton, Env.failsWithin_one]
        simpa using hf
      · simp [matchOrders, Outcome.trades, Outcome.makerOrders]
  | mo :: l, o, rem, acc, w => by
    simp only [matchLoop, execute, Prog.wp_bind, Prog.wp_ask]
    apply wp_findAndModify
    · intro hf
      exact ⟨rfl, [], List.nil_prefix, by simp [Outcome.written], env.failsWithin_zero _, hf,
        w.calls + 1, by simp [World.tick]⟩
    · intro hf now d
      simp only [Prog.wp_pure, matchOrders,
        show (newTrade env.eth o mo).amount = tradeAmount o mo from rfl]
      split
      · simp only [Prog.wp_bind]
        apply wp_findAndModify
        · intro hf'
          refine ⟨rfl, [(now, filledMaker o mo)], ?_, ?_, ?_, hf', w.calls + 2,
            by simp [World.tick]⟩
          · simp [Outcome.written, Outcome.makerOrders]
          · simp [Outcome.written, Outcome.makerOrders]
          · rw [List.length_singleton, Env.failsWithin_one]
            simpa using hf
        · intro hf' now' d
          refine ⟨⟨[(now, filledMaker o mo), (now', (filledTaker o mo).complete)], ?_, ?_, rfl,
            w.calls + 2, by simp⟩, ?_⟩
          · simp [Outcome.written, Outcome.makerOrders]
          · have hf' : env.fails (w.calls + 1) = false := hf'
            rw [List.length_cons, List.length_singleton, Env.failsWithin_succ, Env.failsWithin_one]
            simp [hf, hf']
          · simp [Outcome.trades, Outcome.makerOrders, Matches.appendMatch]
      · -- the rest of the loop writes after this maker
        refine Prog.wp_mono (matchLoop_wp l (filledTaker o mo) (rem - tradeAmount o mo) _ _) ?_ ?_
        · rintro res w' ⟨⟨ds, hds, hfs, hcalls, n, rfl⟩, rfl⟩
          refine ⟨⟨(now, filledMaker o mo) :: ds, ?_, ?_, ?_, n, by simp⟩, ?_⟩
          · simp [Outcome.written, Outcome.makerOrders, hds]
          · rw [List.length_cons, Env.failsWithin_succ]
            simpa [hf] using hfs
          · simp only [List.length_cons] at hcalls ⊢
            omega
          · simp [Outcome.trades, Outcome.makerOrders, Matches.appendMatch]
        · rintro e w' ⟨he, ds, hds, hlen, hfs, hf', n, rfl⟩
          refine ⟨he, (now, filledMaker o mo) :: ds, ?_, ?_, ?_, ?_, n, by simp⟩
          · simpa [Outcome.written, Outcome.makerOrders] using hds
          · simpa [Outcome.written, Outcome.makerOrders] using hlen
          · rw [List.length_cons, Env.failsWithin_succ]
            simpa [hf] using hfs
          · rw [List.length_cons, Nat.add_comm ds.length 1, ← Nat.add_assoc]
            exact hf'

/-- `newOrder` on `o`, the query having answered `l`, ends in `w'`. -/
structure NewOrderEffect (env : Env) (o : Order) (l : List Order) (w w' : World)
    (ds : List (Time × Order)) (rs : List EngineResponse) : Prop where
  wrote : w.Wrote ds rs w'
  /-- only what the outcome lists is written, in its order -/
  written : ds.map (·.2) <+: (processOrder o l).written
  /-- a response with trades is published only when everything is written -/
  published : rs.flatMap (·.trades) = [] ∨ (ds.map (·.2) = (processOrder o l).written ∧
    rs.flatMap (·.trades) = (processOrder o l).trades env.eth)
  responses : ∀ r ∈ rs, r = (processOrder o l).response env.eth ∨ r = {}
  /-- everything happens when no call fails -/
  faultless : env.Faultless → o.side = .BUY ∨ o.side = .SELL →
    ds.map (·.2) = (processOrder o l).written ∧ rs = [(processOrder o l).response env.eth]

/-- What is known when `buyOrder` or `sellOrder` returns a response. -/
structure BookOrderEffect (env : Env) (o : Order) (l : List Order) (w w' : World)
    (ds : List (Time × Order)) (res : EngineResponse) : Prop where
  wrote : w.Wrote ds [] w'
  response : res = (processOrder o l).response env.eth
  written : ds.map (·.2) <+: (processOrder o l).written
  /-- the error of `addOrder` is the only one that is not returned -/
  all : ds.map (·.2) = (processOrder o l).written ∨ (l = [] ∧ ¬env.Faultless)

/-- The same call by call: every write was made, or the one of an order that is added failed. -/
structure Booked (env : Env) (o : Order) (l : List Order) (w w' : World) (ds : List (Time × Order))
    (res : EngineResponse) : Prop extends BookOrderEffect env o l w w' ds res where
  calls : w'.calls = w.calls + (processOrder o l).written.length
  made : (ds.map (·.2) = (processOrder o l).written ∧ ¬env.FailsWithin w.calls ds.length) ∨
    (l = [] ∧ ds = [] ∧ env.fails w.calls = true)

/-- `buyOrder` or `sellOrder` has stopped at the first write that failed. -/
structure Stopped (env : Env) (o : Order) (l : List Order) (w w' : World)
    (ds : List (Time × Order)) : Prop where
  wrote : w.Wrote ds [] w'
  written : ds.map (·.2) <+: (processOrder o l).written
  length : ds.length < (processOrder o l).written.length
  made : ¬env.FailsWithin w.calls ds.length
  failed : env.fails (w.calls + ds.length) = true

/-- `buyOrder` and `sellOrder` when the query has found something. -/
theorem matchedOrder_wp {o : Order} {l : List Order} (hne : l ≠ []) (w : World) :
    Prog.wp (matchLoop o o.amount ⟨[], o, []⟩ l) env w
      (fun res w' => ∃ ds, Booked env o l w w' ds res)
      (fun e w' => e = .io ∧ ∃ ds, Stopped env o l w w' ds) := by
  have hp : processOrder o l = matchOrders o o.amount l := by simp [processOrder, hne]
  refine Prog.wp_mono (matchLoop_wp l o o.amount ⟨[], o, []⟩ w) ?_ ?_
  · rintro res w' ⟨⟨ds, hds, hf, hcalls, hw⟩, hres⟩
    rw [← hp] at hds
    refine ⟨ds, ⟨hw, ?_, hds ▸ List.prefix_rfl, .inl hds⟩, ?_, .inl ⟨hds, hf⟩⟩
    · rw [hp, hres]
      simp [Outcome.response, matchOrders_status]
    · rw [hcalls, ← hds, List.length_map]
  · rintro e w' ⟨he, ds, hds, hlen, hfs, hf, hw⟩
    rw [← hp] at hds hlen
    exact ⟨he, ds, hw, hds, hlen, hfs, hf⟩

/-- `buyOrder` and `sellOrder` after their query, `o'` being the order they add. -/
theorem bookOrder_wp {o o' : Order} {l : List Order} (w : World)
    (ho : addedOrder o' = restingOrder o) :
    Prog.wp (if l.isEmpty then do
        let _ ← Prog.attempt (addOrder o')
        pure { status := .ORDER_ADDED, order := some (addedOrder o') }
      else matchLoop o o.amount ⟨[], o, []⟩ l) env w
      (fun res w' => ∃ ds, Booked env o l w w' ds res)
      (fun e w' => e = .io ∧ ∃ ds, Stopped env o l w w' ds) := by
  cases l with
  | nil =>
    simp only [List.isEmpty_nil, if_true, Prog.wp_bind, Prog.wp_attempt, addOrder, Prog.wp_pure, ho]
    apply wp_findAndModify
    · intro hf
      exact ⟨[], ⟨⟨w.calls + 1, by simp [World.tick]⟩, rfl, List.nil_prefix,
        .inr ⟨rfl, Env.not_faultless hf⟩⟩, rfl, .inr ⟨rfl, rfl, hf⟩⟩
    · intro hf now d
      refine ⟨[(now, restingOrder o)], ⟨⟨w.calls + 1, by simp⟩, rfl, List.prefix_rfl, .inl rfl⟩,
        rfl, .inl ⟨rfl, ?_⟩⟩
      rw [List.length_singleton, Env.failsWithin_one]
      simpa using hf
  | cons mo l =>
    rw [List.isEmpty_cons, if_neg Bool.false_ne_true]
    exact matchedOrder_wp (List.cons_ne_nil mo l) w

/-- **The rule for `newOrder`**: the query, the writes up to one that fails, the response. -/
theorem wp_newOrder {o : Order} {l : List Order} {w : World} {Q : Unit → World → Prop}
    {E : Err → World → Prop} (hl : env.orderDao.matching w.calls w.orders.docs o = l)
    (hquery : env.fails w.calls = true → E .io w.tick)
    (hbooked : o.side = .BUY ∨ o.side = .SELL → env.fails w.calls = false → ∀ res w₁ ds,
      Booked env o l w.tick w₁ ds res → Prog.wp (publishEngineResponse res) env w₁ Q E)
    (hstopped : o.side = .BUY ∨ o.side = .SELL → env.fails w.calls = false → ∀ w₁ ds,
      Stopped env o l w.tick w₁ ds → E .io w₁)
    (hother : ¬(o.side = .BUY ∨ o.side = .SELL) → Prog.wp (publishEngineResponse {}) env w Q E) :
    Prog.wp (newOrder o) env w Q E := by
  have hbook : ∀ o', addedOrder o' = restingOrder o → (o.side = .BUY ∨ o.side = .SELL) →
      env.fails w.calls = false → Prog.wp (if l.isEmpty then do
          let _ ← Prog.attempt (addOrder o')
          pure { status := .ORDER_ADDED, order := some (addedOrder o') }
        else matchLoop o o.amount ⟨[], o, []⟩ l) env w.tick
        (fun res w₁ => Prog.wp (publishEngineResponse res) env w₁ Q E) E := by
    intro o' ho hs hf
    refine Prog.wp_mono (bookOrder_wp w.tick ho) ?_ ?_
    · exact fun res w₁ ⟨ds, h⟩ => hbooked hs hf res w₁ ds h
    · rintro e w₁ ⟨rfl, ds, h⟩
      exact hstopped hs hf w₁ ds h
  unfold newOrder
  cases hs : o.side with
  | SELL =>
    have ho : addedOrder (o.withStatus .OPEN) = restingOrder o := by
      simp [restingOrder, addedOrder, hs, Order.withStatus]
    simp only [OrderDao.matching, hs] at hl
    simp only [Prog.wp_bind, sellOrder]
    refine wp_call hquery fun hf => ?_
    rw [World.tick_orders, hl]
    exact hbook _ ho (.inr hs) hf
  | BUY =>
    have ho : addedOrder o = restingOrder o := by simp [restingOrder, hs]
    simp only [OrderDao.matching, hs] at hl
    simp only [Prog.wp_bind, buyOrder]
    refine wp_call hquery fun hf => ?_
    rw [World.tick_orders, hl]
    exact hbook _ ho (.inl hs) hf
  | other s h =>
    rw [Prog.wp_bind, Prog.wp_pure]
    exact hother (by simp [hs])

/-- **`newOrder`, whichever calls fail.** -/
theorem newOrder_wp (o : Order) (w : World) {l : List Order}
    (hl : env.orderDao.matching w.calls w.orders.docs o = l) :
    Prog.wp (newOrder o) env w (fun _ w' => ∃ ds rs, NewOrderEffect env o l w w' ds rs)
      (fun e w' => e = .io ∧ ∃ ds rs, NewOrderEffect env o l w w' ds rs) := by
  have hfail : env.fails w.calls = true → NewOrderEffect env o l w w.tick [] [] := fun hf =>
    ⟨⟨w.calls + 1, by simp [World.tick]⟩, List.nil_prefix, .inl rfl, by simp,
      fun hff => absurd hff (Env.not_faultless hf)⟩
  refine wp_newOrder hl (fun hf => ⟨rfl, [], [], hfail hf⟩) ?_ ?_ ?_
  · rintro hs - res w₁ ds ⟨⟨⟨n, rfl⟩, rfl, hds, hall⟩, -⟩
    refine wp_call (fun hf => ⟨rfl, ds, [], ⟨n + 1, rfl⟩, hds, .inl rfl, by simp,
      fun hff => absurd hff (Env.not_faultless hf)⟩) fun _ => ?_
    refine ⟨ds, [(processOrder o l).response env.eth], ⟨n + 1, by simp [World.tick]⟩, hds, ?_,
      by simp, ?_⟩
    · rw [List.flatMap_singleton, processOrder_trades]
      rcases hall with hall | ⟨rfl, -⟩
      · exact .inr ⟨hall, rfl⟩
      · exact .inl rfl
    · exact fun hff _ => ⟨hall.resolve_right fun h => h.2 hff, rfl⟩
  · rintro hs - w₁ ds ⟨⟨n, rfl⟩, hds, -, -, hf⟩
    exact ⟨rfl, ds, [], ⟨n, rfl⟩, hds, .inl rfl, by simp,
      fun hff => absurd hff (Env.not_faultless hf)⟩
  · intro hs
    refine wp_call (fun hf => ⟨rfl, [], [], hfail hf⟩) fun _ => ?_
    exact ⟨[], [{}], ⟨w.calls + 1, by simp [World.tick]⟩, List.nil_prefix, .inl rfl, by simp,
      fun _ h => absurd h hs⟩

theorem newOrder_effect (env : Env) (o : Order) (w : World) : ∃ ds rs,
    NewOrderEffect env o (env.orderDao.matching w.calls w.orders.docs o) w
      (newOrder o env w).2 ds rs :=
  Prog.wp_state (P := fun w' => ∃ ds rs,
    NewOrderEffect env o (env.orderDao.matching w.calls w.orders.docs o) w w' ds rs)
    (Prog.wp_mono (newOrder_wp o w rfl) (fun _ _ h => h) fun _ _ h => h.2)

end

/-! ## What an effect leaves -/

section
variable {env : Env} {o : Order} {l : List Order} {w w' : World} {ds : List (Time × Order)}
  {rs : List EngineResponse} (h : NewOrderEffect env o l w w' ds rs)
include h

theorem NewOrderEffect.emitted : w'.emitted = w.emitted ++ rs.flatMap (·.trades) := by
  obtain ⟨n, rfl⟩ := h.wrote
  simp [World.emitted]

theorem NewOrderEffect.engineResponses : w'.engineResponses = w.engineResponses ++ rs := by
  obtain ⟨n, rfl⟩ := h.wrote
  rfl

theorem NewOrderEffect.orders : w'.orders = upserts w.orders ds := by
  obtain ⟨n, rfl⟩ := h.wrote
  rfl

theorem NewOrderEffect.orderQueue : w'.orderQueue = w.orderQueue := by
  obtain ⟨n, rfl⟩ := h.wrote
  rfl

/-- Without matching orders only the order itself is written. -/
theorem NewOrderEffect.unmatched (hl : l = []) :
    w'.orders = w.orders ∨ ∃ now, w'.orders = upsert now w.orders (restingOrder o) := by
  subst hl
  have hwritten := h.written
  have horders := h.orders
  cases ds with
  | nil => exact .inl horders
  | cons x ds =>
    obtain ⟨hx, hds⟩ := List.cons_prefix_cons.1 hwritten
    have hnil : ds = [] := List.map_eq_nil_iff.1 (List.prefix_nil.1 hds)
    subst hnil
    have hx : x.2 = restingOrder o := hx
    rw [← hx]
    exact .inr ⟨x.1, horders⟩

/-- A stored order afterwards: the last of the written ones under its hash, or an old one. -/
theorem NewOrderEffect.mem {d : Order} (hd : d ∈ w'.orders) :
    (∃ now old, d = updatedDoc now old (processOrder o l).takerOrder) ∨
    (∃ p ∈ (processOrder o l).fills, ∃ now old, d = updatedDoc now old (filledMaker p.1 p.2)) ∨
    (d ∈ w.orders ∧ ∀ x ∈ ds, x.2.hash ≠ d.hash) := by
  rw [h.orders] at hd
  rcases mem_upserts hd with ⟨x, hx, old, rfl⟩ | hd
  · rcases List.mem_append.1 (h.written.subset (List.mem_map.2 ⟨x, hx, rfl⟩)) with hw | hw
    · obtain ⟨p, hp, he⟩ := List.mem_map.1 hw
      exact .inr (.inl ⟨p, hp, x.1, old, by rw [he]⟩)
    · exact .inl ⟨x.1, old, by rw [List.mem_singleton.1 hw]⟩
  · exact .inr (.inr hd)

theorem NewOrderEffect.bounded (hl : l.Subperm w.orders.docs) (ho : o.Bounded)
    (hb : ∀ d ∈ w.orders, d.Bounded) : ∀ d ∈ w'.orders, d.Bounded := by
  intro d hd
  have hcnt := processOrder_counts ho fun mo hm => hb mo (hl.subset hm)
  rcases h.mem hd with ⟨now, old, rfl⟩ | ⟨p, hp, now, old, rfl⟩ | ⟨hd, -⟩
  · exact updatedDoc_bounded hcnt.bounded
  · exact updatedDoc_bounded (filledMaker_bounded (hcnt.takers p hp)
      (hb _ (hl.subset ((processOrder_of o l).maker_mem hp))))
  · exact hb d hd

/-- A stored order afterwards has the terms of the incoming one or of one stored before. -/
theorem NewOrderEffect.mem_terms (hl : l.Subperm w.orders.docs) {d : Order} (hd : d ∈ w'.orders) :
    d.terms = o.terms ∨ ∃ x ∈ w.orders, d.terms = x.terms := by
  have hof := processOrder_of o l
  rcases h.mem hd with ⟨now, old, rfl⟩ | ⟨p, hp, now, old, rfl⟩ | ⟨hd, -⟩
  · exact .inl (by rw [updatedDoc_terms, hof.terms])
  · exact .inr ⟨p.2, hl.subset (hof.maker_mem hp), by rw [updatedDoc_terms, filledMaker_terms]⟩
  · exact .inr ⟨d, hd, rfl⟩

theorem NewOrderEffect.written_hash {x : Time × Order} (hx : x ∈ ds) :
    x.2.hash = o.hash ∨ ∃ mo ∈ l, mo.hash = x.2.hash := by
  have hof := processOrder_of o l
  rcases List.mem_append.1 (h.written.subset (List.mem_map.2 ⟨x, hx, rfl⟩)) with hw | hw
  · obtain ⟨p, hp, he⟩ := List.mem_map.1 hw
    exact .inr ⟨p.2, hof.maker_mem hp, by rw [← he, filledMaker_hash]⟩
  · rw [List.mem_singleton.1 hw]
    exact .inl hof.hash

theorem NewOrderEffect.trade {t : Trade} (ht : t ∈ rs.flatMap (·.trades)) :
    ds.map (·.2) = (processOrder o l).written ∧
      ∃ p ∈ (processOrder o l).fills, t = newTrade env.eth p.1 p.2 := by
  rcases h.published with hn | ⟨hds, htr⟩
  · rw [hn] at ht
    cases ht
  · rw [htr] at ht
    obtain ⟨p, hp, he⟩ := List.mem_map.1 ht
    exact ⟨hds, p, hp, he.symm⟩

theorem NewOrderEffect.named {t : Trade} (ht : t ∈ rs.flatMap (·.trades)) {x : Hash}
    (hx : t.Names x) : x ∈ ds.map (·.2.hash) := by
  obtain ⟨hds, p, hp, rfl⟩ := h.trade ht
  have hof := processOrder_of o l
  have hmap : ds.map (·.2.hash) = (processOrder o l).written.map Order.hash := by
    rw [← hds, List.map_map]
    rfl
  rw [hmap]
  rcases hx with rfl | rfl
  · refine List.mem_map.2 ⟨filledMaker p.1 p.2, List.mem_append_left _ ?_, filledMaker_hash _ _⟩
    exact List.mem_map.2 ⟨p, hp, rfl⟩
  · refine List.mem_map.2 ⟨_, List.mem_append_right _ (.head _), ?_⟩
    rw [hof.hash]
    exact (hof.taker_hash hp).symm

theorem NewOrderEffect.total_self : Trade.total (rs.flatMap (·.trades)) o.hash = 0 ∨
    Trade.total (rs.flatMap (·.trades)) o.hash = (processOrder o l).filled := by
  rcases h.published with hn | ⟨-, htr⟩
  · exact .inl (by rw [hn]; rfl)
  · exact .inr (by rw [htr, total_trades_self (processOrder_of o l)])

theorem NewOrderEffect.total_maker (hl : l.Subperm w.orders.docs)
    (hself : ∀ mo ∈ l, mo.hash ≠ o.hash) {p : Order × Order} (hp : p ∈ (processOrder o l).fills) :
    Trade.total (rs.flatMap (·.trades)) p.2.hash = 0 ∨
      Trade.total (rs.flatMap (·.trades)) p.2.hash = tradeAmount p.1 p.2 := by
  have hof := processOrder_of o l
  rcases h.published with hn | ⟨-, htr⟩
  · exact .inl (by rw [hn]; rfl)
  · rw [htr]
    exact .inr (total_trades_maker env.eth (fills_nodup hof hl)
      (fun q hq => trade_names_other hof env.eth hq (hself _ (hof.maker_mem hp))) hp rfl)

theorem NewOrderEffect.total_unwritten {x : Hash} (hx : ∀ d ∈ ds, d.2.hash ≠ x) :
    Trade.total (rs.flatMap (·.trades)) x = 0 :=
  Trade.total_eq_zero fun t ht hn => by
    obtain ⟨d, hd, e⟩ := List.mem_map.1 (h.named ht hn)
    exact hx d hd e

end

/-- **`newOrder` when no call fails**: the makers and the taker are written, one response is
published, nothing else changes. -/
theorem newOrder_eq {env : Env} (hf : env.Faultless) {o : Order}
    {w : World} (hs : o.side = .BUY ∨ o.side = .SELL)
    (hself : ∀ d ∈ w.orders, d.hash = o.hash → d.side = o.side) :
    ∃ l now n, l = env.orderDao.matching w.calls w.orders.docs o ∧ l.Subperm w.orders.docs ∧
      (∀ mo ∈ l, mo.isOpen ∧ o.SamePair mo ∧ o.Opposes mo) ∧
      (newOrder o env w).2 =
        { w with orders := (processOrder o l).store now w.orders
                 engineResponses := w.engineResponses ++ [(processOrder o l).response env.eth]
                 calls := n } := by
  have hsub := env.orderDao.matching_subperm w.calls w.orders.docs o
  have hres := env.orderDao.matching_resting w.calls w.orders.docs o
  have hne : ∀ mo ∈ env.orderDao.matching w.calls w.orders.docs o, mo.hash ≠ o.hash :=
    fun mo hm e => (hres mo hm).2.2.ne (hself mo (hsub.subset hm) e)
  obtain ⟨ds, rs, he⟩ := newOrder_effect env o w
  obtain ⟨hds, hrs⟩ := he.faultless hf hs
  obtain ⟨n, hw⟩ := he.wrote
  obtain ⟨now, hnow⟩ := upserts_written (processOrder_of o _) hsub hne hds
  exact ⟨_, now, n, rfl, hsub, hres, by rw [hw, hnow, hrs]⟩

/-- The state after `newOrder`, in the terms the invariants use. -/
theorem newOrder_step {env : Env} (hf : env.Faultless) {o : Order}
    {w : World} (hs : o.side = .BUY ∨ o.side = .SELL)
    (hself : ∀ d ∈ w.orders, d.hash = o.hash → d.side = o.side) :
    ∃ l now, l = env.orderDao.matching w.calls w.orders.docs o ∧ l.Subperm w.orders.docs ∧
      (∀ mo ∈ l, mo.isOpen ∧ o.SamePair mo ∧ o.Opposes mo) ∧
      (newOrder o env w).2.orders = (processOrder o l).store now w.orders ∧
      (newOrder o env w).2.emitted = w.emitted ++ (processOrder o l).trades env.eth := by
  obtain ⟨l, now, n, hl, hsub, hres, h⟩ := newOrder_eq hf hs hself
  refine ⟨l, now, hl, hsub, hres, by rw [h], ?_⟩
  rw [World.emitted_snoc (w := w) (by rw [h]), processOrder_trades]

/-! ## Cancellation -/

/-- **`cancelOrder` of a stored order when no call fails.** -/
theorem cancelOrder_eq {env : Env} (hf : env.Faultless) {o d : Order} {w : World}
    (hd : w.orders.get o.hash = some d) :
    cancelOrder o env w = (.ok (),
      { w with orders := setStatuses w.orders .CANCELLED [o.hash]
               engineResponses := w.engineResponses ++
                 [{ status := .ORDER_CANCELLED, order := some (o.withStatus .CANCELLED) }]
               calls := w.calls + 2 }) := by
  have h : updateOrderStatus o.hash .CANCELLED env w = (.ok (),
      { w with orders := setStatuses w.orders .CANCELLED [o.hash], calls := w.calls + 1 }) := by
    rw [updateOrderStatus, call_eq hf]
    simp only [World.tick_orders, hd]
    rfl
  rw [cancelOrder, Prog.bind_ok h, publishEngineResponse, call_eq hf]
  rfl

theorem cancelOrder_step {env : Env} (hf : env.Faultless) {o d : Order} {w : World}
    (hd : d ∈ w.orders) (hh : d.hash = o.hash) :
    (cancelOrder o env w).2.orders = setStatuses w.orders .CANCELLED [o.hash] ∧
      (cancelOrder o env w).2.emitted = w.emitted := by
  have heq := cancelOrder_eq hf (hh ▸ Coll.get_mem hd : w.orders.get o.hash = some d)
  refine ⟨by rw [heq], ?_⟩
  rw [World.emitted_snoc (congrArg (·.2.engineResponses) heq)]
  exact List.append_nil _

end Dex
