import DexServer.Engine.Proof.Match

/-!
# What an invalidation does, whichever calls fail

`UpdateOrderFilledAmounts` reads the orders it is to give amounts back to in the order the store
returns them and pairs them with the amounts by position (`GivenBack`). `InvalidateEffect` is what
both invalidations do with it: the orders given back are published again, the others become
INVALIDATED, the trades CANCELLED; nothing is traded. A failed call leaves a first part of this.
-/

namespace Dex

open Lib

/-! ## Giving back -/

section
variable (o : Order) (a : Int)

@[simp] theorem restored_terms : (restored o a).terms = o.terms := by
  unfold restored
  dsimp only
  split <;> try split
  all_goals rfl

@[simp] theorem restored_hash : (restored o a).hash = o.hash :=
  (Order.sameTerms (restored_terms o a)).hash

theorem restored_bounded {o : Order} (h : 0 < o.amount) : (restored o a).Bounded := by
  unfold restored
  dsimp only
  split
  · exact ⟨h, le_refl _, h.le⟩
  · split
    · exact ⟨h, h.le, le_refl _⟩
    · refine ⟨h, ?_, ?_⟩ <;> dsimp only <;> omega

end

/-- `UpdateOrderFilledAmounts` wrote `rs`: it found `orders`, and went through the first of them. -/
def GivenBack (hashes : List Hash) (amounts : List Int) (c : Coll Order.hash) (rs : List Order) :
    Prop :=
  ∃ orders : List Order, orders.Perm (c.docs.filter (·.hash ∈ hashes)) ∧
    rs <+: List.zipWith restored orders amounts

/-- It went through all of them. -/
def GivenBackAll (hashes : List Hash) (amounts : List Int) (c : Coll Order.hash) (rs : List Order) :
    Prop :=
  ∃ orders : List Order, orders.Perm (c.docs.filter (·.hash ∈ hashes)) ∧
    rs = List.zipWith restored orders amounts

section
variable {hashes : List Hash} {amounts : List Int} {c : Coll Order.hash} {rs : List Order}

/-- The stored orders that have one of the hashes. -/
abbrev World.found (w : World) (hashes : List Hash) : List Order :=
  w.orders.docs.filter (·.hash ∈ hashes)

/-- What `UpdateOrderFilledAmounts` writes: the orders in the order the store returns them, each
with the amount at its place. -/
def Env.restoredOrders (env : Env) (w : World) (hashes : List Hash) (amounts : List Int) :
    List Order :=
  List.zipWith restored (env.scanOrders w.calls (w.found hashes)) amounts

/-- The number of the first call after it, which has read the orders and written each. -/
def World.restoreEnd (w : World) (hashes : List Hash) : Nat := w.calls + 1 + (w.found hashes).length

/-- One of its calls fails. -/
def Env.RestoreFails (env : Env) (w : World) (hashes : List Hash) : Prop :=
  env.FailsWithin w.calls ((w.found hashes).length + 1)

instance (env : Env) (w : World) (hashes : List Hash) : Decidable (env.RestoreFails w hashes) :=
  inferInstanceAs (Decidable (env.FailsWithin _ _))

theorem Env.givenBackAll (env : Env) (w : World) (hashes : List Hash) (amounts : List Int) :
    GivenBackAll hashes amounts w.orders (env.restoredOrders w hashes amounts) :=
  ⟨_, env.scanOrders_perm _ _, rfl⟩

theorem GivenBackAll.givenBack (h : GivenBackAll hashes amounts c rs) :
    GivenBack hashes amounts c rs := by
  obtain ⟨orders, hp, rfl⟩ := h
  exact ⟨orders, hp, List.prefix_rfl⟩

theorem GivenBack.mem (h : GivenBack hashes amounts c rs) {r : Order} (hr : r ∈ rs) :
    ∃ d ∈ c, d.hash ∈ hashes ∧ ∃ a, r = restored d a := by
  obtain ⟨orders, hp, hpre⟩ := h
  obtain ⟨i, hi, rfl⟩ := List.mem_iff_getElem.1 (hpre.subset hr)
  rw [List.length_zipWith] at hi
  have hd := hp.subset (List.getElem_mem (l := orders) (n := i) (by omega))
  simp only [List.mem_filter, decide_eq_true_eq] at hd
  exact ⟨_, hd.1, hd.2, _, List.getElem_zipWith⟩

theorem zipWith_restored_hashes : ∀ (orders : List Order) (amounts : List Int),
    (List.zipWith restored orders amounts).map Order.hash <+: orders.map Order.hash
  | [], _ => by simp
  | _ :: _, [] => by simp
  | o :: orders, a :: amounts => by
    simpa using zipWith_restored_hashes orders amounts

theorem GivenBack.nodup (h : GivenBack hashes amounts c rs) : (rs.map Order.hash).Nodup := by
  obtain ⟨orders, hp, hpre⟩ := h
  have hs := (hpre.map Order.hash).trans (zipWith_restored_hashes orders amounts)
  exact hs.sublist.nodup (Coll.nodup_of_subperm (hp.subperm.trans List.filter_sublist.subperm))

theorem length_found (c : Coll Order.hash) (hashes : List Hash) :
    (c.docs.filter (·.hash ∈ hashes)).length ≤ hashes.length := by
  have hn := Coll.nodup_of_subperm (c := c)
    (l := c.docs.filter (·.hash ∈ hashes)) List.filter_sublist.subperm
  have hsub : ((c.docs.filter (·.hash ∈ hashes)).map Order.hash) ⊆ hashes := by
    intro h hh
    obtain ⟨d, hd, rfl⟩ := List.mem_map.1 hh
    simpa using (List.mem_filter.1 hd).2
  simpa using (hn.subperm hsub).length_le

theorem Env.mem_restoredOrders (env : Env) {w : World} {d : Order} (hd : d ∈ w.found hashes)
    (hlen : hashes.length ≤ amounts.length) :
    ∃ a, restored d a ∈ env.restoredOrders w hashes amounts := by
  have hperm := env.scanOrders_perm w.calls (w.found hashes)
  have hle : (w.found hashes).length ≤ hashes.length := length_found w.orders hashes
  obtain ⟨i, hi, hid⟩ := List.getElem_of_mem (hperm.mem_iff.2 hd)
  have hia : i < amounts.length := by
    rw [hperm.length_eq] at hi
    omega
  refine ⟨amounts[i], List.mem_of_getElem? (i := i) ?_⟩
  rw [Env.restoredOrders, List.getElem?_zipWith_eq_some]
  exact ⟨d, amounts[i], List.getElem?_eq_some_iff.2 ⟨hi, hid⟩, List.getElem?_eq_getElem hia, rfl⟩

end

section
variable {env : Env}

theorem setFilledAmount_wp {w : World} {o : Order} (ho : o ∈ w.orders) (a : Int) :
    Prog.wp (setFilledAmount (restored o a)) env w
      (fun r w' => r = restored o a ∧ env.fails w.calls = false ∧ w'.calls = w.calls + 1 ∧
        w.Became (w.orders.put (restored o a)) w.trades [] [] w')
      (fun e w' => e = .io ∧ env.fails w.calls = true ∧ w.Same w') := by
  have hget : w.orders.get (restored o a).hash = some o := by
    rw [restored_hash]
    exact Coll.get_mem ho
  have hset : { o with status := (restored o a).status
                       filledAmount := (restored o a).filledAmount } = restored o a := by
    unfold restored
    dsimp only
    split <;> try split
    all_goals rfl
  refine wp_call (fun hf => ⟨rfl, hf, w.same_tick⟩) fun hf => ?_
  simp only [World.tick_orders, hget, hset]
  exact ⟨rfl, hf, rfl, rfl, rfl, by simp, by simp, rfl, rfl, rfl⟩

theorem restoreFilledAmounts_wp (amount : List Int) : ∀ (orders : List Order) (i : Nat) (w : World),
    (orders.map Order.hash).Nodup → (∀ o ∈ orders, o ∈ w.orders) →
    Prog.wp (restoreFilledAmounts amount i orders) env w
      (fun rs w' => rs = List.zipWith restored orders (amount.drop i) ∧
        ¬env.FailsWithin w.calls orders.length ∧ w'.calls = w.calls + orders.length ∧
        w.Became (w.orders.putAll rs) w.trades [] [] w')
      (fun e w' => (e = .io ∧ env.FailsWithin w.calls orders.length ∨
          amount.length < i + orders.length) ∧
        ∃ rs, rs <+: List.zipWith restored orders (amount.drop i) ∧
        w.Became (w.orders.putAll rs) w.trades [] [] w')
  | [], i, w, _, _ => ⟨by simp, env.failsWithin_zero _, rfl, w.same_rfl⟩
  | o :: orders, i, w, hn, hw => by
    simp only [List.map_cons, List.nodup_cons] at hn
    simp only [restoreFilledAmounts, Prog.wp_bind]
    refine wp_index (fun a ha => ?_) fun hi =>
      ⟨.inr (by simp; omega), [], List.nil_prefix, w.same_rfl⟩
    obtain ⟨hi, rfl⟩ := List.getElem?_eq_some_iff.1 ha
    rw [List.drop_eq_getElem_cons hi, List.zipWith_cons_cons]
    refine Prog.wp_mono (setFilledAmount_wp (hw o (.head _)) amount[i]) ?_ ?_
    · rintro _ w₁ ⟨rfl, hf₁, hcalls₁, h₁⟩
      have hwithin : env.FailsWithin w.calls (o :: orders).length ↔
          env.FailsWithin w₁.calls orders.length := by
        rw [List.length_cons, Env.failsWithin_succ, hf₁, hcalls₁]
        simp
      -- the orders still to be written are other ones
      have hw₁ : ∀ x ∈ orders, x ∈ w₁.orders := by
        intro x hx
        rw [h₁.orders]
        refine Coll.mem_put.2 (.inr ⟨hw x (.tail _ hx), ?_⟩)
        rw [restored_hash]
        exact fun e => hn.1 (List.mem_map.2 ⟨x, hx, e⟩)
      refine Prog.wp_mono (restoreFilledAmounts_wp amount orders (i + 1) w₁ hn.2 hw₁) ?_ ?_
      · rintro rs w' ⟨rfl, hf, hcalls, h⟩
        rw [h₁.orders, h₁.trades] at h
        refine ⟨rfl, mt hwithin.1 hf, ?_, h₁.trans h⟩
        rw [hcalls, hcalls₁, List.length_cons]
        omega
      · rintro e w' ⟨he, rs, hrs, h⟩
        rw [h₁.orders, h₁.trades] at h
        refine ⟨he.imp (fun h => ⟨h.1, hwithin.2 h.2⟩) fun h => ?_, restored o amount[i] :: rs, ?_,
          h₁.trans h⟩
        · rw [List.length_cons]
          omega
        · simpa using hrs
    · rintro e w' ⟨rfl, hf, h⟩
      exact ⟨.inl ⟨rfl, Env.failsWithin_succ.2 (.inl hf)⟩, [], List.nil_prefix, h⟩

theorem updateOrderFilledAmounts_wp (hashes : List Hash) (amounts : List Int) (w : World) :
    Prog.wp (updateOrderFilledAmounts hashes amounts) env w
      (fun rs w' => rs = env.restoredOrders w hashes amounts ∧ ¬env.RestoreFails w hashes ∧
        w'.calls = w.restoreEnd hashes ∧ w.Became (w.orders.putAll rs) w.trades [] [] w')
      (fun e w' => (e = .io ∧ env.RestoreFails w hashes ∨ amounts.length < hashes.length) ∧
        ∃ rs, GivenBack hashes amounts w.orders rs ∧
        w.Became (w.orders.putAll rs) w.trades [] [] w') := by
  simp only [updateOrderFilledAmounts, Prog.wp_bind]
  refine wp_call (fun hf => ?_) fun hf => ?_
  · exact ⟨.inl ⟨rfl, Env.failsWithin_succ.2 (.inl hf)⟩, [], ⟨_, .rfl, List.nil_prefix⟩,
      w.same_tick⟩
  · have hwithin : env.RestoreFails w hashes ↔
        env.FailsWithin w.tick.calls (env.scanOrders w.calls (w.found hashes)).length := by
      rw [Env.RestoreFails, Env.failsWithin_succ, hf, (env.scanOrders_perm _ _).length_eq]
      simp
    have hp := env.scanOrders_perm w.calls (w.found hashes)
    rw [Prog.ends_ok, World.tick_orders, Env.restoredOrders, World.restoreEnd, ←
      hp.length_eq, hwithin]
    generalize env.scanOrders w.calls (w.found hashes) = orders at hp
    have hsub := hp.subperm.trans List.filter_sublist.subperm
    have hlen := hp.length_eq ▸ length_found w.orders hashes
    refine Prog.wp_mono (restoreFilledAmounts_wp amounts orders 0 w.tick
      (Coll.nodup_of_subperm hsub) fun o ho => hsub.subset ho) ?_ ?_
    · rintro rs w' ⟨rfl, hf, hcalls, h⟩
      exact ⟨rfl, hf, hcalls, w.same_tick.trans h⟩
    · rintro e w' ⟨he, rs, hrs, h⟩
      exact ⟨he.imp id fun h => by omega, rs, ⟨orders, hp, hrs⟩, w.same_tick.trans h⟩

/-! ## The other calls -/

theorem updateOrderStatusesByHashes_wp (status : Status) (hashes : List Hash) (w : World)
    {E : Err → World → Prop} :
    Prog.wp (updateOrderStatusesByHashes status hashes) env w
      (fun orders w' => (env.fails w.calls = true ∧ orders = [] ∧ w'.calls = w.calls + 1 ∧
        w.Same w') ∨ (env.fails w.calls = false ∧ w'.calls = w.calls + 2 ∧
          orders = (if env.fails (w.calls + 1) then [] else env.scanOrders (w.calls + 1)
            ((setStatuses w.orders status hashes).docs.filter (·.hash ∈ hashes))) ∧
          w.Became (setStatuses w.orders status hashes) w.trades [] [] w')) E := by
  simp only [updateOrderStatusesByHashes, Prog.wp_bind, Prog.wp_attempt]
  refine wp_call (fun hf => .inl ⟨hf, rfl, rfl, w.same_tick⟩) fun hf => ?_
  have h : w.Became (setStatuses w.orders status hashes) w.trades [] []
      { w.tick with orders := setStatuses w.orders status hashes } :=
    ⟨rfl, rfl, by simp, by simp, rfl, rfl, rfl⟩
  refine wp_call (fun hg => .inr ⟨hf, rfl, ?_, h.same (World.same_tick _)⟩) fun hg =>
    .inr ⟨hf, rfl, ?_, h.same (World.same_tick _)⟩
  · have hg : env.fails (w.calls + 1) = true := hg
    rw [if_pos hg]
  · have hg : env.fails (w.calls + 1) = false := hg
    rw [if_neg (ne_true_of_eq_false hg)]
    rfl

theorem updateTradeStatusesWhere_wp (p : Trade → Bool) (status : TradeStatus) (w : World)
    {E : Err → World → Prop} :
    Prog.wp (updateTradeStatusesWhere p status) env w
      (fun trades w' => (env.fails w.calls = true ∧ trades = [] ∧ w.Same w') ∨
        (env.fails w.calls = false ∧
          trades = (if env.fails (w.calls + 1) then [] else env.scanTrades (w.calls + 1)
            ((setTradeStatuses p status w.trades).filter p)) ∧
          w.Became w.orders (setTradeStatuses p status w.trades) [] [] w')) E := by
  simp only [updateTradeStatusesWhere, Prog.wp_bind, Prog.wp_attempt]
  refine wp_call (fun hf => .inl ⟨hf, rfl, w.same_tick⟩) fun hf => ?_
  have h : w.Became w.orders (setTradeStatuses p status w.trades) [] []
      { w.tick with trades := setTradeStatuses p status w.trades } :=
    ⟨rfl, rfl, by simp, by simp, rfl, rfl, rfl⟩
  refine wp_call (fun hg => .inr ⟨hf, ?_, h.same (World.same_tick _)⟩) fun hg =>
    .inr ⟨hf, ?_, h.same (World.same_tick _)⟩
  · have hg : env.fails (w.calls + 1) = true := hg
    rw [if_pos hg]
  · have hg : env.fails (w.calls + 1) = false := hg
    rw [if_neg (ne_true_of_eq_false hg)]
    rfl

theorem republish_wp {E : Err → World → Prop} : ∀ (rs : List Order) (w : World),
    Prog.wp (republish rs) env w
      (fun _ w' => ∃ qs, qs.Sublist rs ∧ (env.Faultless → qs = rs) ∧
        w.Became w.orders w.trades (qs.map .NEW_ORDER) [] w') E
  | [], w => ⟨[], .slnil, fun _ => rfl, w.same_rfl⟩
  | r :: rs, w => by
    simp only [republish, publishNewOrderMessage, publishOrder, Prog.wp_bind, Prog.wp_attempt]
    refine wp_call (fun hf => ?_) fun _ => ?_
    · refine Prog.wp_mono (republish_wp rs w.tick) ?_ fun _ _ h => h
      rintro _ w' ⟨qs, hs, -, h⟩
      exact ⟨qs, hs.cons _, fun hff => absurd hff (Env.not_faultless hf), w.same_tick.trans h⟩
    · rw [Prog.ends_ok]
      refine Prog.wp_mono (republish_wp rs _) ?_ fun _ _ h => h
      rintro _ w' ⟨qs, hs, hall, h⟩
      have h₁ : w.Became w.orders w.trades [.NEW_ORDER r] []
          { w.tick with orderQueue := w.orderQueue ++ [.NEW_ORDER r] } :=
        ⟨rfl, rfl, rfl, by simp, rfl, rfl, rfl⟩
      exact ⟨r :: qs, hs.cons_cons _, fun hf => by rw [hall hf], h₁.trans h⟩

theorem tradeHashes_wp (f : Trade → Hash) (trades : List Trade) :
    ∀ (orders : List Order) (i : Nat) (w : World),
    Prog.wp (tradeHashes f trades i orders) env w
      (fun hs w' => w' = w ∧ hs = ((trades.drop i).take orders.length).map f ∧
        (i ≤ trades.length → i + orders.length ≤ trades.length))
      (fun _ w' => w' = w ∧ trades.length < i + orders.length)
  | [], i, w => ⟨rfl, by simp, by simp⟩
  | o :: orders, i, w => by
    simp only [tradeHashes, Prog.wp_bind]
    refine wp_index (fun t ht => ?_) fun hi => ⟨rfl, by simp; omega⟩
    obtain ⟨hi, rfl⟩ := List.getElem?_eq_some_iff.1 ht
    refine Prog.wp_mono (tradeHashes_wp f trades orders (i + 1) w) ?_ ?_
    · rintro hs w' ⟨rfl, rfl, hlen⟩
      refine ⟨rfl, by rw [List.drop_eq_getElem_cons hi]; rfl, fun _ => ?_⟩
      rw [List.length_cons]
      omega
    · rintro e w' ⟨rfl, h⟩
      exact ⟨rfl, by rw [List.length_cons]; omega⟩

end

/-! ## The invalidations -/

/-- An invalidation gave amounts back to `rs` and published `qs` of them again. -/
structure InvalidateEffect (back marked : List Hash) (amounts : List Int) (w : World)
    (rs qs : List Order) (w' : World) : Prop where
  given : GivenBack back amounts w.orders rs
  requeued : qs.Sublist rs
  became : ∃ c ts res,
    (c = w.orders.putAll rs ∨ c = setStatuses (w.orders.putAll rs) .INVALIDATED marked) ∧
    -- nothing is traded
    (∀ r ∈ res, r.trades = []) ∧
    w.Became c ts (qs.map .NEW_ORDER) res w'

/-- The whole of it, as it happens when no call fails. -/
def Invalidated (back marked : List Hash) (amounts : List Int) (w : World) (w' : World) : Prop :=
  ∃ rs res, GivenBackAll back amounts w.orders rs ∧
    res.status = .TRADES_CANCELLED ∧ res.matches? = none ∧
    w.Became (setStatuses (w.orders.putAll rs) .INVALIDATED marked)
      (setTradeStatuses (·.makerOrderHash ∈ back) .CANCELLED w.trades) (rs.map .NEW_ORDER) [res] w'

/-- The orders `rs` were written and published again, those marked are INVALIDATED. -/
def InvalidatedAs (rs : List Order) (back marked : List Hash) (w w' : World) : Prop :=
  ∃ res : EngineResponse, res.status = .TRADES_CANCELLED ∧ res.matches? = none ∧
    w.Became (setStatuses (w.orders.putAll rs) .INVALIDATED marked)
      (setTradeStatuses (·.makerOrderHash ∈ back) .CANCELLED w.trades) (rs.map .NEW_ORDER) [res] w'

theorem InvalidatedAs.invalidated {env : Env} {back marked : List Hash} {amounts : List Int}
    {w w' : World} (h : InvalidatedAs (env.restoredOrders w back amounts) back marked w w') :
    Invalidated back marked amounts w w' := by
  obtain ⟨res, hs, hm, hb⟩ := h
  exact ⟨_, res, env.givenBackAll w back amounts, hs, hm, hb⟩

section
variable {env : Env}

/-- Publishing a response: it is appended, or the call fails. -/
def Publishes {β : Type} (env : Env) (publish : M β) (res : EngineResponse) : Prop :=
  ∀ w, Prog.wp publish env w
    (fun _ w' => w.Became w.orders w.trades [] [res] w' ∨ (¬env.Faultless ∧ w.Same w'))
    (fun e w' => e = .io ∧ ¬env.Faultless ∧ w.Same w')

theorem publishEngineResponse_wp (res : EngineResponse) (w : World) :
    Prog.wp (publishEngineResponse res) env w
      (fun _ w' => w.Became w.orders w.trades [] [res] w')
      (fun e w' => e = .io ∧ ¬env.Faultless ∧ w.Same w') :=
  wp_call (fun hf => ⟨rfl, Env.not_faultless hf, w.same_tick⟩) fun _ =>
    ⟨rfl, rfl, by simp, rfl, rfl, rfl, rfl⟩

theorem publishEngineResponse_publishes (res : EngineResponse) :
    Publishes env (publishEngineResponse res) res := fun w =>
  Prog.wp_mono (publishEngineResponse_wp res w) (fun _ _ h => .inl h) fun _ _ h => h

theorem attempt_publishes (res : EngineResponse) :
    Publishes env (Prog.attempt (publishEngineResponse res)) res := fun w => by
  rw [Prog.wp_attempt]
  exact Prog.wp_mono (publishEngineResponse_wp res w) (fun _ _ h => .inl h) fun _ _ h => .inr h.2

end

/-! ### Call by call -/

section
variable (env : Env) (k : Nat)

/-- The orders after the status update, which is call `k`. -/
def Env.invalidated (marked : List Hash) (c : Coll Order.hash) : Coll Order.hash :=
  if env.fails k then c else setStatuses c .INVALIDATED marked

/-- The number of the update of the trades: the orders are read in between, unless their update
failed. -/
def Env.cancelCall : Nat := if env.fails k then k + 1 else k + 2

/-- The trades after that. -/
def Env.cancelled (back : List Hash) (ts : List Trade) : List Trade :=
  if env.fails (env.cancelCall k) then ts
  else setTradeStatuses (·.makerOrderHash ∈ back) .CANCELLED ts

/-- The response: what could not be updated or read is left out. -/
def Env.cancelResponse (marked back : List Hash) (c : Coll Order.hash) (ts : List Trade) :
    EngineResponse where
  status := .TRADES_CANCELLED
  invalidatedOrders := some (if env.fails k ∨ env.fails (k + 1) then []
    else env.scanOrders (k + 1) ((env.invalidated k marked c).docs.filter (·.hash ∈ marked)))
  cancelledTrades := some (if env.fails (env.cancelCall k) ∨
    env.fails (env.cancelCall k + 1) then [] else env.scanTrades (env.cancelCall k + 1)
      ((env.cancelled k back ts).filter (·.makerOrderHash ∈ back)))

end

/-- The amounts are given back; what follows is up to the calls. -/
structure InvalidateTrace (env : Env) (back marked : List Hash) (amounts : List Int) (w : World)
    (qs : List Order) (res : List EngineResponse) (w' : World) : Prop where
  restored : ¬env.RestoreFails w back
  requeued : qs.Sublist (env.restoredOrders w back amounts)
  response : res = [] ∨ res = [env.cancelResponse (w.restoreEnd back) marked back
    (w.orders.putAll (env.restoredOrders w back amounts)) w.trades]
  became : w.Became (env.invalidated (w.restoreEnd back) marked
      (w.orders.putAll (env.restoredOrders w back amounts)))
    (env.cancelled (w.restoreEnd back) back w.trades) (qs.map .NEW_ORDER) res w'
  faultless : env.Faultless → qs = env.restoredOrders w back amounts ∧ res ≠ []

/-- It stops while the amounts are given back. -/
def InvalidateStop (back : List Hash) (amounts : List Int) (w w' : World) : Prop :=
  ∃ rs, GivenBack back amounts w.orders rs ∧ w.Became (w.orders.putAll rs) w.trades [] [] w'

section
variable {env : Env} {back marked : List Hash} {amounts : List Int} {w w' : World}

theorem InvalidateTrace.effect {qs : List Order} {res : List EngineResponse}
    (h : InvalidateTrace env back marked amounts w qs res w') :
    ∃ rs qs, InvalidateEffect back marked amounts w rs qs w' := by
  refine ⟨_, qs, (env.givenBackAll w back amounts).givenBack, h.requeued, _, _, res, ?_,
    ?_, h.became⟩
  · unfold Env.invalidated
    split
    · exact .inl rfl
    · exact .inr rfl
  · rcases h.response with hres | hres <;> simp [hres, Env.cancelResponse, EngineResponse.trades]

theorem InvalidateTrace.invalidatedAs {qs : List Order} {res : List EngineResponse}
    (h : InvalidateTrace env back marked amounts w qs res w') (hf : env.Faultless) :
    InvalidatedAs (env.restoredOrders w back amounts) back marked w w' := by
  have hb := h.became
  obtain ⟨hqs, hne⟩ := h.faultless hf
  rw [hqs, h.response.resolve_left hne, Env.invalidated, Env.cancelled, if_neg (by simp [hf _]),
    if_neg (by simp [hf _])] at hb
  exact ⟨_, rfl, rfl, hb⟩

/-- A failed call gives the amounts back only in part. -/
theorem InvalidateStop.effect (h : InvalidateStop back amounts w w') :
    ∃ rs qs, InvalidateEffect back marked amounts w rs qs w' := by
  obtain ⟨rs, hg, h⟩ := h
  exact ⟨rs, [], hg, List.nil_sublist _, _, _, [], .inl rfl, by simp, h⟩

theorem invalidate_wp {β : Type} {publish : EngineResponse → M β}
    (hpub : ∀ res, Publishes env (publish res) res) {w₀ : World} (hf : ¬env.RestoreFails w back)
    (hcalls : w₀.calls = w.restoreEnd back)
    (h₀ : w.Became (w.orders.putAll (env.restoredOrders w back amounts)) w.trades [] [] w₀) :
    Prog.wp (do
        let invalidatedOrders ← updateOrderStatusesByHashes .INVALIDATED marked
        let cancelledTrades ← updateTradeStatusesByOrderHashes .CANCELLED back
        let _ ← publish { status := .TRADES_CANCELLED, invalidatedOrders := some invalidatedOrders,
                          cancelledTrades := some cancelledTrades }
        republish (env.restoredOrders w back amounts)) env w₀
      (fun _ w' => ∃ qs res, InvalidateTrace env back marked amounts w qs res w')
      (fun e w' => e = .io ∧ ¬env.Faultless ∧
        ∃ qs res, InvalidateTrace env back marked amounts w qs res w') := by
  simp only [Prog.wp_bind, updateTradeStatusesByOrderHashes]
  refine Prog.wp_mono (updateOrderStatusesByHashes_wp .INVALIDATED marked w₀) ?_ fun _ _ h => h
  intro invalidatedOrders w₁ h₁
  rw [hcalls] at h₁
  generalize hk : w.restoreEnd back = k at h₁
  -- what is known of the orders, whether or not the calls failed
  obtain ⟨hcalls₁, hinv, h₁⟩ : w₁.calls = env.cancelCall k ∧
      invalidatedOrders = (if env.fails k ∨ env.fails (k + 1) then [] else env.scanOrders (k + 1)
        ((env.invalidated k marked (w.orders.putAll
          (env.restoredOrders w back amounts))).docs.filter (·.hash ∈ marked))) ∧
      w.Became (env.invalidated k marked (w.orders.putAll (env.restoredOrders w back amounts)))
        w.trades [] [] w₁ := by
    unfold Env.cancelCall Env.invalidated
    rcases h₁ with ⟨hk, rfl, hc, h₁⟩ | ⟨hk, hc, rfl, h₁⟩
    · simp only [hk, hc, if_true, true_or]
      exact ⟨trivial, trivial, h₀.same h₁⟩
    · rw [h₀.orders, h₀.trades] at h₁
      simp only [hk, hc, Bool.false_eq_true, if_false, false_or, h₀.orders]
      exact ⟨trivial, trivial, h₀.trans h₁⟩
  refine Prog.wp_mono (updateTradeStatusesWhere_wp _ .CANCELLED w₁) ?_ fun _ _ h => h
  intro cancelledTrades w₂ h₂
  rw [hcalls₁] at h₂
  obtain ⟨hcan, hb⟩ : cancelledTrades = (if env.fails (env.cancelCall k) ∨
        env.fails (env.cancelCall k + 1) then [] else env.scanTrades (env.cancelCall k + 1)
          ((env.cancelled k back w.trades).filter (·.makerOrderHash ∈ back))) ∧
      w.Became (env.invalidated k marked (w.orders.putAll (env.restoredOrders w back amounts)))
        (env.cancelled k back w.trades) [] [] w₂ := by
    unfold Env.cancelled
    rcases h₂ with ⟨hj, rfl, h₂⟩ | ⟨hj, rfl, h₂⟩
    · simp only [hj, if_true, true_or]
      exact ⟨trivial, h₁.same h₂⟩
    · rw [h₁.orders, h₁.trades] at h₂
      simp only [hj, Bool.false_eq_true, if_false, false_or, h₁.trades]
      exact ⟨trivial, h₁.trans h₂⟩
  subst hinv hcan hk
  refine Prog.wp_mono (hpub _ w₂) ?_ ?_
  · intro _ w₃ h₃
    refine Prog.wp_mono (republish_wp _ w₃) ?_ fun _ _ h => h
    rintro _ w' ⟨qs, hs, hq, h₄⟩
    rcases h₃ with h₃ | ⟨hnf, h₃⟩
    · rw [hb.orders, hb.trades] at h₃
      rw [h₃.orders, h₃.trades] at h₄
      exact ⟨qs, _, hf, hs, .inr rfl, (hb.trans h₃).trans h₄, fun h => ⟨hq h, List.cons_ne_nil _ _⟩⟩
    · have h₃ := hb.same h₃
      rw [h₃.orders, h₃.trades] at h₄
      exact ⟨qs, [], hf, hs, .inl rfl, h₃.trans h₄, fun h => absurd h hnf⟩
  · rintro e w' ⟨he, hnf, h₃⟩
    exact ⟨he, hnf, [], [], hf, List.nil_sublist _, .inl rfl, hb.same h₃, fun h => absurd h hnf⟩

end

/-- The hashes that `invalidateMakerOrders` reads from the trades: one for each maker. -/
def Matches.readHashes (m : Matches) (f : Trade → Hash) : List Hash :=
  (m.trades.take m.makerOrders.length).map f

section
variable {env : Env} (m : Matches) (w : World)

/-- **`invalidateMakerOrders`, call by call.** It panics only on missing trades, before any call. -/
theorem invalidateMakerOrders_trace : Prog.wp (invalidateMakerOrders m) env w
    (fun _ w' => m.makerOrders.length ≤ m.trades.length ∧ ∃ qs res, InvalidateTrace env
      (m.readHashes (·.takerOrderHash)) (m.readHashes (·.makerOrderHash)) m.tradeAmounts
        w qs res w')
    (fun e w' => (m.trades.length < m.makerOrders.length ∧ w' = w) ∨
      (m.makerOrders.length ≤ m.trades.length ∧ e = .io ∧ ¬env.Faultless ∧
        ((env.RestoreFails w (m.readHashes (·.takerOrderHash)) ∧
          InvalidateStop (m.readHashes (·.takerOrderHash)) m.tradeAmounts w w') ∨
        ∃ qs res, InvalidateTrace env (m.readHashes (·.takerOrderHash))
          (m.readHashes (·.makerOrderHash)) m.tradeAmounts w qs res w'))) := by
  have hlen : ¬m.tradeAmounts.length < (m.readHashes (·.takerOrderHash)).length := by
    simp [Matches.tradeAmounts, Matches.readHashes]
  unfold invalidateMakerOrders
  rw [Prog.wp_bind]
  refine Prog.wp_mono (tradeHashes_wp _ m.trades m.makerOrders 0 w) ?_ ?_
  · rintro _ _ ⟨rfl, rfl, hmk⟩
    have hmk : m.makerOrders.length ≤ m.trades.length := by
      simpa using hmk (Nat.zero_le _)
    rw [Prog.wp_bind]
    refine Prog.wp_mono (tradeHashes_wp _ m.trades m.makerOrders 0 _) ?_ ?_
    · rintro _ w ⟨rfl, rfl, -⟩
      rw [Prog.wp_bind]
      refine Prog.wp_mono (updateOrderFilledAmounts_wp _ _ w) ?_ ?_
      · rintro rs w₀ ⟨rfl, hf, hcalls, h₀⟩
        refine Prog.wp_mono (invalidate_wp attempt_publishes hf hcalls h₀) ?_ ?_
        · exact fun _ w' h => ⟨hmk, h⟩
        · exact fun e w' ⟨he, hnf, h⟩ => .inr ⟨hmk, he, hnf, .inr h⟩
      · intro e w' ⟨he, h⟩
        obtain ⟨he, hf⟩ := he.resolve_right hlen
        exact .inr ⟨hmk, he, hf.not_faultless, .inl ⟨hf, h⟩⟩
    · rintro e w' ⟨rfl, h⟩
      exact .inl ⟨by omega, rfl⟩
  · rintro e w' ⟨rfl, h⟩
    exact .inl ⟨by omega, rfl⟩

/-- **`invalidateMakerOrders`, whichever calls fail.** -/
theorem invalidateMakerOrders_wp : Prog.wp (invalidateMakerOrders m) env w
    (fun _ w' => (∃ rs qs, InvalidateEffect (m.readHashes (·.takerOrderHash))
        (m.readHashes (·.makerOrderHash)) m.tradeAmounts w rs qs w') ∧
      (env.Faultless → InvalidatedAs
        (env.restoredOrders w (m.readHashes (·.takerOrderHash)) m.tradeAmounts)
        (m.readHashes (·.takerOrderHash)) (m.readHashes (·.makerOrderHash)) w w'))
    (fun e w' => (e = .io ∧ ¬env.Faultless ∨ m.trades.length < m.makerOrders.length) ∧
      ∃ rs qs, InvalidateEffect (m.readHashes (·.takerOrderHash))
        (m.readHashes (·.makerOrderHash)) m.tradeAmounts w rs qs w') := by
  refine Prog.wp_mono (invalidateMakerOrders_trace m w) ?_ ?_
  · intro _ w' ⟨_, qs, res, h⟩
    exact ⟨h.effect, h.invalidatedAs⟩
  · rintro e w' (⟨hlen, rfl⟩ | ⟨-, he, hnf, h⟩)
    · exact ⟨.inr hlen, InvalidateStop.effect ⟨[], ⟨_, .rfl, List.nil_prefix⟩, World.same_rfl _⟩⟩
    · rcases h with ⟨-, h⟩ | ⟨qs, res, h⟩
      · exact ⟨.inl ⟨he, hnf⟩, h.effect⟩
      · exact ⟨.inl ⟨he, hnf⟩, h.effect⟩

/-- **`invalidateTakerOrders`, call by call.** It never panics. -/
theorem invalidateTakerOrders_trace : Prog.wp (invalidateTakerOrders m) env w
    (fun _ w' => ∃ qs res, InvalidateTrace env (m.trades.map (·.makerOrderHash)) [m.takerOrder.hash]
      m.tradeAmounts w qs res w')
    (fun e w' => e = .io ∧ ¬env.Faultless ∧
      ((env.RestoreFails w (m.trades.map (·.makerOrderHash)) ∧
        InvalidateStop (m.trades.map (·.makerOrderHash)) m.tradeAmounts w w') ∨
      ∃ qs res, InvalidateTrace env (m.trades.map (·.makerOrderHash)) [m.takerOrder.hash]
        m.tradeAmounts w qs res w')) := by
  have hlen : ¬m.tradeAmounts.length < (m.trades.map (·.makerOrderHash)).length := by
    simp [Matches.tradeAmounts]
  unfold invalidateTakerOrders
  dsimp only
  rw [Prog.wp_bind]
  refine Prog.wp_mono (updateOrderFilledAmounts_wp _ _ w) ?_ ?_
  · rintro rs w₀ ⟨rfl, hf, hcalls, h₀⟩
    refine Prog.wp_mono (invalidate_wp publishEngineResponse_publishes hf hcalls h₀) ?_ ?_
    · exact fun _ w' h => h
    · exact fun e w' ⟨he, hnf, h⟩ => ⟨he, hnf, .inr h⟩
  · intro e w' ⟨he, h⟩
    obtain ⟨he, hf⟩ := he.resolve_right hlen
    exact ⟨he, hf.not_faultless, .inl ⟨hf, h⟩⟩

/-- **`invalidateTakerOrders`, whichever calls fail.** -/
theorem invalidateTakerOrders_wp : Prog.wp (invalidateTakerOrders m) env w
    (fun _ w' => (∃ rs qs, InvalidateEffect (m.trades.map (·.makerOrderHash)) [m.takerOrder.hash]
        m.tradeAmounts w rs qs w') ∧
      (env.Faultless → InvalidatedAs
        (env.restoredOrders w (m.trades.map (·.makerOrderHash)) m.tradeAmounts)
        (m.trades.map (·.makerOrderHash)) [m.takerOrder.hash] w w'))
    (fun e w' => (e = .io ∧ ¬env.Faultless) ∧
      ∃ rs qs, InvalidateEffect (m.trades.map (·.makerOrderHash)) [m.takerOrder.hash]
        m.tradeAmounts w rs qs w') := by
  refine Prog.wp_mono (invalidateTakerOrders_trace m w) ?_ ?_
  · intro _ w' ⟨qs, res, h⟩
    exact ⟨h.effect, h.invalidatedAs⟩
  · rintro e w' ⟨he, hnf, ⟨-, h⟩ | ⟨qs, res, h⟩⟩
    · exact ⟨⟨he, hnf⟩, h.effect⟩
    · exact ⟨⟨he, hnf⟩, h.effect⟩

end

end Dex
