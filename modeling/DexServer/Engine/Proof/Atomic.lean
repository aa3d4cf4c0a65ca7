import DexServer.Engine.Proof.Effect
import DexServer.Sample

/-!
# A new order whose processing fails

`newOrder` writes the makers one after another, then the order, and publishes one response at the
end. A call that fails stops it there; what was written before stays.

* `AnnouncesFills`: one response is published, with a trade for every maker whose fill has changed.
  This is so whenever no error is returned.
* `leaves_take_iff`: which of its writes leave the store as it is, in terms of the order, the makers
  and what is stored.
* `failed_order_unwritten_iff`: an error leaves every stored order as it was exactly if nothing was
  written before the first call that fails, or what was repeats what is stored.
* `fill_not_announced`: the first maker is written and the second is not; nothing is published.
-/

namespace Dex

open Lib

/-! ## Writes that change nothing -/

/-- The update with `d` leaves the stored order as it is. -/
def Leaves (c : Coll Order.hash) (d : Order) : Prop :=
  ∃ x ∈ c.get d.hash, updatedDoc x.createdAt (some x) d = x

theorem leaves_of_get {c : Coll Order.hash} {d : Order} {t : Time} {old : Option Order}
    (h : c.get d.hash = some (updatedDoc t old d)) : Leaves c d := by
  refine ⟨_, h, ?_⟩
  cases old with
  | none => cases hs : d.signature <;> simp [updatedDoc, hs]
  | some x => cases hs : d.signature <;> simp [updatedDoc, hs]

theorem leaves_self {c : Coll Order.hash} {d : Order} (h : c.get d.hash = some d) : Leaves c d := by
  have hor : d.signature.or d.signature = d.signature := by cases d.signature <;> rfl
  refine ⟨d, h, ?_⟩
  rw [updatedDoc, hor]

theorem get_upsert_of_leaves {c : Coll Order.hash} {d : Order} (h : Leaves c d) (t : Time)
    (k : Hash) : (upsert t c d).get k = c.get k := by
  obtain ⟨x, hx, hd⟩ := h
  have hx : c.get d.hash = some x := hx
  have hup : updatedDoc t (some x) d = x := hd
  rw [upsert, hx, hup, Coll.get_put]
  split
  · rename_i hk
    rw [hk, Coll.get_key hx, hx]
  · rfl

theorem get_upserts_of_leaves : ∀ {ds : List (Time × Order)} {c : Coll Order.hash},
    (∀ d ∈ ds.map (·.2), Leaves c d) → ∀ k, (upserts c ds).get k = c.get k
  | [], _, _, _ => rfl
  | d :: ds, c, h, k => by
    have hd := get_upsert_of_leaves (h d.2 (.head _)) d.1
    rw [upserts_cons, get_upserts_of_leaves (fun x hx => ?_) k, hd]
    obtain ⟨y, hy, hxy⟩ := h x (.tail _ hx)
    exact ⟨y, by rw [hd]; exact hy, hxy⟩

section
variable {o : Order} {l : List Order} {c : Coll Order.hash} (hl : l.Subperm c.docs)
  {ds : List (Time × Order)}
include hl

theorem get_upserts_maker (hds : ds.map (·.2) <+: (processOrder o l).makerOrders) {d : Order}
    (hd : d ∈ ds.map (·.2)) : (upserts c ds).get d.hash = some d := by
  have hof := processOrder_of o l
  obtain ⟨n, hn⟩ : ∃ n, ds.map (·.2) =
      ((processOrder o l).fills.take n).map fun p => filledMaker p.1 p.2 := by
    refine ⟨(ds.map (·.2)).length, ?_⟩
    rw [List.map_take]
    exact List.prefix_iff_eq_take.1 hds
  have hsub := List.take_sublist n (processOrder o l).fills
  have hnodup : (((processOrder o l).fills.take n).map (·.2.hash)).Nodup :=
    (hsub.map _).nodup (fills_nodup hof hl)
  rw [upserts_makers hn (fun p hp => hl.subset (hof.maker_mem (hsub.subset hp))) hnodup, ← hn]
  refine Coll.get_putAll_mem ?_ hd
  rw [hn, List.map_map]
  simpa [Function.comp_def] using hnodup

/-- What was written before an error changes nothing exactly if each write does not. -/
theorem upserts_unchanged_iff (hside : ∀ mo ∈ l, mo.side ≠ o.side)
    (hds : ds.map (·.2) <+: (processOrder o l).written) :
    (∀ k, (upserts c ds).get k = c.get k) ↔ ∀ d ∈ ds.map (·.2), Leaves c d := by
  refine ⟨fun h => ?_, get_upserts_of_leaves⟩
  have hof := processOrder_of o l
  rcases List.prefix_concat_iff.1 hds with hall | hmakers
  · obtain ⟨ms, ts, rfl, hms, hts⟩ := List.map_eq_append_iff.1 hall
    obtain ⟨t, rfl, ht⟩ := List.map_eq_singleton_iff.1 hts
    obtain ⟨old, hget⟩ := get_upserts_snoc c ms t
    rw [h] at hget
    intro d hd
    rw [hall] at hd
    rcases List.mem_append.1 hd with hd | hd
    · -- a maker is another order than the one that comes in: it is on the other side
      have hne : t.2.hash ≠ d.hash := by
        intro he
        obtain ⟨p, hp, rfl⟩ := List.mem_map.1 hd
        have hp2 := Coll.get_mem (hl.subset (hof.maker_mem hp))
        rw [filledMaker_hash] at he
        rw [← he, hget, Option.some.injEq] at hp2
        refine hside _ (hof.maker_mem hp) ?_
        have hterms : p.2.terms = o.terms := by rw [← hp2, updatedDoc_terms, ht, hof.terms]
        exact (Order.sameTerms hterms).side
      refine leaves_self ?_
      rw [← h, upserts_append, get_upserts_other (by simpa using hne)]
      exact get_upserts_maker (o := o) hl (hms ▸ List.prefix_rfl) (hms ▸ hd)
    · rw [List.mem_singleton.1 hd, ← ht]
      exact leaves_of_get hget
  · intro d hd
    refine leaves_self ?_
    rw [← h]
    exact get_upserts_maker hl hmakers hd

end

/-! ## The writes of an order -/

/-- How many makers an order meets of which `r` remains; `left` is what the loop counts down, and
`ms` are the remaining amounts of the makers. -/
def makersMet : Int → Int → List Int → Nat
  | _, _, [] => 0
  | r, left, m :: ms =>
    if left - min r m = 0 then 1 else makersMet (r - min r m) (left - min r m) ms + 1

theorem length_fills_matchOrders : ∀ (l : List Order) (o : Order) (left : Int),
    (matchOrders o left l).fills.length =
      makersMet o.remainingAmount left (l.map (·.remainingAmount))
  | [], _, _ => rfl
  | mo :: l, o, left => by
    have hrest : (filledTaker o mo).remainingAmount = o.remainingAmount - tradeAmount o mo := by
      simp only [filledTaker, Order.remainingAmount]
      omega
    rw [List.map_cons, makersMet, ← tradeAmount_eq_min, matchOrders]
    split
    · rfl
    · dsimp only
      rw [List.length_cons, length_fills_matchOrders l, hrest]

theorem length_fills_processOrder (o : Order) (l : List Order) : (processOrder o l).fills.length =
    makersMet o.remainingAmount o.amount (l.map (·.remainingAmount)) := by
  cases l with
  | nil => rfl
  | cons mo l => exact length_fills_matchOrders (mo :: l) o o.amount

/-- The status with which an order is stored that trades nothing with the makers `l`. -/
def idleStatus (o : Order) (l : List Order) : Status :=
  if l.isEmpty then if o.side = .SELL ∨ o.filledAmount = 0 then .OPEN else o.status
  else if o.amount = 0 then .FILLED else .PARTIAL_FILLED

/-- The first `k` writes, of `n` makers and then the order, repeat what is stored. -/
structure Repeats (c : Coll Order.hash) (o : Order) (l : List Order) (n k : Nat) : Prop where
  /-- nothing is left of the order to trade, and the makers are marked already -/
  makers : l ≠ [] → o.remainingAmount = 0 ∧
    ∀ mo ∈ l.take (min k n), mo.status = .PARTIAL_FILLED ∧ 0 < mo.remainingAmount
  /-- the order is stored already, but for its creation time and its signature -/
  order : k = n + 1 → ∃ x ∈ c.get o.hash, x = { o with
    status := idleStatus o l
    createdAt := x.createdAt
    signature := o.signature.or x.signature }

section
variable {o mo : Order}

/-- A trade leaves an open maker as it is if it is of nothing, and the maker is marked already. -/
theorem filledMaker_eq_self (hopen : mo.isOpen) : filledMaker o mo = mo ↔
    o.remainingAmount = 0 ∧ mo.status = .PARTIAL_FILLED ∧ 0 < mo.remainingAmount := by
  have hgrows := filledMaker_filledAmount o mo
  have hmin := tradeAmount_eq_min o mo
  constructor
  · intro h
    rw [h] at hgrows
    unfold filledMaker at h
    split at h
    · exact ⟨by omega, (congrArg Order.status h).symm, by omega⟩
    · -- a maker that is used up is FILLED, and no longer open
      have hfilled : Status.FILLED = mo.status := congrArg Order.status h
      unfold Order.isOpen at hopen
      rw [← hfilled] at hopen
      exact absurd hopen (by decide)
  · rintro ⟨hr, hs, hpos⟩
    rw [filledMaker, if_pos (by omega), show tradeAmount o mo = 0 by omega, ← hs, Int.add_zero]

theorem filledTaker_idle (ho : o.remainingAmount = 0) (hpos : 0 < mo.remainingAmount) :
    tradeAmount o mo = 0 ∧ filledTaker o mo = o := by
  have hzero : tradeAmount o mo = 0 := by
    rw [tradeAmount_eq_min]
    omega
  rw [filledTaker, hzero, Int.add_zero]
  exact ⟨rfl, rfl⟩

theorem makers_idle_iff (ho : o.remainingAmount = 0) (left : Int) : ∀ (l : List Order) (k : Nat),
    (∀ mo ∈ l, mo.isOpen) → k ≤ (matchOrders o left l).fills.length →
    ((∀ p ∈ (matchOrders o left l).fills.take k, filledMaker p.1 p.2 = p.2) ↔
      ∀ mo ∈ l.take k, mo.status = .PARTIAL_FILLED ∧ 0 < mo.remainingAmount)
  | [], k, _, _ => by simp [matchOrders]
  | _ :: _, 0, _, _ => by simp
  | mo :: l, k + 1, hopen, hk => by
    have hfirst := filledMaker_eq_self (o := o) (hopen mo (.head _))
    rw [matchOrders] at hk ⊢
    split at hk
    · rename_i hleft
      have hk : k = 0 := by simpa using hk
      rw [if_pos hleft, hk]
      simpa [ho] using hfirst
    · rename_i hleft
      rw [if_neg hleft]
      dsimp only at hk ⊢
      rw [List.take_succ_cons, List.take_succ_cons, List.forall_mem_cons, List.forall_mem_cons]
      rw [hfirst, and_iff_right ho]
      refine and_congr_right fun hmo => ?_
      obtain ⟨hzero, htaker⟩ := filledTaker_idle ho hmo.2
      rw [hzero, htaker] at hk ⊢
      exact makers_idle_iff ho _ l k (fun x hx => hopen x (.tail _ hx)) (by simpa using hk)

theorem takerOrder_idle (ho : o.remainingAmount = 0) (left : Int) : ∀ {l : List Order},
    (left = 0 → l ≠ []) →
    (∀ mo ∈ l.take (matchOrders o left l).fills.length, 0 < mo.remainingAmount) →
    (matchOrders o left l).takerOrder =
      o.withStatus (if left = 0 then .FILLED else .PARTIAL_FILLED)
  | [], hne, _ => by
    rw [if_neg fun h => hne h rfl]
    rfl
  | mo :: l, _, hpos => by
    rw [matchOrders] at hpos ⊢
    have hmo : 0 < mo.remainingAmount := hpos mo (by split <;> simp)
    obtain ⟨hzero, htaker⟩ := filledTaker_idle ho hmo
    rw [hzero, htaker, Int.sub_zero] at hpos ⊢
    split
    · have hfull : o.filledAmount = o.amount := by
        unfold Order.remainingAmount at ho
        omega
      simp [Order.complete, Order.withStatus, hfull]
    · rename_i hleft
      rw [if_neg hleft] at hpos
      have hrest := takerOrder_idle ho left (l := l) (fun h => absurd h hleft)
        fun x hx => hpos x (by simpa using .inr hx)
      rw [if_neg hleft] at hrest
      exact hrest

end

section
variable {o : Order} {l : List Order} {c : Coll Order.hash}

theorem leaves_withStatus {s : Status} : Leaves c (o.withStatus s) ↔
    ∃ x ∈ c.get o.hash, x = { o with
      status := s
      createdAt := x.createdAt
      signature := o.signature.or x.signature } :=
  exists_congr fun _ => and_congr_right fun _ => eq_comm

theorem restingOrder_eq (o : Order) : restingOrder o = o.withStatus (idleStatus o []) := by
  unfold restingOrder addedOrder idleStatus
  by_cases hs : o.side = .SELL
  · simp [hs]
  · by_cases hz : o.filledAmount = 0
    · simp [hs, hz]
    · simp [hs, hz, Order.withStatus]

/-- The writes of makers, and that of the order if it was made. -/
theorem leaves_take_written (hl : l.Subperm c.docs) {k : Nat}
    (hkn : k ≤ (processOrder o l).fills.length + 1) :
    (∀ d ∈ (processOrder o l).written.take k, Leaves c d) ↔
      (∀ p ∈ (processOrder o l).fills.take (min k (processOrder o l).fills.length),
        filledMaker p.1 p.2 = p.2) ∧
      (k = (processOrder o l).fills.length + 1 → Leaves c (processOrder o l).takerOrder) := by
  have hmaker : ∀ p ∈ (processOrder o l).fills,
      (Leaves c (filledMaker p.1 p.2) ↔ filledMaker p.1 p.2 = p.2) := by
    intro p hp
    have hget := Coll.get_mem (hl.subset ((processOrder_of o l).maker_mem hp))
    simp [Leaves, hget, updatedDoc_filledMaker]
  rw [Outcome.written, Outcome.makerOrders, List.take_append, List.length_map,
    List.forall_mem_append, ← List.map_take, List.forall_mem_map, ← List.take_eq_take_min]
  refine and_congr ?_ ?_
  · exact forall₂_congr fun p hp => hmaker p (List.mem_of_mem_take hp)
  · rcases Nat.lt_or_ge (processOrder o l).fills.length k with h | h
    · have he : k = (processOrder o l).fills.length + 1 := by omega
      simp [he]
    · rw [Nat.sub_eq_zero_of_le h]
      simp only [List.take_zero, List.not_mem_nil, false_implies, implies_true, true_iff]
      omega

/-- **Which writes leave the store as it is.** -/
theorem leaves_take_iff (hl : l.Subperm c.docs) (hopen : ∀ mo ∈ l, mo.isOpen) {k : Nat}
    (hk : 1 ≤ k) (hkn : k ≤ (processOrder o l).fills.length + 1) :
    (∀ d ∈ (processOrder o l).written.take k, Leaves c d) ↔
      Repeats c o l (processOrder o l).fills.length k := by
  rw [leaves_take_written hl hkn]
  cases l with
  | nil =>
    rw [show (processOrder o []).takerOrder = restingOrder o from rfl, restingOrder_eq,
      leaves_withStatus]
    exact ⟨fun h => ⟨fun hne => absurd rfl hne, h.2⟩, fun h => ⟨by simp [processOrder], h.order⟩⟩
  | cons mo l =>
    have hp : processOrder o (mo :: l) = matchOrders o o.amount (mo :: l) := rfl
    have hidle : idleStatus o (mo :: l) = if o.amount = 0 then .FILLED else .PARTIAL_FILLED := rfl
    rw [hp]
    have hpos : 1 ≤ (matchOrders o o.amount (mo :: l)).fills.length := by
      rw [matchOrders]
      split <;> simp
    have hiff := fun ho => makers_idle_iff (o := o) ho o.amount (mo :: l) _ hopen
      (Nat.min_le_right k _)
    have htaker := fun ho => takerOrder_idle (o := o) ho o.amount (l := mo :: l)
      fun _ => List.cons_ne_nil _ _
    constructor
    · rintro ⟨hmakers, horder⟩
      have ho : o.remainingAmount = 0 := by
        refine ((filledMaker_eq_self (hopen mo (.head _))).1 (hmakers (o, mo) ?_)).1
        obtain ⟨j, hj⟩ : ∃ j, min k (matchOrders o o.amount (mo :: l)).fills.length = j + 1 :=
          ⟨_, (Nat.sub_add_cancel (by omega)).symm⟩
        rw [hj, matchOrders]
        split <;> simp
      have hall := (hiff ho).1 hmakers
      refine ⟨fun _ => ⟨ho, hall⟩, fun he => ?_⟩
      rw [he, Nat.min_eq_right (by omega)] at hall
      have hleaves := horder he
      rw [htaker ho fun x hx => (hall x hx).2] at hleaves
      rw [hidle]
      exact leaves_withStatus.1 hleaves
    · rintro ⟨hmakers, horder⟩
      obtain ⟨ho, hall⟩ := hmakers (List.cons_ne_nil _ _)
      refine ⟨(hiff ho).2 hall, fun he => ?_⟩
      rw [he, Nat.min_eq_right (by omega)] at hall
      rw [htaker ho fun x hx => (hall x hx).2]
      rw [hidle] at horder
      exact leaves_withStatus.2 (horder he)

end

/-! ## The order -/

/-- One response is published; a maker whose stored order has changed has grown by a trade it
announces. -/
def AnnouncesFills (o : Order) (w w' : World) : Prop :=
  ∃ r, w'.engineResponses = w.engineResponses ++ [r] ∧ ∀ h ≠ o.hash,
    w'.orders.get h = w.orders.get h ∨ ∃ t ∈ r.trades, ∃ d d', t.makerOrderHash = h ∧
      t.takerOrderHash = o.hash ∧ w.orders.get h = some d ∧ w'.orders.get h = some d' ∧
      d'.filledAmount = d.filledAmount + t.amount

/-- Of the calls from `c` on, `c + j` is the first that fails. -/
def Env.FirstFails (env : Env) (c j : Nat) : Prop :=
  ¬env.FailsWithin c j ∧ env.fails (c + j) = true

theorem Env.FirstFails.unique {env : Env} {c j j' : Nat} (h : env.FirstFails c j)
    (h' : env.FirstFails c j') : j = j' := by
  rcases Nat.lt_trichotomy j j' with hlt | heq | hlt
  · exact absurd ⟨j, hlt, h.2⟩ h'.1
  · exact heq
  · exact absurd ⟨j', hlt, h'.2⟩ h.1

/-- The calls are the query, a write for each maker met and for the order, and the publication. If
the first one that fails comes after `k` writes, these repeat what is stored. -/
def FailsHarmlessly (env : Env) (o : Order) (w : World) : Prop :=
  o.side = .BUY ∨ o.side = .SELL →
    let l := env.orderDao.matching w.calls w.orders.docs o
    let n := makersMet o.remainingAmount o.amount (l.map (·.remainingAmount))
    ∀ k, 1 ≤ k → k ≤ n + 1 → env.FirstFails w.calls (k + 1) → Repeats w.orders o l n k

theorem announcesFills_of_written (env : Env) {o : Order} {l : List Order} {w w' : World}
    (hl : l.Subperm w.orders.docs) {ds : List (Time × Order)}
    (horders : w'.orders = upserts w.orders ds)
    (hds : ds.map (·.2) = (processOrder o l).written ∨ l = [] ∧ ds = [])
    (hres : w'.engineResponses = w.engineResponses ++ [(processOrder o l).response env.eth]) :
    AnnouncesFills o w w' := by
  refine ⟨_, hres, fun h hh => ?_⟩
  rw [horders, processOrder_trades]
  have hof := processOrder_of o l
  rcases hds with hds | ⟨-, rfl⟩
  · obtain ⟨ms, ts, rfl, hms, hts⟩ := List.map_eq_append_iff.1 hds
    obtain ⟨t, rfl, ht⟩ := List.map_eq_singleton_iff.1 hts
    have hlast : (upserts w.orders (ms ++ [t])).get h = (upserts w.orders ms).get h := by
      rw [upserts_append]
      refine get_upserts_other ?_
      simpa [ht, hof.hash] using Ne.symm hh
    rw [hlast]
    by_cases hx : ∃ p ∈ (processOrder o l).fills, p.2.hash = h
    · obtain ⟨p, hp, rfl⟩ := hx
      have hmem : filledMaker p.1 p.2 ∈ ms.map (·.2) := by
        rw [hms]
        exact List.mem_map.2 ⟨p, hp, rfl⟩
      have hget := get_upserts_maker (o := o) hl (hms ▸ List.prefix_rfl) hmem
      rw [filledMaker_hash] at hget
      exact .inr ⟨newTrade env.eth p.1 p.2, List.mem_map.2 ⟨p, hp, rfl⟩, p.2, _, rfl,
        hof.taker_hash hp,
        Coll.get_mem (hl.subset (hof.maker_mem hp)), hget, filledMaker_filledAmount p.1 p.2⟩
    · refine .inl (get_upserts_other fun q hq he => hx ?_)
      have hmem : q.2 ∈ (processOrder o l).makerOrders := hms ▸ List.mem_map_of_mem hq
      obtain ⟨p, hp, hqp⟩ := List.mem_map.1 hmem
      exact ⟨p, hp, by rw [← he, ← hqp, filledMaker_hash]⟩
  · exact .inl rfl

section
variable {env : Env} {o : Order} {w : World}

theorem unchanged_iff_of_failed {l : List Order}
    (hl : env.orderDao.matching w.calls w.orders.docs o = l) (hs : o.side = .BUY ∨ o.side = .SELL)
    {ds : List (Time × Order)} (hds : ds.map (·.2) <+: (processOrder o l).written)
    (hf : env.FirstFails w.calls (ds.length + 1)) :
    (∀ k, (upserts w.orders ds).get k = w.orders.get k) ↔ FailsHarmlessly env o w := by
  subst hl
  have hsub := env.orderDao.matching_subperm w.calls w.orders.docs o
  have hrest := env.orderDao.matching_resting w.calls w.orders.docs o
  have hlen : ds.length ≤ (processOrder o
      (env.orderDao.matching w.calls w.orders.docs o)).fills.length + 1 := by
    simpa [Outcome.written, Outcome.makerOrders] using hds.length_le
  have htake := List.prefix_iff_eq_take.1 hds
  rw [List.length_map] at htake
  rw [upserts_unchanged_iff hsub (fun mo hmo => (hrest mo hmo).2.2.ne) hds, htake]
  unfold FailsHarmlessly
  simp only [hs, true_imp_iff, ← length_fills_processOrder]
  constructor
  · intro h k hk hkn hf'
    have hkeq : k = ds.length := Nat.succ.inj (hf'.unique hf)
    rw [hkeq] at hk hkn ⊢
    exact (leaves_take_iff hsub (fun mo hmo => (hrest mo hmo).1) hk hkn).1 h
  · intro h
    rcases Nat.eq_zero_or_pos ds.length with hzero | hpos
    · simp [hzero]
    · exact (leaves_take_iff hsub (fun mo hmo => (hrest mo hmo).1) hpos hlen).2 (h _ hpos hlen hf)

theorem failsHarmlessly_of_booked {n : Nat}
    (hn : makersMet o.remainingAmount o.amount
      ((env.orderDao.matching w.calls w.orders.docs o).map (·.remainingAmount)) = n)
    (hmade : ¬env.FailsWithin (w.calls + 1) (n + 1) ∨ env.fails (w.calls + 1) = true)
    (hf : env.fails (w.calls + 1 + (n + 1)) = false) : FailsHarmlessly env o w := by
  intro _ l n' k hk hkn hfirst
  have hn' : n' = n := hn
  exfalso
  rcases hmade with hok | hadd
  · by_cases hend : k = n + 1
    · rw [show w.calls + 1 + (n + 1) = w.calls + (k + 1) by omega, hfirst.2] at hf
      cases hf
    · refine hok ⟨k, by omega, ?_⟩
      rw [show w.calls + 1 + k = w.calls + (k + 1) by omega]
      exact hfirst.2
  · exact hfirst.1 ⟨1, by omega, hadd⟩

end

/-- **A failed `newOrder` leaves the orders as they were, and one that succeeds announces every
fill**, exactly if a call that fails after a write finds what was written stored before. -/
theorem failed_order_unwritten_iff (env : Env) (o : Order) (w : World) :
    Prog.wp (newOrder o) env w (fun _ w' => AnnouncesFills o w w')
      (fun _ w' => ∀ k, w'.orders.get k = w.orders.get k) ↔ FailsHarmlessly env o w := by
  refine Prog.wp_iff ?_
  have hquery : env.fails w.calls = true → FailsHarmlessly env o w := by
    intro hf _ l n k _ _ hfirst
    exact absurd ⟨0, by omega, hf⟩ hfirst.1
  -- the query is the first call
  have hfirst : env.fails w.calls = false → ∀ n, ¬env.FailsWithin (w.calls + 1) n →
      env.fails (w.calls + 1 + n) = true → env.FirstFails w.calls (n + 1) := by
    intro hq n hok hf
    refine ⟨?_, by rwa [Nat.add_comm n 1, ← Nat.add_assoc]⟩
    rw [Env.failsWithin_succ, hq]
    simpa using hok
  have hwritten : ∀ l : List Order, (processOrder o l).written.length =
      makersMet o.remainingAmount o.amount (l.map (·.remainingAmount)) + 1 := by
    intro l
    rw [← length_fills_processOrder]
    simp [Outcome.written, Outcome.makerOrders]
  refine wp_newOrder rfl (fun hf => iff_of_true (fun _ => rfl) (hquery hf)) ?_ ?_ ?_
  · rintro hs hq res w₁ ds ⟨⟨⟨n, rfl⟩, rfl, hds, -⟩, hcalls, hmade⟩
    have hn : n = w.calls + 1 + _ := hcalls
    refine wp_call (fun hf => ?_) fun hf => ?_
    · have hf : env.fails n = true := hf
      rw [hn] at hf
      rcases hmade with ⟨hall, hok⟩ | ⟨-, rfl, hadd⟩
      · rw [← hall, List.length_map] at hf
        exact unchanged_iff_of_failed rfl hs hds (hfirst hq _ hok hf)
      · exact unchanged_iff_of_failed rfl hs hds (hfirst hq 0 (env.failsWithin_zero _) hadd)
    · have hf : env.fails n = false := hf
      rw [hn, hwritten] at hf
      have hsub := env.orderDao.matching_subperm w.calls w.orders.docs o
      refine ⟨announcesFills_of_written env hsub rfl (hmade.imp And.left fun h => ⟨h.1, h.2.1⟩)
        (by simp [World.tick]), failsHarmlessly_of_booked rfl (hmade.imp ?_ fun h => h.2.2) hf⟩
      rintro ⟨hall, hok⟩
      rw [← hwritten, ← hall, List.length_map]
      exact hok
  · rintro hs hq w₁ ds ⟨⟨n, rfl⟩, hds, -, hok, hf⟩
    exact unchanged_iff_of_failed rfl hs hds (hfirst hq _ hok hf)
  · -- neither side: nothing is written
    intro hs
    have hnone : FailsHarmlessly env o w := fun hside => absurd hside hs
    exact wp_call (fun _ => iff_of_true (fun _ => rfl) hnone) fun _ =>
      ⟨⟨{}, rfl, fun _ _ => .inl rfl⟩, hnone⟩

/-- The environment in which one call fails. -/
def Env.failingAt (n : Nat) : Env := { Env.sample .stored with fails := (· = n) }

/-- A BUY of 10 takes a SELL of 6 and four of a SELL of 5; the second write fails. The first SELL is
FILLED by a trade that nobody is told of. -/
theorem fill_not_announced :
    let w :=
      { World.empty with orders := Coll.empty.putAll [.sample 1 .SELL 5 6, .sample 2 .SELL 5 5] }
    let o := Order.sample 3 .BUY 5 10
    ∃ w', newOrder o (.failingAt 2) w = (.error .io, w') ∧ w'.engineResponses = [] ∧
      (w'.orders.get 1).map (fun d => (d.filledAmount, d.status)) = some (6, .FILLED) ∧
      ¬∀ k, w'.orders.get k = w.orders.get k := by
  intro w o
  refine ⟨_, rfl, rfl, by decide +kernel, fun h => ?_⟩
  exact absurd (congrArg (Option.map Order.filledAmount) (h 1)) (by decide +kernel)

end Dex
