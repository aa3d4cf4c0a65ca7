import DexServer.Engine.Proof.Cross
import DexServer.Lib.Auction

/-!
# The engine is an auction

The orders that are open, seen as the standing offers of a continuous auction (`Lib.Auction`): the
abstract model has no store, no statuses and no fills, only what is left of each offer.

* `engine_refines_auction`: every run of fresh orders and cancellations, no call failing, is a run
  of the auction. The offers posted and withdrawn are the requests, in their order; its trades are
  the trades that the engine announces, in their order, with their takers, makers and amounts; and
  after every operation no two standing offers cross.
-/

namespace Dex

open Lib

/-- What an order offers: tokens, a side and a limit. -/
structure Offer where
  baseToken : Address
  quoteToken : Address
  side : Side
  pricePoint : Int

def Order.offer (o : Order) : Offer := ⟨o.baseToken, o.quoteToken, o.side, o.pricePoint⟩

/-- A bid and an ask of one pair, the bid at the price of the ask or above. -/
def Offer.Crosses (a b : Offer) : Prop :=
  b.baseToken = a.baseToken ∧ b.quoteToken = a.quoteToken ∧
    (a.side = .BUY ∧ b.side = .SELL ∧ b.pricePoint ≤ a.pricePoint ∨
      a.side = .SELL ∧ b.side = .BUY ∧ a.pricePoint ≤ b.pricePoint)

theorem Order.offer_eq {o d : Order} (h : o.terms = d.terms) : o.offer = d.offer := by
  have ht := Order.sameTerms h
  rw [offer, offer, ht.baseToken, ht.quoteToken, ht.side, ht.pricePoint]

theorem Offer.crosses_offer {o d : Order} : o.offer.Crosses d.offer ↔
    o.SamePair d ∧ o.Crosses d := by
  unfold Offer.Crosses Order.offer Order.SamePair Order.Crosses
  cases o.side with
  | BUY => simp [and_assoc]
  | SELL => simp [and_assoc]
  | other s h => simp

/-- The standing offer of a stored order. -/
def Order.standing (d : Order) : Option (Standing Offer) :=
  if d.isOpen then Auction.live d.offer d.remainingAmount else none

/-- The book as an auction. -/
def World.auction (w : World) : Auction Hash Offer := fun h => (w.orders.get h).bind Order.standing

/-- A request to the auction; an order that is neither a bid nor an ask is none. -/
def BookOp.request : BookOp → Option (Auction.Act Hash Offer)
  | newOrder o =>
    if o.side = .BUY ∨ o.side = .SELL then some (.post o.hash o.offer o.amount) else none
  | cancelOrder o => some (.withdraw o.hash)

/-- Who took, who was taken from, and how much. -/
def Trade.parties (t : Trade) : Hash × Hash × Int := (t.takerOrderHash, t.makerOrderHash, t.amount)

theorem Order.StatusFits.standing {d : Order} (h : d.StatusFits) :
    d.standing = Auction.live d.offer d.remainingAmount := by
  unfold Order.standing
  by_cases ho : d.isOpen
  · rw [if_pos ho]
  · have hfull : d.filledAmount = d.amount := by
      by_contra hne
      by_cases h0 : d.filledAmount = 0
      · exact ho (.inl (h.OPEN.2 h0))
      · exact ho (.inr (h.PARTIAL_FILLED.2 ⟨h0, hne⟩))
    rw [if_neg ho, Auction.live_nonpos (by rw [Order.remainingAmount]; omega)]

section
variable {env : Env} {w w' : World} {o : Order} {l : List Order} {now : Time} {m : Outcome}

namespace FreshStep

variable (h : FreshStep env w o l now m w')
include h

theorem auction_free : w.auction o.hash = none := by
  have hg : w.orders.get o.hash = none := Coll.get_eq_none.2 h.new
  rw [World.auction, hg]
  rfl

theorem auction_taker : w'.auction o.hash = Auction.live o.offer (o.amount - m.filled) := by
  have hterms := Order.sameTerms h.of.terms
  have hfits : (updatedDoc now (w.orders.get o.hash) m.takerOrder).StatusFits :=
    ⟨by simpa using h.fits.OPEN, by simpa using h.fits.FILLED, by simpa using h.fits.PARTIAL_FILLED⟩
  have hoffer : (updatedDoc now (w.orders.get o.hash) m.takerOrder).offer = o.offer :=
    Order.offer_eq ((updatedDoc_terms ..).trans h.of.terms)
  have hleft : (updatedDoc now (w.orders.get o.hash) m.takerOrder).remainingAmount =
      o.amount - m.filled := by
    have hcount := h.counts.filledAmount
    have hzero := h.zero
    rw [Order.remainingAmount, updatedDoc_amount, updatedDoc_filledAmount, hterms.amount]
    omega
  rw [World.auction, h.orders, store_get_self h.of now, Option.bind_some, hfits.standing,
    hoffer, hleft]

theorem auction_matched {mo : Order} (hmo : mo ∈ l) :
    w.auction mo.hash = Auction.live mo.offer mo.remainingAmount := by
  rw [World.auction, Coll.get_mem (h.sub.subset hmo), Option.bind_some, Order.standing,
    if_pos (h.resting mo hmo).1]

theorem auction_maker (hb : ∀ d ∈ w.orders, d.Bounded) {p : Order × Order} (hp : p ∈ m.fills) :
    w'.auction p.2.hash = Auction.reduce (w.auction p.2.hash) (tradeAmount p.1 p.2) := by
  have hmem := h.of.maker_mem hp
  have hstored := h.sub.subset hmem
  have hfits := filledMaker_statusFits (hb _ hstored) (h.takers p hp)
  have hleft : (filledMaker p.1 p.2).remainingAmount =
      p.2.remainingAmount - tradeAmount p.1 p.2 := by
    have hamount := (Order.sameTerms (filledMaker_terms p.1 p.2)).amount
    rw [Order.remainingAmount, Order.remainingAmount, hamount, filledMaker_filledAmount]
    omega
  rcases store_get_other h.of h.sub now env.eth (h.new p.2 hstored) with
    ⟨q, hq, hqh, -, hget, -⟩ | ⟨hnone, -⟩
  · have hqp : q = p := List.inj_on_of_nodup_map (fills_nodup h.of h.sub) hq hp hqh
    rw [World.auction, h.orders, hget, Option.bind_some, hqp, hfits.standing,
      Order.offer_eq (filledMaker_terms p.1 p.2), hleft, h.auction_matched hmem,
      Auction.reduce_live (h.trade_pos hp).le]
  · exact absurd rfl (hnone p hp)

theorem auction_other {k : Hash} (hk : k ≠ o.hash) (hno : ∀ p ∈ m.fills, p.2.hash ≠ k) :
    w'.auction k = w.auction k := by
  rcases store_get_other h.of h.sub now env.eth hk with ⟨p, hp, hph, -⟩ | ⟨-, hget, -⟩
  · exact absurd hph (hno p hp)
  · rw [World.auction, h.orders, hget]
    rfl

/-- **A fresh order** is posted, and then sweeps through the orders it is matched with. -/
theorem auction (hb : ∀ d ∈ w.orders, d.Bounded) (hpos : 0 < o.amount)
    (hcross : ∀ mo ∈ l, o.Crosses mo) :
    Run (fun _ => Auction.Allowed Offer.Crosses) Auction.step w.auction
      (.post o.hash o.offer o.amount :: m.fills.map
        fun p => .fill o.hash p.2.hash (tradeAmount p.1 p.2))
      w'.auction := by
  have hposted : Run (fun _ => Auction.Allowed Offer.Crosses) Auction.step w.auction
      ([] ++ [.post o.hash o.offer o.amount])
      (Auction.step w.auction (.post o.hash o.offer o.amount)) :=
    .snoc _ .nil ⟨h.auction_free, hpos⟩
  have hmaker : ∀ p ∈ m.fills, p.2.hash ≠ o.hash :=
    fun p hp => h.new _ (h.sub.subset (h.of.maker_mem hp))
  have hself : Auction.step w.auction (.post o.hash o.offer o.amount) o.hash =
      Auction.live o.offer o.amount :=
    Function.update_self ..
  have hkeep : ∀ k, k ≠ o.hash → Auction.step w.auction (.post o.hash o.offer o.amount) k =
      w.auction k :=
    fun k hk => Function.update_of_ne hk ..
  have hterms := Order.sameTerms h.of.terms
  have hpositive : ∀ f ∈ m.fills.map fun p => (p.2.hash, tradeAmount p.1 p.2), 0 < f.2 ∧
      ∃ y, Auction.step w.auction (.post o.hash o.offer o.amount) f.1 = some y ∧
        o.offer.Crosses y.offer ∧ f.2 ≤ y.left := by
    intro f hf
    obtain ⟨p, hp, rfl⟩ := List.mem_map.1 hf
    have hmem := h.of.maker_mem hp
    refine ⟨h.trade_pos hp, ⟨p.2.offer, p.2.remainingAmount⟩, ?_, ?_, ?_⟩
    · rw [hkeep _ (hmaker p hp), h.auction_matched hmem, Auction.live_pos (h.left _ hmem)]
    · exact Offer.crosses_offer.2 ⟨(h.resting _ hmem).2.1, hcross _ hmem⟩
    · show tradeAmount p.1 p.2 ≤ p.2.remainingAmount
      rw [tradeAmount_eq_min]
      exact min_le_right ..
  have hkeys : (m.fills.map fun p => (p.2.hash, tradeAmount p.1 p.2)).map Prod.fst =
      m.fills.map (·.2.hash) := by
    rw [List.map_map]
    rfl
  have hsum : ((m.fills.map fun p => (p.2.hash, tradeAmount p.1 p.2)).map Prod.snd).sum =
      m.filled := by
    rw [List.map_map]
    rfl
  have hle : m.filled ≤ o.amount := by
    have hcount := h.counts.filledAmount
    have hbound := h.counts.bounded.le
    have hzero := h.zero
    rw [hterms.amount] at hbound
    omega
  obtain ⟨M, hrun, htaker, hmakers, hother⟩ := Auction.run_sweep hself hpositive
    (hkeys ▸ fills_nodup h.of h.sub) (by rw [hkeys]; simpa using hmaker) (hsum.trans_le hle)
  have hM : M = w'.auction := by
    funext k
    by_cases hk : k = o.hash
    · rw [hk, htaker, hsum, h.auction_taker]
    · by_cases hfilled : ∃ p ∈ m.fills, p.2.hash = k
      · obtain ⟨p, hp, rfl⟩ := hfilled
        rw [h.auction_maker hb hp, ← hkeep _ hk]
        exact hmakers _ (List.mem_map_of_mem hp)
      · have hno : ∀ p ∈ m.fills, p.2.hash ≠ k := fun p hp he => hfilled ⟨p, hp, he⟩
        rw [hother k hk (by rw [hkeys]; simpa using hno), hkeep k hk, h.auction_other hk hno]
  rw [← hM]
  have hall := hposted.trans hrun
  rwa [List.map_map] at hall

end FreshStep

theorem cancelOrder_auction (hf : env.Faultless) (o : Order) :
    (BookOp.step env w (.cancelOrder o)).auction = Function.update w.auction o.hash none ∧
      (BookOp.step env w (.cancelOrder o)).emitted = w.emitted := by
  cases hg : w.orders.get o.hash with
  | none =>
    have hw : BookOp.step env w (.cancelOrder o) = w.tick :=
      congrArg Prod.snd (cancelOrder_unstored hf hg)
    have hnone : w.auction o.hash = none := by
      rw [World.auction, hg]
      rfl
    rw [hw, ← hnone, Function.update_eq_self]
    exact ⟨rfl, rfl⟩
  | some d =>
    obtain ⟨hw, hemitted⟩ : (BookOp.step env w (.cancelOrder o)).orders =
        setStatuses w.orders .CANCELLED [o.hash] ∧ (BookOp.step env w (.cancelOrder o)).emitted =
          w.emitted :=
      cancelOrder_step hf (Coll.mem_of_get hg) (Coll.get_key hg)
    refine ⟨funext fun k => ?_, hemitted⟩
    rw [World.auction, hw, get_setStatuses]
    by_cases hk : k = o.hash
    · subst hk
      rw [hg, Function.update_self]
      simp [Order.standing, Order.isOpen]
    · rw [Function.update_of_ne hk]
      simp [hk, World.auction]

theorem Uncrossed.settled (h : Uncrossed w.orders) : w.auction.Settled Offer.Crosses := by
  intro k j x y hx hy hcross
  have hstored : ∀ {k : Hash} {x : Standing Offer}, w.auction k = some x →
      ∃ d ∈ w.orders, d.isOpen ∧ x.offer = d.offer := by
    intro k x hx
    obtain ⟨d, hd, hs⟩ := Option.bind_eq_some_iff.1 hx
    unfold Order.standing at hs
    split at hs
    · rename_i ho
      exact ⟨d, Coll.mem_of_get hd, ho, by rw [Auction.live_eq_some hs]⟩
    · cases hs
  obtain ⟨d, hd, hdo, hdx⟩ := hstored hx
  obtain ⟨e, he, heo, hey⟩ := hstored hy
  rw [hdx, hey] at hcross
  obtain ⟨hb, hq, ⟨hds, hes, hle⟩ | ⟨hds, hes, hle⟩⟩ := hcross
  · exact absurd (h d hd e he hdo heo hds hes ⟨hb, hq⟩) (not_lt.2 hle)
  · exact absurd (h e he d hd heo hdo hes hds ⟨hb.symm, hq.symm⟩) (not_lt.2 hle)

end

/-- The actions of the auction are the operations, and its trades those of the engine. -/
structure Enacts (ops : List BookOp) (w : World) (acts : List (Auction.Act Hash Offer)) : Prop where
  requests : Auction.requests acts = ops.filterMap BookOp.request
  fills : Auction.fills acts = w.emitted.map Trade.parties

theorem Enacts.append {ops ops' : List BookOp} {w w' : World}
    {acts cs : List (Auction.Act Hash Offer)} {ts : List Trade} (h : Enacts ops w acts)
    (hw : w'.emitted = w.emitted ++ ts) (hr : Auction.requests cs = ops'.filterMap BookOp.request)
    (hts : Auction.fills cs = ts.map Trade.parties) : Enacts (ops ++ ops') w' (acts ++ cs) := by
  refine ⟨?_, ?_⟩
  · rw [Auction.requests_append, List.filterMap_append, h.requests, hr]
  · rw [Auction.fills_append, hw, List.map_append, h.fills, hts]

theorem Enacts.untraded {ops ops' : List BookOp} {w w' : World}
    {acts cs : List (Auction.Act Hash Offer)} (h : Enacts ops w acts) (hw : w'.emitted = w.emitted)
    (hr : Auction.requests cs = ops'.filterMap BookOp.request) (hcs : Auction.fills cs = []) :
    Enacts (ops ++ ops') w' (acts ++ cs) :=
  h.append (hw.trans (List.append_nil _).symm) hr hcs

section
variable {env : Env} {m : Mongo} {ops : List BookOp} {w : World} (hf : env.Faultless)
  (hm : env.orderDao = m.orderDao) (hx : m.DecimalExact)
include hf hm hx

theorem priced_run (h : Run (fun ops _ op => BookOp.Priced ops op)
    (BookOp.step env) World.empty ops w) : UncrossedBook w ∧ ∀ d ∈ w.orders, d.PriceFits := by
  refine h.invariant (I := fun _ w => UncrossedBook w ∧ ∀ d ∈ w.orders, d.PriceFits) ?_ ?_
  · exact ⟨⟨fun b hb => absurd hb (Coll.not_mem_empty b), by simp⟩, by simp⟩
  · intro ops w op hr hi hok
    cases op with
    | newOrder o =>
      exact uncrossed_newOrder hf hm hx (accounting_run hf (hr.mono fun _ _ _ hok => hok.fresh))
        hi.2 hi.1 hok
    | cancelOrder o => exact uncrossed_cancelOrder hf hi.2 hi.1 o

/-- **An operation** is matched by actions of the auction. -/
theorem Enacts.step (h : Run (fun ops _ op => BookOp.Priced ops op)
    (BookOp.step env) World.empty ops w) {op : BookOp} (hok : BookOp.Priced ops op)
    {acts : List (Auction.Act Hash Offer)} (hacts : Enacts ops w acts) : ∃ cs,
      Run (fun _ => Auction.Allowed Offer.Crosses) Auction.step w.auction cs
        (BookOp.step env w op).auction ∧
      Enacts (ops ++ [op]) (BookOp.step env w op) (acts ++ cs) := by
  have hacc := accounting_run hf (h.mono fun _ _ _ hok => hok.fresh)
  cases op with
  | newOrder o =>
    by_cases hside : o.side = .BUY ∨ o.side = .SELL
    · obtain ⟨l, now, out, hs⟩ := freshStep hf hacc hside hok.1
      have hcross : ∀ mo ∈ l, o.Crosses mo := by
        intro mo hmo
        have hp := (priced_run hf hm hx h).2 mo (hs.sub.subset hmo)
        rw [hs.matching, hm, Mongo.mem_matching (hx.toDecimal _ hp.1.le hp.2)
          (hx.parseDecimal128 _ hok.2.1.le hok.2.2)] at hmo
        exact hmo.2.2.2
      refine ⟨_, hs.auction hacc.bounded hok.1.1 hcross, hacts.append hs.emitted ?_ ?_⟩
      · have hpost : [BookOp.newOrder o].filterMap BookOp.request =
            [.post o.hash o.offer o.amount] := by
          simp [BookOp.request, hside]
        rw [hpost]
        exact congrArg (_ :: ·) (Auction.requests_map ..)
      · refine (Auction.fills_map ..).trans ?_
        rw [Outcome.trades, List.map_map]
        refine List.map_congr_left fun p hp => ?_
        rw [← hs.of.taker_hash hp]
        rfl
    · obtain ⟨horders, hemitted⟩ : (BookOp.step env w (.newOrder o)).orders = w.orders ∧
          (BookOp.step env w (.newOrder o)).emitted = w.emitted := newOrder_other hside
      have hsame : (BookOp.step env w (.newOrder o)).auction = w.auction := by
        unfold World.auction
        rw [horders]
      refine ⟨[], hsame ▸ .nil, hacts.untraded hemitted ?_ rfl⟩
      simp [Auction.requests, BookOp.request, hside]
  | cancelOrder o =>
    obtain ⟨hauction, hemitted⟩ := cancelOrder_auction (w := w) hf o
    refine ⟨[] ++ [.withdraw o.hash], ?_, hacts.untraded hemitted rfl rfl⟩
    rw [hauction]
    exact .snoc _ .nil trivial

end

/-- **The engine is an auction.** In a run of fresh orders and cancellations, no call failing: the
book is what stands after a run of the auction whose offers are the orders submitted and whose
withdrawals are the cancellations; the engine announced exactly the trades of that run; and no two
standing offers cross. -/
theorem engine_refines_auction {env : Env} {m : Mongo} {ops : List BookOp} {w : World}
    (hf : env.Faultless) (hm : env.orderDao = m.orderDao) (hx : m.DecimalExact)
    (h : Run (fun ops _ op => BookOp.Priced ops op) (BookOp.step env) World.empty ops w) :
    w.auction.Settled Offer.Crosses ∧ ∃ acts,
      Run (fun _ => Auction.Allowed Offer.Crosses) Auction.step (fun _ => none) acts w.auction ∧
      Auction.requests acts = ops.filterMap BookOp.request ∧
      Auction.fills acts = w.emitted.map Trade.parties := by
  refine ⟨(priced_run hf hm hx h).1.uncrossed.settled, ?_⟩
  obtain ⟨acts, hrun, hacts⟩ := h.simulated (f := World.auction) (L := Enacts) ⟨rfl, rfl⟩
    fun ops w op acts hr hok hL => hL.step hf hm hx hr hok
  exact ⟨acts, hrun, hacts.requests, hacts.fills⟩

/-- A BUY of 12 takes two asks and rests as a bid; a third ask is cancelled. -/
def sweepOps : List BookOp :=
  [.newOrder (.sample 1 .SELL 6 5), .newOrder (.sample 2 .SELL 5 5),
    .newOrder (.sample 3 .SELL 7 5),
    .newOrder (.sample 4 .BUY 6 12), .cancelOrder (.sample 3 .SELL 7 5)]

theorem engine_refines_auction_sweep : ∃ w : World,
    w.emitted.map (·.amount) = [5, 5] ∧ w.auction.Settled Offer.Crosses ∧ ∃ acts,
      Run (fun _ => Auction.Allowed Offer.Crosses) Auction.step (fun _ => none) acts w.auction ∧
      Auction.requests acts = sweepOps.filterMap BookOp.request ∧
      Auction.fills acts = w.emitted.map Trade.parties :=
  ⟨_, by decide +kernel, engine_refines_auction (m := .sample .timeFirst)
    (Env.sample_faultless (Mongo.sample .timeFirst).orderDao) rfl (Mongo.sample_exact _)
    (Run.of_check sweepOps (by decide +kernel))⟩

end Dex
