import DexServer.Engine.OrderBook
import DexServer.Sample

/-!
# The two sides of a book

`buyOrder` and `sellOrder` are copies of each other, and their loops are the same. They part where
nothing matches: `sellOrder` sets the status to OPEN, `buyOrder` leaves that to `addOrder`, which
does it for an order without a fill only.

* `Mirrors`: a store that answers the mirrored order with the mirrored makers.
* `matchLoop_mirrored`: the loops do the same.
* `sides_mirrored_iff`: so do the two functions, exactly if there is a maker, or the order comes
  without a fill or is OPEN.
-/

namespace Dex

open Lib

/-! ## The other side -/

/-- The opposite side. -/
def Side.mirror : Side → Side
  | .BUY => .SELL
  | .SELL => .BUY
  | .other s h => .other s h

/-- The order on the opposite side. -/
def Order.mirror (o : Order) : Order := { o with side := o.side.mirror }

@[simp] theorem Order.mirror_hash (o : Order) : o.mirror.hash = o.hash := rfl

def Matches.mirror (m : Matches) : Matches :=
  { m with makerOrders := m.makerOrders.map Order.mirror, takerOrder := m.takerOrder.mirror }

def EngineResponse.mirror (r : EngineResponse) : EngineResponse :=
  { r with order := r.order.map Order.mirror, matches? := r.matches?.map Matches.mirror }

/-- Every stored order on the opposite side. -/
def World.mirror (w : World) : World :=
  { w with orders := w.orders.map Order.mirror Order.mirror_hash }

/-- The store of `env'` answers the mirrored order as that of `env` answers the order; the rest is
the same. -/
structure Mirrors (env env' : Env) (o : Order) (w : World) : Prop where
  eth : env'.eth = env.eth
  fails : env'.fails = env.fails
  now : env'.now = env.now
  matching : env'.orderDao.getMatchingBuyOrders w.calls w.mirror.orders.docs o.mirror =
    (env.orderDao.getMatchingSellOrders w.calls w.orders.docs o).map Order.mirror

/-- Every call from call `k` on fails: what was written until then is all that is written. -/
def Env.until (env : Env) (k : Nat) : Env := { env with fails := fun n => env.fails n || k ≤ n }

/-- `sellOrder` on the mirrored order returns the mirrored response, and the store holds the
mirrored orders, in the end and after each of the calls. -/
structure SidesMirrored (env env' : Env) (o : Order) (w : World) : Prop where
  result : Prog.Mimics World.mirror EngineResponse.mirror env env' w (buyOrder o)
    (sellOrder o.mirror)
  writes : ∀ k, Prog.Mimics World.mirror EngineResponse.mirror (env.until k) (env'.until k) w
    (buyOrder o) (sellOrder o.mirror)

/-! ## Matching -/

theorem tradeAmount_mirror (o mo : Order) : tradeAmount o.mirror mo.mirror = tradeAmount o mo := rfl

theorem filledMaker_mirror (o mo : Order) :
    filledMaker o.mirror mo.mirror = (filledMaker o mo).mirror := by
  have hremaining : ∀ o : Order, o.mirror.remainingAmount = o.remainingAmount := fun _ => rfl
  unfold filledMaker
  rw [tradeAmount_mirror, hremaining, hremaining, apply_ite Order.mirror]
  rfl

theorem filledTaker_mirror (o mo : Order) :
    filledTaker o.mirror mo.mirror = (filledTaker o mo).mirror := rfl

theorem newTrade_mirror (eth : Eth) (o mo : Order) :
    newTrade eth o.mirror mo.mirror = newTrade eth o mo := rfl

theorem updatedDoc_mirror (now : Time) (old : Option Order) (o : Order) :
    updatedDoc now (old.map Order.mirror) o.mirror = (updatedDoc now old o).mirror := by
  cases old <;> rfl

theorem appendMatch_mirror (m : Matches) (mo : Order) (t : Trade) :
    (m.appendMatch mo t).mirror = m.mirror.appendMatch mo.mirror t := by
  simp [Matches.appendMatch, Matches.mirror]

section
variable {env env' : Env} {o : Order} {w : World}

theorem upsert_mirror (now : Time) (w : World) (d : Order) :
    upsert now w.mirror.orders d.mirror = (upsert now w.orders d).map Order.mirror
      Order.mirror_hash := by
  simp only [upsert, World.mirror, Coll.map_put, Coll.get_map, updatedDoc_mirror, Order.mirror_hash]

theorem findAndModify_mirrored (h : Mirrors env env' o w) (d : Order) (w₁ : World) :
    Prog.Mimics World.mirror Order.mirror env env' w₁ (findAndModify d)
      (findAndModify d.mirror) := by
  simp only [Prog.Mimics, findAndModify, call, h.fails, h.now]
  show (if env.fails w₁.calls = true then _ else _) = _
  split
  · rfl
  · have hdoc : updatedDoc (env.now w₁.calls) (w₁.mirror.orders.get d.hash) d.mirror =
        (updatedDoc (env.now w₁.calls) (w₁.orders.get d.hash) d).mirror := by
      rw [← updatedDoc_mirror]
      simp only [World.mirror, Coll.get_map]
    refine Prod.ext (congrArg Except.ok hdoc) ?_
    exact congrArg (fun c => ({ w₁.mirror.tick with orders := c } : World)) (upsert_mirror _ _ _)

theorem execute_mirrored (h : Mirrors env env' o w) (a mo : Order) (w₁ : World) :
    Prog.Mimics World.mirror (fun x => (x.1.mirror, x.2.1.mirror, x.2.2)) env env' w₁
      (execute a mo) (execute a.mirror mo.mirror) := by
  unfold execute
  rw [filledMaker_mirror, filledTaker_mirror]
  apply Prog.Mimics.ask
  apply (findAndModify_mirrored h (filledMaker a mo) w₁).bind
  intro d w₂
  rw [newTrade_mirror, h.eth]
  rfl

/-- The loops write and return the same, whatever the makers. -/
theorem matchLoop_mirrored (h : Mirrors env env' o w) (mos : List Order) :
    ∀ (a : Order) (remaining : Int) (m : Matches) (w₁ : World),
      Prog.Mimics World.mirror EngineResponse.mirror env env' w₁ (matchLoop a remaining m mos)
        (matchLoop a.mirror remaining m.mirror (mos.map Order.mirror)) := by
  induction mos with
  | nil =>
    intro a remaining m w₁
    unfold matchLoop
    apply (findAndModify_mirrored h (a.withStatus .PARTIAL_FILLED) w₁).bind
    intro d w₂
    rfl
  | cons mo mos ih =>
    intro a remaining m w₁
    simp only [matchLoop, List.map_cons]
    apply (execute_mirrored h a mo w₁).bind
    rintro ⟨b, mo', t⟩ w₂
    dsimp only
    split
    · apply (findAndModify_mirrored h b.complete w₂).bind
      intro d w₃
      rw [← appendMatch_mirror]
      rfl
    · rw [← appendMatch_mirror]
      apply ih

end

/-! ## The two functions -/

theorem addedOrder_withStatus (o : Order) :
    addedOrder (o.withStatus .OPEN) = o.withStatus .OPEN := by
  unfold addedOrder
  split <;> rfl

theorem addedOrder_eq_withStatus {o : Order} :
    addedOrder o = o.withStatus .OPEN ↔ o.filledAmount = 0 ∨ o.status = .OPEN := by
  unfold addedOrder
  by_cases hf : o.filledAmount = 0
  · simp [hf]
  · rw [if_neg hf, or_iff_right hf]
    constructor
    · intro h
      rw [h, Order.withStatus_status]
    · intro h
      rw [Order.withStatus, ← h]

theorem Order.mirror_mirror (o : Order) : o.mirror.mirror = o := by
  have hside : o.side.mirror.mirror = o.side := by
    cases o.side <;> rfl
  simp only [Order.mirror, hside]

/-- The condition: something fails or matches, or the status that `buyOrder` leaves is OPEN as
well. -/
def StatusAgrees (env : Env) (o : Order) (w : World) : Prop :=
  env.fails w.calls = true ∨ env.orderDao.getMatchingSellOrders w.calls w.orders.docs o ≠ [] ∨
    o.filledAmount = 0 ∨ o.status = .OPEN

instance (env : Env) (o : Order) (w : World) : Decidable (StatusAgrees env o w) :=
  inferInstanceAs (Decidable (_ ∨ _))

section
variable {env env' : Env} {o : Order} {w : World}

/-- Adding an order: the two write and return the same exactly if the status is the same. -/
theorem add_mirrored_iff (h : Mirrors env env' o w) (w₁ : World) :
    Prog.Mimics World.mirror EngineResponse.mirror env env' w₁
      (do
        let _ ← Prog.attempt (addOrder o)
        pure { status := .ORDER_ADDED, order := some (addedOrder o) })
      (do
        let _ ← Prog.attempt (addOrder (o.mirror.withStatus .OPEN))
        pure { status := .ORDER_ADDED, order := some (addedOrder (o.mirror.withStatus .OPEN)) }) ↔
    o.filledAmount = 0 ∨ o.status = .OPEN := by
  rw [← addedOrder_eq_withStatus, addedOrder_withStatus]
  constructor
  · intro hm
    -- the orders of the two responses
    have hsome : some (o.mirror.withStatus .OPEN) = some (addedOrder o).mirror :=
      congrArg (fun x => x.1.toOption.bind (·.order)) hm
    have hsame : (o.withStatus .OPEN).mirror = (addedOrder o).mirror := Option.some.inj hsome
    rw [← Order.mirror_mirror (addedOrder o), ← hsame, Order.mirror_mirror]
  · intro hadded
    have hwritten : Prog.Mimics World.mirror id env env' w₁ (addOrder o)
        (addOrder (o.mirror.withStatus .OPEN)) := by
      unfold addOrder
      rw [hadded, addedOrder_withStatus]
      apply (findAndModify_mirrored h (o.withStatus .OPEN) w₁).bind
      intro d w₂
      rfl
    apply hwritten.attempt.bind
    intro x w₂
    rw [hadded]
    rfl

theorem mirrored_iff (h : Mirrors env env' o w) :
    Prog.Mimics World.mirror EngineResponse.mirror env env' w (buyOrder o) (sellOrder o.mirror) ↔
      StatusAgrees env o w := by
  have hfails : env'.fails w.mirror.calls = env.fails w.calls := congrFun h.fails w.calls
  unfold Prog.Mimics buyOrder sellOrder
  cases hf : env.fails w.calls with
  | true =>
    have hbuy : getMatchingSellOrders o env w = (.error .io, w.tick) := by
      simp [getMatchingSellOrders, call, hf]
    have hsell : getMatchingBuyOrders o.mirror env' w.mirror = (.error .io, w.mirror.tick) := by
      simp [getMatchingBuyOrders, call, hfails, hf]
    rw [Prog.bind_error hbuy, Prog.bind_error hsell]
    exact iff_of_true rfl (.inl hf)
  | false =>
    have hbuy : getMatchingSellOrders o env w =
        (.ok (env.orderDao.getMatchingSellOrders w.calls w.orders.docs o), w.tick) := by
      simp [getMatchingSellOrders, call, hf]
    have hsell : getMatchingBuyOrders o.mirror env' w.mirror =
        (.ok ((env.orderDao.getMatchingSellOrders w.calls w.orders.docs o).map Order.mirror),
          w.mirror.tick) := by
      rw [← h.matching]
      simp [getMatchingBuyOrders, call, hfails, hf]
      rfl
    rw [Prog.bind_ok hbuy, Prog.bind_ok hsell]
    cases hmos : env.orderDao.getMatchingSellOrders w.calls w.orders.docs o with
    | nil =>
      have hagree : StatusAgrees env o w ↔ o.filledAmount = 0 ∨ o.status = .OPEN := by
        simp [StatusAgrees, hf, hmos]
      rw [hagree]
      exact add_mirrored_iff h w.tick
    | cons mo mos =>
      refine iff_of_true ?_ (.inr (.inl (by simp [hmos])))
      exact matchLoop_mirrored h (mo :: mos) o o.amount ⟨[], o, []⟩ w.tick

theorem Mirrors.until (h : Mirrors env env' o w) (k : Nat) :
    Mirrors (env.until k) (env'.until k) o w where
  eth := h.eth
  fails := by
    funext n
    simp only [Env.until, h.fails]
  now := h.now
  matching := h.matching

theorem StatusAgrees.until (h : StatusAgrees env o w) (k : Nat) :
    StatusAgrees (env.until k) o w := by
  rcases h with hf | hrest
  · left
    simp [Env.until, hf]
  · exact .inr hrest

/-- **Buying and selling are mirror images** exactly if the query fails or finds a maker, or the
order comes without a fill or is OPEN. -/
theorem sides_mirrored_iff (h : Mirrors env env' o w) :
    SidesMirrored env env' o w ↔ StatusAgrees env o w := by
  constructor
  · intro hm
    exact (mirrored_iff h).1 hm.result
  · intro hs
    constructor
    · exact (mirrored_iff h).2 hs
    · intro k
      exact (mirrored_iff (h.until k)).2 (hs.until k)

end

/-- A BUY of 10, PARTIAL_FILLED, that meets a SELL of 4 at its price. -/
theorem sides_mirrored_matched :
    let o := { Order.sample 2 .BUY 5 10 with status := .PARTIAL_FILLED, filledAmount := 3 }
    let w := { World.empty with orders := Coll.empty.put (.sample 1 .SELL 5 4) }
    StatusAgrees (.sample .stored) o w ∧ SidesMirrored (.sample .stored) (.sample .stored) o w := by
  intro o w
  have hmirrors : Mirrors (.sample .stored) (.sample .stored) o w := ⟨rfl, rfl, rfl, by decide⟩
  have hagrees : StatusAgrees (.sample .stored) o w := by decide
  exact ⟨hagrees, (sides_mirrored_iff hmirrors).2 hagrees⟩

/-- A BUY that is PARTIAL_FILLED and finds no maker stays so; the SELL becomes OPEN. -/
theorem sides_not_mirrored :
    let o := { Order.sample 1 .BUY 5 10 with status := .PARTIAL_FILLED, filledAmount := 4 }
    ((buyOrder o (.sample .stored) .empty).1.toOption.bind (·.order)).map (·.status) =
        some .PARTIAL_FILLED ∧
      ((sellOrder o.mirror (.sample .stored) .empty).1.toOption.bind (·.order)).map (·.status) =
        some .OPEN ∧
      Mirrors (.sample .stored) (.sample .stored) o .empty ∧
      ¬SidesMirrored (.sample .stored) (.sample .stored) o .empty := by
  intro o
  refine ⟨by decide, by decide, ⟨rfl, rfl, rfl, by decide⟩, fun h => ?_⟩
  have hstatus : some Status.OPEN = some Status.PARTIAL_FILLED :=
    congrArg (fun x => (x.1.toOption.bind (·.order)).map (·.status)) h.result
  cases hstatus

end Dex
