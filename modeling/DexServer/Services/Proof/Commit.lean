import DexServer.Engine.Proof.Handle
import DexServer.Lib.Run
import DexServer.Sample
import DexServer.Services.Proof.Funds
import DexServer.Services.Proof.Request

/-!
# Orders submitted at the same time

A request checks its order, publishes it, and some time later the engine stores it; the requests and
the engine run next to each other. Nothing is set aside when an order has passed its check, so two
orders may pass on the same balance (`balance_committed_twice`).

`sells_within_balance`: as long as an order is checked only when none of the user's is on its way,
the open SELL orders of a token sum up to at most the balance.
-/

namespace Dex

open Lib

/-- The user's open SELL orders of the token. -/
def World.openSells (w : World) (account token : Address) : List Order :=
  w.orders.docs.filter fun o => o.userAddress = account ∧ o.isOpen ∧ o.baseToken = token ∧
    o.side = .SELL

/-- What is left of them. -/
def World.committed (w : World) (account token : Address) : Int :=
  ((w.openSells account token).map (·.remainingAmount)).sum

/-- The server with its requests: `checked` are the orders that passed and are not yet published. -/
structure Desk where
  world : World
  checked : List Order

/-- A step of one of the requests, or of the engine. -/
inductive SellOp
  /-- a request reads the locked balance and compares -/
  | check (r : RawOrder)
  /-- the request of the `i`-th checked order publishes it -/
  | publish (i : Nat)
  /-- the engine handles the `i`-th message of the queue -/
  | insert (i : Nat)

namespace SellOp

def step (s : Services) (e : Engine) (env : Env) (d : Desk) : SellOp → Desk
  | check r =>
    match s.checkOrder r env d.world with
    | (.ok o, w) => ⟨w, d.checked ++ [o]⟩
    | (.error _, w) => ⟨w, d.checked⟩
  | publish i =>
    match d.checked[i]? with
    | some o => ⟨(publishNewOrderMessage o env d.world).2, d.checked.eraseIdx i⟩
    | none => d
  | insert i => ⟨e.deliver env i d.world, d.checked⟩

/-- The requests are for SELL orders of the user and the token. -/
def Sells (account token : Address) : SellOp → Prop
  | check r => r.userAddress = account ∧ r.baseToken = token ∧ r.side = .SELL
  | _ => True

instance (account token : Address) : (op : SellOp) → Decidable (op.Sells account token)
  | check _ => inferInstanceAs (Decidable (_ ∧ _))
  | publish _ | insert _ => inferInstanceAs (Decidable True)

/-- A check finds no order on its way, and the fill of its own order is within the amount. -/
def Alone (d : Desk) : SellOp → Prop
  | check r => d.checked = [] ∧ d.world.orderQueue = [] ∧
      0 ≤ r.order.filledAmount ∧ r.order.filledAmount ≤ r.order.amount
  | _ => True

instance (d : Desk) : (op : SellOp) → Decidable (op.Alone d)
  | check _ => inferInstanceAs (Decidable (_ ∧ _))
  | publish _ | insert _ => inferInstanceAs (Decidable True)

end SellOp

/-- At most one order is on its way, and there is room for it. -/
structure Committed (account token : Address) (B : Int) (d : Desk) : Prop where
  stored : ∀ x ∈ d.world.orders, x.side = .SELL ∧ 0 ≤ x.remainingAmount
  bound : d.world.committed account token ≤ B
  single : d.checked.length + d.world.orderQueue.length ≤ 1
  messages : ∀ m ∈ d.world.orderQueue, ∃ o, m = .NEW_ORDER o
  room : ∀ o, o ∈ d.checked ∨ .NEW_ORDER o ∈ d.world.orderQueue → o.side = .SELL ∧
    0 ≤ o.remainingAmount ∧ o.remainingAmount + d.world.committed account token ≤ B

section
variable {account token : Address} {B : Int} {w : World}

theorem committed_congr {w' : World} (h : w'.orders = w.orders) :
    w'.committed account token = w.committed account token := by
  unfold World.committed World.openSells
  rw [h]

theorem committed_put_le {w' : World} {x : Order} (hw' : w'.orders = w.orders.put x)
    (hs : ∀ d ∈ w.orders, 0 ≤ d.remainingAmount) (hx : 0 ≤ x.remainingAmount) :
    w'.committed account token ≤ x.remainingAmount + w.committed account token := by
  have hsum := Coll.sum_put_le (c := w.orders) (d := x) (p := fun o => o.userAddress = account ∧
    o.isOpen ∧ o.baseToken = token ∧ o.side = .SELL) (f := (·.remainingAmount))
    fun d hd => hs d (List.mem_of_mem_filter hd)
  rw [← hw'] at hsum
  refine Int.le_trans hsum (Int.add_le_add_right ?_ _)
  split
  · exact Int.le_refl _
  · exact hx

theorem committed_eq_locked (hs : ∀ d ∈ w.orders, d.side = .SELL) (p : Pair) :
    w.committed account token = w.lockedBalance account token p := by
  have hsame : w.openSells account token = w.openSelling account token := by
    refine List.filter_congr fun d hd => ?_
    have hd : d.side = .SELL := hs d hd
    simp [hd]
  unfold World.committed World.lockedBalance
  rw [hsame]
  congr 1
  refine List.map_congr_left fun d hd => ?_
  have hd : d.side = .SELL := hs d (List.mem_of_mem_filter hd)
  rw [Order.remainingSellAmount, if_neg (by rw [hd]; decide)]

end

namespace Committed

variable {s : Services} {e : Engine} {env : Env} {account token : Address} {B : Int} {d : Desk}

theorem still (hi : Committed account token B d) {d' : Desk}
    (ho : d'.world.orders = d.world.orders)
    (hc : d'.checked.length + d'.world.orderQueue.length ≤ 1)
    (hm : ∀ m ∈ d'.world.orderQueue, ∃ o, m = .NEW_ORDER o)
    (hr : ∀ o, o ∈ d'.checked ∨ .NEW_ORDER o ∈ d'.world.orderQueue →
      o ∈ d.checked ∨ .NEW_ORDER o ∈ d.world.orderQueue) : Committed account token B d' := by
  have hcommitted : d'.world.committed account token = d.world.committed account token :=
    committed_congr ho
  refine ⟨ho ▸ hi.stored, hcommitted ▸ hi.bound, hc, hm, fun o h => ?_⟩
  rw [hcommitted]
  exact hi.room o (hr o h)

theorem landed (hi : Committed account token B d) {d' : Desk} (hc : d'.checked = [])
    (hq : d'.world.orderQueue = [])
    (hs : ∀ x ∈ d'.world.orders, x ∈ d.world.orders ∨ x.side = .SELL ∧ 0 ≤ x.remainingAmount)
    (hb : d'.world.committed account token ≤ B) : Committed account token B d' := by
  refine ⟨fun x hx => ?_, hb, ?_, fun m hm => ?_, fun o ho => ?_⟩
  · rcases hs x hx with h | h
    · exact hi.stored x h
    · exact h
  · rw [hc, hq]
    decide
  · rw [hq] at hm
    cases hm
  · rw [hc, hq] at ho
    rcases ho with h | h <;> cases h

theorem check (hB : ∀ n, s.balanceOf n account token = B) {r : RawOrder}
    (hi : Committed account token B d) (hs : SellOp.Sells account token (.check r))
    (ha : SellOp.Alone d (.check r)) :
    Committed account token B (SellOp.step s e env d (.check r)) := by
  obtain ⟨huser, hbase, hside⟩ := hs
  obtain ⟨hnone, hqueue, hfill, hle⟩ := ha
  have hwp := s.checkOrder_wp r env d.world
  unfold SellOp.step Prog.wp at *
  dsimp only
  generalize s.checkOrder r env d.world = x at hwp
  match x, hwp with
  | (.error _, w), hwp =>
    obtain ⟨n, rfl⟩ := hwp
    exact hi.still rfl hi.single hi.messages fun _ h => h
  | (.ok o, w), hwp =>
    obtain ⟨⟨n, rfl⟩, o₀, p, hp⟩ := hwp
    refine ⟨hi.stored, hi.bound, by simp [hnone, hqueue], hi.messages, fun x hx => ?_⟩
    have hxo : x = o := by
      rw [hnone] at hx
      simpa [hqueue] using hx
    subst hxo
    have horder := hp.order
    have hxside : x.side = .SELL := (congrArg Order.side horder).symm.trans hside
    have hxuser : x.userAddress = account := hp.userAddress.trans huser
    have hxtoken : x.sellToken = token := by
      unfold Order.sellToken
      rw [if_neg (by rw [hxside]; decide)]
      exact (congrArg Order.baseToken horder).symm.trans hbase
    have hamount : x.amount = r.order.amount := (congrArg Order.amount horder).symm
    have hfilled : x.filledAmount = r.order.filledAmount :=
      (congrArg Order.filledAmount horder).symm
    obtain ⟨q, n₁, n₂, -, hbal, -⟩ := Services.validateAvailableBalance_funded hp.funded
    rw [hxuser, hxtoken, hB] at hbal
    have hreq : x.totalRequiredSellAmount q = x.amount := by
      rw [Order.totalRequiredSellAmount, if_neg (by rw [hxside]; decide)]
    have hlocked : d.world.committed account token = d.world.tick.lockedBalance account token q :=
      committed_eq_locked (fun y hy => (hi.stored y hy).1) q
    refine ⟨hxside, ?_, ?_⟩
    · simp only [Order.remainingAmount]
      omega
    · show x.remainingAmount + d.world.committed account token ≤ B
      simp only [Order.remainingAmount]
      omega

theorem publish (hi : Committed account token B d) (i : Nat) :
    Committed account token B (SellOp.step s e env d (.publish i)) := by
  unfold SellOp.step
  dsimp only
  cases ho : d.checked[i]? with
  | none => exact hi
  | some o =>
    have hmem := List.mem_of_getElem? ho
    have hlen := List.length_eraseIdx_add_one (List.getElem?_eq_some_iff.1 ho).1
    have hsingle := hi.single
    have hsub : ∀ {x : Order}, x ∈ d.checked.eraseIdx i → x ∈ d.checked :=
      fun hx => List.mem_of_mem_eraseIdx hx
    have hpub : ∀ w', Services.Requested (fun m => m = .NEW_ORDER o) d.world w' →
        Committed account token B ⟨w', d.checked.eraseIdx i⟩ := by
      rintro w' ⟨n, rfl | ⟨m, rfl, rfl⟩⟩
      · refine hi.still rfl ?_ hi.messages fun x hx => hx.imp_left hsub
        show (d.checked.eraseIdx i).length + d.world.orderQueue.length ≤ 1
        omega
      · refine hi.still rfl ?_ (fun m hm => ?_) fun x hx => ?_
        · show (d.checked.eraseIdx i).length + (d.world.orderQueue ++ [_]).length ≤ 1
          rw [List.length_append, List.length_singleton]
          omega
        · rcases List.mem_append.1 hm with hm | hm
          · exact hi.messages m hm
          · exact ⟨o, List.mem_singleton.1 hm⟩
        · rcases hx with hx | hx
          · exact .inl (hsub hx)
          · rcases List.mem_append.1 hx with hx | hx
            · exact .inr hx
            · cases List.mem_singleton.1 hx
              exact .inl hmem
    refine hpub _ (Prog.wp_state ?_)
    exact Services.publishOrder_requested (P := fun m => m = .NEW_ORDER o) (w := d.world) rfl _

theorem insert (hi : Committed account token B d) (i : Nat) :
    Committed account token B (SellOp.step s e env d (.insert i)) := by
  unfold SellOp.step
  dsimp only
  rcases e.deliver_handled env d.world i with ⟨-, hw⟩ | ⟨m, hm, h⟩
  · rw [hw]
    exact hi
  · obtain ⟨o, rfl⟩ := hi.messages m (List.mem_of_getElem? hm)
    obtain ⟨hside, hrem, hroom⟩ := hi.room o (.inr (List.mem_of_getElem? hm))
    -- it was the only order on its way
    have hlen := List.length_eraseIdx_add_one (List.getElem?_eq_some_iff.1 hm).1
    have hsingle := hi.single
    have hchecked : d.checked = [] := List.eq_nil_of_length_eq_zero (by omega)
    have htake : (d.world.take i).orderQueue = [] := List.eq_nil_of_length_eq_zero (by
      show (d.world.orderQueue.eraseIdx i).length = 0
      omega)
    generalize e.deliver env i d.world = w' at h
    cases h with
    | ignored => exact hi.landed hchecked htake (fun x hx => .inl hx) hi.bound
    | newOrder h =>
      have hqueue : w'.orderQueue = [] := h.orderQueue.trans htake
      have hnone : env.orderDao.matching (d.world.take i).calls (d.world.take i).orders.docs o =
          [] := by
        refine List.eq_nil_iff_forall_not_mem.2 fun x hx => ?_
        have hxw := (env.orderDao.matching_subperm _ _ _).subset hx
        have hne := (env.orderDao.matching_resting _ _ _ _ hx).2.2.ne
        exact hne ((hi.stored x hxw).1.trans hside.symm)
      rcases h.unmatched hnone with hw | ⟨now, hw⟩
      · refine hi.landed hchecked hqueue (fun x hx => .inl (hw ▸ hx)) ?_
        rw [committed_congr hw]
        exact hi.bound
      · have hresting : restingOrder o = o.withStatus .OPEN := if_pos hside
        rw [hresting] at hw
        unfold upsert at hw
        generalize hdoc : updatedDoc now _ (o.withStatus .OPEN) = x at hw
        have hxside : x.side = .SELL := by
          rw [← hdoc]
          exact (Order.sameTerms (updatedDoc_terms now _ (o.withStatus .OPEN))).side.trans hside
        have hxrem : x.remainingAmount = o.remainingAmount := by
          rw [← hdoc]
          unfold Order.remainingAmount
          rw [updatedDoc_amount, updatedDoc_filledAmount]
          rfl
        refine hi.landed hchecked hqueue (fun y hy => ?_) ?_
        · rw [hw] at hy
          rcases Coll.mem_put.1 hy with rfl | ⟨hy, -⟩
          · exact .inr ⟨hxside, hxrem ▸ hrem⟩
          · exact .inl hy
        · have hle : w'.committed account token ≤
              x.remainingAmount + d.world.committed account token :=
            committed_put_le hw (fun y hy => (hi.stored y hy).2) (hxrem ▸ hrem)
          show w'.committed account token ≤ B
          omega

theorem step (hB : ∀ n, s.balanceOf n account token = B) {op : SellOp}
    (hi : Committed account token B d) (hs : op.Sells account token) (ha : op.Alone d) :
    Committed account token B (op.step s e env d) := by
  cases op with
  | check r => exact hi.check hB hs ha
  | publish i => exact hi.publish i
  | insert i => exact hi.insert i

end Committed

/-- **The open SELL orders of a user stay within the balance**, as long as no order is checked while
another is on its way to the book. -/
theorem sells_within_balance {s : Services} {e : Engine} {env : Env}
    {account token : Address} {B : Int} (hB : ∀ n, s.balanceOf n account token = B) {w₀ : World}
    (hq : w₀.orderQueue = []) (hs : ∀ x ∈ w₀.orders, x.side = .SELL ∧ 0 ≤ x.remainingAmount)
    (h0 : w₀.committed account token ≤ B) {ops : List SellOp} {d : Desk}
    (h : Run (fun _ d op => op.Sells account token ∧ op.Alone d) (SellOp.step s e env)
      ⟨w₀, []⟩ ops d) :
    d.world.committed account token ≤ B := by
  have hstart : Committed account token B ⟨w₀, []⟩ := by
    refine ⟨hs, h0, ?_, fun m hm => ?_, fun o ho => ?_⟩
    · show 0 + w₀.orderQueue.length ≤ 1
      rw [hq]
      decide
    · rw [hq] at hm
      cases hm
    · rw [hq] at ho
      rcases ho with h | h <;> cases h
  exact (h.invariant (I := fun _ d => Committed account token B d) hstart
    fun _ d op _ hi hok => hi.step hB hok.1 hok.2).bound

/-- Two orders of 4 and 6, one after the other, take up a balance of 10. -/
theorem sells_within_balance_in_turn :
    let ops : List SellOp := [.check (.sample 1 .SELL 5 4), .publish 0, .insert 0,
      .check (.sample 2 .SELL 5 6), .publish 0, .insert 0]
    ∃ d, Run (fun _ d op => op.Sells 1 3 ∧ op.Alone d)
        (SellOp.step (.sampleFunds 10) .sample (.sample .stored)) ⟨.empty, []⟩ ops d ∧
      d.world.committed 1 3 = 10 ∧ d.world.committed 1 3 ≤ 10 := by
  intro ops
  have hrun : Run (fun _ d op => op.Sells 1 3 ∧ op.Alone d)
      (SellOp.step (.sampleFunds 10) .sample (.sample .stored)) ⟨.empty, []⟩ ops _ :=
    Run.of_check _ (by decide +kernel)
  exact ⟨_, hrun, by decide +kernel, sells_within_balance (fun _ => rfl) rfl
    (fun x hx => by cases hx) (by decide) hrun⟩

/-- Two requests for 10 each are checked before either order is stored. -/
theorem balance_committed_twice :
    ∃ d, Run (fun _ _ op => op.Sells 1 3) (SellOp.step (.sampleFunds 10) .sample (.sample .stored))
        ⟨.empty, []⟩
        [.check (.sample 1 .SELL 5 10), .check (.sample 2 .SELL 5 10), .publish 0, .publish 0,
          .insert 0, .insert 0] d ∧
      (d.world.openSells 1 3).map (·.remainingAmount) = [10, 10] ∧
      ¬d.world.committed 1 3 ≤ 10 :=
  ⟨_, Run.of_check _ (by decide +kernel), by decide +kernel, by decide +kernel⟩

end Dex
