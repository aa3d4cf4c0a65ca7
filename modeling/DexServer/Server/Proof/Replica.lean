import DexServer.Lib.Replica
import DexServer.Server.Proof.Lasting
import DexServer.Services.Proof.Broadcast

/-!
# Clients of the raw order book

A client reads the raw order book of a pair and subscribes to its channel. It shows the open orders
by their hashes: of every update it takes the orders that are open, and drops the ones that are not.
No response is handled between the read and the subscription.

The responses that nobody has handled are a log of what the engine wrote (`World.pending`), and each
is broadcast when it is handled. Nothing is lost if no call fails and every handler comes to its
broadcast, the responses in their order (`Step.Tells`).

* `raw_order_book_converges`: then, whenever the client joined, it shows the open orders of the
  store as soon as no response is left.
-/

namespace Dex

open Lib

/-! ## What a client shows -/

/-- What is shown of an order: it is gone when it is not open. The store alone sets the creation
time, and it keeps an old signature. -/
def Order.listed (d : Order) : Option Order :=
  if d.isOpen then some { d with createdAt := 0, signature := none } else none

/-- The order is of the pair. -/
def PairTokens.Has (p : PairTokens) (d : Order) : Prop :=
  d.baseToken = p.baseTokenAddress ∧ d.quoteToken = p.quoteTokenAddress

instance PairTokens.decidableHas (p : PairTokens) (d : Order) : Decidable (p.Has d) :=
  inferInstanceAs (Decidable (_ ∧ _))

/-- The open orders of the pair, by their hashes. -/
def PairTokens.listing (p : PairTokens) (c : Coll Order.hash) (h : Hash) : Option Order :=
  (c.get h).bind fun d => if p.Has d then d.listed else none

/-- What the client of the pair writes for some orders. -/
def PairTokens.writes (p : PairTokens) (os : List Order) : List (Hash × Option Order) :=
  (os.filter fun o => p.Has o).map fun o => (o.hash, o.listed)

section
variable {p : PairTokens} {d o : Order} {c : Coll Order.hash}

theorem PairTokens.has_congr (h : o.SamePair d) : p.Has d ↔ p.Has o := by
  unfold PairTokens.Has
  rw [h.1, h.2]

theorem PairTokens.mem_writes {os : List Order} {u : Hash × Option Order} :
    u ∈ p.writes os ↔ ∃ o ∈ os, p.Has o ∧ (o.hash, o.listed) = u := by
  simp [PairTokens.writes, and_assoc]

theorem PairTokens.writes_cons (os : List Order) :
    p.writes (o :: os) = p.writes [o] ++ p.writes os := by
  unfold PairTokens.writes
  rw [← List.map_append, ← List.filter_append]
  rfl

theorem PairTokens.writes_keys {os : List Order} (hn : (os.map Order.hash).Nodup) :
    ((p.writes os).map Prod.fst).Nodup := by
  have hsub : ((p.writes os).map Prod.fst).Sublist (os.map Order.hash) := by
    unfold PairTokens.writes
    rw [List.map_map]
    exact List.filter_sublist.map _
  exact hsub.nodup hn

theorem Order.listed_updatedDoc (now : Time) (old : Option Order) (o : Order) :
    (updatedDoc now old o).listed = o.listed := by
  cases old <;> rfl

/-- The document under a hash is written: so does the client, if it is of the pair. -/
theorem PairTokens.listing_write {c' : Coll Order.hash} (hget : c'.get o.hash = some d)
    (hlisted : d.listed = o.listed) (hpair : o.SamePair d)
    (hold : ∀ d, c.get o.hash = some d → o.SamePair d)
    (hother : ∀ h, h ≠ o.hash → c'.get h = c.get h) :
    p.listing c' = replay (p.listing c) (p.writes [o]) := by
  have hhas : p.Has d ↔ p.Has o := PairTokens.has_congr hpair
  funext h
  by_cases hh : h = o.hash
  · rw [PairTokens.listing, hh, hget, Option.bind_some, hlisted]
    by_cases ho : p.Has o
    · simp [PairTokens.writes, ho, hhas]
    · -- what was there is not of the pair either
      have hnone : p.listing c o.hash = none := by
        unfold PairTokens.listing
        cases hd : c.get o.hash with
        | none => rfl
        | some d' =>
          rw [Option.bind_some, if_neg fun hd' => ho ((PairTokens.has_congr (hold d' hd)).1 hd')]
      simp [PairTokens.writes, ho, hhas, hnone]
  · have hkey : h ∉ (p.writes [o]).map Prod.fst := by
      intro hm
      obtain ⟨u, hu, rfl⟩ := List.mem_map.1 hm
      obtain ⟨x, hx, -, rfl⟩ := PairTokens.mem_writes.1 hu
      exact hh (by rw [List.mem_singleton.1 hx])
    rw [replay_other hkey, PairTokens.listing, hother h hh]
    rfl

theorem PairTokens.listing_upsert (now : Time) (hold : ∀ d, c.get o.hash = some d → o.SamePair d) :
    p.listing (upsert now c o) = replay (p.listing c) (p.writes [o]) := by
  refine PairTokens.listing_write (d := updatedDoc now (c.get o.hash) o) ?_
    (Order.listed_updatedDoc ..) ?_
    hold fun h hh => Coll.get_put_other (by rw [updatedDoc_hash]; exact hh)
  · rw [upsert, Coll.get_put, if_pos (updatedDoc_hash ..).symm]
  · cases c.get o.hash <;> exact ⟨rfl, rfl⟩

theorem PairTokens.listing_upserts : ∀ {ds : List (Time × Order)} {c : Coll Order.hash},
    (ds.map (·.2.hash)).Nodup → (∀ x ∈ ds, ∀ d, c.get x.2.hash = some d → x.2.SamePair d) →
    p.listing (upserts c ds) = replay (p.listing c) (p.writes (ds.map (·.2)))
  | [], c, _, _ => rfl
  | x :: ds, c, hn, hp => by
    rw [List.map_cons, List.nodup_cons] at hn
    rw [upserts_cons, List.map_cons, PairTokens.writes_cons, replay_append,
      ← PairTokens.listing_upsert x.1 (hp x (.head _))]
    refine PairTokens.listing_upserts hn.2 fun y hy d hd => hp y (.tail _ hy) d ?_
    rwa [upsert, Coll.get_put_other] at hd
    rw [updatedDoc_hash]
    exact fun he => hn.1 (he ▸ List.mem_map_of_mem hy)

theorem PairTokens.listing_cancelled (hd : c.get o.hash = some d) (hp : o.SamePair d) :
    p.listing (setStatuses c .CANCELLED [o.hash]) =
      replay (p.listing c) (p.writes [o.withStatus .CANCELLED]) := by
  refine PairTokens.listing_write (d := d.withStatus .CANCELLED) ?_ rfl hp (fun d' hd' => ?_)
    fun h hh => ?_
  · rw [Order.withStatus_hash, get_setStatuses, hd]
    simp
  · rw [Order.withStatus_hash, hd] at hd'
    rw [← Option.some.inj hd']
    exact hp
  · rw [get_setStatuses]
    have hh : h ∉ [o.hash] := fun hm => hh (List.mem_singleton.1 hm)
    simp [hh]

end

/-! ## The engine announces what it writes -/

/-- The orders of a response are of one pair, and there is one for each maker. -/
structure EngineResponse.Regular (r : EngineResponse) : Prop where
  pair : ∀ o ∈ r.rawOrders, ∀ o' ∈ r.rawOrders, o.SamePair o'
  length : ∀ m, r.matches? = some m → m.makerOrders.length = m.trades.length

/-- What was written was announced by the responses `rs`. -/
structure Announced (w : World) (rs : List EngineResponse) (w' : World) : Prop where
  responses : w'.engineResponses = w.engineResponses ++ rs
  regular : ∀ r ∈ rs, r.Regular
  listing : ∀ p : PairTokens, p.listing w'.orders =
    replay (p.listing w.orders) (rs.flatMap fun r => p.writes r.rawOrders)

theorem rawOrders_response (o : Order) (l : List Order) (eth : Eth) :
    ((processOrder o l).response eth).rawOrders =
      (processOrder o l).takerOrder :: (processOrder o l).makerOrders := by
  unfold processOrder
  split
  · rfl
  · unfold EngineResponse.rawOrders Outcome.response
    rcases matchOrders_matched l o o.amount with h | h <;> dsimp only <;> rw [h] <;> rfl

theorem matches_response {o : Order} {l : List Order} {eth : Eth} {m : Matches}
    (h : ((processOrder o l).response eth).matches? = some m) :
    m.makerOrders.length = m.trades.length := by
  unfold Outcome.response at h
  dsimp only at h
  split at h
  · cases h
  · cases h
    simp [Outcome.makerOrders, Outcome.trades]

theorem Order.Crosses.side_ne {o d : Order} (h : o.Crosses d) : d.side ≠ o.side := by
  unfold Order.Crosses at h
  split at h
  · rename_i hs
    rw [hs, h.1]
    decide
  · rename_i hs
    rw [hs, h.1]
    decide
  · exact h.elim

namespace Server

section
variable {s : Server} {env : Env} {steps : List Step} {w w' : World} {m : Mongo} {o : Order}

/-- What is written for a signed order: copies of signed orders, of its pair, each once. -/
structure WritesOnce (s : Server) (env : Env) (steps : List Step) (o : Order) (os : List Order) :
    Prop where
  copy : ∀ x ∈ os, CopyOfSigned s env steps x
  pair : ∀ x ∈ os, o.SamePair x
  nodup : (os.map Order.hash).Nodup

theorem CopyOfSigned.side (h : CopyOfSigned s env steps o) : o.side = .BUY ∨ o.side = .SELL := by
  obtain ⟨y, hy, he⟩ := h
  have hs : o.content.side = y.content.side := congrArg Order.side he
  have hs : o.side = y.side := hs
  rw [hs]
  exact signed_side hy

theorem written_once (hb : Backed s env steps w) (ha : Agreed s env steps w)
    (ho : CopyOfSigned s env steps o) {l : List Order} (hsub : l.Subperm w.orders.docs)
    (hmatch : ∀ mo ∈ l, o.Matchable mo) : WritesOnce s env steps o (processOrder o l).written := by
  have hof := processOrder_of o l
  have hstored : ∀ mo ∈ l, CopyOfSigned s env steps mo :=
    fun mo hmo => (hb.orders mo (hsub.subset hmo)).2
  refine ⟨fun x hx => ?_, fun x hx => ?_, ?_⟩
  · rcases List.mem_append.1 hx with hx | hx
    · obtain ⟨p, hp, rfl⟩ := List.mem_map.1 hx
      exact (hstored p.2 (hof.maker_mem hp)).of_terms (filledMaker_terms p.1 p.2)
    · rw [List.mem_singleton.1 hx]
      exact ho.of_terms hof.terms
  · rcases List.mem_append.1 hx with hx | hx
    · obtain ⟨p, hp, rfl⟩ := List.mem_map.1 hx
      have hterms := Order.sameTerms (filledMaker_terms p.1 p.2)
      have hmo := (hmatch p.2 (hof.maker_mem hp)).2.1
      exact ⟨hterms.baseToken.trans hmo.1, hterms.quoteToken.trans hmo.2⟩
    · rw [List.mem_singleton.1 hx]
      exact ⟨(Order.sameTerms hof.terms).baseToken, (Order.sameTerms hof.terms).quoteToken⟩
  · -- the maker is on the other side, so it is not the order itself
    have hself : ∀ mo ∈ l, mo.hash ≠ o.hash := by
      intro mo hmo he
      have hc := ha.content (hstored mo hmo) ho he
      have hs : mo.content.side = o.content.side := congrArg Order.side hc
      exact (hmatch mo hmo).2.2.side_ne hs
    have hmakers : (processOrder o l).makerOrders.map Order.hash =
        (processOrder o l).fills.map (·.2.hash) := by
      simp [Outcome.makerOrders, Function.comp_def, filledMaker_hash]
    unfold Outcome.written
    rw [List.map_append, List.nodup_append, hmakers]
    refine ⟨fills_nodup hof hsub, List.nodup_singleton _, fun a ha' b hb' he => ?_⟩
    obtain ⟨p, hp, rfl⟩ := List.mem_map.1 ha'
    rw [List.map_singleton, List.mem_singleton, hof.hash] at hb'
    exact hself p.2 (hof.maker_mem hp) (he.trans hb')

theorem announced_newOrder (hdao : env.orderDao = m.orderDao) (hexact : m.DecimalExact)
    (hf : env.Faultless) (hb : Backed s env steps w) (ha : Agreed s env steps w)
    (ho : CopyOfSigned s env steps o) {n : Nat} {ds : List (Time × Order)}
    {rs : List EngineResponse}
    (h : NewOrderEffect env o (env.orderDao.matching n w.orders.docs o) w w' ds rs) :
    Announced w rs w' := by
  obtain ⟨hds, rfl⟩ := h.faultless hf ho.side
  have hmatch := fun mo hmo => (hb.crosses hdao hexact ho (d := mo) (n := n) hmo).2
  have hsub := env.orderDao.matching_subperm n w.orders.docs o
  generalize env.orderDao.matching n w.orders.docs o = l at *
  have hw := written_once hb ha ho hsub hmatch
  have hraw : ((processOrder o l).response env.eth).rawOrders.Perm (processOrder o l).written := by
    rw [rawOrders_response]
    exact (List.perm_append_singleton _ _).symm
  obtain ⟨n', hw'⟩ := h.wrote
  refine ⟨by rw [hw'], fun r hr => ?_, fun p => ?_⟩
  · rw [List.mem_singleton.1 hr]
    refine ⟨fun x hx y hy => ?_, fun m hm => matches_response hm⟩
    have hx := hw.pair x (hraw.subset hx)
    have hy := hw.pair y (hraw.subset hy)
    exact ⟨hy.1.trans hx.1.symm, hy.2.trans hx.2.symm⟩
  · have hhashes : ds.map (·.2.hash) = (processOrder o l).written.map Order.hash := by
      rw [← hds, List.map_map]
      rfl
    rw [h.orders, PairTokens.listing_upserts, hds, List.flatMap_singleton]
    · exact replay_perm (PairTokens.writes_keys hw.nodup) ((hraw.filter _).map _).symm
    · rw [hhashes]
      exact hw.nodup
    · intro x hx d hd
      have hxw : x.2 ∈ (processOrder o l).written := hds ▸ List.mem_map_of_mem hx
      exact ha.samePair (hw.copy x.2 hxw) (hb.orders d (Coll.mem_of_get hd)).2 (Coll.get_key hd)

end

theorem announced_cancelOrder {s : Server} {env : Env} {steps : List Step} {w : World}
    (hf : env.Faultless) (ha : Agreed s env steps w) {o : Order} (ho : CopyOfSigned s env steps o) :
    ∃ rs, Announced w rs (Dex.cancelOrder o env w).2 := by
  refine Prog.wp_state (P := fun w' => ∃ rs, Announced w rs w') ?_
  refine Prog.wp_mono (cancelOrder_wp o w) (fun _ w' h => ?_) fun e w' h => ?_
  · obtain ⟨hsome, hw⟩ := h
    obtain ⟨d, hd⟩ := Option.isSome_iff_exists.1 hsome
    have hpair := ha.samePair ho (ha.orders d (Coll.mem_of_get hd)).copyOfSigned (Coll.get_key hd)
    refine ⟨[cancelResponse o], hw.engineResponses, fun r hr => ?_, fun p => ?_⟩
    · rw [List.mem_singleton.1 hr]
      refine ⟨fun x hx y hy => ?_, fun m hm => by cases hm⟩
      rw [List.mem_singleton.1 hx, List.mem_singleton.1 hy]
      exact ⟨rfl, rfl⟩
    · rw [hw.orders, PairTokens.listing_cancelled hd hpair, List.flatMap_singleton]
      rfl
  · obtain ⟨he, hw⟩ := h
    rcases he with ⟨-, hnf⟩ | ⟨-, hnone⟩
    · exact absurd hf hnf
    · rcases hw with hw | ⟨hsome, -⟩
      · exact ⟨[], hw.engineResponses, by simp, fun p => by rw [hw.orders]; rfl⟩
      · rw [hnone] at hsome
        cases hsome

end Server

/-! ## The client -/

/-- What the client of the pair makes of a broadcast. -/
def PairTokens.updates (p : PairTokens) : Option (PairTokens × List Order) →
    List (Hash × Option Order)
  | some (q, os) => if q = p then os.map fun o => (o.hash, o.listed) else []
  | none => []

theorem PairTokens.updates_eq {p q : PairTokens} {os : List Order} {o : Order}
    (hq : q = ⟨o.baseToken, o.quoteToken⟩) (hpair : ∀ x ∈ os, o.SamePair x) :
    p.updates (some (q, os)) = p.writes os := by
  have hhas : ∀ x ∈ os, p.Has x ↔ q = p := by
    intro x hx
    rw [PairTokens.has_congr (hpair x hx), hq]
    cases p
    simp [PairTokens.Has]
  show (if q = p then os.map fun o => (o.hash, o.listed) else []) = p.writes os
  unfold PairTokens.writes
  by_cases hqp : q = p
  · rw [if_pos hqp, List.filter_eq_self.2 fun x hx => decide_eq_true ((hhas x hx).2 hqp)]
  · rw [if_neg hqp, List.filter_eq_nil_iff.2
      fun x hx h => hqp ((hhas x hx).1 (of_decide_eq_true h))]
    rfl

/-- What is written and not broadcast yet. -/
def World.pending (w : World) (p : PairTokens) : List (Hash × Option Order) :=
  w.engineResponses.flatMap fun r => p.writes r.rawOrders

namespace Server

section
variable (s : Server) (env : Env)

/-- The update of the raw order book that is broadcast when the response is handled. -/
def rawUpdate (w : World) (i : Nat) (r : EngineResponse) : Option (PairTokens × List Order) :=
  match (s.services.respond r env (withoutResponse w i)).1 with
  | .ok u => u.rawOrderBook
  | .error _ => none

/-- What the client of the pair writes at a step. -/
def received (p : PairTokens) (w : World) : Step → List (Hash × Option Order)
  | .engineResponse i =>
    match w.engineResponses[i]? with
    | some r => p.updates (s.rawUpdate env w i r)
    | none => []
  | _ => []

/-- The server and the client together. -/
def watch (p : PairTokens) (x : World × (Hash → Option Order)) (step : Step) :
    World × (Hash → Option Order) :=
  (s.step env x.1 step, replay x.2 (s.received env p x.1 step))

/-- The responses are handled in their order, and every handler comes to its broadcast. -/
def Step.Tells (w : World) : Step → Prop
  | .engineResponse i => i = 0 ∧ ∀ r ∈ w.engineResponses[i]?, (s.rawUpdate env w i r).isSome
  | _ => True

instance (w : World) : ∀ step : Step, Decidable (step.Tells s env w)
  | .engineResponse i => inferInstanceAs (Decidable (i = 0 ∧ ∀ r ∈ w.engineResponses[i]?, _))
  | .newOrder _ | .cancelOrder _ | .order _ | .trades _ | .execute .. | .txMessage _
  | .errorEvent _ =>
    inferInstanceAs (Decidable True)

end

/-- A submission or a cancellation. -/
def Requests : Message → Prop
  | .NEW_ORDER _ | .CANCEL_ORDER _ => True
  | _ => False

/-- A step, as the clients see it: the engine announces something, or the first response is
broadcast. -/
inductive Told (s : Server) (env : Env) (w : World) (step : Step) (w' : World) : Prop
  | announced {rs : List EngineResponse} (h : Announced w rs w')
      (hr : ∀ p, s.received env p w step = [])
  | broadcast {r : EngineResponse} (hr : w.engineResponses = r :: w'.engineResponses)
      (ho : w'.orders = w.orders) (h : ∀ p, s.received env p w step = p.writes r.rawOrders)

/-- What the responses that nobody has handled say is what is stored. -/
structure Following (w : World) : Prop where
  requests : ∀ m ∈ w.orderQueue, Requests m
  regular : ∀ r ∈ w.engineResponses, r.Regular
  told : ∀ p : PairTokens, Synced (p.listing w.orders) (w.pending p) (p.listing w.orders)

section
variable {s : Server} {env : Env} {steps : List Step} {w w' : World} {m : Mongo}

theorem Announced.nothing (ho : w'.orders = w.orders)
    (hr : w'.engineResponses = w.engineResponses) : Announced w [] w' :=
  ⟨by rw [hr, List.append_nil], by simp, fun p => by rw [ho]; rfl⟩

theorem handle_response {r : EngineResponse} {i : Nat} (hr : w.engineResponses[i]? = some r) :
    s.step env w (.engineResponse i) =
      (s.services.handleEngineResponse r env (withoutResponse w i)).2 := by
  show handle _ _ _ _ env w = _
  unfold handle
  rw [hr]
  rfl

theorem response_kept {r : EngineResponse} {i : Nat} (hr : w.engineResponses[i]? = some r) :
    (s.step env w (.engineResponse i)).orders = w.orders ∧
      (s.step env w (.engineResponse i)).engineResponses = w.engineResponses.eraseIdx i := by
  rw [handle_response hr]
  rcases s.services.handleEngineResponse_cases r (withoutResponse w i) with
    h | ⟨o, m, ts, ms, bs, -, -, h⟩
  · exact ⟨h.orders, h.engineResponses.trans (List.append_nil _)⟩
  · exact ⟨h.dispatched.orders, h.dispatched.engineResponses⟩

/-- A broadcast has the orders of its response, and no match was found to be invalid. -/
theorem rawUpdate_spec {r : EngineResponse} {i : Nat} (hr : w.engineResponses[i]? = some r)
    (hreg : r.Regular) (hs : (s.rawUpdate env w i r).isSome) :
    (∀ p : PairTokens, p.updates (s.rawUpdate env w i r) = p.writes r.rawOrders) ∧
      (s.step env w (.engineResponse i)).orderQueue = w.orderQueue := by
  rw [handle_response hr, ← Services.respond_state]
  have htell := Prog.wp_result
    (P := fun x => ∀ u, x.1 = .ok u → Services.Tells r (withoutResponse w i) u x.2)
    (s.services.respond_raw env (withoutResponse w i) hreg.length)
    (fun a w' h u hu => by cases hu; exact h) fun e w' _ u hu => by cases hu
  unfold rawUpdate at hs ⊢
  cases hu : (s.services.respond r env (withoutResponse w i)).1 with
  | error e =>
    rw [hu] at hs
    cases hs
  | ok u =>
    rw [hu] at hs
    obtain ⟨x, hx⟩ := Option.isSome_iff_exists.1 hs
    obtain ⟨hos, ⟨o, ho, hq⟩, hqueue⟩ := htell u hu x.1 x.2 hx
    refine ⟨fun p => ?_, hqueue⟩
    have hmem : o ∈ r.rawOrders := hos ▸ List.mem_of_mem_head? ho
    show p.updates u.rawOrderBook = _
    have hx : u.rawOrderBook = some (x.1, x.2) := hx
    rw [hx, PairTokens.updates_eq hq fun y hy => hreg.pair o hmem y (hos ▸ hy), hos]

theorem Requests.step (hw : ∀ m ∈ w.orderQueue, Requests m)
    (hreg : ∀ r ∈ w.engineResponses, r.Regular) {step : Step} (ht : step.Tells s env w) :
    ∀ m ∈ (s.step env w step).orderQueue, Requests m := by
  have hrequested : ∀ {P : Message → Prop} {w' : World}, Services.Requested P w w' →
      (∀ m, P m → Requests m) → ∀ m ∈ w'.orderQueue, Requests m := by
    intro P w' h hP m hm
    obtain ⟨ms, h, hms⟩ := h.published
    rw [h.orderQueue] at hm
    exact (List.mem_append.1 hm).elim (hw m) fun hm => hP m (hms m hm)
  have hstep := s.step_stepped env w step
  generalize hw' : s.step env w step = w' at hstep
  cases hstep with
  | idle => exact hw
  | newOrder h => exact hrequested h (by rintro _ ⟨_, _, _, rfl, -⟩; trivial)
  | cancelOrder h => exact hrequested h (by rintro _ ⟨_, rfl, -⟩; trivial)
  | order _ h _ =>
    intro m hm
    rcases h.queued hm with hm | ⟨y, -, a, rfl⟩
    · exact hw m (List.eraseIdx_subset hm)
    · trivial
  | @response i r _ hr _ =>
    rw [← hw', (rawUpdate_spec hr (hreg r (List.mem_of_getElem? hr)) (ht.2 r hr)).2]
    exact hw
  | @matched i r _ _ _ _ _ _ hr _ _ _ =>
    rw [← hw', (rawUpdate_spec hr (hreg r (List.mem_of_getElem? hr)) (ht.2 r hr)).2]
    exact hw
  | trades _ _ h | execute _ h | txMessage _ h =>
    rw [h.orderQueue]
    exact hw
  | errorEvent h =>
    rw [h.orderQueue, List.append_nil]
    exact hw

theorem announced_order (hdao : env.orderDao = m.orderDao) (hexact : m.DecimalExact)
    (hf : env.Faultless) (hb : Backed s env steps w) (ha : Agreed s env steps w) {i : Nat}
    {x : Message} (hx : w.orderQueue[i]? = some x) (hreq : Requests x) :
    ∃ rs, Announced w rs (s.engine.handleOrders x env (w.take i)).2 := by
  have hmem := List.mem_of_getElem? hx
  have hsub : (w.take i).orderQueue ⊆ w.orderQueue := List.eraseIdx_subset
  have hb' : Backed s env steps (w.take i) :=
    hb.taken rfl rfl hsub (List.Subset.refl _) (List.Subset.refl _) (List.Subset.refl _)
  have ha' : Agreed s env steps (w.take i) :=
    ⟨ha.commits, ha.orders, fun x hx => ha.messages x (hsub hx)⟩
  cases x with
  | NEW_ORDER o =>
    have hh : Handled env (w.take i) (.NEW_ORDER o) _ :=
      s.engine.handleOrders_handled (.NEW_ORDER o)
    generalize (s.engine.handleOrders (.NEW_ORDER o) env (w.take i)).2 = w' at hh
    cases hh with
    | ignored => exact ⟨[], Announced.nothing rfl rfl⟩
    | newOrder h =>
      have hann := announced_newOrder hdao hexact hf hb' ha' (hb.messages _ hmem).2 h
      exact ⟨_, hann.responses, hann.regular, hann.listing⟩
  | CANCEL_ORDER o =>
    rcases s.engine.onBook_cases _ (Dex.cancelOrder o) env (w.take i) with h | h
    · show ∃ rs, Announced w rs (s.engine.onBook _ (Dex.cancelOrder o) env (w.take i)).2
      rw [h]
      exact ⟨[], Announced.nothing rfl rfl⟩
    · show ∃ rs, Announced w rs (s.engine.onBook _ (Dex.cancelOrder o) env (w.take i)).2
      rw [h]
      obtain ⟨rs, hann⟩ := announced_cancelOrder hf ha' (Named.copyOfSigned (ha.messages _ hmem))
      exact ⟨rs, hann.responses, hann.regular, hann.listing⟩
  | ADD_ORDER | INVALIDATE_MAKER_ORDERS | INVALIDATE_TAKER_ORDERS | unknown => exact hreq.elim

theorem told_response {r : EngineResponse} {i : Nat} (hr : w.engineResponses[i]? = some r)
    (hreg : r.Regular) (ht : Step.Tells s env w (.engineResponse i)) :
    Told s env w (.engineResponse i) (s.step env w (.engineResponse i)) := by
  obtain ⟨rfl, ht⟩ := ht
  have hkept := @response_kept s env w r 0 hr
  refine .broadcast (r := r) ?_ hkept.1 fun p => ?_
  · rw [hkept.2]
    cases hl : w.engineResponses with
    | nil =>
      rw [hl] at hr
      cases hr
    | cons x rest =>
      rw [hl] at hr
      cases hr
      rfl
  · simp only [received, hr]
    exact (rawUpdate_spec hr hreg (ht r hr)).1 p

/-- **Every step**, as the clients see it. -/
theorem step_told (hdao : env.orderDao = m.orderDao) (hexact : m.DecimalExact) (hf : env.Faultless)
    (hb : Backed s env steps w) (ha : Agreed s env steps w) (hw : Following w) {step : Step}
    (ht : step.Tells s env w) : Told s env w step (s.step env w step) := by
  have hsilent : ∀ {w'}, w'.orders = w.orders → w'.engineResponses = w.engineResponses →
      (∀ p, s.received env p w step = []) → Told s env w step w' :=
    fun ho hr hs => .announced (Announced.nothing ho hr) hs
  have hstep := s.step_stepped env w step
  generalize hw' : s.step env w step = w' at hstep
  cases hstep with
  | idle h =>
    refine hsilent rfl rfl fun p => ?_
    cases step with
    | engineResponse i =>
      have h : w.engineResponses[i]? = none := h
      simp only [received, h]
    | newOrder | cancelOrder | order | trades | execute | txMessage | errorEvent => rfl
  | newOrder h | cancelOrder h =>
    obtain ⟨ms, h, -⟩ := h.published
    exact hsilent h.orders (h.engineResponses.trans (List.append_nil _)) fun _ => rfl
  | @order i x _ hm _ _ =>
    obtain ⟨rs, h⟩ := announced_order hdao hexact hf hb ha hm
      (hw.requests x (List.mem_of_getElem? hm))
    have hx : s.step env w (.order i) = (s.engine.handleOrders x env (w.take i)).2 := by
      simp only [Server.step, Engine.deliver, hm]
    rw [← hw', hx]
    exact .announced h fun _ => rfl
  | response hr _ =>
    rw [← hw']
    exact told_response hr (hw.regular _ (List.mem_of_getElem? hr)) ht
  | matched hr _ _ _ =>
    rw [← hw']
    exact told_response hr (hw.regular _ (List.mem_of_getElem? hr)) ht
  | trades _ _ h => exact hsilent h.orders h.engineResponses fun _ => rfl
  | execute _ h => exact hsilent h.orders h.engineResponses fun _ => rfl
  | txMessage _ h => exact hsilent h.orders h.engineResponses fun _ => rfl
  | errorEvent h =>
    exact hsilent h.orders (h.engineResponses.trans (List.append_nil _)) fun _ => rfl

theorem Told.synced {p : PairTokens} {book : Hash → Option Order} {step : Step}
    (h : Told s env w step w') (hc : Synced (p.listing w.orders) (w.pending p) book) :
    Synced (p.listing w'.orders) (w'.pending p) (replay book (s.received env p w step)) := by
  unfold World.pending at hc ⊢
  cases h with
  | announced h hr =>
    rw [hr p, h.responses, h.listing p, List.flatMap_append]
    exact hc.write _
  | broadcast hr ho h =>
    rw [hr, List.flatMap_cons] at hc
    rw [h p, ho]
    exact hc.deliver

/-- **The invariant is kept.** -/
theorem Following.step (hw : Following w) {step : Step} (h : Told s env w step (s.step env w step))
    (ht : step.Tells s env w) : Following (s.step env w step) := by
  refine ⟨Requests.step hw.requests hw.regular ht, ?_, fun p => ?_⟩
  · intro r hr
    cases h with
    | announced h _ =>
      rw [h.responses] at hr
      exact (List.mem_append.1 hr).elim (hw.regular r) (h.regular r)
    | broadcast hq _ _ => exact hw.regular r (by rw [hq]; exact .tail _ hr)
  · have hp := hw.told p
    unfold World.pending at hp ⊢
    cases h with
    | announced h _ =>
      rw [h.responses, h.listing p, List.flatMap_append]
      exact hp.write_self _
    | broadcast hq ho _ =>
      rw [hq, List.flatMap_cons] at hp
      rw [ho]
      exact hp.deliver_self

theorem Following.empty : Following World.empty :=
  ⟨by simp [World.empty], by simp [World.empty], fun p => Synced.empty _⟩

end

end Server

/-- **Clients of the raw order book converge**: a client that takes the open orders of a pair at
some point of a run, and then every update on the channel of the pair, shows the open orders that
are stored as soon as no response is left. -/
theorem raw_order_book_converges {s : Server} {env : Env} {m : Mongo}
    (hdao : env.orderDao = m.orderDao) (hexact : m.DecimalExact) (hf : env.Faultless)
    {steps more : List Server.Step} {w : World}
    (h : Run (fun steps w step => step.Plain s env ∧ step.Commits s env steps ∧ step.Tells s env w)
      (s.step env) World.empty (steps ++ more) w)
    (hdone : w.engineResponses = []) (p : PairTokens) :
    let joined := steps.foldl (s.step env) World.empty
    (more.foldl (s.watch env p) (joined, p.listing joined.orders)).2 = p.listing w.orders := by
  have hstep : ∀ as w step, Run (fun steps w step => step.Plain s env ∧ step.Commits s env steps ∧
      step.Tells s env w) (s.step env) World.empty as w → step.Tells s env w → Server.Following w →
      Server.Told s env w step (s.step env w step) := fun as w step hr ht hw =>
    Server.step_told hdao hexact hf (Server.Backed.of_run hdao hexact
      (hr.mono fun _ _ _ hk => hk.1)) (Server.Agreed.of_run (hr.mono fun _ _ _ hk => hk.2.1)) hw ht
  have hfollowing : ∀ as w, Run (fun steps w step => step.Plain s env ∧ step.Commits s env steps ∧
      step.Tells s env w) (s.step env) World.empty as w → Server.Following w := fun as w hr =>
    hr.invariant (I := fun _ w => Server.Following w) .empty fun as w step hr hw hk =>
      hw.step (hstep as w step hr hk.2.2 hw) hk.2.2
  have hsynced : Synced (p.listing w.orders) (w.pending p) _ :=
    h.observe (o := fun w book step => replay book (s.received env p w step))
      (J := fun w book => Synced (p.listing w.orders) (w.pending p) book)
      (fun hr => (hfollowing _ _ hr).told p)
      fun as w step book hr hk hj => (hstep as w step hr hk.2.2 (hfollowing as w hr)).synced hj
  have hpending : w.pending p = [] := by
    unfold World.pending
    rw [hdone]
    rfl
  rw [hpending] at hsynced
  exact hsynced.done

/-- A SELL of 10 is stored and not announced yet. -/
def restingSteps : List Server.Step := [.newOrder (.sample 1 .SELL 4 10), .order 0]

/-- A BUY of 6 is matched with it, and both responses are handled. -/
def takingSteps : List Server.Step :=
  [.newOrder (.sample 2 .BUY 5 6), .order 0, .engineResponse 0, .engineResponse 0]

/-- A client that joins in between shows the SELL with what is left of it. -/
theorem raw_order_book_converges_crossing : ∃ w : World,
    w.orders.docs.map (fun d => (d.status, d.filledAmount)) = [(.PARTIAL_FILLED, 6), (.FILLED, 6)] ∧
    (takingSteps.foldl (Server.sample.watch (.sample (Mongo.sample .priceFirst).orderDao) ⟨3, 4⟩)
      (restingSteps.foldl (Server.sample.step (.sample (Mongo.sample .priceFirst).orderDao))
        World.empty, PairTokens.listing ⟨3, 4⟩ (restingSteps.foldl
          (Server.sample.step (.sample (Mongo.sample .priceFirst).orderDao))
            World.empty).orders)).2 =
      PairTokens.listing ⟨3, 4⟩ w.orders :=
  ⟨(restingSteps ++ takingSteps).foldl
      (Server.sample.step (.sample (Mongo.sample .priceFirst).orderDao)) World.empty,
    by decide +kernel, raw_order_book_converges (m := .sample .priceFirst) rfl
      (Mongo.sample_exact _)
      (Env.sample_faultless _) (Run.of_check (restingSteps ++ takingSteps) (by decide +kernel))
      (by decide +kernel) ⟨3, 4⟩⟩

end Dex
