import DexServer.Server.Proof.Provenance

/-!
# What lasts in the store

Runs of the whole server in which no two different orders have one hash (`Step.Commits`), whichever
calls fail.

* `stored_orders_immutable`: an order that is stored once is stored from then on, with the same
  terms and the same creation time.
-/

namespace Dex

open Lib

/-! ## Orders stay stored -/

/-- What was stored is stored, under its hash and with its creation time. -/
def Retains (c c' : Coll Order.hash) : Prop :=
  ∀ d ∈ c, ∃ d' ∈ c', d'.hash = d.hash ∧ d'.createdAt = d.createdAt

namespace Retains

variable {c c' c'' : Coll Order.hash}

theorem rfl' (c : Coll Order.hash) : Retains c c := fun d hd => ⟨d, hd, rfl, rfl⟩

theorem trans (h : Retains c c') (h' : Retains c' c'') : Retains c c'' := by
  intro d hd
  obtain ⟨d', hd', hh, ht⟩ := h d hd
  obtain ⟨d'', hd'', hh', ht'⟩ := h' d' hd'
  exact ⟨d'', hd'', hh'.trans hh, ht'.trans ht⟩

/-- `$setOnInsert` alone writes the creation time. -/
theorem upsert (now : Time) (c : Coll Order.hash) (o : Order) : Retains c (upsert now c o) := by
  intro d hd
  by_cases hh : o.hash = d.hash
  · refine ⟨_, Coll.mem_put.2 (.inl rfl), ?_, ?_⟩
    · rw [updatedDoc_hash, hh]
    · rw [hh, Coll.get_mem hd]
      rfl
  · refine ⟨d, Coll.mem_put.2 (.inr ⟨hd, ?_⟩), rfl, rfl⟩
    rw [updatedDoc_hash]
    exact Ne.symm hh

theorem upserts : ∀ (ds : List (Time × Order)) (c : Coll Order.hash), Retains c (upserts c ds)
  | [], c => rfl' c
  | x :: ds, c => (upsert x.1 c x.2).trans (upserts ds _)

theorem setStatuses (c : Coll Order.hash) (status : Status) (hashes : List Hash) :
    Retains c (setStatuses c status hashes) := by
  intro d hd
  refine ⟨_, mem_setStatuses.2 ⟨d, hd, rfl⟩, ?_⟩
  split <;> exact ⟨rfl, rfl⟩

theorem givenBack {hashes : List Hash} {amounts : List Int} {rs : List Order}
    (h : GivenBack hashes amounts c rs) : Retains c (c.putAll rs) := by
  intro d hd
  by_cases hk : d.hash ∈ rs.map Order.hash
  · obtain ⟨r, hr, hrh⟩ := List.mem_map.1 hk
    refine ⟨r, (Coll.mem_putAll h.nodup).2 (.inl hr), hrh, ?_⟩
    -- the order found under the hash is `d` itself
    obtain ⟨y, hy, -, a, rfl⟩ := h.mem hr
    rw [restored_hash] at hrh
    rw [Coll.key_inj hy hd hrh]
    unfold restored
    dsimp only
    split
    · rfl
    · split <;> rfl
  · exact ⟨d, (Coll.mem_putAll h.nodup).2 (.inr ⟨hd, hk⟩), rfl, rfl⟩

theorem invalidateEffect {back marked : List Hash} {amounts : List Int} {w w' : World}
    {rs qs : List Order} (h : InvalidateEffect back marked amounts w rs qs w') :
    Retains w.orders w'.orders := by
  obtain ⟨c, ts, res, hc, -, hb⟩ := h.became
  rw [hb.orders]
  rcases hc with rfl | rfl
  · exact givenBack h.given
  · exact (givenBack h.given).trans (setStatuses _ _ _)

/-- **Every message of the engine.** -/
theorem handled {env : Env} {w w' : World} {m : Message} (h : Handled env w m w') :
    Retains w.orders w'.orders := by
  cases h with
  | ignored => exact rfl' _
  | newOrder h =>
    rw [h.orders]
    exact upserts _ _
  | addOrder ds _ h =>
    obtain ⟨n, rfl⟩ := h
    exact upserts _ _
  | cancelOrder _ h =>
    rcases h with h | ⟨-, h⟩ <;> rw [h.orders]
    · exact rfl' _
    · exact setStatuses _ _ _
  | invalidateMakerOrders h => exact invalidateEffect h
  | invalidateTakerOrders h => exact invalidateEffect h

end Retains

namespace Server

theorem Stepped.retains {s : Server} {env : Env} {w w' : World} {step : Step}
    (h : Stepped s env w step w') : Retains w.orders w'.orders := by
  have hsame : w'.orders = w.orders → Retains w.orders w'.orders := fun h => by
    rw [h]
    exact .rfl' _
  cases h with
  | idle => exact .rfl' _
  | newOrder h | cancelOrder h =>
    obtain ⟨ms, h, -⟩ := h.published
    exact hsame h.orders
  | order _ h _ =>
    have hretains := Retains.handled h
    exact hretains
  | response _ h => exact hsame h.orders
  | matched _ _ _ h => exact hsame h.dispatched.orders
  | trades _ _ h => exact hsame h.orders
  | execute _ h => exact hsame h.orders
  | txMessage _ h => exact hsame h.orders
  | errorEvent h => exact hsame h.orders

/-! ## Hashes stand for orders -/

section
variable (s : Server) (env : Env)

/-- The order of a submission is one that was signed under its hash before, if there was any. -/
def Step.Commits (steps : List Step) (step : Step) : Prop :=
  ∀ o ∈ step.signed? s env, ∀ o' ∈ signed s env steps, o'.hash = o.hash → o'.content = o.content

instance (steps : List Step) (step : Step) : Decidable (step.Commits s env steps) :=
  inferInstanceAs (Decidable (∀ o ∈ step.signed? s env, _))

variable (steps : List Step)

/-- `d` is an order that a user signed, with the name of its pair. -/
def Named (d : Order) : Prop := ∃ o ∈ signed s env steps, ∃ p,
  (s.services.pairs.find? fun p =>
    p.baseTokenAddress = o.baseToken ∧ p.quoteTokenAddress = o.quoteToken) = some p ∧
  d.terms = { o.terms with pairName := p.name }

/-- A queued order is one that was signed; the engine alone has made the other messages. -/
def NamedIn : Message → Prop
  | .NEW_ORDER o | .CANCEL_ORDER o => Named s env steps o
  | .INVALIDATE_MAKER_ORDERS _ => True
  | _ => False

/-- What a hash stands for is agreed on. -/
structure Agreed (w : World) : Prop where
  commits : ∀ o ∈ signed s env steps, ∀ o' ∈ signed s env steps, o.hash = o'.hash →
    o.content = o'.content
  orders : ∀ d ∈ w.orders, Named s env steps d
  messages : ∀ m ∈ w.orderQueue, NamedIn s env steps m

end

section
variable {s : Server} {env : Env} {steps : List Step} {w w' : World}

theorem Named.of_terms {d d' : Order} (h : Named s env steps d) (ht : d'.terms = d.terms) :
    Named s env steps d' := by
  obtain ⟨o, ho, p, hp, he⟩ := h
  exact ⟨o, ho, p, hp, ht.trans he⟩

theorem Named.mono {d : Order} (h : Named s env steps d) {steps' : List Step}
    (hs : signed s env steps ⊆ signed s env steps') : Named s env steps' d := by
  obtain ⟨o, ho, p, hp, he⟩ := h
  exact ⟨o, hs ho, p, hp, he⟩

theorem Named.copyOfSigned {d : Order} (h : Named s env steps d) : CopyOfSigned s env steps d := by
  obtain ⟨o, ho, p, -, he⟩ := h
  exact ⟨o, ho, congrArg (fun d => { d with pairName := "" }) he⟩

namespace Agreed

theorem content (h : Agreed s env steps w) {d d' : Order} (hd : CopyOfSigned s env steps d)
    (hd' : CopyOfSigned s env steps d') (hh : d.hash = d'.hash) : d.content = d'.content := by
  obtain ⟨o, ho, he⟩ := hd
  obtain ⟨o', ho', he'⟩ := hd'
  have h1 : d.content.hash = o.content.hash := congrArg Order.hash he
  have h2 : d'.content.hash = o'.content.hash := congrArg Order.hash he'
  have hoo : o.hash = o'.hash := (h1.symm.trans hh).trans h2
  rw [he, he', h.commits o ho o' ho' hoo]

theorem samePair (h : Agreed s env steps w) {d d' : Order} (hd : CopyOfSigned s env steps d)
    (hd' : CopyOfSigned s env steps d') (hh : d'.hash = d.hash) : d.SamePair d' := by
  have hc := h.content hd' hd hh
  have hb : d'.content.baseToken = d.content.baseToken := congrArg Order.baseToken hc
  have hq : d'.content.quoteToken = d.content.quoteToken := congrArg Order.quoteToken hc
  exact ⟨hb, hq⟩

theorem terms (h : Agreed s env steps w) {d d' : Order} (hd : Named s env steps d)
    (hd' : Named s env steps d') (hh : d.hash = d'.hash) : d.terms = d'.terms := by
  have hc := h.content hd.copyOfSigned hd'.copyOfSigned hh
  obtain ⟨o, -, p, hp, he⟩ := hd
  obtain ⟨o', -, p', hp', he'⟩ := hd'
  have hd : d.content = o.content := congrArg (fun d => { d with pairName := "" }) he
  have hd' : d'.content = o'.content := congrArg (fun d => { d with pairName := "" }) he'
  have hoc : o.content = o'.content := hd.symm.trans (hc.trans hd')
  have hb : o.content.baseToken = o'.content.baseToken := congrArg Order.baseToken hoc
  have hq : o.content.quoteToken = o'.content.quoteToken := congrArg Order.quoteToken hoc
  have hpp : p = p' := by
    change o.baseToken = o'.baseToken at hb
    change o.quoteToken = o'.quoteToken at hq
    rw [hb, hq, hp'] at hp
    exact (Option.some.inj hp).symm
  rw [he, he', hpp]
  exact congrArg (fun d => { d with pairName := p'.name }) hoc

theorem empty : Agreed s env [] World.empty :=
  ⟨by simp [signed], by simp, by simp [World.empty]⟩

theorem snoc (h : Agreed s env steps w) {step : Step} (hc : step.Commits s env steps) :
    Agreed s env (steps ++ [step]) w := by
  have hsub : signed s env steps ⊆ signed s env (steps ++ [step]) :=
    signed_subset (List.prefix_append ..)
  refine ⟨fun o ho o' ho' hh => ?_, fun d hd => (h.orders d hd).mono hsub, fun m hm => ?_⟩
  · rw [signed_snoc, List.mem_append, Option.mem_toList] at ho ho'
    rcases ho with ho | ho <;> rcases ho' with ho' | ho'
    · exact h.commits o ho o' ho' hh
    · exact hc o' ho' o ho hh
    · exact (hc o ho o' ho' hh.symm).symm
    · rw [Option.some.inj (ho.symm.trans ho')]
  · have hm := h.messages m hm
    cases m with
    | NEW_ORDER o | CANCEL_ORDER o => exact Named.mono hm hsub
    | INVALIDATE_MAKER_ORDERS m => trivial
    | ADD_ORDER | INVALIDATE_TAKER_ORDERS | unknown => exact hm

theorem published (h : Agreed s env steps w) {ms : List Message} (ho : w'.orders = w.orders)
    (hq : ∀ m ∈ w'.orderQueue, m ∈ w.orderQueue ∨ m ∈ ms) (hms : ∀ m ∈ ms, NamedIn s env steps m) :
    Agreed s env steps w' :=
  ⟨h.commits, fun d hd => h.orders d (ho ▸ hd), fun m hm => (hq m hm).elim (h.messages m) (hms m)⟩

theorem unpublished (h : Agreed s env steps w) (ho : w'.orders = w.orders)
    (hq : w'.orderQueue = w.orderQueue) : Agreed s env steps w' :=
  h.published ho (fun _ hm => .inl (hq ▸ hm)) (List.forall_mem_nil _)

theorem requested (h : Agreed s env steps w) {P : Message → Prop} (hw : Services.Requested P w w')
    (hP : ∀ m, P m → NamedIn s env steps m) : Agreed s env steps w' := by
  obtain ⟨ms, hw, hms⟩ := hw.published
  exact h.published hw.orders (fun m hm => List.mem_append.1 (hw.orderQueue ▸ hm))
    fun m hm => hP m (hms m hm)

/-- **The engine handles a message.** -/
theorem handled (h : Agreed s env steps w) {i : Nat} {x : Message} (hx : w.orderQueue[i]? = some x)
    (hh : Handled env (w.take i) x w') : Agreed s env steps w' := by
  have hnamed := h.messages x (List.mem_of_getElem? hx)
  have horders : ∀ d ∈ (w.take i).orders, Named s env steps d := h.orders
  refine ⟨h.commits, fun d hd => ?_, fun m hm => ?_⟩
  · cases hh with
    | ignored => exact horders d hd
    | newOrder he =>
      rcases he.mem_terms (env.orderDao.matching_subperm _ _ _) hd with ht | ⟨y, hy, ht⟩
      · exact Named.of_terms hnamed ht
      · exact (horders y hy).of_terms ht
    | addOrder => exact absurd hnamed id
    | cancelOrder _ he =>
      rcases he with he | ⟨-, he⟩ <;> rw [he.orders] at hd
      · exact horders d hd
      · obtain ⟨y, hy, rfl⟩ := mem_setStatuses.1 hd
        refine (horders y hy).of_terms ?_
        split <;> rfl
    | invalidateMakerOrders he =>
      obtain ⟨y, hy, ht⟩ := he.mem_terms hd
      exact (horders y hy).of_terms ht
    | invalidateTakerOrders => exact absurd hnamed id
  · rcases hh.queued hm with hm | ⟨y, hy, a, rfl⟩
    · exact h.messages m (List.eraseIdx_subset hm)
    · exact Named.of_terms (horders y hy) (restored_terms y a)

/-- **Every step.** -/
theorem step (h : Agreed s env steps w) {step : Step} (hc : step.Commits s env steps) :
    Agreed s env (steps ++ [step]) (s.step env w step) := by
  have h' := h.snoc hc
  have hstep := s.step_stepped env w step
  generalize s.step env w step = w' at hstep
  cases hstep with
  | idle => exact h'
  | @newOrder r _ hw =>
    refine h'.requested hw fun m hm => ?_
    obtain ⟨o₀, p, o, rfl, hp⟩ := hm
    obtain ⟨sig, hv⟩ := hp.valid
    refine ⟨o₀, ?_, p, hp.pair, ?_⟩
    · rw [signed_snoc, signed?_newOrder.2 ⟨sig, hv⟩]
      exact List.mem_append_right _ (.head _)
    · rw [hp.eq]
      rfl
  | cancelOrder hw =>
    refine h'.requested hw fun m hm => ?_
    obtain ⟨o, rfl, ho, -⟩ := hm
    exact h'.orders o (Coll.mem_of_get ho)
  | order hm hh _ => exact h'.handled hm hh
  | response _ hw => exact h'.unpublished hw.orders (hw.orderQueue.trans (List.append_nil _))
  | matched _ _ _ hs =>
    refine h'.published hs.dispatched.orders
      (fun m hm => List.mem_append.1 (hs.dispatched.orderQueue ▸ hm)) fun m hm => ?_
    obtain ⟨b, -, -, rfl⟩ := hs.disputed m hm
    trivial
  | trades _ _ hw => exact h'.unpublished hw.orders hw.orderQueue
  | execute _ hw => exact h'.unpublished hw.orders hw.orderQueue
  | txMessage _ hw => exact h'.unpublished hw.orders hw.orderQueue
  | errorEvent hw => exact h'.unpublished hw.orders (hw.orderQueue.trans (List.append_nil _))

theorem of_run (h : Run (fun steps _ step => step.Commits s env steps)
    (s.step env) World.empty steps w) : Agreed s env steps w :=
  h.invariant .empty fun _ _ _ _ hi hc => hi.step hc

end Agreed

end

end Server

/-- **Stored orders are immutable**: an order stored at some point of a run is stored at its end,
with the same terms and creation time. -/
theorem stored_orders_immutable {s : Server} {env : Env} {steps more : List Server.Step} {w : World}
    (h : Run (fun steps _ step => step.Commits s env steps) (s.step env) World.empty
      (steps ++ more) w) :
    ∀ d ∈ (steps.foldl (s.step env) World.empty).orders,
      ∃ d' ∈ w.orders, d'.terms = d.terms ∧ d'.createdAt = d.createdAt := by
  intro d hd
  have hprefix : steps <+: steps ++ more := List.prefix_append ..
  have hretains : Retains (steps.foldl (s.step env) World.empty).orders w.orders :=
    h.since (I := fun _ w' => Retains (steps.foldl (s.step env) World.empty).orders w'.orders)
      (fun _ => .rfl' _) fun _ w step _ _ _ hI => hI.trans (s.step_stepped env w step).retains
  have hearlier := Server.Agreed.of_run (h.of_prefix hprefix)
  have hlater := Server.Agreed.of_run h
  obtain ⟨d', hd', hh, ht⟩ := hretains d hd
  refine ⟨d', hd', ?_, ht⟩
  exact hlater.terms (hlater.orders d' hd')
    ((hearlier.orders d hd).mono (Server.signed_subset hprefix)) hh

/-- The SELL order is stored by the second step; it is partly filled by the fourth. -/
theorem stored_orders_immutable_crossing : ∃ w : World,
    w.orders.docs.map (fun d => (d.amount, d.filledAmount)) = [(10, 6), (6, 6)] ∧
      ∀ d ∈ ((crossingSteps.take 2).foldl (Server.step .sample
        (.sample (Mongo.sample .priceFirst).orderDao))
        World.empty).orders, ∃ d' ∈ w.orders, d'.terms = d.terms ∧ d'.createdAt = d.createdAt :=
  ⟨_, by decide +kernel, @stored_orders_immutable _ _ (crossingSteps.take 2)
    (crossingSteps.drop 2) _ (Run.of_check crossingSteps (by decide +kernel))⟩

end Dex
