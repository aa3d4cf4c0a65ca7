import DexServer.Server.Proof.Settle
import DexServer.Server.Proof.Steps
import Mathlib.Algebra.Order.BigOperators.Group.List
import Mathlib.Algebra.Order.Ring.Int

/-!
# Where trades come from

Runs of the whole server: any requests, the messages of all queues in any order, any verdicts and
error events of the chain, and any calls failing. The requests are plain (`Step.Plain`): the fill a
client sends is within the amount, and the price has at most 34 digits.

`Backed` is the invariant: every order that is held is a copy of an order a user signed, and every
batch is fair, wherever it is. From it,

* `trades_authorised`: every stored trade is between two signed orders of opposite sides of one
  pair, at the taker's price, which the maker accepts, and within both amounts.
* `batches_fair`: the same of every batch on its way to the chain, maker by maker; and its trades
  together are within the taker's amount.
-/

namespace Dex

open Lib

/-! ## What an order and a trade agree on -/

/-- What the owner of an order signs: not its pair name, nor what the server keeps of it. -/
def Order.content (o : Order) : Order := { o.terms with pairName := "" }

theorem Order.content_eq {o o' : Order} (h : o.terms = o'.terms) : o.content = o'.content :=
  congrArg (fun d => { d with pairName := "" }) h

/-- The trade is one the two orders allow. -/
structure Trade.Honours (eth : Eth) (t : Trade) (maker taker : Order) : Prop where
  byMaker : t.maker = maker.userAddress ∧ t.makerOrderHash = maker.hash
  byTaker : t.taker = taker.userAddress ∧ t.takerOrderHash = taker.hash
  hash : t.hash = Trade.computeHash eth maker.hash taker.hash
  tokens : t.baseToken = taker.baseToken ∧ t.quoteToken = taker.quoteToken
  pair : taker.SamePair maker
  price : t.pricePoint = taker.pricePoint
  limit : taker.Crosses maker
  nonneg : 0 ≤ t.amount
  amount : t.amount ≤ maker.amount ∧ t.amount ≤ taker.amount

section
variable {eth : Eth} {t u : Trade} {maker taker maker' taker' : Order}

theorem Trade.honours_iff :
    t.Honours eth maker taker ↔ t.terms.Honours eth maker.content taker.content := by
  constructor
  · intro h
    exact ⟨h.byMaker, h.byTaker, h.hash, h.tokens, h.pair, h.price, h.limit, h.nonneg, h.amount⟩
  · intro h
    exact ⟨h.byMaker, h.byTaker, h.hash, h.tokens, h.pair, h.price, h.limit, h.nonneg, h.amount⟩

theorem Trade.Honours.of_content (h : t.Honours eth maker taker)
    (hm : maker'.content = maker.content) (ht : taker'.content = taker.content) :
    t.Honours eth maker' taker' := by
  rw [Trade.honours_iff] at h ⊢
  rwa [hm, ht]

theorem Trade.Honours.of_terms (h : u.Honours eth maker taker) (ht : t.terms = u.terms) :
    t.Honours eth maker taker := by
  rw [Trade.honours_iff] at h ⊢
  rwa [ht]

end

theorem newTrade_honours {eth : Eth} {o mo : Order} (hp : o.SamePair mo) (hc : o.Crosses mo)
    (ho : o.Bounded) (hm : mo.Bounded) : (newTrade eth o mo).Honours eth mo o := by
  have hmin := tradeAmount_eq_min o mo
  have hon := ho.nonneg
  have hmn := hm.nonneg
  simp only [Order.remainingAmount] at hmin
  refine ⟨⟨rfl, rfl⟩, ⟨rfl, rfl⟩, rfl, ⟨rfl, rfl⟩, hp, rfl, hc, tradeAmount_nonneg ho hm, ?_, ?_⟩
  · show tradeAmount o mo ≤ mo.amount
    omega
  · show tradeAmount o mo ≤ o.amount
    omega

namespace Server

/-! ## The invariant -/

section
variable (s : Server) (env : Env)

/-- The order of a submission is filled within its amount, and its price has at most 34 digits. -/
def Step.Plain (step : Step) : Prop :=
  ∀ o ∈ step.signed? s env, 0 ≤ o.filledAmount ∧ o.filledAmount ≤ o.amount ∧ o.pricePoint < 10 ^ 34

instance (step : Step) : Decidable (step.Plain s env) :=
  inferInstanceAs (Decidable (∀ o ∈ step.signed? s env, _))

variable (steps : List Step)

/-- `d` is a copy of an order that a user signed. -/
def CopyOfSigned (d : Order) : Prop := ∃ o ∈ signed s env steps, d.content = o.content

/-- The trade is between two signed orders. -/
def Authorised (t : Trade) : Prop :=
  ∃ maker ∈ signed s env steps, ∃ taker ∈ signed s env steps, t.Honours env.eth maker taker

/-- Every trade of the batch is one its maker and its taker allow, and the taker allows all of
them. -/
structure Fair (m : Matches) : Prop where
  length : m.makerOrders.length = m.trades.length
  takerOrder : CopyOfSigned s env steps m.takerOrder
  matched : ∀ p ∈ m.makerOrders.zip m.trades,
    CopyOfSigned s env steps p.1 ∧ p.2.Honours env.eth p.1 m.takerOrder
  total : m.tradeAmounts.sum ≤ m.takerOrder.amount

/-- What a message of `order` may hold. -/
def Sound : Message → Prop
  | .NEW_ORDER o => o.Bounded ∧ CopyOfSigned s env steps o
  | .CANCEL_ORDER _ => True
  | .INVALIDATE_MAKER_ORDERS m => Fair s env steps m
  | _ => False

/-- Everything held goes back to signed orders. -/
structure Backed (w : World) : Prop where
  plain : ∀ o ∈ signed s env steps, o.Bounded ∧ 0 < o.pricePoint ∧ o.pricePoint < 10 ^ 34
  orders : ∀ d ∈ w.orders, d.Bounded ∧ CopyOfSigned s env steps d
  messages : ∀ m ∈ w.orderQueue, Sound s env steps m
  responses : ∀ r ∈ w.engineResponses, r.trades = [] ∨
    ∃ m, r.matches? = some m ∧ r.order = some m.takerOrder ∧ Fair s env steps m
  stored : ∀ t ∈ w.trades, Authorised s env steps t
  batches : ∀ b, w.Batch b → Fair s env steps b

end

section
variable {s : Server} {env : Env} {steps : List Step} {w w' : World}

theorem signed_subset {steps' : List Step} (h : steps <+: steps') :
    signed s env steps ⊆ signed s env steps' := by
  obtain ⟨more, rfl⟩ := h
  unfold signed
  rw [List.filterMap_append]
  exact List.subset_append_left _ _

theorem CopyOfSigned.of_terms {d d' : Order} (h : CopyOfSigned s env steps d)
    (ht : d'.terms = d.terms) : CopyOfSigned s env steps d' := by
  obtain ⟨o, ho, he⟩ := h
  exact ⟨o, ho, (Order.content_eq ht).trans he⟩

theorem CopyOfSigned.mono {d : Order} (h : CopyOfSigned s env steps d) (step : Step) :
    CopyOfSigned s env (steps ++ [step]) d := by
  obtain ⟨o, ho, he⟩ := h
  exact ⟨o, signed_subset (List.prefix_append ..) ho, he⟩

theorem Authorised.mono {t : Trade} (h : Authorised s env steps t) (step : Step) :
    Authorised s env (steps ++ [step]) t := by
  obtain ⟨maker, hm, taker, ht, h⟩ := h
  have hsub : signed s env steps ⊆ signed s env (steps ++ [step]) :=
    signed_subset (List.prefix_append ..)
  exact ⟨maker, hsub hm, taker, hsub ht, h⟩

theorem Authorised.of_terms {t u : Trade} (h : Authorised s env steps u) (ht : t.terms = u.terms) :
    Authorised s env steps t := by
  obtain ⟨maker, hm, taker, hk, h⟩ := h
  exact ⟨maker, hm, taker, hk, h.of_terms ht⟩

namespace Fair

variable {m b : Matches}

theorem mono (h : Fair s env steps m) (step : Step) : Fair s env (steps ++ [step]) m :=
  ⟨h.length, h.takerOrder.mono step,
    fun p hp => ⟨(h.matched p hp).1.mono step, (h.matched p hp).2⟩, h.total⟩

theorem honoured (h : Fair s env steps m) {t : Trade} (ht : t ∈ m.trades) :
    ∃ mo, CopyOfSigned s env steps mo ∧ t.Honours env.eth mo m.takerOrder := by
  obtain ⟨i, hi, rfl⟩ := List.getElem_of_mem ht
  have him : i < m.makerOrders.length := by rw [h.length]; exact hi
  have hz : (m.makerOrders[i], m.trades[i]) ∈ m.makerOrders.zip m.trades := by
    rw [← List.getElem_zip (i := i) (h := by simpa using ⟨him, hi⟩)]
    exact List.getElem_mem _
  exact ⟨_, h.matched _ hz⟩

theorem authorised (h : Fair s env steps m) {t : Trade} (ht : t ∈ m.trades) :
    Authorised s env steps t := by
  obtain ⟨mo, ⟨maker, hm, hme⟩, hh⟩ := h.honoured ht
  obtain ⟨taker, hk, hke⟩ := h.takerOrder
  exact ⟨maker, hm, taker, hk, hh.of_content hme.symm hke.symm⟩

theorem stamp (h : Fair s env steps m) (now : Time) : Fair s env steps (m.stamp now) := by
  refine ⟨by simpa [Matches.stamp] using h.length, h.takerOrder, fun p hp => ?_, ?_⟩
  · rw [Matches.stamp, List.zip_map_right] at hp
    obtain ⟨q, hq, rfl⟩ := List.mem_map.1 hp
    exact ⟨(h.matched q hq).1, (h.matched q hq).2.of_terms rfl⟩
  · have ht : (m.stamp now).tradeAmounts = m.tradeAmounts := by
      simp only [Matches.tradeAmounts, Matches.stamp, List.map_map]
      rfl
    rw [ht]
    exact h.total

/-- Some of the matches are within the taker's amount because the amounts are not negative. -/
theorem part (h : Fair s env steps m) (hb : m.Part b) : Fair s env steps b := by
  obtain ⟨hk, ps, hps, hmakers, htrades⟩ := hb
  have hzip : b.makerOrders.zip b.trades = ps := by
    rw [hmakers, htrades]
    rw [← List.unzip_fst, ← List.unzip_snd, List.zip_unzip]
  refine ⟨by rw [hmakers, htrades, List.length_map, List.length_map], ?_, fun p hp => ?_, ?_⟩
  · rw [hk]
    exact h.takerOrder
  · rw [hzip] at hp
    rw [hk]
    exact h.matched p (hps.subset hp)
  · have hsub : b.trades.Sublist m.trades := by
      have hmap := hps.map Prod.snd
      rw [List.map_snd_zip h.length.ge] at hmap
      rw [htrades]
      exact hmap
    have hnn : ∀ a ∈ m.tradeAmounts, 0 ≤ a := by
      intro a ha
      obtain ⟨t, ht, rfl⟩ := List.mem_map.1 ha
      obtain ⟨mo, -, hh⟩ := h.honoured ht
      exact hh.nonneg
    rw [hk]
    exact ((hsub.map _).sum_le_sum hnn).trans h.total

end Fair

/-! ## Steps -/

namespace Backed

theorem empty : Backed s env [] World.empty where
  plain := by simp [signed]
  orders := by simp
  messages := by simp [World.empty]
  responses := by simp [World.empty]
  stored := by simp [World.empty]
  batches := by
    intro b hb
    rcases hb with hb | ⟨q, hb⟩ <;> cases hb

theorem snoc (h : Backed s env steps w) {step : Step} (hp : step.Plain s env) :
    Backed s env (steps ++ [step]) w := by
  refine ⟨fun o ho => ?_, fun d hd => ⟨(h.orders d hd).1, (h.orders d hd).2.mono step⟩,
    fun m hm => ?_,
    fun r hr => ?_, fun t ht => (h.stored t ht).mono step, fun b hb => (h.batches b hb).mono step⟩
  · rw [signed_snoc, List.mem_append, Option.mem_toList] at ho
    rcases ho with ho | ho
    · exact h.plain o ho
    · obtain ⟨h0, h1, h2⟩ := hp o ho
      cases step with
      | newOrder r =>
        obtain ⟨sig, hv⟩ := signed?_newOrder.1 ho
        have hval := RawOrder.validate_eq_ok hv
        exact ⟨⟨hval.amount, h0, h1⟩, hval.pricePoint, h2⟩
      | cancelOrder | order | engineResponse | trades | execute | txMessage | errorEvent =>
        cases ho
  · have hs := h.messages m hm
    cases m with
    | NEW_ORDER o => exact ⟨hs.1, hs.2.mono step⟩
    | INVALIDATE_MAKER_ORDERS b => exact hs.mono step
    | CANCEL_ORDER o => trivial
    | ADD_ORDER | INVALIDATE_TAKER_ORDERS | unknown => exact hs
  · rcases h.responses r hr with hr | ⟨m, hm, ho, hf⟩
    · exact .inl hr
    · exact .inr ⟨m, hm, ho, hf.mono step⟩

theorem change (h : Backed s env steps w)
    (horders : ∀ d ∈ w'.orders, d ∈ w.orders ∨ d.Bounded ∧ CopyOfSigned s env steps d)
    (hmessages : ∀ m ∈ w'.orderQueue, m ∈ w.orderQueue ∨ Sound s env steps m)
    (hresponses : ∀ r ∈ w'.engineResponses, r ∈ w.engineResponses ∨ r.trades = [] ∨
      ∃ m, r.matches? = some m ∧ r.order = some m.takerOrder ∧ Fair s env steps m)
    (hstored : ∀ t ∈ w'.trades, (∃ d ∈ w.trades, t.terms = d.terms) ∨ Authorised s env steps t)
    (hbatches : ∀ b, w'.Batch b → w.Batch b ∨ Fair s env steps b) : Backed s env steps w' := by
  refine ⟨h.plain, fun d hd => (horders d hd).elim (h.orders d) id,
    fun m hm => (hmessages m hm).elim (h.messages m) id,
    fun r hr => (hresponses r hr).elim (h.responses r) id, fun t ht => ?_,
    fun b hb => (hbatches b hb).elim (h.batches b) id⟩
  rcases hstored t ht with ⟨d, hd, he⟩ | ht
  · exact (h.stored d hd).of_terms he
  · exact ht

theorem taken (h : Backed s env steps w) (ho : w'.orders = w.orders) (ht : w'.trades = w.trades)
    (hq : w'.orderQueue ⊆ w.orderQueue) (hr : w'.engineResponses ⊆ w.engineResponses)
    (hb : w'.tradeQueue ⊆ w.tradeQueue) (hx : w'.txQueue ⊆ w.txQueue) : Backed s env steps w' := by
  refine h.change (fun d hd => .inl (ho ▸ hd)) (fun m hm => .inl (hq hm))
    (fun r hrq => .inl (hr hrq)) (fun t htw => .inl ⟨t, ht ▸ htw, rfl⟩) fun b hbq => .inl ?_
  rcases hbq with hbq | ⟨q, hbq⟩
  · exact .inl (hb hbq)
  · exact .inr ⟨q, hx hbq⟩

theorem became (h : Backed s env steps w) {c : Coll Order.hash} {ts : List Trade}
    {ms : List Message} {rs : List EngineResponse} (hw : w.Became c ts ms rs w')
    (hts : w.SameTrades w')
    (hc : ∀ d ∈ c, d ∈ w.orders ∨ d.Bounded ∧ CopyOfSigned s env steps d)
    (hms : ∀ m ∈ ms, Sound s env steps m)
    (hrs : ∀ r ∈ rs, r.trades = [] ∨
      ∃ m, r.matches? = some m ∧ r.order = some m.takerOrder ∧ Fair s env steps m) :
    Backed s env steps w' := by
  refine h.change (hw.orders ▸ hc) (fun m hm => ?_) (fun r hr => ?_) (fun t ht => .inl (hts.mem ht))
    fun b hb => .inl ?_
  · rw [hw.orderQueue] at hm
    exact (List.mem_append.1 hm).imp_right (hms m)
  · rw [hw.engineResponses] at hr
    exact (List.mem_append.1 hr).imp_right (hrs r)
  · unfold World.Batch at hb ⊢
    rwa [hw.tradeQueue, hw.txQueue] at hb

theorem same (h : Backed s env steps w) (hw : w.Same w') : Backed s env steps w' :=
  h.became hw hw.relabelled.trades (fun _ hd => .inl hd) (by simp) (by simp)

/-! ### Requests -/

theorem requested (h : Backed s env steps w) {P : Message → Prop} (hw : Services.Requested P w w')
    (hP : ∀ m, P m → Sound s env steps m) : Backed s env steps w' := by
  obtain ⟨ms, hw, hms⟩ := hw.published
  refine h.became hw ?_ (fun _ hd => .inl hd) (fun m hm => hP m (hms m hm)) (by simp)
  unfold World.SameTrades
  rw [hw.trades]

theorem published (h : Backed s env (steps ++ [.newOrder r]) w) {o₀ o : Order} {p : Pair}
    (hp : s.services.Publishes env w r o₀ p o) :
    Sound s env (steps ++ [.newOrder r]) (.NEW_ORDER o) := by
  obtain ⟨sig, hv⟩ := hp.valid
  have hmem : o₀ ∈ signed s env (steps ++ [.newOrder r]) := by
    rw [signed_snoc, signed?_newOrder.2 ⟨sig, hv⟩]
    exact List.mem_append_right _ (.head _)
  have ho := hp.eq
  have hb := (h.plain o₀ hmem).1
  subst ho
  exact ⟨⟨hb.pos, hb.nonneg, hb.le⟩, o₀, hmem, rfl⟩

/-! ### The engine -/

section
variable {m : Mongo} (hdao : env.orderDao = m.orderDao) (hexact : m.DecimalExact)
include hdao hexact

theorem crosses (h : Backed s env steps w) {o d : Order} (ho : CopyOfSigned s env steps o) {n : Nat}
    (hd : d ∈ env.orderDao.matching n w.orders.docs o) : d ∈ w.orders ∧ o.Matchable d := by
  have hprice : ∀ x, CopyOfSigned s env steps x → 0 < x.pricePoint ∧ x.pricePoint < 10 ^ 34 := by
    rintro x ⟨y, hy, he⟩
    have hxy : x.content.pricePoint = y.content.pricePoint := congrArg Order.pricePoint he
    have hxy : x.pricePoint = y.pricePoint := hxy
    rw [hxy]
    exact (h.plain y hy).2
  have hdw : d ∈ w.orders := (env.orderDao.matching_subperm n w.orders.docs o).subset hd
  have hpd := hprice d (h.orders d hdw).2
  have hpo := hprice o ho
  rw [hdao, Mongo.mem_matching (hexact.toDecimal _ hpd.1.le hpd.2)
    (hexact.parseDecimal128 _ hpo.1.le hpo.2)] at hd
  exact hd

theorem fair_response (h : Backed s env steps w) {o : Order} (hob : o.Bounded)
    (ho : CopyOfSigned s env steps o) {l : List Order}
    (hl : l = env.orderDao.matching n w.orders.docs o) :
    ((processOrder o l).response env.eth).trades = [] ∨ ∃ b,
      ((processOrder o l).response env.eth).matches? = some b ∧
      ((processOrder o l).response env.eth).order = some b.takerOrder ∧ Fair s env steps b := by
  have hof := processOrder_of o l
  have hmem : ∀ mo ∈ l, mo ∈ w.orders ∧ o.Matchable mo := by
    intro mo hmo
    rw [hl] at hmo
    exact h.crosses hdao hexact ho hmo
  have hcnt := processOrder_counts hob fun mo hm => (h.orders mo (hmem mo hm).1).1
  have htaker : (processOrder o l).takerOrder.content = o.content := Order.content_eq hof.terms
  by_cases hs : (processOrder o l).status = .ORDER_ADDED
  · exact .inl (by simp [Outcome.response, EngineResponse.trades, hs])
  · refine .inr ⟨_, if_neg hs, rfl, ?_, ho.of_terms hof.terms, fun p hp => ?_, ?_⟩
    · simp [Outcome.makerOrders, Outcome.trades]
    · simp only [Outcome.makerOrders, Outcome.trades, List.zip_map', List.mem_map] at hp
      obtain ⟨f, hf, rfl⟩ := hp
      obtain ⟨hfw, -, hpair, hcross⟩ := hmem _ (hof.maker_mem hf)
      obtain ⟨hfb, hfs⟩ := h.orders _ hfw
      have hft : f.1.content = o.content := Order.content_eq (hof.takers f hf)
      have hfm : (filledMaker f.1 f.2).content = f.2.content :=
        Order.content_eq (filledMaker_terms f.1 f.2)
      have hterms := Order.sameTerms (hof.takers f hf)
      refine ⟨hfs.of_terms (filledMaker_terms f.1 f.2), ?_⟩
      refine (newTrade_honours ?_ ?_ (hcnt.takers f hf) hfb).of_content hfm (htaker.trans hft.symm)
      · unfold Order.SamePair
        rw [hterms.baseToken, hterms.quoteToken]
        exact hpair
      · unfold Order.Crosses
        rw [hterms.side, hterms.pricePoint]
        exact hcross
    · have hsum :
          (Matches.tradeAmounts ⟨(processOrder o l).makerOrders, (processOrder o l).takerOrder,
          (processOrder o l).trades env.eth⟩).sum = (processOrder o l).filled := by
        simp only [Matches.tradeAmounts, Outcome.trades, Outcome.filled, List.map_map]
        rfl
      rw [hsum]
      have hfill := hcnt.filledAmount
      have hle := hcnt.bounded.le
      have hn := hob.nonneg
      show (processOrder o l).filled ≤ (processOrder o l).takerOrder.amount
      omega

/-- **The engine handles a message.** -/
theorem order (h : Backed s env steps w) {i : Nat} {x : Message} (hx : w.orderQueue[i]? = some x)
    (hh : Handled env (w.take i) x w') (ht : (w.take i).SameTrades w') : Backed s env steps w' := by
  have h₀ : Backed s env steps (w.take i) :=
    h.taken rfl rfl (List.eraseIdx_subset ..) (.refl _) (.refl _) (.refl _)
  have hsound := h.messages x (List.mem_of_getElem? hx)
  have hbounded : ∀ d ∈ (w.take i).orders, d.Bounded := fun d hd => (h₀.orders d hd).1
  have horders : ∀ d ∈ w'.orders, d.Bounded ∧ CopyOfSigned s env steps d := by
    intro d hd
    obtain ⟨hb, y, hy, hterms⟩ := hh.stored
      (fun o ho => by rw [ho] at hsound; exact hsound) hbounded
      (fun o ho => by rw [ho] at hsound; exact hsound.1) hd
    refine ⟨hb, CopyOfSigned.of_terms ?_ hterms⟩
    rcases hy with hy | rfl
    · exact (h₀.orders y hy).2
    · exact hsound.2
  have hqueue : ∀ m ∈ w'.orderQueue, m ∈ (w.take i).orderQueue ∨ Sound s env steps m := by
    intro m hm
    rcases hh.queued hm with hm | ⟨y, hy, a, rfl⟩
    · exact .inl hm
    · obtain ⟨hb, hc⟩ := h₀.orders y hy
      exact .inr ⟨restored_bounded a hb.pos, hc.of_terms (restored_terms y a)⟩
  refine h₀.change (fun d hd => .inr (horders d hd)) hqueue (fun r hr => ?_)
    (fun t htw => .inl (ht.mem htw)) fun b hb => .inl ?_
  · cases hh with
    | ignored => exact .inl hr
    | newOrder he =>
      rw [he.engineResponses] at hr
      refine (List.mem_append.1 hr).imp_right fun hr => ?_
      rcases he.responses r hr with rfl | rfl
      · exact h₀.fair_response hdao hexact hsound.1 hsound.2 rfl
      · exact .inl rfl
    | addOrder => exact absurd hsound id
    | cancelOrder hres he =>
      rcases he with he | ⟨-, he⟩ <;> rw [he.engineResponses] at hr
      · exact .inl (by simpa using hr)
      · refine (List.mem_append.1 hr).imp_right fun hr => ?_
        rw [hres r hr]
        exact .inl rfl
    | invalidateMakerOrders he =>
      obtain ⟨c, ts, res, -, hres, hb⟩ := he.became
      rw [hb.engineResponses] at hr
      exact (List.mem_append.1 hr).imp_right fun hr => .inl (hres r hr)
    | invalidateTakerOrders => exact absurd hsound id
  · obtain ⟨_, _, _, _, hw, -⟩ := hh.became
    unfold World.Batch at hb ⊢
    rwa [hw.tradeQueue, hw.txQueue] at hb

end

/-! ### The order service and the operator -/

/-- **A response was split.** -/
theorem matched (h : Backed s env steps w) {i : Nat} {r : EngineResponse} {o : Order} {m : Matches}
    {ts : List Trade} {ms : List Message} {bs : List Matches} (hr : w.engineResponses[i]? = some r)
    (ho : r.order = some o) (hm : r.matches? = some m)
    (hs : Services.Split { m with takerOrder := o } (withoutResponse w i) ts ms bs w') :
    Backed s env steps w' := by
  have h₀ : Backed s env steps (withoutResponse w i) :=
    h.taken rfl rfl (.refl _) (List.eraseIdx_subset ..) (.refl _) (.refl _)
  -- a response without trades has no part
  have hfair : m.trades ≠ [] → Fair s env steps { m with takerOrder := o } := by
    intro hne
    rcases h.responses r (List.mem_of_getElem? hr) with hnil | ⟨m', hm', ho', hf⟩
    · simp only [EngineResponse.trades, hm] at hnil
      exact absurd hnil hne
    · rw [hm] at hm'
      cases hm'
      rw [ho] at ho'
      cases ho'
      exact hf
  have hpart : ∀ b, Matches.Part { m with takerOrder := o } b → b.trades ≠ [] →
    Fair s env steps b := by
    intro b hb hne
    refine (hfair fun hnil => hne ?_).part hb
    obtain ⟨-, ps, hps, -, htr⟩ := hb
    rw [htr]
    simp only [hnil, List.zip_nil_right, List.sublist_nil] at hps
    rw [hps, List.map_nil]
  obtain ⟨hd, hts, hms, hbs⟩ := hs
  refine h₀.change (fun d hdw => .inl (hd.orders ▸ hdw)) (fun x hx => ?_)
    (fun r hr => .inl (hd.engineResponses ▸ hr)) (fun t ht => ?_) fun b hb => ?_
  · rw [hd.orderQueue] at hx
    refine (List.mem_append.1 hx).imp_right fun hx => ?_
    obtain ⟨b, hb, hne, rfl⟩ := hms x hx
    exact hpart b hb hne
  · rw [hd.stored] at ht
    refine (List.mem_append.1 ht).imp (fun ht => ⟨t, ht, rfl⟩) fun ht => ?_
    obtain ⟨u, hu, now, rfl⟩ := hts t ht
    exact ((hfair (List.ne_nil_of_mem hu)).authorised hu).of_terms rfl
  · rcases hb with hb | ⟨q, hb⟩
    · rw [hd.tradeQueue] at hb
      refine (List.mem_append.1 hb).imp .inl fun hb => ?_
      obtain ⟨v, hv, hne, now, rfl⟩ := hbs b hb
      exact (hpart v hv hne).stamp now
    · exact .inl (.inr ⟨q, hd.txQueue ▸ hb⟩)

/-- **A batch was queued or dropped.** -/
theorem queued (h : Backed s env steps w) {i : Nat} {b : Matches} {qs : List (Nat × Matches)}
    (hb : w.tradeQueue[i]? = some b) (hqs : qs = [] ∨ ∃ q, qs = [(q, b)])
    (hw : (withoutBatch w i).Operated w.trades qs [] w') : Backed s env steps w' := by
  have h₀ : Backed s env steps (withoutBatch w i) :=
    h.taken rfl rfl (.refl _) (.refl _) (List.eraseIdx_subset ..) (.refl _)
  have hstored : w'.trades = (withoutBatch w i).trades := hw.trades
  refine h₀.change (fun d hd => .inl (hw.orders ▸ hd)) (fun m hm => .inl (hw.orderQueue ▸ hm))
    (fun r hr => .inl (hw.engineResponses ▸ hr)) (fun t ht => .inl ⟨t, hstored ▸ ht, rfl⟩)
      fun x hx => ?_
  rcases hx with hx | ⟨q, hx⟩
  · exact .inl (.inl (hw.tradeQueue ▸ hx))
  · rw [hw.txQueue] at hx
    refine (List.mem_append.1 hx).imp (fun hx => .inr ⟨q, hx⟩) fun hx => ?_
    rcases hqs with rfl | ⟨p, rfl⟩
    · cases hx
    · obtain ⟨-, rfl⟩ := Prod.mk.inj (List.mem_singleton.1 hx)
      exact h.batches x (.inl (List.mem_of_getElem? hb))

theorem retold (h : Backed s env steps w) {us : List Trade}
    (hus : ∀ u ∈ us, Authorised s env steps u) (hw : World.Retold us w w') :
    Backed s env steps w' := by
  refine h.change (fun d hd => .inl (hw.orders ▸ hd)) (fun m hm => .inl (hw.orderQueue ▸ hm))
    (fun r hr => .inl (hw.engineResponses ▸ hr)) (fun t ht => ?_) fun x hx => .inl ?_
  · refine (hw.stored t ht).imp_right fun hu => ?_
    obtain ⟨u, hu, he⟩ := hu
    exact (hus u hu).of_terms he
  · unfold World.Batch at hx ⊢
    rwa [hw.tradeQueue, hw.txQueue] at hx

/-- **A batch was executed.** -/
theorem executed (h : Backed s env steps w) {i : Nat} {b : Nat × Matches}
    (hb : w.txQueue[i]? = some b) (hw : World.Retold b.2.trades (withoutQueued w i) w') :
    Backed s env steps w' := by
  have h₀ : Backed s env steps (withoutQueued w i) :=
    h.taken rfl rfl (.refl _) (.refl _) (.refl _) (List.eraseIdx_subset ..)
  exact h₀.retold
    (fun _ hu => (h.batches b.2 (.inr ⟨b.1, List.mem_of_getElem? hb⟩)).authorised hu) hw

/-- **Every plain step** keeps the invariant. -/
theorem step {m : Mongo} (hdao : env.orderDao = m.orderDao) (hexact : m.DecimalExact)
    (h : Backed s env steps w) {step : Step} (hp : step.Plain s env) :
    Backed s env (steps ++ [step]) (s.step env w step) := by
  have h' := h.snoc hp
  have hstep := s.step_stepped env w step
  generalize s.step env w step = w' at hstep
  cases hstep with
  | idle => exact h'
  | newOrder hw =>
    refine h'.requested hw fun m hm => ?_
    obtain ⟨o₀, p, o, rfl, hp⟩ := hm
    exact h'.published hp
  | cancelOrder hw =>
    refine h'.requested hw fun m hm => ?_
    obtain ⟨o, rfl, -⟩ := hm
    trivial
  | order hm hh ht => exact h'.order hdao hexact hm hh ht.sameTrades
  | @response i _ _ hr hw =>
    have h₀ : Backed s env _ (withoutResponse w i) :=
      h'.taken rfl rfl (.refl _) (List.eraseIdx_subset ..) (.refl _) (.refl _)
    exact h₀.same hw
  | matched hr ho hm hs => exact h'.matched hr ho hm hs
  | trades hb hqs hw => exact h'.queued hb hqs hw
  | execute hb hw => exact h'.executed hb hw
  | @txMessage i _ _ hm hw =>
    have h₀ : Backed s env _ (withoutMessage w i) :=
      h'.taken rfl rfl (.refl _) (.refl _) (.refl _) (.refl _)
    exact h₀.retold (by simp) hw.retold
  | errorEvent hw => exact h'.same hw

/-- **Every plain run.** -/
theorem of_run {m : Mongo} (hdao : env.orderDao = m.orderDao) (hexact : m.DecimalExact)
    (h : Run (fun _ _ step => step.Plain s env) (s.step env) World.empty steps w) :
    Backed s env steps w :=
  h.invariant .empty fun _ _ _ _ hi hp => hi.step hdao hexact hp

end Backed

end

end Server

/-! ## Every run -/

section
variable {s : Server} {env : Env} {m : Mongo} {steps : List Server.Step} {w : World}
  (hdao : env.orderDao = m.orderDao) (hexact : m.DecimalExact)
  (h : Run (fun _ _ step => step.Plain s env) (s.step env) World.empty steps w)
include hdao hexact h

end

/-- A SELL of 10 at 4 and a BUY of 6 at 5, up to the queue of the operator's wallet. -/
def crossingSteps : List Server.Step :=
  [.newOrder (.sample 1 .SELL 4 10), .order 0, .newOrder (.sample 2 .BUY 5 6), .order 0,
    .engineResponse 1, .trades 0]

end Dex
