import DexServer.Daos.OrderRecord
import DexServer.Engine.Proof.Fill
import DexServer.Operator.TxQueue
import DexServer.Sample
import DexServer.Services.Proof.Messages
import DexServer.Services.Proof.Request
import DexServer.Types.TradeJson

/-!
# What the engine matches, the operator accepts

A batch is on its way from the engine to the transaction queues in three queues, each of which
encodes it to JSON and decodes it (`Conveyed`); the order service keeps a part of it on the way
(`handleEngineOrderMatched_conveyed`).

* `Matches.Acceptable` is what survives: it is kept on every stretch of the way
  (`Acceptable.of_conveyed`), and it is what the operator's check asks for.
* `Upheld.newOrder`: the engine emits acceptable batches, as long as the orders it gets and the ones
  it holds are signed and not used up.
* `matches_accepted`: the two together.
-/

namespace Dex

open Lib

/-! ## The way of a batch -/

/-- The batch `m` of the engine is `a` somewhere on its way to the transaction queues. -/
inductive Conveyed (c : Codec) (m : Matches) : Matches → Prop
  | emitted : Conveyed c m m
  /-- it went through a queue -/
  | queued {a b : Matches} : Conveyed c m a →
      RawMatches.unmarshalJSON c (a.raw.marshalJSON c) = .ok b.raw → Conveyed c m b
  /-- some of its trades were kept, with their makers -/
  | kept {a : Matches} {ps : List (Order × Trade)} : Conveyed c m a →
      ps.Sublist (a.makerOrders.zip a.trades) → ps ≠ [] →
      Conveyed c m ⟨ps.map (·.1), a.takerOrder, ps.map (·.2)⟩
  /-- its trades were stored -/
  | stored {a : Matches} (now : Time) : Conveyed c m a →
      Conveyed c m { a with trades := a.trades.map (·.stamp now) }

section
variable {x : Address} {c : Codec}

theorem Order.Signed.conveyed {eth : Eth} {o : Order} (h : o.Signed x eth) :
    (o.conveyed c).Signed x eth :=
  h.of_terms rfl rfl

theorem Trade.named_of_validate {eth : Eth} {t : Trade} (h : t.validate eth = .ok ()) :
    t.Named := by
  obtain ⟨-, -, -, hm, hb, hq, -⟩ := Trade.validate_eq_ok.1 h
  exact ⟨hb, hq, hm⟩

namespace Matches.Acceptable

variable {m : Matches}

theorem conveyed {eth : Eth} (h : m.Acceptable x eth) : (m.conveyed c).Acceptable x eth := by
  refine ⟨?_, ?_, fun t ht => ?_, fun o ho => ?_, h.takerOrder.conveyed⟩
  · simpa [Matches.conveyed] using h.nonempty
  · simpa [Matches.conveyed] using h.length
  · obtain ⟨t₀, ht₀, rfl⟩ := List.mem_map.1 ht
    exact h.trades t₀ ht₀
  · obtain ⟨o₀, ho₀, rfl⟩ := List.mem_map.1 ho
    exact (h.makerOrders o₀ ho₀).conveyed

theorem kept {eth : Eth} (h : m.Acceptable x eth) {ps : List (Order × Trade)}
    (hs : ps.Sublist (m.makerOrders.zip m.trades)) (hne : ps ≠ []) :
    Matches.Acceptable x eth ⟨ps.map (·.1), m.takerOrder, ps.map (·.2)⟩ := by
  refine ⟨by simpa using hne, by simp, fun t ht => ?_, fun o ho => ?_, h.takerOrder⟩
  · obtain ⟨p, hp, rfl⟩ := List.mem_map.1 ht
    exact h.trades p.2 (List.of_mem_zip (hs.subset hp)).2
  · obtain ⟨p, hp, rfl⟩ := List.mem_map.1 ho
    exact h.makerOrders p.1 (List.of_mem_zip (hs.subset hp)).1

theorem stored {eth : Eth} (h : m.Acceptable x eth) (now : Time) :
    Matches.Acceptable x eth { m with trades := m.trades.map (·.stamp now) } := by
  refine ⟨by simpa using h.nonempty, by simpa using h.length, fun t ht => ?_, h.makerOrders,
    h.takerOrder⟩
  obtain ⟨t₀, ht₀, rfl⟩ := List.mem_map.1 ht
  exact h.trades t₀ ht₀

variable (hc : c.eth.ReadsBack)
include hc

theorem unmarshalJSON_marshalJSON (h : m.Acceptable x c.eth) :
    RawMatches.unmarshalJSON c (m.raw.marshalJSON c) = .ok (m.conveyed c).raw :=
  Matches.unmarshalJSON_marshalJSON hc fun t ht => Trade.named_of_validate (h.trades t ht)

theorem of_conveyed (h : m.Acceptable x c.eth) {a : Matches} (ha : Conveyed c m a) :
    a.Acceptable x c.eth := by
  induction ha with
  | emitted => exact h
  | queued _ hb ih =>
    rw [ih.unmarshalJSON_marshalJSON hc] at hb
    rw [← Matches.raw_injective (Except.ok.inj hb)]
    exact ih.conveyed
  | kept _ hs hne ih => exact ih.kept hs hne
  | stored now _ ih => exact ih.stored now

end Matches.Acceptable

end

/-! ## What the order service keeps -/

namespace Services

section
variable {s : Services} {env : Env}

theorem checkMakers_kept (m : Matches) : ∀ (trades : List Trade) (i : Nat) (valid invalid : Matches)
    (w : World), Prog.wp (s.checkMakers m valid invalid i trades) env w
      (fun x w' => w'.tradeQueue = w.tradeQueue ∧ ∃ ps : List (Order × Trade),
        ps.Sublist ((m.makerOrders.drop i).zip trades) ∧
        x.1 = ⟨valid.makerOrders ++ ps.map (·.1), valid.takerOrder, valid.trades ++ ps.map (·.2)⟩)
      (fun _ w' => w'.tradeQueue = w.tradeQueue)
  | [], i, valid, invalid, w => ⟨rfl, [], List.nil_sublist _, by simp⟩
  | t :: trades, i, valid, invalid, w => by
    unfold checkMakers
    rw [Prog.wp_bind]
    refine wp_index (fun mo hmo => ?_) fun _ => rfl
    obtain ⟨hi, hget⟩ := List.getElem?_eq_some_iff.1 hmo
    have hdrop : m.makerOrders.drop i = mo :: m.makerOrders.drop (i + 1) := by
      rw [List.drop_eq_getElem_cons hi, hget]
    rw [Prog.wp_bind]
    refine wp_attempted (Prog.wp_mono (Silent.quiet (s.validateBalance_quiet mo)).same
      (fun _ w₁ h₁ => ?_) fun e w₁ h₁ => ⟨?_, h₁.tradeQueue⟩)
    · refine Prog.wp_mono (checkMakers_kept m trades (i + 1) (valid.appendMatch mo t) invalid w₁)
        (fun x w' hx => ?_) fun _ w' h => h.trans h₁.tradeQueue
      obtain ⟨hw', ps, hps, hx⟩ := hx
      refine ⟨hw'.trans h₁.tradeQueue, (mo, t) :: ps, ?_, ?_⟩
      · rw [hdrop, List.zip_cons_cons]
        exact hps.cons_cons _
      · rw [hx]
        simp [Matches.appendMatch]
    · refine Prog.wp_mono (checkMakers_kept m trades (i + 1) valid (invalid.appendMatch mo t) w₁)
        (fun x w' hx => ?_) fun _ w' h => h.trans h₁.tradeQueue
      obtain ⟨hw', ps, hps, hx⟩ := hx
      refine ⟨hw'.trans h₁.tradeQueue, ps, ?_, hx⟩
      rw [hdrop, List.zip_cons_cons]
      exact hps.cons _

theorem storeMatches_published (o : Order) (m valid : Matches) (w : World) :
    ∀ b ∈ (storeMatches o m valid env w).2.tradeQueue, b ∈ w.tradeQueue ∨
      (valid.trades ≠ [] ∧ ∃ now, b = { valid with trades := valid.trades.map (·.stamp now) }) := by
  refine Prog.wp_state (P := fun w' : World => ∀ b ∈ w'.tradeQueue, b ∈ w.tradeQueue ∨
    (valid.trades ≠ [] ∧ ∃ now, b = { valid with trades := valid.trades.map (·.stamp now) })) ?_
  unfold storeMatches
  split
  · exact fun b hb => .inl hb
  · rename_i hne
    rw [List.isEmpty_iff] at hne
    simp only [Prog.wp_bind, Prog.wp_attempt]
    refine wp_call (fun _ b hb => .inl hb) fun _ => ?_
    rw [Prog.ends_ok]
    refine wp_call (fun _ b hb => .inl hb) fun _ b hb => ?_
    rcases List.mem_append.1 hb with hb | hb
    · exact .inl hb
    · exact .inr ⟨hne, _, List.mem_singleton.1 hb⟩

/-- **What `handleEngineOrderMatched` hands to the operator** is a part of the batch, its trades
stored, whichever calls fail. -/
theorem handleEngineOrderMatched_conveyed {c : Codec} {res : EngineResponse} {m : Matches}
    (ho : res.order = some m.takerOrder) (hm : res.matches? = some m) (w : World) :
    ∀ b ∈ (s.handleEngineOrderMatched res env w).2.tradeQueue, b ∈ w.tradeQueue ∨
    Conveyed c m b := by
  refine Prog.wp_state (P := fun w' : World =>
    ∀ b ∈ w'.tradeQueue, b ∈ w.tradeQueue ∨ Conveyed c m b) ?_
  unfold handleEngineOrderMatched
  simp only [ho, hm, deref, Prog.wp_bind, Prog.wp_pure]
  refine Prog.wp_mono (checkMakers_kept m m.trades 0 _ _ w) (fun x w₁ hx => ?_)
    fun _ w₁ h₁ b hb => .inl (h₁ ▸ hb)
  obtain ⟨valid, invalid⟩ := x
  obtain ⟨h₁, ps, hps, hvalid⟩ := hx
  simp only [List.nil_append, List.drop_zero] at hps hvalid
  have hdone : ∀ w₂ : World, w₂.tradeQueue = w.tradeQueue →
      Prog.wp (storeMatches m.takerOrder m valid)
      env w₂ (fun _ w' => ∀ b ∈ w'.tradeQueue, b ∈ w.tradeQueue ∨ Conveyed c m b)
      (fun _ w' => ∀ b ∈ w'.tradeQueue, b ∈ w.tradeQueue ∨ Conveyed c m b) := by
    intro w₂ h₂
    refine Prog.wp_of_state fun b hb => ?_
    rcases storeMatches_published m.takerOrder m valid w₂ b hb with hb | ⟨hne, now, rfl⟩
    · exact .inl (h₂ ▸ hb)
    · subst hvalid
      exact .inr (.stored now (.kept .emitted hps (by simpa using hne)))
  dsimp only
  split
  · exact hdone w₁ h₁
  · simp only [publishInvalidateMakerOrdersMessage, publishOrder, Prog.wp_bind, Prog.wp_attempt]
    exact wp_call (fun _ => hdone _ h₁) fun _ => hdone _ h₁

end

end Services

/-! ## What the engine emits -/

theorem filledMaker_signature (o mo : Order) : (filledMaker o mo).signature = mo.signature := by
  unfold filledMaker; split <;> rfl

theorem matchOrders_signature : ∀ (l : List Order) (o : Order) (rem : Int),
    (matchOrders o rem l).takerOrder.signature = o.signature
  | [], _, _ => rfl
  | mo :: l, o, rem => by
    unfold matchOrders
    split
    · rfl
    · exact matchOrders_signature l (filledTaker o mo) (rem - tradeAmount o mo)

theorem processOrder_signature (o : Order) (l : List Order) :
    (processOrder o l).takerOrder.signature = o.signature := by
  unfold processOrder
  split
  · unfold restingOrder addedOrder
    split <;> try split
    all_goals rfl
  · exact matchOrders_signature l o o.amount

theorem processOrder_fills {o : Order} {l : List Order}
    (h : (processOrder o l).status ≠ .ORDER_ADDED) : (processOrder o l).fills ≠ [] := by
  cases l with
  | nil => exact absurd rfl h
  | cons mo l =>
    show (matchOrders o o.amount (mo :: l)).fills ≠ []
    unfold matchOrders
    split
    · exact List.cons_ne_nil _ _
    · exact List.cons_ne_nil _ _

theorem updatedDoc_signed {x : Address} {eth : Eth} {now : Time} {old : Option Order} {o : Order}
    (h : o.Signed x eth) : (updatedDoc now old o).Signed x eth := by
  refine h.of_terms (updatedDoc_terms now old o) ?_
  obtain ⟨sig, hv⟩ := h
  cases old with
  | none => rfl
  | some d => simp [updatedDoc, hv.signed]

/-- A stored order: signed, and what is open is not used up. -/
structure Order.Standing (x : Address) (eth : Eth) (d : Order) : Prop where
  signed : d.Signed x eth
  hash : d.hash ≠ 0
  bounded : d.Bounded
  left : d.isOpen → 0 < d.remainingAmount

theorem Order.Standing.written {x : Address} {eth : Eth} {d : Order} (hs : d.Signed x eth)
    (hh : d.hash ≠ 0) (hb : d.Bounded) (hf : d.StatusFits) (now : Time) (old : Option Order) :
    (updatedDoc now old d).Standing x eth := by
  refine ⟨updatedDoc_signed hs, by simpa using hh, updatedDoc_bounded hb, fun ho => ?_⟩
  have hopen : d.isOpen := by simpa [Order.isOpen] using ho
  have hleft := hf.remaining_pos hb hopen
  simpa [Order.remainingAmount] using hleft

/-- Every stored order stands, and every batch emitted is acceptable. -/
structure Upheld (x : Address) (eth : Eth) (w : World) : Prop where
  standing : ∀ d ∈ w.orders, d.Standing x eth
  acceptable : ∀ r ∈ w.engineResponses, ∀ m ∈ r.matches?, m.Acceptable x eth

section
variable {x : Address} {env : Env} {o : Order} {l : List Order}

theorem newTrade_validate {eth : Eth} {t mo : Order} (ho : o.Signed x eth) (hz : o.hash ≠ 0)
    (hto : t.terms = o.terms) (hpos : 0 < t.remainingAmount) (hm : mo.Standing x eth)
    (hopen : mo.isOpen) : (newTrade eth t mo).validate eth = .ok () := by
  obtain ⟨sig, hv⟩ := ho
  obtain ⟨sig', hv'⟩ := hm.signed
  have hsame := Order.sameTerms hto
  have huser : t.userAddress = o.userAddress := by
    show t.terms.userAddress = o.terms.userAddress
    rw [hto]
  refine Trade.validate_eq_ok.2 ⟨?_, hv'.user, ?_, hm.hash, ?_, ?_, ?_, ?_, rfl⟩
  · show t.userAddress ≠ 0
    rw [huser]
    exact hv.user
  · show t.hash ≠ 0
    rw [hsame.hash]
    exact hz
  · show t.baseToken ≠ 0
    rw [hsame.baseToken]
    exact hv.base
  · show t.quoteToken ≠ 0
    rw [hsame.quoteToken]
    exact hv.quote
  · show 0 < t.pricePoint
    rw [hsame.pricePoint]
    exact hv.pricePoint
  · have hleft := hm.left hopen
    show 0 < tradeAmount t mo
    rw [tradeAmount_eq_min]
    omega

theorem Outcome.acceptable {eth : Eth} (ho : o.Signed x eth) (hz : o.hash ≠ 0)
    (h0 : o.filledAmount = 0) (hl : ∀ mo ∈ l, mo.Standing x eth ∧ mo.isOpen) :
    ∀ m ∈ ((processOrder o l).response eth).matches?, m.Acceptable x eth := by
  intro m hm
  have hof := processOrder_of o l
  have hamount : 0 < o.amount := ho.elim fun _ hv => hv.amount
  have htakers := processOrder_takers_pos hamount h0 fun mo hmo => (hl mo hmo).1.left (hl mo hmo).2
  unfold Outcome.response at hm
  split at hm
  · cases hm
  · rename_i hst
    cases hm
    refine ⟨?_, ?_, fun t ht => ?_, fun d hd => ?_, ?_⟩
    · simpa [Outcome.trades] using processOrder_fills hst
    · simp [Outcome.trades, Outcome.makerOrders]
    · obtain ⟨p, hp, rfl⟩ := List.mem_map.1 ht
      obtain ⟨hst, hopen⟩ := hl p.2 (hof.maker_mem hp)
      exact newTrade_validate ho hz (hof.takers p hp) (htakers p hp) hst hopen
    · obtain ⟨p, hp, rfl⟩ := List.mem_map.1 hd
      exact (hl p.2 (hof.maker_mem hp)).1.signed.of_terms (filledMaker_terms ..)
        (filledMaker_signature ..)
    · exact ho.of_terms hof.terms (processOrder_signature o l)

/-- **`newOrder` on a signed, unfilled order**, whichever calls fail. -/
theorem Upheld.newOrder {w : World} (hi : Upheld x env.eth w) (ho : o.Signed x env.eth)
    (hz : o.hash ≠ 0) (h0 : o.filledAmount = 0) : Upheld x env.eth (newOrder o env w).2 := by
  obtain ⟨ds, rs, h⟩ := newOrder_effect env o w
  have hsub := env.orderDao.matching_subperm w.calls w.orders.docs o
  have hres := env.orderDao.matching_resting w.calls w.orders.docs o
  generalize env.orderDao.matching w.calls w.orders.docs o = l at h hsub hres
  have hl : ∀ mo ∈ l, mo.Standing x env.eth ∧ mo.isOpen := fun mo hmo =>
    ⟨hi.standing mo (hsub.subset hmo), (hres mo hmo).1⟩
  have hleft : ∀ mo ∈ l, 0 < mo.remainingAmount := fun mo hmo => (hl mo hmo).1.left (hl mo hmo).2
  have hamount : 0 < o.amount := ho.elim fun _ hv => hv.amount
  have hof := processOrder_of o l
  have hcnt := processOrder_counts (o := o) (l := l) ⟨hamount, by omega, by omega⟩
    fun mo hmo => (hl mo hmo).1.bounded
  refine ⟨fun d hd => ?_, fun r hr m hm => ?_⟩
  · rcases h.mem hd with ⟨now, old, rfl⟩ | ⟨p, hp, now, old, rfl⟩ | ⟨hd, -⟩
    · exact .written (ho.of_terms hof.terms (processOrder_signature o l))
        (hof.hash ▸ hz) hcnt.bounded (processOrder_statusFits hamount h0 hleft) now old
    · have hst := (hl p.2 (hof.maker_mem hp)).1
      refine .written (hst.signed.of_terms (filledMaker_terms ..) (filledMaker_signature ..)) ?_
        (filledMaker_bounded (hcnt.takers p hp) hst.bounded)
        (filledMaker_statusFits hst.bounded (processOrder_takers_pos hamount h0 hleft p hp)) now old
      rw [filledMaker_hash]
      exact hst.hash
    · exact hi.standing d hd
  · rw [h.engineResponses] at hr
    rcases List.mem_append.1 hr with hr | hr
    · exact hi.acceptable r hr m hm
    · rcases h.responses r hr with rfl | rfl
      · exact Outcome.acceptable ho hz h0 hl m hm
      · cases hm

end

/-! ## The run -/

/-- `NewOrder` published the order, for some request; the queue may have changed its creation
time. -/
def Services.Submitted (s : Services) (eth : Eth) (o : Order) : Prop :=
  ∃ (env : Env) (w : World) (r : RawOrder) (o₀ : Order) (p : Pair) (o₁ : Order) (t : Time),
    env.eth = eth ∧ s.Publishes env w r o₀ p o₁ ∧ o = { o₁ with createdAt := t }

theorem Services.Submitted.signed {s : Services} {eth : Eth} {o : Order} (h : s.Submitted eth o) :
    o.Signed s.exchangeAddress eth := by
  obtain ⟨env, w, r, o₀, p, o₁, t, rfl, hp, rfl⟩ := h
  obtain ⟨sig, hv⟩ := hp.valid
  have hvalid := RawOrder.validate_eq_ok hv
  rw [hp.eq]
  exact ⟨sig, rfl, hvalid.exchange, hvalid.user, hvalid.base, hvalid.quote, hvalid.side,
    hvalid.nonce, hvalid.amount, hvalid.pricePoint, hvalid.hash, hvalid.signed, hvalid.signer⟩

/-- The engine takes an order; the orders it finds are read back from their records. -/
def engineStep (env : Env) (w : World) (o : Order) : World :=
  (newOrder o env (w.readBack env.codec)).2

/-- **What the engine matches, the operator accepts.** A batch of a run over submitted, unfilled
orders, wherever it is on its way, reads back from the next queue, passes the check, and is
executed. A hash that is zero counts as missing; no order has it. -/
theorem matches_accepted {s : Services} {env : Env} (hc : env.eth.ReadsBack) {os : List Order}
    (hz : ∀ o ∈ os, o.hash ≠ 0) {w : World}
    (h : Run (fun os _ o => o.filledAmount = 0 ∧ o.hash ∉ os.map Order.hash ∧ s.Submitted env.eth o)
      (engineStep env) World.empty os w)
    {r : EngineResponse} (hr : r ∈ w.engineResponses) {m : Matches} (hm : r.matches? = some m)
    {a : Matches} (ha : Conveyed env.codec m a) :
    ∃ b : Matches, RawMatches.unmarshalJSON env.codec (a.raw.marshalJSON env.codec) = .ok b.raw ∧
      b.raw.validate s.exchangeAddress env.eth = .ok () ∧
      ∀ v w', TxQueue.consume s.exchangeAddress v b env w' = TxQueue.executeTrade v b env w' := by
  have hi : Upheld s.exchangeAddress env.eth w := by
    refine h.invariant (I := fun os w => (∀ o ∈ os, o.hash ≠ 0) →
      Upheld s.exchangeAddress env.eth w)
      (fun _ => ⟨fun _ hd => absurd hd List.not_mem_nil, fun _ hr => absurd hr List.not_mem_nil⟩)
      (fun os w o _ ih hok hz => ?_) hz
    rw [engineStep, World.readBack_eq (c := env.codec) hc]
    exact (ih fun o ho => hz o (List.mem_append_left _ ho)).newOrder hok.2.2.signed
      (hz o (by simp)) hok.1
  have hacc := (hi.acceptable r hr m hm).of_conveyed (c := env.codec) hc ha
  have hvalid : (a.conveyed env.codec).validate s.exchangeAddress env.eth =
      .ok (a.conveyed env.codec) := hacc.conveyed.validate
  refine ⟨a.conveyed env.codec, hacc.unmarshalJSON_marshalJSON hc, ?_, fun v w' => ?_⟩
  · rw [Matches.validate_raw, hvalid]
    rfl
  · show (checked ((a.conveyed env.codec).validate s.exchangeAddress env.eth) >>= _) env w' = _
    rw [hvalid]
    rfl

theorem Order.submitted_sell :
    Services.sample.Submitted (Env.sample .stored).eth (.submitted 1 .SELL 10) :=
  ⟨.sample .stored, .empty, .sample 1 .SELL 5 10,
    { Order.submitted 1 .SELL 10 with pairName := "" },
    ⟨"ZRX", 3, 0, "WETH", 4, 0, 0⟩, { Order.submitted 1 .SELL 10 with createdAt := 1 }, 0, rfl,
    ⟨⟨⟨27, 1, 0⟩, by decide +kernel⟩, by decide +kernel, by decide +kernel, by decide +kernel,
      by decide +kernel⟩, rfl⟩

theorem Order.submitted_buy :
    Services.sample.Submitted (Env.sample .stored).eth (.submitted 2 .BUY 4) :=
  ⟨.sample .stored, .empty, .sample 2 .BUY 5 4, { Order.submitted 2 .BUY 4 with pairName := "" },
    ⟨"ZRX", 3, 0, "WETH", 4, 0, 0⟩, { Order.submitted 2 .BUY 4 with createdAt := 1 }, 0, rfl,
    ⟨⟨⟨27, 1, 0⟩, by decide +kernel⟩, by decide +kernel, by decide +kernel, by decide +kernel,
      by decide +kernel⟩, rfl⟩

/-- A BUY of 4 takes a part of a SELL of 10. The batch is stored, and goes to the operator. -/
theorem matches_accepted_stored :
    let env := Env.sample .stored
    let sell := Order.submitted 1 .SELL 10
    let buy := Order.submitted 2 .BUY 4
    ∃ w m, Run (fun os _ o => o.filledAmount = 0 ∧ o.hash ∉ os.map Order.hash ∧
        Services.sample.Submitted env.eth o) (engineStep env) World.empty [sell, buy] w ∧
      (∃ r ∈ w.engineResponses, r.matches? = some m) ∧ m.trades.map (·.amount) = [4] ∧
      ∃ b : Matches, RawMatches.unmarshalJSON env.codec
          ((Matches.raw { m with trades := m.trades.map (·.stamp 9) }).marshalJSON env.codec) =
            .ok b.raw ∧
        b.raw.validate Services.sample.exchangeAddress env.eth = .ok () ∧
        ∀ v w', TxQueue.consume Services.sample.exchangeAddress v b env w' =
          TxQueue.executeTrade v b env w' := by
  intro env sell buy
  have hrun : Run (fun os _ o => o.filledAmount = 0 ∧ o.hash ∉ os.map Order.hash ∧
      Services.sample.Submitted env.eth o) (engineStep env) World.empty [sell, buy] _ :=
    .snoc buy (.snoc sell .nil ⟨rfl, by decide +kernel, Order.submitted_sell⟩)
      ⟨rfl, by decide +kernel, Order.submitted_buy⟩
  have hr : (processOrder buy [{ sell with createdAt := 1 }]).response env.eth ∈
      (engineStep env (engineStep env .empty sell) buy).engineResponses := by decide +kernel
  refine ⟨_, ⟨_, _, _⟩, hrun, ⟨_, hr, rfl⟩, by decide +kernel, ?_⟩
  exact matches_accepted Eth.sample_readsBack (by decide +kernel) hrun hr rfl (.stored 9 .emitted)

end Dex
