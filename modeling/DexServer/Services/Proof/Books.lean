import DexServer.Lib.Run
import DexServer.Sample
import DexServer.Services.Pair
import DexServer.Services.Proof.Request
import DexServer.Types.Time

/-!
# Which orders find an order book

* `orders_reach_book_iff`: an accepted order finds a book if and only if a pair of its two tokens
  was stored when the engine started.
* `order_discarded`: the first order of a pair that was created later is accepted and then dropped.
-/

namespace Dex

open Lib

/-- `Address.Hex`: different addresses have different texts, all of one length. -/
structure Eth.FixedHex (eth : Eth) : Prop where
  injective : Function.Injective eth.hex
  length : ∀ a b, (eth.hex a).length = (eth.hex b).length

theorem Eth.FixedHex.append_inj {eth : Eth} (h : eth.FixedHex) {s t : String} {a b : Address}
    (he : s ++ "::" ++ eth.hex a = t ++ "::" ++ eth.hex b) : s = t ∧ a = b := by
  have hlist := congrArg String.toList he
  rw [String.toList_append, String.toList_append (s := t ++ "::")] at hlist
  have hlen : (eth.hex a).toList.length = (eth.hex b).toList.length := by
    rw [String.length_toList, String.length_toList, h.length a b]
  obtain ⟨hst, hab⟩ := List.append_inj' hlist hlen
  rw [String.toList_append, String.toList_append] at hst
  exact ⟨String.toList_inj.1 (List.append_inj' hst rfl).1, h.injective (String.toList_inj.1 hab)⟩

theorem Eth.FixedHex.code_inj {eth : Eth} (h : eth.FixedHex) {s t : String} {a b a' b' : Address}
    (he : s ++ "::" ++ eth.hex a ++ "::" ++ eth.hex b =
      t ++ "::" ++ eth.hex a' ++ "::" ++ eth.hex b') :
    a = a' ∧ b = b' := by
  obtain ⟨hs, hb⟩ := h.append_inj he
  exact ⟨(h.append_inj hs).2, hb⟩

theorem RawPair.name_ne_empty (p : RawPair) : p.name ≠ "" := by
  intro h
  have hlen := congrArg String.length h
  rw [RawPair.name, String.length_append, String.length_append] at hlen
  have : ("/" : String).length = 1 := rfl
  have : ("" : String).length = 0 := rfl
  omega

theorem RawPair.pair?_eq {p : RawPair} {pair : Pair} (h : p.pair? = some pair) :
    pair.name = p.name ∧ pair.baseTokenAddress = p.baseTokenAddress ∧
      pair.quoteTokenAddress = p.quoteTokenAddress := by
  cases hm : p.makeFee with
  | none => simp [RawPair.pair?, hm] at h
  | some m =>
    cases ht : p.takeFee with
    | none => simp [RawPair.pair?, hm, ht] at h
    | some t =>
      simp only [RawPair.pair?, hm, ht, Option.bind_eq_bind, Option.bind_some, pure,
        Option.some.injEq] at h
      rw [← h]
      exact ⟨rfl, rfl, rfl⟩

namespace PairStore

/-! ## The pairs of a run -/

/-- The pairs of `st`, against those the engine was started with. -/
structure Since (st₀ st : PairStore) : Prop where
  /-- a pair was there at the start, or there was none of its tokens -/
  new : ∀ p ∈ st.pairs, p ∈ st₀.pairs ∨
    ∀ q ∈ st₀.pairs, ¬q.HasTokens p.baseTokenAddress p.quoteTokenAddress
  kept : ∀ p ∈ st₀.pairs, p ∈ st.pairs

theorem Since.step {st₀ st : PairStore} (h : Since st₀ st) (op : CreateOp) :
    Since st₀ (st.step op) := by
  rcases create_cases op.fails op.pair st with ⟨err, hst⟩ | ⟨p, hst, hnone, -, -⟩
  · rw [PairStore.step, hst]
    exact h
  · rw [PairStore.step, hst]
    refine ⟨fun p' hp' => ?_, fun q hq => List.mem_append_left _ (h.kept q hq)⟩
    rcases List.mem_append.1 hp' with hp' | hp'
    · exact h.new p' hp'
    · -- the new pair is not refused only if its tokens have no pair, then or at the start
      rw [List.mem_singleton.1 hp']
      refine .inr fun q hq hqp => ?_
      have := List.find?_eq_none.1 hnone q (h.kept q hq)
      exact this (by simpa using hqp)

theorem since {st₀ st : PairStore} {ops : List CreateOp}
    (h : Run (fun _ _ _ => True) PairStore.step st₀ ops st) : Since st₀ st :=
  h.invariant (I := fun _ st => Since st₀ st) ⟨fun _ hp => .inl hp, fun _ hp => hp⟩
    fun _ _ op _ hi _ => hi.step op

/-! ## What is accepted -/

theorem newOrder_published {st : PairStore} {s : Services} {r : RawOrder} {env : Env} {w : World}
    {o : Order} (h : (st.newOrder s r env w).2.orderQueue = w.orderQueue ++ [.NEW_ORDER o]) :
    ∃ p ∈ st.pairs, p.HasTokens o.baseToken o.quoteToken ∧ o.pairName = p.name := by
  have hrequest : ∀ s : Services, (s.newOrder r env w).2.orderQueue =
      w.orderQueue ++ [.NEW_ORDER o] → ∃ o₀ p, s.Publishes env w r o₀ p o := by
    intro s hs
    obtain ⟨n, he | ⟨m, ⟨o₀, p, o', rfl, hp⟩, he⟩⟩ := s.newOrder_requested r env w
    · rw [he] at hs
      exact absurd hs (by simp)
    · rw [he] at hs
      simp only [List.append_cancel_left_eq, List.cons.injEq, Message.NEW_ORDER.injEq,
        and_true] at hs
      exact ⟨o₀, p, hs ▸ hp⟩
  unfold PairStore.newOrder at h
  cases hfind : st.getByTokenAddress r.baseToken r.quoteToken with
  | none =>
    rw [hfind] at h
    obtain ⟨o₀, p, hp⟩ := hrequest _ h
    exact absurd hp.pair (by simp)
  | some p =>
    rw [hfind] at h
    dsimp only at h
    cases hpair : p.pair? with
    | none =>
      rw [hpair] at h
      obtain ⟨n, hn⟩ := newOrderWithoutFees_quiet s r env w
      rw [hn] at h
      exact absurd h (by simp)
    | some pair =>
      rw [hpair] at h
      obtain ⟨o₀, pair', hp⟩ := hrequest _ h
      have htokens : p.HasTokens r.baseToken r.quoteToken := by simpa using List.find?_some hfind
      obtain ⟨hname, -, -⟩ := RawPair.pair?_eq hpair
      have hpair' : pair' = pair := by
        have := List.mem_of_find?_eq_some hp.pair
        exact List.mem_singleton.1 this
      have hb : o.baseToken = r.baseToken := (congrArg Order.baseToken hp.order).symm
      have hq : o.quoteToken = r.quoteToken := (congrArg Order.quoteToken hp.order).symm
      refine ⟨p, List.mem_of_find?_eq_some hfind, by rwa [hb, hq], ?_⟩
      rw [hp.eq, hpair', hname]

end PairStore

/-- An accepted order finds a book if and only if a pair of its tokens was stored at the start; it
is then matched, and dropped otherwise. -/
theorem orders_reach_book_iff {st₀ st : PairStore} {ops : List PairStore.CreateOp}
    (hrun : Run (fun _ _ _ => True) PairStore.step st₀ ops st) {s : Services} {env : Env}
    (hhex : env.eth.FixedHex) {r : RawOrder} {w : World} {o : Order}
    (hpub : (st.newOrder s r env w).2.orderQueue = w.orderQueue ++ [.NEW_ORDER o]) :
    let e := Engine.new env.eth st₀.pairs
    (e.HasBook env o ↔ ∃ p ∈ st₀.pairs, p.HasTokens o.baseToken o.quoteToken) ∧
    ∀ (v : World) (i : Nat), v.orderQueue[i]? = some (.NEW_ORDER o) →
      e.deliver env i v = if ∃ p ∈ st₀.pairs, p.HasTokens o.baseToken o.quoteToken
        then (newOrder o env (v.take i)).2 else v.take i := by
  intro e
  obtain ⟨p, hp, htokens, hname⟩ := PairStore.newOrder_published hpub
  have hcode : o.pairCode env.eth = .ok (p.code env.eth) := by
    have hne : o.pairName ≠ "" := hname ▸ p.name_ne_empty
    rw [Order.pairCode, if_neg hne, hname, RawPair.code, htokens.1, htokens.2]
    rfl
  have hbook : e.HasBook env o ↔ ∃ p ∈ st₀.pairs, p.HasTokens o.baseToken o.quoteToken := by
    constructor
    · rintro ⟨code, hmem, hc⟩
      obtain ⟨q, hq, rfl⟩ := List.mem_map.1 hmem
      rw [hcode, Except.ok.injEq] at hc
      obtain ⟨hb, hqt⟩ := hhex.code_inj hc
      exact ⟨q, hq, hb ▸ htokens.1, hqt ▸ htokens.2⟩
    · rintro ⟨q, hq, hqt⟩
      refine ⟨p.code env.eth, List.mem_map_of_mem ?_, hcode⟩
      rcases (PairStore.since hrun).new p hp with hmem | hnone
      · exact hmem
      · rw [htokens.1, htokens.2] at hnone
        exact absurd hqt (hnone q hq)
  refine ⟨hbook, fun v i hi => ?_⟩
  by_cases h : ∃ p ∈ st₀.pairs, p.HasTokens o.baseToken o.quoteToken
  · rw [if_pos h]
    exact Engine.deliver_newOrder_eq hi (hbook.2 h)
  · rw [if_neg h]
    simp only [Engine.deliver, hi]
    exact Engine.onBook_ignored fun hb => h (hbook.1 hb)

/-! ## A pair that is created later -/

/-- Addresses are written with 49 digits. -/
def Eth.sampleFixed : Eth := { Eth.sample with hex := fun a => .ofList (pad 49 a.toNat) }

theorem Eth.sampleFixed_fixedHex : Eth.sampleFixed.FixedHex := by
  have hlt : ∀ a : Address, a.toNat < 10 ^ 49 := fun a => a.isLt.trans (by decide)
  refine ⟨fun a b h => ?_, fun a b => ?_⟩
  · have hpad : pad 49 a.toNat = pad 49 b.toNat := String.ofList_inj.1 h
    have hnat := congrArg (Nat.ofDigitChars 10 · 0) hpad
    simp only [ofDigitChars_pad] at hnat
    exact BitVec.eq_of_toNat_eq hnat
  · show (String.ofList (pad 49 a.toNat)).length = (String.ofList (pad 49 b.toNat)).length
    rw [String.length_ofList, String.length_ofList, length_pad (hlt a) (by decide),
      length_pad (hlt b) (by decide)]

def Env.sampleFixed : Env := { Env.sample .stored with eth := .sampleFixed }

/-- The pair `ZRX/WETH`, and its tokens. -/
def PairStore.samplePair : RawPair := ⟨"ZRX", 3, 0, "WETH", 4, 0, some 0, some 0⟩

def PairStore.sample (pairs : List RawPair) : PairStore :=
  ⟨pairs, [⟨"ZRX", 3, 0, false⟩, ⟨"WETH", 4, 0, true⟩]⟩

/-- The state after the request for a SELL of 10. -/
def PairStore.sampleWorld (st : PairStore) : World :=
  (st.newOrder Services.sample (.sample 1 .SELL 5 10) Env.sampleFixed World.empty).2

/-- The order that is published then. -/
def Order.sampleSell : Order := { Order.submitted 1 .SELL 10 with createdAt := 1 }

/-- An order on a pair of the start is matched, also after a second attempt to create that pair. -/
theorem orders_reach_book_listed :
    let st := PairStore.sample [PairStore.samplePair]
    let w := st.sampleWorld
    w.orderQueue = [.NEW_ORDER .sampleSell] ∧
      (Engine.new Env.sampleFixed.eth st.pairs).deliver Env.sampleFixed 0 w =
        (newOrder .sampleSell Env.sampleFixed (w.take 0)).2 := by
  intro st w
  have hrun : Run (fun _ _ _ => True) PairStore.step st
      [⟨PairStore.samplePair, fun _ => false⟩] st :=
    .snoc _ .nil trivial
  have hpub : w.orderQueue = [.NEW_ORDER .sampleSell] := by decide +kernel
  have hlisted : ∃ p ∈ st.pairs, p.HasTokens Order.sampleSell.baseToken
      Order.sampleSell.quoteToken :=
    ⟨PairStore.samplePair, List.mem_singleton_self _, by decide⟩
  have hhex : Env.sampleFixed.eth.FixedHex := Eth.sampleFixed_fixedHex
  have h := (orders_reach_book_iff hrun hhex hpub).2 w 0 (by rw [hpub]; rfl)
  rw [if_pos hlisted] at h
  exact ⟨hpub, h⟩

/-- The pair is created after the start. Its first order is accepted; the engine has no book for it
and drops the order. -/
theorem order_discarded :
    let st₀ := PairStore.sample []
    let st := st₀.step ⟨PairStore.samplePair, fun _ => false⟩
    let w := st.sampleWorld
    Run (fun _ _ _ => True) PairStore.step st₀ [⟨PairStore.samplePair, fun _ => false⟩] st ∧
      w.orderQueue = [.NEW_ORDER .sampleSell] ∧
      ¬(Engine.new Env.sampleFixed.eth st₀.pairs).HasBook Env.sampleFixed .sampleSell ∧
      (Engine.new Env.sampleFixed.eth st₀.pairs).deliver Env.sampleFixed 0 w = w.take 0 := by
  refine ⟨.snoc _ .nil trivial, by decide +kernel, ?_, ?_⟩
  · rintro ⟨code, hmem, -⟩
    cases hmem
  · have hpub : (PairStore.step (.sample [])
        ⟨PairStore.samplePair, fun _ => false⟩).sampleWorld.orderQueue =
        [.NEW_ORDER .sampleSell] := by decide +kernel
    simp only [Engine.deliver, hpub, List.getElem?_cons_zero]
    refine Engine.onBook_ignored ?_
    rintro ⟨code, hmem, -⟩
    cases hmem

end Dex
