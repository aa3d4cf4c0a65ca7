import DexServer.Engine.Engine
import DexServer.Engine.Proof.Invalidate
import DexServer.Operator.Proof.Execute
import DexServer.Services.Proof.Messages

/-!
# The ledger of fills

The engine fills the orders first and announces the trades; the order service then stores a trade or
sends it back to the engine. `World.known` are the trades wherever they are, and `Ledger` says that
the fill of every order that is not INVALIDATED is what these moved on it. It is kept when trades
only change place (`Ledger.moved`), when an order is matched (`Ledger.newOrder`) or cancelled
(`Ledger.cancelOrder`), and when one trade is given back (`Ledger.invalidate`).
-/

namespace Dex

open Lib

/-- The trades that a message sends back to the engine. -/
def Message.disputed : Message → List Trade
  | .INVALIDATE_MAKER_ORDERS m => m.trades
  | _ => []

/-- The trades on their way back to the engine. -/
def World.disputed (w : World) : List Trade := w.orderQueue.flatMap (·.disputed)

/-- All trades: stored, announced by the engine, or on their way back to it. -/
def World.known (w : World) : List Trade := w.trades ++ (w.emitted ++ w.disputed)

structure Ledger (c : Coll Order.hash) (ts : List Trade) : Prop where
  filled : ∀ d ∈ c, d.status ≠ .INVALIDATED → d.filledAmount = Trade.total ts d.hash
  amounts : ∀ t ∈ ts, 0 ≤ t.amount
  named : ∀ t ∈ ts, ∀ h, t.Names h → (c.get h).isSome

namespace Ledger

variable {c : Coll Order.hash} {ts us : List Trade}

theorem total_unstored (hl : Ledger c ts) {h : Hash} (hg : c.get h = none) :
    Trade.total ts h = 0 :=
  Trade.total_eq_zero fun t ht hn => by
    have := hl.named t ht h hn
    rw [hg] at this
    cases this

theorem moved (hl : Ledger c ts) (hp : (us.map Trade.terms).Perm (ts.map Trade.terms)) :
    Ledger c us := by
  -- a trade has the amount and the orders of its terms
  have hmem : ∀ u ∈ us, ∃ t ∈ ts, t.terms = u.terms := fun u hu =>
    List.mem_map.1 (hp.subset (List.mem_map_of_mem hu))
  refine ⟨fun d hd hs => ?_, fun u hu => ?_, fun u hu h hn => ?_⟩
  · rw [← Trade.total_terms us, Trade.total_perm hp, Trade.total_terms]
    exact hl.filled d hd hs
  · obtain ⟨t, ht, he⟩ := hmem u hu
    have ha : t.terms.amount = u.terms.amount := congrArg _ he
    exact (hl.amounts t ht).trans_eq ha
  · obtain ⟨t, ht, he⟩ := hmem u hu
    have hm : t.terms.makerOrderHash = u.terms.makerOrderHash := congrArg _ he
    have hk : t.terms.takerOrderHash = u.terms.takerOrderHash := congrArg _ he
    refine hl.named t ht h ?_
    rcases hn with hn | hn
    · exact .inl (hm.trans hn)
    · exact .inr (hk.trans hn)

theorem cancelOrder (hl : Ledger c ts) {h : Hash}
    (hok : ∀ d ∈ c.get h, d.status ≠ .INVALIDATED) : Ledger (setStatuses c .CANCELLED [h]) ts := by
  refine ⟨fun d hd hs => ?_, hl.amounts, fun t ht x hn => ?_⟩
  · obtain ⟨x, hx, rfl⟩ := mem_setStatuses.1 hd
    by_cases hh : x.hash ∈ [h]
    · rw [if_pos hh]
      refine hl.filled x hx (hok x ?_)
      rw [← List.mem_singleton.1 hh]
      exact Coll.get_mem hx
    · rw [if_neg hh] at hs ⊢
      exact hl.filled x hx hs
  · rw [get_setStatuses, Option.isSome_map]
    exact hl.named t ht x hn

/-! ## Matching -/

section
variable {o : Order} {l : List Order} (hb : ∀ d ∈ c, d.Bounded) (ho : o.Bounded)
  (hsub : l.Subperm c.docs) (hopen : ∀ mo ∈ l, mo.isOpen)
  (hold : ∀ d ∈ c.get o.hash, d.filledAmount = o.filledAmount ∧ d.status ≠ .INVALIDATED)
  (hnew : c.get o.hash = none → o.filledAmount = 0)
include hb ho hsub hopen hold hnew

/-- **A matched order**: its fill agrees with the stored one, or it is new and unfilled. -/
theorem newOrder (hl : Ledger c ts) (now : Time) (eth : Eth) :
    Ledger ((processOrder o l).store now c) (ts ++ (processOrder o l).trades eth) := by
  have hof := processOrder_of o l
  have hcnt := processOrder_counts ho fun mo hm => hb mo (hsub.subset hm)
  have hmk : ∀ p ∈ (processOrder o l).fills, p.2 ∈ c := fun p hp => hsub.subset (hof.maker_mem hp)
  have hself : Trade.total ts o.hash = o.filledAmount := by
    cases hg : c.get o.hash with
    | none => rw [hl.total_unstored hg, hnew hg]
    | some d =>
      obtain ⟨hf, hs⟩ := hold d hg
      rw [← hf, hl.filled d (Coll.mem_of_get hg) hs, Coll.get_key hg]
  refine ⟨fun d hd hs => ?_, fun t ht => ?_, fun t ht h hn => ?_⟩
  · rw [Trade.total_append]
    rcases mem_store hof hsub now eth hd with ⟨rfl, hh, ht⟩ | ⟨p, hp, hpc, rfl, ht⟩ | ⟨hdc, -, ht⟩
    · rw [ht, hh, hself, updatedDoc_filledAmount, hcnt.filledAmount]
    · have hps : p.2.status ≠ .INVALIDATED := by
        rcases hopen p.2 (hof.maker_mem hp) with h | h <;> rw [h] <;> decide
      rw [ht, filledMaker_hash, filledMaker_filledAmount, hl.filled p.2 hpc hps]
    · rw [ht, hl.filled d hdc hs, Int.add_zero]
  · rcases List.mem_append.1 ht with ht | ht
    · exact hl.amounts t ht
    · obtain ⟨p, hp, rfl⟩ := List.mem_map.1 ht
      exact tradeAmount_nonneg (hcnt.takers p hp) (hb _ (hmk p hp))
  · apply store_get_isSome hof now
    rcases List.mem_append.1 ht with ht | ht
    · exact .inr (hl.named t ht h hn)
    · obtain ⟨p, hp, rfl⟩ := List.mem_map.1 ht
      rcases hn with rfl | rfl
      · exact .inr (by rw [newTrade, Coll.get_mem (hmk p hp)]; rfl)
      · exact .inl (hof.taker_hash hp)

end

/-! ## Giving back -/

theorem restored_filledAmount {o : Order} {a : Int} (h : a ≤ o.filledAmount)
    (hle : o.filledAmount - a ≤ o.amount) : (restored o a).filledAmount = o.filledAmount - a := by
  unfold restored
  dsimp only
  split
  · dsimp only
    omega
  · split
    · dsimp only
      omega
    · rfl

theorem givenBack_one {h : Hash} {a : Int} {rs : List Order} {d : Order}
    (hrs : GivenBackAll [h] [a] c rs) (hd : c.get h = some d) : rs = [restored d a] := by
  obtain ⟨orders, hp, rfl⟩ := hrs
  have hmem : d ∈ c.docs.filter (·.hash ∈ [h]) :=
    List.mem_filter.2 ⟨Coll.mem_of_get hd, by simpa using Coll.get_key hd⟩
  have hone : c.docs.filter (·.hash ∈ [h]) = [d] := by
    have hle := length_found c [h]
    have hpos := List.length_pos_of_mem hmem
    rw [List.length_singleton] at hle
    obtain ⟨x, hx⟩ := List.length_eq_one_iff.1 (Nat.le_antisymm hle hpos)
    rw [hx] at hmem ⊢
    rw [List.mem_singleton.1 hmem]
  rw [hone, List.perm_singleton] at hp
  rw [hp]
  rfl

/-- **A trade given back** to its taker, its maker becoming INVALIDATED, is no longer counted. -/
theorem invalidate {t : Trade} {rs : List Order} (hl : Ledger c (t :: ts))
    (hb : ∀ d ∈ c, d.Bounded) (hok : ∀ d ∈ c.get t.takerOrderHash, d.status ≠ .INVALIDATED)
    (hrs : GivenBackAll [t.takerOrderHash] [t.amount] c rs) :
    Ledger (setStatuses (c.putAll rs) .INVALIDATED [t.makerOrderHash]) ts := by
  have hsome := hl.named t (.head _) t.takerOrderHash (.inr rfl)
  obtain ⟨y, hy⟩ := Option.isSome_iff_exists.1 hsome
  have hyc := Coll.mem_of_get hy
  have hyh := Coll.get_key hy
  rw [givenBack_one hrs hy, Coll.putAll_cons, Coll.putAll_nil]
  have hamounts : ∀ u ∈ ts, 0 ≤ u.amount := fun u hu => hl.amounts u (.tail _ hu)
  refine ⟨fun d hd hs => ?_, hamounts, fun u hu h hn => ?_⟩
  · obtain ⟨x, hx, rfl⟩ := mem_setStatuses.1 hd
    have hxm : x.hash ∉ [t.makerOrderHash] := fun hm => by
      rw [if_pos hm] at hs
      exact hs rfl
    rw [if_neg hxm] at hs ⊢
    rcases Coll.mem_put.1 hx with rfl | ⟨hxc, hne⟩
    · have hfill := hl.filled y hyc (hok y hy)
      rw [hyh, Trade.total_cons, if_pos (.inr rfl)] at hfill
      have hrest := Trade.total_nonneg (h := t.takerOrderHash) hamounts
      have hamt := hl.amounts t (.head _)
      have hle := (hb y hyc).le
      rw [restored_filledAmount (by omega) (by omega), restored_hash, hyh]
      omega
    · rw [restored_hash, hyh] at hne
      have hnot : ¬t.Names x.hash := by
        intro hn
        rcases hn with hn | hn
        · exact hxm (by simp [hn])
        · exact hne hn.symm
      have hfill := hl.filled x hxc hs
      rwa [Trade.total_cons, if_neg hnot, Int.zero_add] at hfill
  · rw [get_setStatuses, Option.isSome_map, Coll.get_put]
    split
    · rfl
    · exact hl.named u (.tail _ hu) h hn

end Ledger

/-! ## Where the trades are -/

section
variable {w w' : World}

theorem flatMap_eraseIdx {α : Type} {l : List α} {i : Nat} {a : α} (h : l[i]? = some a)
    (f : α → List Trade) : (f a ++ (l.eraseIdx i).flatMap f).Perm (l.flatMap f) := by
  obtain ⟨hi, rfl⟩ := List.getElem?_eq_some_iff.1 h
  exact (List.getElem_cons_eraseIdx_perm hi).flatMap_right f

theorem World.known_take {i : Nat} {m : Message} (hm : w.orderQueue[i]? = some m) :
    (m.disputed ++ (w.take i).known).Perm w.known := by
  have hp := flatMap_eraseIdx hm (·.disputed)
  rw [List.perm_iff_count] at hp ⊢
  intro a
  have ha := hp a
  simp only [World.known, World.disputed, World.take_orderQueue, World.take_emitted,
    List.count_append] at ha ⊢
  have hs : (w.take i).trades = w.trades := rfl
  rw [hs]
  omega

theorem World.known_response {i : Nat} {r : EngineResponse} (hr : w.engineResponses[i]? = some r) :
    (r.trades ++ World.known { w with engineResponses := w.engineResponses.eraseIdx i }).Perm
      w.known := by
  have hp := flatMap_eraseIdx hr (·.trades)
  rw [List.perm_iff_count] at hp ⊢
  intro a
  have ha := hp a
  simp only [World.known, World.emitted, World.disputed, List.count_append] at ha ⊢
  omega

theorem World.Became.known {c : Coll Order.hash} {ts : List Trade} {ms : List Message}
    {rs : List EngineResponse} (h : w.Became c ts ms rs w') (hts : Restated w.trades ts) :
    (w'.known.map Trade.terms).Perm
      ((w.known ++ (rs.flatMap (·.trades) ++ ms.flatMap (·.disputed))).map Trade.terms) := by
  rw [← h.trades] at hts
  have hs : w'.trades.map Trade.terms = w.trades.map Trade.terms := hts.terms
  rw [List.perm_iff_count]
  intro a
  simp only [World.known, World.emitted, World.disputed, h.orderQueue, h.engineResponses,
    List.flatMap_append, List.map_append, List.count_append, hs]
  omega

theorem World.Operated.known {ts : List Trade} {qs : List (Nat × Matches)}
    {msgs : List OperatorMessage} (h : w.Operated ts qs msgs w') (hts : Restated w.trades ts) :
    w'.known.map Trade.terms = w.known.map Trade.terms := by
  rw [← h.trades] at hts
  have hs : w'.trades.map Trade.terms = w.trades.map Trade.terms := hts.terms
  simp only [World.known, World.emitted, World.disputed, h.orderQueue, h.engineResponses,
    List.map_append, hs]

theorem MatchedEffect.known {o : Order} {m : Matches} {now : Time} {ts us : List Trade}
    (h : MatchedEffect o m w now ts us w') :
    (w'.known.map Trade.terms).Perm ((m.trades ++ w.known).map Trade.terms) := by
  obtain ⟨ms, bs, hd, -, hms⟩ := h.dispatched
  have hdis : ms.flatMap (·.disputed) = us := by
    rcases hms with ⟨rfl, rfl⟩ | ⟨x, rfl, -, rfl, -⟩
    · rfl
    · exact List.flatMap_singleton ..
  -- the time a trade is stored is not among its terms
  have hstamp : (ts.map (·.stamp now)).map Trade.terms = ts.map Trade.terms := List.map_map
  have hp := h.perm.map Trade.terms
  rw [List.perm_iff_count] at hp ⊢
  intro a
  have ha := hp a
  simp only [World.known, World.emitted, World.disputed, hd.orderQueue, hd.engineResponses,
    hd.stored, List.flatMap_append, hdis, List.map_append, List.count_append, hstamp] at ha ⊢
  omega

end

end Dex
