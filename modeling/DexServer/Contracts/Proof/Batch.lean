import DexServer.Contracts.Exchange
import DexServer.Sample
import Mathlib.Data.List.OfFn

/-!
# The simulated call and the sent transaction

`CallBatchTrades` and `ExecuteBatchTrades` write the same arguments for matches that `Validate`
accepts, whose makers have the tokens of the taker and a trade each. Both loops append, at turn `i`,
what `Entry` says of match `i`: the loop lemma (`foldlM_append`) is one for both.
-/

namespace Dex

/-! ## One turn -/

/-- `e` is what is written for match `i`: the pointers that are read are set. -/
inductive RawMatches.Entry (m : RawMatches) (i : Nat) : SingleArgs → Prop
  | mk {mo taker : RawOrder} {t : RawTrade} {moSignature takerSignature : Signature}
      (hmaker : m.makerOrders[i]? = some (some mo)) (htaker : m.takerOrder = some taker)
      (htrade : m.trades[i]? = some (some t)) (hmo : mo.signature = some moSignature)
      (hto : taker.signature = some takerSignature) :
      Entry m i
        { orderValues := orderValues mo taker
          orderAddresses := #v[mo.userAddress, taker.userAddress, mo.baseToken, taker.quoteToken]
          amount := t.amount
          vValues := vValues moSignature takerSignature
          rsValues := rsValues moSignature takerSignature }

namespace RawMatches.Entry

variable {m : RawMatches} {i : Nat} {e : SingleArgs}

theorem executeStep (h : m.Entry i e) (args : BatchArgs) :
    m.executeStep args i = .ok (args.append e) := by
  cases h with
  | mk hmaker htaker htrade hmo hto =>
    simp [RawMatches.executeStep, indexed, hmaker, htrade, nonNil, htaker, hmo, hto, ok_bind, pure,
      Except.pure]

theorem tradeArgs (h : m.Entry 0 e) : m.tradeArgs = .ok e := by
  cases h with
  | mk hmaker htaker htrade hmo hto =>
    simp [RawMatches.tradeArgs, indexed, hmaker, htrade, nonNil, htaker, hmo, hto, ok_bind, pure,
      Except.pure]

theorem callStep (h : m.Entry i e) (args : BatchArgs)
    (htokens : ∀ taker mo, m.takerOrder = some taker → some mo ∈ m.makerOrders →
      mo.quoteToken = taker.quoteToken) :
    m.callStep args i = .ok (args.append e) := by
  cases h with
  | mk hmaker htaker htrade hmo hto =>
    have hquote := htokens _ _ htaker (List.mem_of_getElem? hmaker)
    simp [RawMatches.callStep, indexed, hmaker, htrade, nonNil, htaker, hmo, hto, ok_bind, pure,
      Except.pure, required, Except.mapError, hquote]

end RawMatches.Entry

/-! ## The loop -/

/-- The arguments of a batch, one entry for each match. -/
def BatchArgs.batch (es : List SingleArgs) : BatchArgs where
  orderValues := es.map (·.orderValues)
  orderAddresses := es.map (·.orderAddresses)
  amounts := es.map (·.amount)
  vValues := es.map (·.vValues)
  rsValues := es.map (·.rsValues)

theorem BatchArgs.batch_append (es : List SingleArgs) (e : SingleArgs) :
    (batch es).append e = batch (es ++ [e]) := by
  simp [batch, append]

theorem foldlM_append {step : BatchArgs → Nat → Except Err BatchArgs} {es : List SingleArgs}
    (h : ∀ args i e, es[i]? = some e → step args i = .ok (args.append e)) :
    (List.range es.length).foldlM step .empty = .ok (.batch es) := by
  -- after `n` turns the first `n` entries are written
  have hrun : ∀ n ≤ es.length, (List.range n).foldlM step .empty = .ok (.batch (es.take n)) := by
    intro n
    induction n with
    | zero =>
      intro _
      rfl
    | succ n ih =>
      intro hn
      have hget : es[n]? = some es[n] := List.getElem?_eq_getElem hn
      rw [List.range_succ, List.foldlM_append, ih (by omega), ok_bind, List.take_add_one, hget]
      simp [h _ n _ hget, BatchArgs.batch_append]
  simpa using hrun es.length (Nat.le_refl _)

/-! ## What `Validate` ensures -/

section
variable {x : Address} {eth : Eth} {m : RawMatches}

theorem mapError_eq_ok {α ε ε' : Type} {r : Except ε α} {f : ε → ε'} {a : α} :
    r.mapError f = .ok a ↔ r = .ok a := by
  cases r <;> simp [Except.mapError]

theorem nonNil_eq_ok {α : Type} {p : Option α} {a : α} : nonNil p = .ok a ↔ p = some a := by
  cases p <;> simp [nonNil]

theorem RawOrder.signature_of_validate {o : RawOrder} {v : Order × Signature}
    (h : o.validate x eth = .ok v) : o.signature = some v.2 := by
  obtain ⟨o', sig⟩ := v
  have hv := validate_eq_ok h
  have hraw : o.signature = o'.signature := congrArg RawOrder.signature hv.raw
  rw [hraw, hv.signed]

theorem RawMatches.pointers_of_validate {u : Unit} (h : m.validate x eth = .ok u) :
    (∃ taker sig, m.takerOrder = some taker ∧ taker.signature = some sig) ∧
      (∀ p ∈ m.makerOrders, ∃ mo sig, p = some mo ∧ mo.signature = some sig) ∧
      ∀ p ∈ m.trades, ∃ t, p = some t := by
  unfold RawMatches.validate at h
  simp only [bind_eq_ok, mapError_eq_ok, require_eq_ok, required_eq_ok, forM_eq_ok,
    nonNil_eq_ok] at h
  obtain ⟨-, -, -, -, taker, htaker, -, htrades, -, hmakers, v, hv, -⟩ := h
  refine ⟨⟨taker, v.2, htaker, RawOrder.signature_of_validate hv⟩, ?_, ?_⟩
  · intro p hp
    obtain ⟨mo, hmo, v, hv, -⟩ := hmakers p hp
    exact ⟨mo, v.2, hmo, RawOrder.signature_of_validate hv⟩
  · intro p hp
    obtain ⟨t, ht, -⟩ := htrades p hp
    exact ⟨t, ht⟩

theorem RawMatches.entry_of_validate {u : Unit} (h : m.validate x eth = .ok u)
    (hlen : m.makerOrders.length = m.trades.length) {i : Nat} (hi : i < m.makerOrders.length) :
    ∃ e, m.Entry i e := by
  obtain ⟨⟨taker, takerSignature, htaker, hto⟩, hmakers, htrades⟩ := pointers_of_validate h
  have hi' : i < m.trades.length := hlen ▸ hi
  obtain ⟨mo, moSignature, hget, hmo⟩ := hmakers _ (List.getElem_mem hi)
  obtain ⟨t, ht⟩ := htrades _ (List.getElem_mem hi')
  have hmaker : m.makerOrders[i]? = some (some mo) := by
    rw [List.getElem?_eq_getElem hi, hget]
  have htrade : m.trades[i]? = some (some t) := by
    rw [List.getElem?_eq_getElem hi', ht]
  exact ⟨_, .mk hmaker htaker htrade hmo hto⟩

theorem RawMatches.entries_of_validate {u : Unit} (h : m.validate x eth = .ok u)
    (hlen : m.makerOrders.length = m.trades.length) :
    ∃ es : List SingleArgs, es.length = m.makerOrders.length ∧ ∀ i e, es[i]? = some e →
    m.Entry i e := by
  choose entry hentry using fun (i : Nat) (hi : i < m.makerOrders.length) =>
    entry_of_validate h hlen hi
  refine ⟨List.ofFn fun i => entry i i.2, List.length_ofFn, ?_⟩
  intro i e hget
  rw [List.getElem?_ofFn] at hget
  split at hget
  · rename_i hi
    cases hget
    exact hentry i hi
  · cases hget

/-- **The simulated call and the sent transaction are the same call**: there is one entry for each
maker, in order, and both loops write these entries. The data whose gas is estimated is the data
that is sent. A batch of one is what `Trade` sends. -/
theorem simulated_call_eq_sent {taker : RawOrder} (h : m.validate x eth = .ok ())
    (hlen : m.makerOrders.length = m.trades.length) (htaker : m.takerOrder = some taker)
    (htokens : ∀ mo, some mo ∈ m.makerOrders →
      mo.baseToken = taker.baseToken ∧ mo.quoteToken = taker.quoteToken) :
    ∃ es : List SingleArgs, es.length = m.makerOrders.length ∧
      (∀ i e, es[i]? = some e → m.Entry i e) ∧
      m.callArgs = .ok (.batch es) ∧ m.executeArgs = .ok (.batch es) ∧
      (m.makerOrders.length = 1 → ∃ e, es = [e] ∧ m.tradeArgs = .ok e) ∧
      ∀ ex : Exchange,
        ex.callBatchTrades m = (do let data ← ex.pack (.batch es); ex.gasLimit data) ∧
        ex.executeBatchTrades m = (do let data ← ex.pack (.batch es); ex.transact data) := by
  obtain ⟨es, hes, hentries⟩ := RawMatches.entries_of_validate h hlen
  have hquote : ∀ taker mo, m.takerOrder = some taker → some mo ∈ m.makerOrders →
      mo.quoteToken = taker.quoteToken := by
    intro taker' mo htaker' hmo
    rw [htaker] at htaker'
    cases htaker'
    exact (htokens mo hmo).2
  have hcall : m.callArgs = .ok (.batch es) := by
    unfold RawMatches.callArgs
    rw [← hes]
    apply foldlM_append
    intro args i e he
    exact (hentries i e he).callStep args hquote
  have hexecute : m.executeArgs = .ok (.batch es) := by
    unfold RawMatches.executeArgs
    rw [← hes]
    apply foldlM_append
    intro args i e he
    exact (hentries i e he).executeStep args
  refine ⟨es, hes, hentries, hcall, hexecute, ?_, ?_⟩
  · intro hone
    rw [hone] at hes
    obtain ⟨e, rfl⟩ := List.length_eq_one_iff.1 hes
    exact ⟨e, rfl, (hentries 0 e rfl).tradeArgs⟩
  · intro ex
    rw [Exchange.callBatchTrades, Exchange.executeBatchTrades, hcall, hexecute, ok_bind, ok_bind]
    exact ⟨rfl, rfl⟩

end

/-- A trade of `ZRX/WETH` with the maker order of this hash. -/
def RawTrade.sampleWith (maker : Hash) (amount : Int) : RawTrade where
  taker := 1
  maker := 1
  baseToken := 3
  quoteToken := 4
  makerOrderHash := maker
  takerOrderHash := 9
  hash := Trade.computeHash .sample maker 9
  txHash := 0
  pairName := "ZRX/WETH"
  createdAt := 0
  pricePoint := some 10
  status := "PENDING"
  amount := some amount

/-- Two makers and a taker of `ZRX/WETH`, and their trades. -/
def RawMatches.sample : RawMatches where
  makerOrders := [some (.sample 1 .SELL 10 5), some (.sample 3 .SELL 10 4)]
  takerOrder := some (.sample 2 .BUY 10 7)
  trades := [some (.sampleWith 8 5), some (.sampleWith 7 2)]

theorem simulated_call_eq_sent_two :
    ∃ e₁ e₂ : SingleArgs, RawMatches.sample.Entry 0 e₁ ∧ RawMatches.sample.Entry 1 e₂ ∧
      RawMatches.sample.callArgs = .ok (.batch [e₁, e₂]) ∧
      RawMatches.sample.executeArgs = .ok (.batch [e₁, e₂]) := by
  have hvalid : RawMatches.sample.validate 2 Eth.sample = .ok () := by decide +kernel
  have htaker : RawMatches.sample.takerOrder = some (.sample 2 .BUY 10 7) := rfl
  obtain ⟨es, hes, hentries, hcall, hexecute, -⟩ := simulated_call_eq_sent hvalid rfl htaker (by
    intro mo hmo
    simp only [RawMatches.sample, List.mem_cons, Option.some.injEq, List.not_mem_nil,
      or_false] at hmo
    rcases hmo with rfl | rfl <;> exact ⟨rfl, rfl⟩)
  obtain ⟨e₁, e₂, rfl⟩ := List.length_eq_two.1 hes
  exact ⟨e₁, e₂, hentries 0 e₁ rfl, hentries 1 e₂ rfl, hcall, hexecute⟩

end Dex
