import DexServer.Endpoints.Pair
import DexServer.Endpoints.Proof.Reply
import DexServer.Services.Proof.Market

/-!
# No pair that is created can be traded

The decoder does not set the fees of a pair, `Create` does not take them from the quote token, and
the store keeps them as nil: `NewOrder` panics for every order that it has validated.

* `handleCreatePair_created`: what the handler hands to `Create` has no fees.
* `newOrderWithoutFees_panics`: what `NewOrder` does with a valid order for a pair without fees.
-/

namespace Dex

open Lib

/-- A pair that is created was stored by `Create`, without fees. -/
theorem handleCreatePair_created {c : Codec} {calls : PairCalls} {body : Option Json}
    {m m' : Market} {p : PairValue} (h : handleCreatePair c calls body m = (.ok (.created p), m')) :
    ∃ p₀ : PairValue, p₀.makeFee = none ∧ p₀.takeFee = none ∧
    m.create c calls p₀ = (.ok p, m') := by
  unfold handleCreatePair at h
  split at h
  · cases h
  · cases h
  · cases h
  · rename_i p₀ hdecode
    obtain ⟨b, -, hb⟩ := Option.map_eq_some_iff.1 hdecode
    have hnumbers := PairValue.numbers_unmarshalJSON hb
    simp only [PairValue.numbers, PairValue.zero, Prod.mk.injEq] at hnumbers
    obtain ⟨-, -, -, hmake, htake⟩ := hnumbers
    split at h
    · cases h
    · split at h
      · rename_i err _ _
        cases err <;> cases h
      · rename_i hcreate
        cases h
        exact ⟨p₀, hmake, htake, hcreate⟩

theorem PairStore.newOrderWithoutFees_panics {s : Services} {r : RawOrder} {env : Env} {w : World}
    (hvalid : (r.validate s.exchangeAddress env.eth).isOk) (hcall : env.fails w.calls = false) :
    (PairStore.newOrderWithoutFees s r env w).1 = .error (.panic "nil pointer dereference") := by
  have hv : ∃ o sig, r.Valid s.exchangeAddress env.eth o sig := by
    cases hv : r.validate s.exchangeAddress env.eth with
    | error e =>
      rw [hv] at hvalid
      cases hvalid
    | ok v => exact ⟨v.1, v.2, RawOrder.validate_eq_ok hv⟩
  refine Prog.wp_result (P := fun x => x.1 = .error (.panic "nil pointer dereference"))
    (newOrderWithoutFees_wp s r env w) (fun _ _ h => h.elim) fun e w' h => ?_
  rcases h with ⟨-, hno⟩ | ⟨rfl, -⟩
  · exact absurd ⟨hv, hcall⟩ hno
  · rfl

/-- A pair without fees is not traded. -/
theorem PairStore.newOrder_panics {st : PairStore} {s : Services} {r : RawOrder} {env : Env}
    {w : World} {p : RawPair} (hp : st.getByTokenAddress r.baseToken r.quoteToken = some p)
    (hfee : p.makeFee = none) (hvalid : (r.validate s.exchangeAddress env.eth).isOk)
    (hcall : env.fails w.calls = false) :
    (st.newOrder s r env w).1 = .error (.panic "nil pointer dereference") := by
  have hnone : p.pair? = none := RawPair.pair?_eq_none.2 (.inl hfee)
  unfold newOrder
  simp only [hp, hnone]
  exact newOrderWithoutFees_panics hvalid hcall

section
variable {env : Env} (heth : env.eth.ReadsBack) (hhex : ∀ a, isHexAddress (env.eth.hex a) = true)
    {m m' : Market}
  (hm : m.Written env.eth) {calls : PairCalls} {body : Option Json} {p : PairValue}
  (h : handleCreatePair env.codec calls body m = (.ok (.created p), m'))
include heth hhex hm h

theorem created_pair_read :
    ∃ p', m'.getByTokenAddress env.eth p.baseTokenAddress p.quoteTokenAddress = some p' ∧
      (m'.store env.codec).getByTokenAddress p.baseTokenAddress p.quoteTokenAddress = some p'.raw ∧
      p'.makeFee = none ∧ p'.takeFee = none := by
  obtain ⟨p₀, hmake, htake, hcreate⟩ := handleCreatePair_created h
  obtain ⟨hstore, hm'⟩ := Market.create_store (c := env.codec) heth hhex hm calls p₀
  rw [hcreate] at hstore hm'
  obtain ⟨hfind, hfee, hfee'⟩ := PairStore.getByTokenAddress_create hstore
  have hread := Market.getByTokenAddress_store
    (c := env.codec) heth hm' p.baseTokenAddress p.quoteTokenAddress
  obtain ⟨p', hp', hraw⟩ := Option.map_eq_some_iff.1 (hread.symm.trans hfind)
  refine ⟨p', hp', ?_, ?_, ?_⟩
  · rw [hraw]
    exact hfind
  · exact (congrArg RawPair.makeFee hraw).trans (hfee.trans hmake)
  · exact (congrArg RawPair.takeFee hraw).trans (hfee'.trans htake)

/-- Whatever payload a pair is created from, it is read back without fees, and every order for it
that `NewOrder` validates ends in a nil dereference. -/
theorem created_pair_never_tradable :
    ∃ p', m'.getByTokenAddress env.eth p.baseTokenAddress p.quoteTokenAddress = some p' ∧
      p'.makeFee = none ∧ p'.takeFee = none ∧
      ∀ (s : Services) (r : RawOrder) (w : World), r.baseToken = p.baseTokenAddress →
        r.quoteToken = p.quoteTokenAddress → (r.validate s.exchangeAddress env.eth).isOk →
        env.fails w.calls = false →
        ((m'.store env.codec).newOrder s r env w).1 =
          .error (.panic "nil pointer dereference") := by
  obtain ⟨p', hp', hstored, hmake, htake⟩ := created_pair_read heth hhex hm h
  refine ⟨p', hp', hmake, htake, fun s r w hb hq hvalid hcall => ?_⟩
  rw [← hb, ← hq] at hstored
  exact PairStore.newOrder_panics hstored hmake hvalid hcall

end

/-! ## A pair that is created -/

/-- Addresses as `common` writes them, all in lower case. -/
def Eth.sampleHex : Eth :=
  { Eth.sample with
    hex := fun a => "0x" ++ hexText (beWord 20 a.toNat)
    marshalAddress := fun a => "0x" ++ hexText (beWord 20 a.toNat)
    hexToAddress := fun s => BitVec.ofNat 160 (beNat ((hexChars (s.toList.drop 2)).getD [])) }

theorem toList_sampleHex (a : Address) :
    (Eth.sampleHex.hex a).toList = '0' :: 'x' :: (hexText (beWord 20 a.toNat)).toList :=
  String.toList_append

theorem Eth.sampleHex_readsBack : Eth.sampleHex.ReadsBack := by
  have hread : ∀ a : Address, Eth.sampleHex.hexToAddress (Eth.sampleHex.hex a) = a := by
    intro a
    have hbytes : hexChars (hexText (beWord 20 a.toNat)).toList = some (beWord 20 a.toNat) :=
      hexBytes_hexText _
    show BitVec.ofNat 160 (beNat ((hexChars ((Eth.sampleHex.hex a).toList.drop 2)).getD [])) = a
    rw [toList_sampleHex, List.drop_succ_cons, List.drop_succ_cons, List.drop_zero, hbytes,
      Option.getD_some, beNat_beWord, Nat.mod_eq_of_lt (show a.toNat < 256 ^ 20 from a.isLt),
      BitVec.ofNat_toNat, BitVec.setWidth_eq]
  exact ⟨hread, hread, Eth.sample_readsBack.hashHex, Eth.sample_readsBack.marshalHash⟩

theorem Eth.isHexAddress_sampleHex (a : Address) : isHexAddress (Eth.sampleHex.hex a) = true := by
  have hdigit : ∀ n < 16, (n.digitChar.isDigit || ('a' ≤ n.digitChar && n.digitChar ≤ 'f') ||
      ('A' ≤ n.digitChar && n.digitChar ≤ 'F')) = true := by decide
  have hlen : (hexText (beWord 20 a.toNat)).toList.length = 40 := by
    simp [hexText, hexPair]
  unfold isHexAddress
  rw [toList_sampleHex]
  simp only [hlen, decide_true, Bool.true_and, List.all_eq_true]
  intro ch hch
  simp only [hexText, String.toList_ofList, List.mem_flatMap, hexPair, List.mem_cons,
    List.not_mem_nil, or_false] at hch
  obtain ⟨b, -, rfl | rfl⟩ := hch
  · exact hdigit _ (by have := b.isLt; omega)
  · exact hdigit _ (Nat.mod_lt _ (by decide))

/-- The tokens `ZRX` and `WETH`, the second with fees. -/
def Market.sampleTokens : List TokenValue :=
  let zrx : TokenValue := ⟨[], "", "ZRX", 0, ⟨"", none⟩, 3, 18, true, true, false, none, none, 0, 0⟩
  [zrx, { zrx with
    symbol := "WETH", contractAddress := 4, quote := true, makeFee := some 1, takeFee := some 2 }]

def Env.sampleHex : Env := { Env.sample .stored with eth := .sampleHex }

theorem Env.sampleHex_readsBack : Env.sampleHex.eth.ReadsBack := Eth.sampleHex_readsBack

theorem Env.isHexAddress_sampleHex : ∀ a, isHexAddress (Env.sampleHex.eth.hex a) = true :=
  Eth.isHexAddress_sampleHex

def Market.sample : Market := ⟨[], Market.sampleTokens.map (·.getBSON Eth.sampleHex)⟩

theorem Market.sample_written : Market.sample.Written Eth.sampleHex := by
  refine ⟨fun r hr => absurd hr List.not_mem_nil, fun r hr => ?_⟩
  obtain ⟨t, -, ht⟩ := List.mem_map.1 hr
  exact ⟨t, ht.symm⟩

/-- A payload with the two addresses and symbols. -/
def samplePayload : Json :=
  .obj [("baseTokenAddress", .str (Eth.sampleHex.hex 3)),
    ("quoteTokenAddress", .str (Eth.sampleHex.hex 4)),
    ("baseTokenSymbol", .str "ZRX"), ("quoteTokenSymbol", .str "WETH")]

def PairCalls.sample : PairCalls := ⟨fun _ => false, [], 0, 0⟩

theorem Market.store_sample : Market.sample.store
    Env.sampleHex.codec = ⟨[], [⟨"ZRX", 3, 18, false⟩, ⟨"WETH", 4, 18, true⟩]⟩ := by
  have heth : ∀ a, Env.sampleHex.codec.eth.hexToAddress (Eth.sampleHex.hex a) = a :=
    Eth.sampleHex_readsBack.hex
  simp [Market.store, Market.sample, Market.sampleTokens, TokenRecord.setBSON, TokenValue.getBSON,
    TokenValue.token, Eth.isHexAddress_sampleHex, heth]

theorem handleCreatePair_sample :
    ∃ p m', handleCreatePair Env.sampleHex.codec .sample (some samplePayload) .sample =
      (.ok (.created p), m') ∧ p.baseTokenAddress = 3 ∧ p.quoteTokenAddress = 4 := by
  have hread : ∀ a, Env.sampleHex.codec.eth.hexToAddress (Eth.sampleHex.hex a) = a :=
    Eth.sampleHex_readsBack.hex
  let p₀ : PairValue := { PairValue.zero with
    baseTokenAddress := 3, quoteTokenAddress := 4, baseTokenSymbol := "ZRX",
      quoteTokenSymbol := "WETH" }
  have hdecode : PairValue.zero.unmarshalJSON Env.sampleHex.codec.eth samplePayload = .ok p₀ := by
    have h : PairValue.zero.unmarshalJSON Env.sampleHex.codec.eth samplePayload =
        .ok { p₀ with
          baseTokenAddress := Env.sampleHex.codec.eth.hexToAddress (Eth.sampleHex.hex 3)
          quoteTokenAddress := Env.sampleHex.codec.eth.hexToAddress (Eth.sampleHex.hex 4) } := rfl
    rw [h, hread, hread]
  have hvalid : p₀.validate = .ok () := rfl
  -- `Create` is run on what is read of the records
  have hstore := (Market.create_store (c := Env.sampleHex.codec) Eth.sampleHex_readsBack
    Eth.isHexAddress_sampleHex Market.sample_written .sample p₀).1
  have hrun : ((Market.sample.store Env.sampleHex.codec).create PairCalls.sample.fails p₀.raw).1 =
      .ok ⟨"ZRX", 3, 18, "WETH", 4, 18, none, none⟩ := by
    rw [Market.store_sample]
    rfl
  rw [hstore] at hrun
  unfold handleCreatePair
  rw [Option.map_some, hdecode]
  simp only [hvalid]
  cases hcreate : Market.sample.create Env.sampleHex.codec .sample p₀ with
  | mk result m' =>
    rw [hcreate] at hrun
    cases result with
    | error err => cases hrun
    | ok p =>
      have hraw : p.raw = ⟨"ZRX", 3, 18, "WETH", 4, 18, none, none⟩ := Except.ok.inj hrun
      exact ⟨p, m', rfl, congrArg RawPair.baseTokenAddress hraw,
        congrArg RawPair.quoteTokenAddress hraw⟩

theorem RawOrder.validate_sampleHex :
    ((RawOrder.sample 1 .SELL 5 10).validate Services.sample.exchangeAddress
      Env.sampleHex.eth).isOk := by
  decide +kernel

/-- A SELL order on the pair that was just created, valid and signed, ends in a nil dereference. -/
theorem created_pair_not_tradable :
    ∃ p m', handleCreatePair Env.sampleHex.codec .sample (some samplePayload) .sample =
      (.ok (.created p), m') ∧
      (∃ p', m'.getByTokenAddress Eth.sampleHex 3 4 = some p' ∧ p'.makeFee = none ∧
        p'.takeFee = none) ∧
      ((m'.store Env.sampleHex.codec).newOrder .sample
        (.sample 1 .SELL 5 10) Env.sampleHex .empty).1 =
        .error (.panic "nil pointer dereference") := by
  obtain ⟨p, m', h, hb, hq⟩ := handleCreatePair_sample
  obtain ⟨p', hp', hstored, hmake, htake⟩ :=
    created_pair_read Env.sampleHex_readsBack Env.isHexAddress_sampleHex Market.sample_written h
  rw [hb, hq] at hp' hstored
  exact ⟨p, m', h, ⟨p', hp', hmake, htake⟩,
    PairStore.newOrder_panics hstored hmake RawOrder.validate_sampleHex rfl⟩

theorem created_pair_never_tradable_sample :
    ∃ p m', handleCreatePair Env.sampleHex.codec .sample (some samplePayload) .sample =
      (.ok (.created p), m') ∧
      ((m'.store Env.sampleHex.codec).newOrder .sample
        (.sample 1 .SELL 5 10) Env.sampleHex .empty).1 =
        .error (.panic "nil pointer dereference") := by
  obtain ⟨p, m', h, hb, hq⟩ := handleCreatePair_sample
  obtain ⟨p', -, -, -, horders⟩ :=
    created_pair_never_tradable Env.sampleHex_readsBack Env.isHexAddress_sampleHex
      Market.sample_written h
  exact ⟨p, m', h, horders .sample (.sample 1 .SELL 5 10) .empty hb.symm hq.symm
    RawOrder.validate_sampleHex rfl⟩

end Dex
