import DexServer.Services.Market
import Mathlib.Data.List.Find

/-!
# The pairs that are read are those that were created

A `Market` whose records the server has written behaves as the `PairStore` that is read of it:

* `Market.create_store`: `PairService.Create` on records does what it does on pairs.
* `Market.getByTokenAddress_store`: the pair of two tokens is the one that is read.
-/

namespace Dex

theorem PairValue.setBSON_getBSON {eth : Eth} (heth : eth.ReadsBack) (p : PairValue) :
    (p.getBSON eth).setBSON eth =
      { p with createdAt := p.createdAt.stored, updatedAt := p.updatedAt.stored } := by
  simp only [PairValue.getBSON, PairRecord.setBSON, heth.hex, setString_bigString]

namespace Market

/-- Every record was written by the server. -/
structure Written (eth : Eth) (m : Market) : Prop where
  pairs : ∀ r ∈ m.pairs, ∃ p : PairValue, r = p.getBSON eth
  tokens : ∀ r ∈ m.tokens, ∃ t : TokenValue, r = t.getBSON eth

section
variable {c : Codec} (heth : c.eth.ReadsBack) {m : Market} (hm : m.Written c.eth)
include heth hm

theorem getByTokenAddress_store (b q : Address) :
    (m.store c).getByTokenAddress b q = (m.getByTokenAddress c.eth b q).map PairValue.raw := by
  unfold PairStore.getByTokenAddress Market.getByTokenAddress Market.store
  rw [List.find?_map, Option.map_map]
  congr 1
  refine List.find?_congr fun r hr => ?_
  obtain ⟨p, rfl⟩ := hm.pairs r hr
  have hhex : ∀ a a' : Address, c.eth.hex a = c.eth.hex a' ↔ a = a' := fun a a' =>
    ⟨hex_injective heth, fun h => h ▸ rfl⟩
  simp [PairRecord.setBSON, RawPair.HasTokens, PairValue.raw, PairValue.getBSON, heth.hex, hhex]

theorem getByAddress_store (hhex : ∀ a, isHexAddress (c.eth.hex a) = true) (a : Address) :
    (m.store c).getByAddress a = (m.getByAddress c a).map TokenValue.token := by
  unfold PairStore.getByAddress Market.getByAddress Market.store
  rw [List.find?_map, Option.map_map]
  congr 1
  refine List.find?_congr fun r hr => ?_
  obtain ⟨t, rfl⟩ := hm.tokens r hr
  have hinj : ∀ a a' : Address, c.eth.hex a = c.eth.hex a' ↔ a = a' := fun a a' =>
    ⟨hex_injective heth, fun h => h ▸ rfl⟩
  simp [TokenRecord.setBSON, TokenValue.token, TokenValue.getBSON, hhex, heth.hex, hinj]

end

theorem Written.createPair {eth : Eth} {m : Market} (hm : m.Written eth) (calls : PairCalls)
    (p : PairValue) : (m.createPair eth calls p).2.Written eth := by
  refine ⟨fun r hr => ?_, hm.tokens⟩
  rcases List.mem_append.1 hr with hr | hr
  · exact hm.pairs r hr
  · exact ⟨_, List.mem_singleton.1 hr⟩

theorem store_createPair {c : Codec} (heth : c.eth.ReadsBack) (calls : PairCalls) (p : PairValue)
    (m : Market) :
    (m.createPair c.eth calls p).2.store c =
      { m.store c with pairs := (m.store c).pairs ++ [p.raw] } := by
  simp [createPair, store, PairValue.setBSON_getBSON heth, PairValue.raw]

/-- `PairService.Create` on records does what it does on pairs, and writes a record. -/
theorem create_store {c : Codec} (heth : c.eth.ReadsBack)
    (hhex : ∀ a, isHexAddress (c.eth.hex a) = true) {m : Market} (hm : m.Written c.eth)
    (calls : PairCalls) (p : PairValue) : (m.store c).create calls.fails p.raw =
        ((m.create c calls p).1.map PairValue.raw, (m.create c calls p).2.store c) ∧
      (m.create c calls p).2.Written c.eth := by
  have hbase : p.raw.baseTokenAddress = p.baseTokenAddress := rfl
  have hquote : p.raw.quoteTokenAddress = p.quoteTokenAddress := rfl
  unfold PairStore.create Market.create
  rw [hbase, hquote, getByTokenAddress_store heth hm, getByAddress_store heth hm hhex,
    getByAddress_store heth hm hhex]
  split
  · exact ⟨rfl, hm⟩
  · cases m.getByTokenAddress c.eth p.baseTokenAddress p.quoteTokenAddress with
    | some _ => exact ⟨rfl, hm⟩
    | none =>
      dsimp only [Option.map_none]
      split
      · exact ⟨rfl, hm⟩
      · cases m.getByAddress c p.baseTokenAddress with
        | none => exact ⟨rfl, hm⟩
        | some bt =>
          dsimp only [Option.map_some]
          split
          · exact ⟨rfl, hm⟩
          · cases m.getByAddress c p.quoteTokenAddress with
            | none => exact ⟨rfl, hm⟩
            | some st =>
              have htoken : st.token.quote = st.quote := rfl
              dsimp only [Option.map_some]
              rw [htoken]
              split
              · exact ⟨rfl, hm⟩
              · split
                · exact ⟨rfl, hm⟩
                · refine ⟨?_, hm.createPair calls _⟩
                  rw [store_createPair heth]
                  rfl

end Market

end Dex
