import DexServer.Engine.Engine
import DexServer.Services.Order

/-!
# Pairs and order books (`services/pair.go`, `engine/engine.go`)

`NewEngine` makes an order book for each pair that is stored when the server starts.
`PairService.Create` stores further pairs, with which `OrderService.NewOrder` accepts orders; the
engine is not told.

A pair may be created without fees: its fees are then nil whenever it is read, and `NewOrder`
dereferences them.
-/

namespace Dex

open Lib

/-- `Token`; the fields nothing here reads are left out. -/
structure Token where
  symbol : String
  contractAddress : Address
  decimals : Nat
  quote : Bool
  deriving DecidableEq, Repr

/-- `Pair` as it is stored. -/
structure RawPair where
  baseTokenSymbol : String
  baseTokenAddress : Address
  baseTokenDecimals : Nat
  quoteTokenSymbol : String
  quoteTokenAddress : Address
  quoteTokenDecimals : Nat
  makeFee : Option Int
  takeFee : Option Int
  deriving DecidableEq, Repr

namespace RawPair

def name (p : RawPair) : String := p.baseTokenSymbol ++ "/" ++ p.quoteTokenSymbol

def code (eth : Eth) (p : RawPair) : String :=
  p.baseTokenSymbol ++ "/" ++ p.quoteTokenSymbol ++ "::" ++ eth.hex p.baseTokenAddress ++ "::" ++
    eth.hex p.quoteTokenAddress

/-- The pair, if its fees are set. -/
def pair? (p : RawPair) : Option Pair := do
  let makeFee ← p.makeFee
  let takeFee ← p.takeFee
  pure {
    baseTokenSymbol := p.baseTokenSymbol
    baseTokenAddress := p.baseTokenAddress
    baseTokenDecimals := p.baseTokenDecimals
    quoteTokenSymbol := p.quoteTokenSymbol
    quoteTokenAddress := p.quoteTokenAddress
    makeFee := makeFee
    takeFee := takeFee }

theorem pair?_eq_none {p : RawPair} : p.pair? = none ↔ p.makeFee = none ∨ p.takeFee = none := by
  unfold pair?
  cases p.makeFee <;> cases p.takeFee <;> simp

def HasTokens (p : RawPair) (baseToken quoteToken : Address) : Prop :=
  p.baseTokenAddress = baseToken ∧ p.quoteTokenAddress = quoteToken

instance (p : RawPair) (b q : Address) : Decidable (p.HasTokens b q) :=
  inferInstanceAs (Decidable (_ ∧ _))

end RawPair

/-- `NewEngine`: an order book for every pair that is stored. -/
def Engine.new (eth : Eth) (pairs : List RawPair) : Engine := ⟨pairs.map (·.code eth)⟩

/-- The errors of `PairService.Create`. -/
inductive PairError
  | store
  | pairExists
  | baseTokenNotFound
  | quoteTokenNotFound
  | quoteTokenInvalid

/-- The collections `pairs` and `tokens`. -/
structure PairStore where
  pairs : List RawPair
  tokens : List Token

namespace PairStore

/-- `PairDao.GetByTokenAddress`. -/
def getByTokenAddress (st : PairStore) (baseToken quoteToken : Address) : Option RawPair :=
  st.pairs.find? (·.HasTokens baseToken quoteToken)

/-- `TokenDao.GetByAddress`. -/
def getByAddress (st : PairStore) (a : Address) : Option Token :=
  st.tokens.find? (·.contractAddress = a)

/-- The pair with what is stored of its tokens. -/
def filled (pair : RawPair) (bt qt : Token) : RawPair :=
  { pair with
    quoteTokenSymbol := qt.symbol
    quoteTokenAddress := qt.contractAddress
    quoteTokenDecimals := qt.decimals
    baseTokenSymbol := bt.symbol
    baseTokenAddress := bt.contractAddress
    baseTokenDecimals := bt.decimals }

/-- `PairService.Create`; the `n`-th of its four calls to the store may fail. -/
def create (fails : Nat → Bool) (pair : RawPair) (st : PairStore) :
    Except PairError RawPair × PairStore :=
  if fails 0 then (.error .store, st)
  else match st.getByTokenAddress pair.baseTokenAddress pair.quoteTokenAddress with
  | some _ => (.error .pairExists, st)
  | none =>
    if fails 1 then (.error .store, st)
    else match st.getByAddress pair.baseTokenAddress with
    | none => (.error .baseTokenNotFound, st)
    | some bt =>
      if fails 2 then (.error .store, st)
      else match st.getByAddress pair.quoteTokenAddress with
      | none => (.error .quoteTokenNotFound, st)
      | some qt =>
        if ¬qt.quote then (.error .quoteTokenInvalid, st)
        else if fails 3 then (.error .store, st)
        else (.ok (filled pair bt qt), { st with pairs := st.pairs ++ [filled pair bt qt] })

/-- `NewOrder` with a pair without fees: `MinQuoteAmount` dereferences nil. -/
def newOrderWithoutFees (s : Services) (r : RawOrder) : M Unit := do
  let env ← Prog.ask
  let (o, signature) ← checked (r.validate s.exchangeAddress env.eth)
  let _ ← checked ((o.verifySignature env.eth signature).mapError fun _ => "Invalid Signature")
  call fun _ _ w => (.ok (), w)
  Prog.throw (.panic "nil pointer dereference")

/-- `OrderService.NewOrder`, with the pairs that are stored. -/
def newOrder (st : PairStore) (s : Services) (r : RawOrder) : M Unit :=
  match st.getByTokenAddress r.baseToken r.quoteToken with
  | none => Services.newOrder { s with pairs := [] } r
  | some p =>
    match p.pair? with
    | some pair => Services.newOrder { s with pairs := [pair] } r
    | none => newOrderWithoutFees s r

theorem newOrderWithoutFees_quiet (s : Services) (r : RawOrder) :
    Quiet (newOrderWithoutFees s r) := by
  have hchecked : ∀ {α : Type} (x : Except String α), Quiet (checked x) :=
    fun _ _ w => ⟨w.calls, rfl⟩
  refine Quiet.bind (fun _ w => ⟨w.calls, rfl⟩) fun env => ?_
  refine (hchecked _).bind fun v => (hchecked _).bind fun _ => ?_
  exact (Quiet.query _).bind fun _ => .throw _

/-! ## What is created -/

/-- A call of `Create`. -/
structure CreateOp where
  pair : RawPair
  fails : Nat → Bool

def step (st : PairStore) (op : CreateOp) : PairStore := (st.create op.fails op.pair).2

/-- Nothing is stored, or a pair of two tokens that had none, with the fees that `Create` was called
with. -/
theorem create_cases (fails : Nat → Bool) (pair : RawPair) (st : PairStore) :
    (∃ err, st.create fails pair = (.error err, st)) ∨
      ∃ p, st.create fails pair = (.ok p, { st with pairs := st.pairs ++ [p] }) ∧
        st.getByTokenAddress p.baseTokenAddress p.quoteTokenAddress = none ∧
        p.makeFee = pair.makeFee ∧ p.takeFee = pair.takeFee := by
  unfold create
  split
  · exact .inl ⟨_, rfl⟩
  · split
    · exact .inl ⟨_, rfl⟩
    · rename_i hnone
      split
      · exact .inl ⟨_, rfl⟩
      · split
        · exact .inl ⟨_, rfl⟩
        · rename_i bt hbt
          split
          · exact .inl ⟨_, rfl⟩
          · split
            · exact .inl ⟨_, rfl⟩
            · rename_i qt hqt
              have hb : bt.contractAddress = pair.baseTokenAddress := by
                simpa using List.find?_some hbt
              have hq : qt.contractAddress = pair.quoteTokenAddress := by
                simpa using List.find?_some hqt
              split
              · exact .inl ⟨_, rfl⟩
              · split
                · exact .inl ⟨_, rfl⟩
                · refine .inr ⟨filled pair bt qt, rfl, ?_, rfl, rfl⟩
                  show st.getByTokenAddress bt.contractAddress qt.contractAddress = none
                  rw [hb, hq, hnone]

theorem getByTokenAddress_create {fails : Nat → Bool} {pair p : RawPair} {st st' : PairStore}
    (h : st.create fails pair = (.ok p, st')) :
    st'.getByTokenAddress p.baseTokenAddress p.quoteTokenAddress = some p ∧
      p.makeFee = pair.makeFee ∧ p.takeFee = pair.takeFee := by
  rcases create_cases fails pair st with ⟨err, herr⟩ | ⟨p', hp', hnone, hmake, htake⟩
  · rw [herr] at h
    cases h
  · rw [hp'] at h
    cases h
    refine ⟨?_, hmake, htake⟩
    unfold getByTokenAddress at hnone ⊢
    rw [List.find?_append, hnone, Option.none_or]
    simp [RawPair.HasTokens]

end PairStore

end Dex
