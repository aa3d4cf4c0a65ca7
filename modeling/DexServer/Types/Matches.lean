import DexServer.Types.RawOrder
import DexServer.Types.Trade

/-!
# The check of a batch (`types/trade.go`, `types/engine.go`)
-/

namespace Dex

/-- `Trade.Validate`. -/
def Trade.validate (eth : Eth) (t : Trade) : Except String Unit := do
  require (t.taker ≠ 0) "Trade 'taker' parameter is required'"
  require (t.maker ≠ 0) "Trade 'maker' parameter is required"
  require (t.takerOrderHash ≠ 0) "Trade 'takerOrderHash' parameter is required"
  require (t.makerOrderHash ≠ 0) "Trade 'makerOrderHash' parameter is required"
  require (t.baseToken ≠ 0) "Trade 'baseToken' parameter is required"
  require (t.quoteToken ≠ 0) "Trade 'quoteToken' parameter is required"
  require (¬t.pricePoint ≤ 0) "Trade 'pricepoint' parameter should be positive"
  require (¬t.amount ≤ 0) "Trade 'amount' parameter should be positive"
  require (t.hash = computeHash eth t.makerOrderHash t.takerOrderHash) "Trade 'hash' is incorrect"

/-- `Order.Validate` of an order in a batch; it sets the hash. -/
def Order.validate (exchangeAddress : Address) (eth : Eth) (o : Order) : Except String Order :=
  (o.raw.validate exchangeAddress eth).map Prod.fst

/-- `Matches.Validate`: the batch, its orders with their hashes computed anew. -/
def Matches.validate (exchangeAddress : Address) (eth : Eth) (m : Matches) :
    Except String Matches := do
  require (m.trades ≠ []) "Matches should contain at least one trade"
  require (m.makerOrders ≠ []) "Matches should contain at least one makerOrder"
  m.trades.forM (Trade.validate eth)
  let makerOrders ← m.makerOrders.mapM (Order.validate exchangeAddress eth)
  let takerOrder ← m.takerOrder.validate exchangeAddress eth
  pure ⟨makerOrders, takerOrder, m.trades⟩

theorem Trade.validate_eq_ok {eth : Eth} {t : Trade} {u : Unit} : t.validate eth = .ok u ↔
    t.taker ≠ 0 ∧ t.maker ≠ 0 ∧ t.takerOrderHash ≠ 0 ∧ t.makerOrderHash ≠ 0 ∧ t.baseToken ≠ 0 ∧
      t.quoteToken ≠ 0 ∧ 0 < t.pricePoint ∧ 0 < t.amount ∧
      t.hash = computeHash eth t.makerOrderHash t.takerOrderHash := by
  unfold Trade.validate
  simp only [bind_eq_ok, require_eq_ok, Int.not_le, exists_const]

/-- A batch that passes, its orders being left as they are. -/
structure Matches.Acceptable (exchangeAddress : Address) (eth : Eth) (m : Matches) : Prop where
  nonempty : m.trades ≠ []
  length : m.makerOrders.length = m.trades.length
  trades : ∀ t ∈ m.trades, t.validate eth = .ok ()
  makerOrders : ∀ o ∈ m.makerOrders, o.Signed exchangeAddress eth
  takerOrder : m.takerOrder.Signed exchangeAddress eth

theorem Order.Signed.validate {exchangeAddress : Address} {eth : Eth} {o : Order}
    (h : o.Signed exchangeAddress eth) : o.validate exchangeAddress eth = .ok o := by
  obtain ⟨sig, h⟩ := h
  rw [Order.validate, h.validate]
  rfl

section
variable {α β ε : Type}

theorem mapM_eq_ok {f : α → Except ε β} {g : α → β} : ∀ {xs : List α},
    (∀ x ∈ xs, f x = .ok (g x)) → xs.mapM f = .ok (xs.map g)
  | [], _ => rfl
  | x :: xs, h => by
    rw [List.mapM_cons, h x (.head _), ok_bind, mapM_eq_ok fun y hy => h y (.tail _ hy)]
    rfl

theorem mapM_isOk {f : α → Except ε β} {xs : List α} :
    (∃ ys, xs.mapM f = .ok ys) ↔ ∀ x ∈ xs, ∃ y, f x = .ok y := by
  induction xs with
  | nil => exact ⟨fun _ _ h => absurd h List.not_mem_nil, fun _ => ⟨[], rfl⟩⟩
  | cons x xs ih =>
    simp only [List.mapM_cons, bind_eq_ok, List.forall_mem_cons, ← ih]
    constructor
    · rintro ⟨_, y, hy, ys, hys, -⟩
      exact ⟨⟨y, hy⟩, ys, hys⟩
    · rintro ⟨⟨y, hy⟩, ys, hys⟩
      exact ⟨_, y, hy, ys, hys, rfl⟩

theorem forM_eq_ok {f : α → Except ε Unit} {xs : List α} {u : Unit} :
    xs.forM f = .ok u ↔ ∀ x ∈ xs, f x = .ok () := by
  induction xs with
  | nil => exact ⟨fun _ _ h => absurd h List.not_mem_nil, fun _ => rfl⟩
  | cons x xs ih =>
    rw [List.forM, bind_eq_ok, List.forall_mem_cons, ← ih]
    constructor
    · rintro ⟨_, hx, hxs⟩
      exact ⟨hx, hxs⟩
    · rintro ⟨hx, hxs⟩
      exact ⟨_, hx, hxs⟩

end

theorem Matches.validate_isOk {exchangeAddress : Address} {eth : Eth} {m : Matches} :
    (∃ b, m.validate exchangeAddress eth = .ok b) ↔ m.trades ≠ [] ∧ m.makerOrders ≠ [] ∧
      (∀ t ∈ m.trades, t.validate eth = .ok ()) ∧
      (∀ o ∈ m.makerOrders, ∃ o', o.validate exchangeAddress eth = .ok o') ∧
      ∃ o', m.takerOrder.validate exchangeAddress eth = .ok o' := by
  unfold Matches.validate
  simp only [bind_eq_ok, require_eq_ok, forM_eq_ok, exists_const, ← mapM_isOk]
  constructor
  · rintro ⟨_, ht, hm, hts, os, hos, o, ho, -⟩
    exact ⟨ht, hm, hts, ⟨os, hos⟩, o, ho⟩
  · rintro ⟨ht, hm, hts, ⟨os, hos⟩, o, ho⟩
    exact ⟨_, ht, hm, hts, os, hos, o, ho, rfl⟩

theorem Matches.validate_trades {exchangeAddress : Address} {eth : Eth} {m b : Matches}
    (h : m.validate exchangeAddress eth = .ok b) : b.trades = m.trades := by
  unfold Matches.validate at h
  simp only [bind_eq_ok] at h
  obtain ⟨-, -, -, -, -, -, makers, -, taker, -, he⟩ := h
  cases he
  rfl

theorem Order.validate_at {exchangeAddress : Address} {eth : Eth} {o : Order}
    (h : ∃ o', o.validate exchangeAddress eth = .ok o') (t : Time) :
    ∃ o', Order.validate exchangeAddress eth { o with createdAt := t } = .ok o' := by
  obtain ⟨o', h⟩ := h
  unfold Order.validate at h ⊢
  cases hv : o.raw.validate exchangeAddress eth with
  | error e => rw [hv] at h; cases h
  | ok p =>
    have hat := ((RawOrder.validate_eq_ok hv).at t).validate
    exact ⟨_, congrArg (Except.map Prod.fst) hat⟩

theorem Matches.Acceptable.validate {exchangeAddress : Address} {eth : Eth} {m : Matches}
    (h : m.Acceptable exchangeAddress eth) : m.validate exchangeAddress eth = .ok m := by
  have hm : m.makerOrders ≠ [] := by
    intro hnil
    have hlen := h.length
    rw [hnil] at hlen
    exact h.nonempty (List.eq_nil_of_length_eq_zero hlen.symm)
  have hmakers : m.makerOrders.mapM (Order.validate exchangeAddress eth) = .ok m.makerOrders := by
    rw [mapM_eq_ok fun o ho => (h.makerOrders o ho).validate, List.map_id']
  have htrades : m.trades.forM (Trade.validate eth) = .ok () := forM_eq_ok.2 h.trades
  unfold Matches.validate
  simp only [require_pos h.nonempty, require_pos hm, htrades, hmakers,
    h.takerOrder.validate, ok_bind]
  rfl

end Dex
