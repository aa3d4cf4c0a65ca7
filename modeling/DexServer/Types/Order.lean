import DexServer.Types.Crypto

/-!
# Orders (`types/order.go`)

`Side` and `Status` are strings in the source: the ones it compares with have a constructor, every
other string (a client can send any) is `other`, which cannot hold one of the named strings.

`Order` is the order the engine, the store and the queues hold: its numbers are set. An order as
a client sends it, where they may be missing, is `RawOrder` (`Types/RawOrder.lean`).
-/

namespace Dex

/-- An instant (`time.Time`). -/
abbrev Time := Int

/-- `Order.Side`. -/
inductive Side
  | BUY
  | SELL
  | other (s : String) (h : s ≠ "BUY" ∧ s ≠ "SELL")
  deriving DecidableEq, Repr

/-- The order statuses the source writes or compares with. -/
def statusNames : List String :=
  ["OPEN", "PARTIAL_FILLED", "FILLED", "CANCELLED", "INVALIDATED", "ERROR"]

/-- `Order.Status`. -/
inductive Status
  | OPEN
  | PARTIAL_FILLED
  | FILLED
  | CANCELLED
  | INVALIDATED
  | ERROR
  | other (s : String) (h : s ∉ statusNames)
  deriving DecidableEq, Repr

/-- An order. `ID` and `UpdatedAt` are left out: nothing modelled reads them. -/
structure Order where
  userAddress : Address
  exchangeAddress : Address
  baseToken : Address
  quoteToken : Address
  status : Status
  side : Side
  hash : Hash
  signature : Option Signature
  pricePoint : Int
  amount : Int
  filledAmount : Int
  nonce : Int
  makeFee : Int
  takeFee : Int
  pairName : String
  createdAt : Time
  deriving DecidableEq, Repr

namespace Order

/-- `RemainingAmount`. -/
def remainingAmount (o : Order) : Int := o.amount - o.filledAmount

/-- The query `status $in [OPEN, PARTIAL_FILLED]` of the store. -/
def isOpen (o : Order) : Prop := o.status = .OPEN ∨ o.status = .PARTIAL_FILLED

instance (o : Order) : Decidable o.isOpen := inferInstanceAs (Decidable (_ ∨ _))

/-- Two orders on the same token pair. -/
def SamePair (o d : Order) : Prop := d.baseToken = o.baseToken ∧ d.quoteToken = o.quoteToken

instance (o d : Order) : Decidable (o.SamePair d) := inferInstanceAs (Decidable (_ ∧ _))

/-- What does not change while an order is in the book: all but its status and fill, and what
the store keeps of an earlier copy. -/
def terms (o : Order) : Order :=
  { o with status := .OPEN, filledAmount := 0, signature := none, createdAt := 0 }

/-- The fields that orders with the same terms share, those the engine reads. -/
structure SameTerms (a b : Order) : Prop where
  hash : a.hash = b.hash
  side : a.side = b.side
  amount : a.amount = b.amount
  pricePoint : a.pricePoint = b.pricePoint
  baseToken : a.baseToken = b.baseToken
  quoteToken : a.quoteToken = b.quoteToken
  pairName : a.pairName = b.pairName

theorem sameTerms {a b : Order} (h : a.terms = b.terms) : a.SameTerms b := by
  have key : ∀ {α : Type} (f : Order → α), f a.terms = f b.terms := fun f => congrArg f h
  exact ⟨key hash, key side, key amount, key pricePoint, key baseToken, key quoteToken,
    key pairName⟩

/-- `o.Status = s`. -/
def withStatus (o : Order) (s : Status) : Order := { o with status := s }

/-- `o.FilledAmount = o.Amount; o.Status = "FILLED"`. -/
def complete (o : Order) : Order := { o with filledAmount := o.amount, status := .FILLED }

section
variable (o : Order) (s : Status)

@[simp] theorem withStatus_terms : (o.withStatus s).terms = o.terms := rfl
@[simp] theorem withStatus_hash : (o.withStatus s).hash = o.hash := rfl
@[simp] theorem withStatus_status : (o.withStatus s).status = s := rfl
@[simp] theorem withStatus_amount : (o.withStatus s).amount = o.amount := rfl
@[simp] theorem withStatus_filledAmount : (o.withStatus s).filledAmount = o.filledAmount := rfl
@[simp] theorem complete_terms : o.complete.terms = o.terms := rfl
@[simp] theorem complete_hash : o.complete.hash = o.hash := rfl
@[simp] theorem complete_status : o.complete.status = .FILLED := rfl
@[simp] theorem complete_amount : o.complete.amount = o.amount := rfl
@[simp] theorem complete_filledAmount : o.complete.filledAmount = o.amount := rfl

end

/-- The order is well formed and its fill is within its amount. -/
structure Bounded (o : Order) : Prop where
  pos : 0 < o.amount
  nonneg : 0 ≤ o.filledAmount
  le : o.filledAmount ≤ o.amount

instance (o : Order) : Decidable o.Bounded :=
  decidable_of_iff (0 < o.amount ∧ 0 ≤ o.filledAmount ∧ o.filledAmount ≤ o.amount)
    ⟨fun h => ⟨h.1, h.2.1, h.2.2⟩, fun h => ⟨h.pos, h.nonneg, h.le⟩⟩

/-- `PairCode`. -/
def pairCode (eth : Eth) (o : Order) : Except String String :=
  if o.pairName = "" then .error "Pair name is required"
  else .ok (o.pairName ++ "::" ++ eth.hex o.baseToken ++ "::" ++ eth.hex o.quoteToken)

end Order

end Dex
