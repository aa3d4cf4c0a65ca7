import DexServer.Types.Order

/-!
# Pairs, and orders as a client sends them (`types/pair.go`, `types/order.go`)

A client's order is decoded from JSON: each of its numbers, and its signature, may be missing. The
client also chooses `status`, `filledAmount` and `hash`. `validate` computes the hash anew, over
the fields the client signed; the fill is not among them.
-/

namespace Dex

/-- `Pair`; the fields nothing here reads are left out. -/
structure Pair where
  baseTokenSymbol : String
  baseTokenAddress : Address
  baseTokenDecimals : Nat
  quoteTokenSymbol : String
  quoteTokenAddress : Address
  makeFee : Int
  takeFee : Int
  deriving DecidableEq, Repr

namespace Pair

def pairMultiplier (p : Pair) : Int := 10 ^ 18 * 10 ^ p.baseTokenDecimals

def name (p : Pair) : String := p.baseTokenSymbol ++ "/" ++ p.quoteTokenSymbol

def minQuoteAmount (p : Pair) : Int := 2 * p.makeFee + 2 * p.takeFee

end Pair

namespace Order

def quoteAmount (o : Order) (p : Pair) : Int := o.amount * o.pricePoint / p.pairMultiplier

def sellToken (o : Order) : Address := if o.side = .BUY then o.quoteToken else o.baseToken

def remainingSellAmount (o : Order) (p : Pair) : Int :=
  if o.side = .BUY then o.remainingAmount * o.pricePoint / p.pairMultiplier else o.remainingAmount

def totalRequiredSellAmount (o : Order) (p : Pair) : Int :=
  if o.side = .BUY then o.amount * o.pricePoint / p.pairMultiplier + max p.makeFee p.takeFee
  else o.amount

/-- What stands before the slash of the pair name (a name that is not empty has one). -/
def baseTokenSymbol (o : Order) : String := .ofList (o.pairName.toList.takeWhile (· ≠ '/'))

/-- What stands after the slash of the pair name. -/
def quoteTokenSymbol (o : Order) : String :=
  match o.pairName.toList.dropWhile (· ≠ '/') with
  | [] => o.pairName
  | _ :: symbol => .ofList symbol

def sellTokenSymbol (o : Order) : String :=
  match o.side with
  | .BUY => o.quoteTokenSymbol
  | .SELL => o.baseTokenSymbol
  | .other .. => ""

/-- `EncodedSide`. -/
def encodedSide (o : Order) : Int := if o.side = .BUY then 0 else 1

end Order

/-- `common.BigToHash`: the last 32 bytes of the absolute value. -/
def bigToHash (n : Int) : Hash := BitVec.ofNat 256 n.natAbs

namespace Order

/-- `ComputeHash`. -/
def computeHash (eth : Eth) (o : Order) : Hash :=
  eth.keccak256 (bytesOf 20 o.exchangeAddress ++ bytesOf 20 o.userAddress ++
    bytesOf 20 o.baseToken ++
    bytesOf 20 o.quoteToken ++ (bigToHash o.amount).bytes ++ (bigToHash o.pricePoint).bytes ++
    (bigToHash o.encodedSide).bytes ++ (bigToHash o.nonce).bytes ++ (bigToHash o.takeFee).bytes ++
    (bigToHash o.makeFee).bytes)

/-- `VerifySignature`: it sets the hash, then recovers the signer. -/
def verifySignature (eth : Eth) (sig : Signature) (o : Order) : Except String Order :=
  let o := { o with hash := o.computeHash eth }
  match sig.verify eth (signedMessage eth o.hash) with
  | .error e => .error e
  | .ok address =>
    if address ≠ o.userAddress then .error "Recovered address is incorrect" else .ok o

/-- `Process`: the fees must be the pair's. -/
def process (o : Order) (p : Pair) (now : Time) : Except String Order :=
  if o.makeFee ≠ p.makeFee then .error "Invalid MakeFee"
  else if o.takeFee ≠ p.takeFee then .error "Invalid TakeFee"
  else .ok { o with pairName := p.name, createdAt := now }

end Order

/-- `Order` as it is decoded from a client's message. -/
@[ext]
structure RawOrder where
  userAddress : Address
  exchangeAddress : Address
  baseToken : Address
  quoteToken : Address
  status : Status
  side : Side
  hash : Hash
  signature : Option Signature
  pricePoint : Option Int
  amount : Option Int
  filledAmount : Option Int
  nonce : Option Int
  makeFee : Option Int
  takeFee : Option Int
  pairName : String
  createdAt : Time
  deriving DecidableEq, Repr

/-- An order whose numbers are set, as `Validate` reads it. -/
def Order.raw (o : Order) : RawOrder where
  userAddress := o.userAddress
  exchangeAddress := o.exchangeAddress
  baseToken := o.baseToken
  quoteToken := o.quoteToken
  status := o.status
  side := o.side
  hash := o.hash
  signature := o.signature
  pricePoint := some o.pricePoint
  amount := some o.amount
  filledAmount := some o.filledAmount
  nonce := some o.nonce
  makeFee := some o.makeFee
  takeFee := some o.takeFee
  pairName := o.pairName
  createdAt := o.createdAt

/-- The order, a missing number being 0. -/
def RawOrder.order (r : RawOrder) : Order where
  userAddress := r.userAddress
  exchangeAddress := r.exchangeAddress
  baseToken := r.baseToken
  quoteToken := r.quoteToken
  status := r.status
  side := r.side
  hash := r.hash
  signature := r.signature
  pricePoint := r.pricePoint.getD 0
  amount := r.amount.getD 0
  filledAmount := r.filledAmount.getD 0
  nonce := r.nonce.getD 0
  makeFee := r.makeFee.getD 0
  takeFee := r.takeFee.getD 0
  pairName := r.pairName
  createdAt := r.createdAt

theorem Order.raw_injective {o o' : Order} (h : o.raw = o'.raw) : o = o' := by
  cases o
  cases o'
  simpa [raw] using h

/-- A check of `Validate`. -/
def require (c : Prop) [Decidable c] (err : String) : Except String Unit :=
  if c then .ok () else .error err

/-- A check of `Validate` that a pointer is not nil. -/
def required {α : Type} (x : Option α) (err : String) : Except String α :=
  match x with
  | some a => .ok a
  | none => .error err

/-- The check of the side. -/
def Side.check : Side → Except String Unit
  | .other s _ => .error ("Order 'side' should be 'SELL' or 'BUY', but got: '" ++ s ++ "'")
  | _ => .ok ()

/-- `Validate`. Its result is the order with its numbers set; a missing fill is set to 0 by
`Process`, and nothing reads it before. `IsSmallerThan` is `≤`, so a nonce of 0 is refused. -/
def RawOrder.validate (exchangeAddress : Address) (eth : Eth) (o : RawOrder) :
    Except String (Order × Signature) := do
  require (o.exchangeAddress = exchangeAddress) "Order 'exchangeAddress' parameter is incorrect"
  require (o.userAddress ≠ 0) "Order 'userAddress' parameter is required"
  let nonce ← required o.nonce "Order 'nonce' parameter is required"
  require (o.baseToken ≠ 0) "Order 'baseToken' parameter is required"
  require (o.quoteToken ≠ 0) "Order 'quoteToken' parameter is required"
  let makeFee ← required o.makeFee "Order 'makeFee' parameter is required"
  let takeFee ← required o.takeFee "Order 'takeFee' parameter is required"
  let amount ← required o.amount "Order 'amount' parameter is required"
  let pricePoint ← required o.pricePoint "Order 'pricepoint' parameter is required"
  o.side.check
  let signature ← required o.signature "Order 'signature' parameter is required"
  require (¬nonce ≤ 0) "Order 'nonce' parameter should be positive"
  require (¬amount ≤ 0) "Order 'amount' parameter should be strictly positive"
  require (¬pricePoint ≤ 0) "Order 'pricepoint' parameter should be strictly positive"
  let order : Order :=
    { userAddress := o.userAddress, exchangeAddress := o.exchangeAddress, baseToken := o.baseToken,
      quoteToken := o.quoteToken, status := o.status, side := o.side, hash := o.hash,
      signature := some signature, pricePoint := pricePoint, amount := amount,
      filledAmount := o.filledAmount.getD 0, nonce := nonce, makeFee := makeFee, takeFee := takeFee,
      pairName := o.pairName, createdAt := o.createdAt }
  let order ← order.verifySignature eth signature
  pure (order, signature)

/-! ## What a validated order is -/

section
variable {α β : Type}

@[simp] theorem require_eq_ok {c : Prop} [Decidable c] {err : String} {u : Unit} :
    require c err = .ok u ↔ c := by
  unfold require; split <;> simp_all

@[simp] theorem required_eq_ok {x : Option α} {err : String} {a : α} :
    required x err = .ok a ↔ x = some a := by
  cases x <;> simp [required]

theorem ok_bind {ε : Type} {a : α} {f : α → Except ε β} : (Except.ok a >>= f) = f a := rfl

theorem bind_eq_ok {ε : Type} {x : Except ε α} {f : α → Except ε β} {b : β} :
    (x >>= f) = .ok b ↔ ∃ a, x = .ok a ∧ f a = .ok b := by
  cases x <;> simp [bind, Except.bind]

end

@[simp] theorem Side.check_eq_ok {s : Side} {u : Unit} :
    s.check = .ok u ↔ s = .BUY ∨ s = .SELL := by
  cases s <;> simp [Side.check]

theorem Order.verifySignature_eq_ok {eth : Eth} {sig : Signature} {o o' : Order}
    (h : o.verifySignature eth sig = .ok o') : o' = { o with hash := o.computeHash eth } ∧
      sig.verify eth (signedMessage eth (o.computeHash eth)) = .ok o.userAddress := by
  unfold verifySignature at h
  dsimp only at h
  split at h
  · cases h
  · rename_i address haddress
    split at h
    · cases h
    · rename_i huser
      cases h
      rw [haddress, not_not.1 huser]
      exact ⟨rfl, rfl⟩

theorem Order.process_eq_ok {o o' : Order} {p : Pair} {now : Time} (h : o.process p now = .ok o') :
    o' = { o with pairName := p.name, createdAt := now } ∧ o.makeFee = p.makeFee ∧
      o.takeFee = p.takeFee := by
  unfold process at h
  split at h
  · cases h
  · rename_i hm
    split at h
    · cases h
    · rename_i ht
      cases h
      exact ⟨rfl, not_not.1 hm, not_not.1 ht⟩

/-- What `Validate` has checked: `o` is `r` with its numbers set and its hash computed. -/
structure RawOrder.Valid (exchangeAddress : Address) (eth : Eth) (r : RawOrder) (o : Order)
    (sig : Signature) : Prop where
  raw : { r with filledAmount := some (r.filledAmount.getD 0) } =
    Order.raw { o with hash := r.hash }
  exchange : o.exchangeAddress = exchangeAddress
  user : o.userAddress ≠ 0
  base : o.baseToken ≠ 0
  quote : o.quoteToken ≠ 0
  side : o.side = .BUY ∨ o.side = .SELL
  nonce : 0 < o.nonce
  amount : 0 < o.amount
  pricePoint : 0 < o.pricePoint
  hash : o.hash = o.computeHash eth
  signed : o.signature = some sig
  signer : sig.verify eth (signedMessage eth o.hash) = .ok o.userAddress

theorem RawOrder.validate_eq_ok {exchangeAddress : Address} {eth : Eth} {r : RawOrder} {o : Order}
    {sig : Signature} (h : r.validate exchangeAddress eth = .ok (o, sig)) :
    r.Valid exchangeAddress eth o sig := by
  unfold validate at h
  simp only [bind_eq_ok, require_eq_ok, required_eq_ok, Side.check_eq_ok] at h
  obtain ⟨-, hx, -, hu, nonce, hn, -, hb, -, hq, makeFee, hm, takeFee, ht, amount, ha,
    pricePoint, hp, -, hs, sig', hsig, -, hn0, -, ha0, -, hp0, o', ho, he⟩ := h
  cases he
  obtain ⟨rfl, hv⟩ := Order.verifySignature_eq_ok ho
  refine ⟨?_, hx, hu, hb, hq, hs, ?_, ?_, ?_, rfl, rfl, hv⟩
  · simp only [Order.raw, ← hn, ← hm, ← ht, ← ha, ← hp, ← hsig]
  · exact Int.not_le.1 hn0
  · exact Int.not_le.1 ha0
  · exact Int.not_le.1 hp0

theorem RawOrder.Valid.order {exchangeAddress : Address} {eth : Eth} {r : RawOrder} {o : Order}
    {sig : Signature} (h : r.Valid exchangeAddress eth o sig) : r.order =
      { o with hash := r.hash } :=
  congrArg RawOrder.order h.raw

theorem RawOrder.Valid.unchecked {exchangeAddress : Address} {eth : Eth} {r : RawOrder} {o : Order}
    {sig : Signature} (h : r.Valid exchangeAddress eth o sig) :
    o.filledAmount = r.filledAmount.getD 0 ∧ o.status = r.status :=
  ⟨(Option.some.inj (congrArg RawOrder.filledAmount h.raw)).symm,
    (congrArg RawOrder.status h.raw).symm⟩

theorem require_pos {c : Prop} [Decidable c] {err : String} (h : c) : require c err = .ok () :=
  require_eq_ok.2 h

theorem RawOrder.Valid.verifySignature {exchangeAddress : Address} {eth : Eth} {r : RawOrder}
    {o : Order} {sig : Signature} (h : r.Valid exchangeAddress eth o sig) (hash : Hash) :
    Order.verifySignature eth sig { o with hash := hash } = .ok o := by
  have hcomp : Order.computeHash eth { o with hash := hash } = o.hash := h.hash.symm
  unfold Order.verifySignature
  dsimp only
  rw [hcomp, h.signer]
  exact if_neg (not_not.2 rfl)

/-- The checks are all: an order that meets them passes. -/
theorem RawOrder.Valid.validate {exchangeAddress : Address} {eth : Eth} {r : RawOrder} {o : Order}
    {sig : Signature} (h : r.Valid exchangeAddress eth o sig) :
    r.validate exchangeAddress eth = .ok (o, sig) := by
  have hr : r = { o.raw with hash := r.hash, filledAmount := r.filledAmount } :=
    congrArg ({ · with filledAmount := r.filledAmount }) h.raw
  have hfilled : r.filledAmount.getD 0 = o.filledAmount :=
    Option.some.inj (congrArg RawOrder.filledAmount h.raw)
  have hside : o.side.check = .ok () := Side.check_eq_ok.2 h.side
  have hverify := h.verifySignature r.hash
  generalize r.hash = hash at hr hverify
  generalize r.filledAmount = filledAmount at hr hfilled
  subst hr
  unfold RawOrder.validate
  simp only [Order.raw, required, require_pos h.exchange, require_pos h.user, require_pos h.base,
    require_pos h.quote, require_pos (Int.not_le.2 h.nonce), require_pos (Int.not_le.2 h.amount),
    require_pos (Int.not_le.2 h.pricePoint), hside, h.signed, ok_bind, hfilled]
  rw [← h.signed, hverify]
  rfl

theorem RawOrder.Valid.at {exchangeAddress : Address} {eth : Eth} {r : RawOrder} {o : Order}
    {sig : Signature} (h : r.Valid exchangeAddress eth o sig) (t : Time) :
    RawOrder.Valid exchangeAddress eth { r with createdAt := t } { o with createdAt := t } sig :=
  ⟨congrArg ({ · with createdAt := t }) h.raw, h.exchange, h.user, h.base, h.quote, h.side, h.nonce,
    h.amount, h.pricePoint, h.hash, h.signed, h.signer⟩

/-- `Validate` accepts the order, and leaves it as it is. -/
def Order.Signed (exchangeAddress : Address) (eth : Eth) (o : Order) : Prop :=
  ∃ sig, o.raw.Valid exchangeAddress eth o sig

/-- Status, fill and creation time are not signed. -/
theorem Order.Signed.of_terms {exchangeAddress : Address} {eth : Eth} {o o' : Order}
    (h : o.Signed exchangeAddress eth) (ht : o'.terms = o.terms) (hs : o'.signature = o.signature) :
    o'.Signed exchangeAddress eth := by
  have heq : o' = { o with
      status := o'.status
      filledAmount := o'.filledAmount
      createdAt := o'.createdAt } := by
    cases o
    cases o'
    simp only [terms, Order.mk.injEq] at ht hs ⊢
    simp [ht, hs]
  obtain ⟨sig, h⟩ := h
  rw [heq]
  exact ⟨sig, rfl, h.exchange, h.user, h.base, h.quote, h.side, h.nonce, h.amount,
    h.pricePoint, h.hash, h.signed, h.signer⟩

end Dex
