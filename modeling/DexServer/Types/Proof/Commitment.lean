import DexServer.Sample
import DexServer.Types.Deposit

/-!
# What the hashes commit to (`types/order.go`, `types/deposit.go`)

`Order.hashInput` and `AssociationTransaction.hashInput` are the bytes that are hashed. Those of an
order are fields of fixed width, so they determine each field up to what its encoding drops: the
sign of a number, and what exceeds 256 bits (`hashInput_eq_iff`). Those of an association
transaction are texts one after the other.

* `order_hash_commits_iff`: two orders that pass the checks of `Validate` have different bytes, or
  agree on the signed fields, unless they are `Confusable`.
* `order_hash_collision`: one signature for two amounts.
* `association_hash_never_commits`: every association transaction has the bytes of another one.
-/

namespace Dex

/-! ## Encodings -/

theorem length_bytesOf {n : Nat} (k : Nat) (x : BitVec n) : (bytesOf k x).length = k := by
  simp [bytesOf]

theorem bytesOf_injective {k : Nat} {x y : BitVec (8 * k)} (h : bytesOf k x = bytesOf k y) :
    x = y := by
  apply BitVec.eq_of_getLsbD_eq
  intro i hi
  -- bit `i` is in byte `i / 8`, counted from the end
  have hk : k - 1 - i / 8 < k := by omega
  have hbyte := congrArg (·[k - 1 - i / 8]?) h
  simp only [bytesOf, List.getElem?_map, List.getElem?_range hk, Option.map_some,
    Option.some.injEq] at hbyte
  have hpos : 8 * (k - 1 - (k - 1 - i / 8)) = 8 * (i / 8) := by omega
  rw [hpos] at hbyte
  have hbit := congrArg (·.getLsbD (i % 8)) hbyte
  have hlt : i % 8 < 8 := Nat.mod_lt i (by decide)
  simpa [BitVec.getLsbD_extractLsb', hlt, Nat.div_add_mod] using hbit

theorem bigToHash_eq_iff {m n : Int} : bigToHash m = bigToHash n ↔
    m.natAbs % 2 ^ 256 = n.natAbs % 2 ^ 256 := by
  constructor
  · intro h
    have := congrArg BitVec.toNat h
    simpa only [bigToHash, BitVec.toNat_ofNat] using this
  · intro h
    apply BitVec.eq_of_toNat_eq
    simpa only [bigToHash, BitVec.toNat_ofNat] using h

/-! ## Orders -/

namespace Order

/-- The bytes that `ComputeHash` writes. -/
def hashInput (o : Order) : List Byte :=
  bytesOf 20 o.exchangeAddress ++ bytesOf 20 o.userAddress ++ bytesOf 20 o.baseToken ++
    bytesOf 20 o.quoteToken ++ (bigToHash o.amount).bytes ++ (bigToHash o.pricePoint).bytes ++
    (bigToHash o.encodedSide).bytes ++ (bigToHash o.nonce).bytes ++ (bigToHash o.takeFee).bytes ++
    (bigToHash o.makeFee).bytes

theorem computeHash_eq (eth : Eth) (o : Order) : o.computeHash eth = eth.keccak256 o.hashInput :=
  rfl

/-- What is signed. -/
structure SignedFields where
  exchangeAddress : Address
  userAddress : Address
  baseToken : Address
  quoteToken : Address
  amount : Int
  pricePoint : Int
  side : Side
  nonce : Int
  takeFee : Int
  makeFee : Int
  deriving DecidableEq

def signedFields (o : Order) : SignedFields :=
  ⟨o.exchangeAddress, o.userAddress, o.baseToken, o.quoteToken, o.amount, o.pricePoint,
    o.side, o.nonce, o.takeFee, o.makeFee⟩

/-- The checks of `Validate`, without that of the signature. -/
structure Checked (exchangeAddress : Address) (o : Order) : Prop where
  exchange : o.exchangeAddress = exchangeAddress
  user : o.userAddress ≠ 0
  base : o.baseToken ≠ 0
  quote : o.quoteToken ≠ 0
  side : o.side = .BUY ∨ o.side = .SELL
  nonce : 0 < o.nonce
  amount : 0 < o.amount
  pricePoint : 0 < o.pricePoint

/-- With them, all of `Validate` is the signature. -/
theorem Checked.validate {exchangeAddress : Address} {o : Order} (h : o.Checked exchangeAddress)
    (eth : Eth) {sig : Signature} (hsig : o.signature = some sig) :
    o.raw.validate exchangeAddress eth = (o.verifySignature eth sig).map fun o => (o, sig) := by
  have hside : o.side.check = .ok () := Side.check_eq_ok.2 h.side
  unfold RawOrder.validate
  simp only [Order.raw, required, require_pos h.exchange, require_pos h.user, require_pos h.base,
    require_pos h.quote, require_pos (Int.not_le.2 h.nonce), require_pos (Int.not_le.2 h.amount),
    require_pos (Int.not_le.2 h.pricePoint), hside, hsig, ok_bind, Option.getD_some]
  rw [← hsig]
  cases o.verifySignature eth sig <;> rfl

/-- Two numbers with one encoding. -/
def SameWord (m n : Int) : Prop := m.natAbs % 2 ^ 256 = n.natAbs % 2 ^ 256

instance (m n : Int) : Decidable (SameWord m n) := inferInstanceAs (Decidable (_ = _))

/-- The orders have the same addresses and side, and numbers that are the same up to their signs and
to multiples of `2 ^ 256`, but not the same. -/
structure Confusable (o o' : Order) : Prop where
  exchangeAddress : o.exchangeAddress = o'.exchangeAddress
  userAddress : o.userAddress = o'.userAddress
  baseToken : o.baseToken = o'.baseToken
  quoteToken : o.quoteToken = o'.quoteToken
  side : o.side = o'.side
  amount : SameWord o.amount o'.amount
  pricePoint : SameWord o.pricePoint o'.pricePoint
  nonce : SameWord o.nonce o'.nonce
  takeFee : SameWord o.takeFee o'.takeFee
  makeFee : SameWord o.makeFee o'.makeFee
  differ : o.signedFields ≠ o'.signedFields

theorem bytesOf_append_inj {n : Nat} {k : Nat} {x y : BitVec n} {as bs : List Byte}
    (h : as ++ bytesOf k x = bs ++ bytesOf k y) : as = bs ∧ bytesOf k x = bytesOf k y :=
  List.append_inj' h (by rw [length_bytesOf, length_bytesOf])

theorem word_append_inj {m n : Int} {as bs : List Byte} :
    as ++ (bigToHash m).bytes = bs ++ (bigToHash n).bytes ↔ as = bs ∧ SameWord m n := by
  constructor
  · intro h
    obtain ⟨has, hword⟩ := bytesOf_append_inj h
    exact ⟨has, bigToHash_eq_iff.1 (bytesOf_injective (k := 32) hword)⟩
  · intro h
    rw [h.1, bigToHash_eq_iff.2 h.2]

theorem address_append_inj {x y : Address} {as bs : List Byte} :
    as ++ bytesOf 20 x = bs ++ bytesOf 20 y ↔ as = bs ∧ x = y := by
  constructor
  · intro h
    obtain ⟨has, hword⟩ := bytesOf_append_inj h
    exact ⟨has, bytesOf_injective (k := 20) hword⟩
  · intro h
    rw [h.1, h.2]

theorem sameWord_encodedSide {o o' : Order} (h : o.side = .BUY ∨ o.side = .SELL)
    (h' : o'.side = .BUY ∨ o'.side = .SELL) : SameWord o.encodedSide o'.encodedSide ↔
      o.side = o'.side := by
  unfold encodedSide
  rcases h with h | h
  · rcases h' with h' | h' <;> rw [h, h'] <;> decide
  · rcases h' with h' | h' <;> rw [h, h'] <;> decide

/-- The bytes determine the fields up to their encodings. -/
theorem hashInput_eq_iff {o o' : Order} (h : o.side = .BUY ∨ o.side = .SELL)
    (h' : o'.side = .BUY ∨ o'.side = .SELL) : o.hashInput = o'.hashInput ↔
      o.exchangeAddress = o'.exchangeAddress ∧ o.userAddress = o'.userAddress ∧
      o.baseToken = o'.baseToken ∧
      o.quoteToken = o'.quoteToken ∧ SameWord o.amount o'.amount ∧
      SameWord o.pricePoint o'.pricePoint ∧
      o.side = o'.side ∧ SameWord o.nonce o'.nonce ∧ SameWord o.takeFee o'.takeFee ∧
      SameWord o.makeFee o'.makeFee := by
  have hfirst : bytesOf 20 o.exchangeAddress = bytesOf 20 o'.exchangeAddress ↔
      o.exchangeAddress = o'.exchangeAddress :=
    ⟨fun h => bytesOf_injective (k := 20) h, congrArg (bytesOf 20)⟩
  simp only [hashInput, word_append_inj, address_append_inj, hfirst,
    sameWord_encodedSide h h', and_assoc]

end Order

/-- **The order hash commits to the order**, unless the other order is confusable with it. -/
theorem order_hash_commits_iff {exchangeAddress : Address} {o o' : Order}
    (h : o.Checked exchangeAddress) (h' : o'.Checked exchangeAddress) :
    (o.hashInput = o'.hashInput → o.signedFields = o'.signedFields) ↔ ¬o.Confusable o' := by
  rw [Order.hashInput_eq_iff h.side h'.side]
  constructor
  · intro hcommit hc
    exact hc.differ
      (hcommit ⟨hc.exchangeAddress, hc.userAddress, hc.baseToken, hc.quoteToken, hc.amount,
      hc.pricePoint, hc.side, hc.nonce, hc.takeFee, hc.makeFee⟩)
  · intro hc hsame
    obtain ⟨hexchange, huser, hbase, hquote, hamount, hprice, hside, hnonce, htake, hmake⟩ := hsame
    by_contra hdiffer
    exact hc ⟨hexchange, huser, hbase, hquote, hside, hamount, hprice, hnonce, htake,
      hmake, hdiffer⟩

namespace Order

/-- The numbers are what the contract's `uint256` can be. -/
structure InRange (o : Order) : Prop where
  amount : 0 ≤ o.amount ∧ o.amount < 2 ^ 256
  pricePoint : 0 ≤ o.pricePoint ∧ o.pricePoint < 2 ^ 256
  nonce : 0 ≤ o.nonce ∧ o.nonce < 2 ^ 256
  takeFee : 0 ≤ o.takeFee ∧ o.takeFee < 2 ^ 256
  makeFee : 0 ≤ o.makeFee ∧ o.makeFee < 2 ^ 256

theorem SameWord.eq {m n : Int} (h : SameWord m n) (hm : 0 ≤ m ∧ m < 2 ^ 256)
    (hn : 0 ≤ n ∧ n < 2 ^ 256) : m = n := by
  unfold SameWord at h
  omega

theorem InRange.not_confusable {o o' : Order} (h : o.InRange) (h' : o'.InRange) :
    ¬o.Confusable o' := by
  intro hc
  apply hc.differ
  rw [signedFields, signedFields, hc.exchangeAddress, hc.userAddress, hc.baseToken,
    hc.quoteToken, hc.side, hc.amount.eq h.amount h'.amount,
    hc.pricePoint.eq h.pricePoint h'.pricePoint, hc.nonce.eq h.nonce h'.nonce,
    hc.takeFee.eq h.takeFee h'.takeFee, hc.makeFee.eq h.makeFee h'.makeFee]

end Order

/-- Two amounts in range. -/
theorem order_hash_commits_in_range :
    let o := Order.submitted 1 .BUY 10
    let o' := Order.submitted 1 .BUY 11
    o.hashInput = o'.hashInput → o.signedFields = o'.signedFields := by
  have hchecked : ∀ amount : Int, 0 < amount → (Order.submitted 1 .BUY amount).Checked 2 := by
    intro amount hamount
    exact ⟨rfl, (by decide : (1 : Address) ≠ 0), (by decide : (3 : Address) ≠ 0),
      (by decide : (4 : Address) ≠ 0), .inl rfl, (by decide : (0 : Int) < 1), hamount,
      (by decide : (0 : Int) < 5)⟩
  have hrange : ∀ amount : Int, 0 ≤ amount ∧ amount < 2 ^ 256 →
      (Order.submitted 1 .BUY amount).InRange := by
    intro amount hamount
    have hone : (0 : Int) ≤ 1 ∧ (1 : Int) < 2 ^ 256 := by decide
    have hfive : (0 : Int) ≤ 5 ∧ (5 : Int) < 2 ^ 256 := by decide
    have hzero : (0 : Int) ≤ 0 ∧ (0 : Int) < 2 ^ 256 := by decide
    exact ⟨hamount, hfive, hone, hzero, hzero⟩
  exact (order_hash_commits_iff (hchecked 10 (by decide)) (hchecked 11 (by decide))).2
    ((hrange 10 (by decide)).not_confusable (hrange 11 (by decide)))

theorem Order.Confusable.validate_iff {exchangeAddress : Address} {eth : Eth} {o o' : Order}
    {sig : Signature} (hc : o.Confusable o') (h : o.Checked exchangeAddress)
    (h' : o'.Checked exchangeAddress) (hsig : o.signature = some sig)
    (hsig' : o'.signature = some sig) :
    (o.raw.validate exchangeAddress eth).isOk = (o'.raw.validate exchangeAddress eth).isOk := by
  have hinput : o.hashInput = o'.hashInput := (Order.hashInput_eq_iff h.side h'.side).2
    ⟨hc.exchangeAddress, hc.userAddress, hc.baseToken, hc.quoteToken, hc.amount,
      hc.pricePoint, hc.side, hc.nonce, hc.takeFee, hc.makeFee⟩
  rw [h.validate eth hsig, h'.validate eth hsig']
  simp only [Order.verifySignature, Order.computeHash_eq, hinput, hc.userAddress]
  cases sig.verify eth (signedMessage eth (eth.keccak256 o'.hashInput)) with
  | error e => rfl
  | ok address =>
    by_cases huser : address ≠ o'.userAddress
    · simp only [if_pos huser]
    · simp only [if_neg huser]
      rfl

/-- **One signature for two orders**: `2 ^ 256` is added to the amount. Both pass `Validate`, with
one hash. -/
theorem order_hash_collision :
    let r := RawOrder.sample 1 .BUY 5 10
    let r' := RawOrder.sample 1 .BUY 5 (10 + 2 ^ 256)
    r.signature = r'.signature ∧ r.order.hashInput = r'.order.hashInput ∧
      r.order.signedFields ≠ r'.order.signedFields ∧
      (r.validate 2 .sample).map (fun x => (x.1.amount, x.1.hash)) =
        .ok (10, r.order.computeHash .sample) ∧
      (r'.validate 2 .sample).map (fun x => (x.1.amount, x.1.hash)) =
        .ok (10 + 2 ^ 256, r.order.computeHash .sample) := by
  decide +kernel

/-! ## Association transactions -/

theorem toList_loop (bs : ByteArray) (i : Nat) (r : List UInt8) :
    ByteArray.toList.loop bs i r = r.reverse ++ bs.data.toList.drop i := by
  fun_induction ByteArray.toList.loop bs i r with
  | case1 i r h ih =>
    have hlt : i < bs.data.toList.length := by simpa using h
    have hget : bs.get! i = bs.data.toList[i] := by
      show bs.data[i]! = _
      rw [getElem!_pos bs.data i (by simpa using hlt), Array.getElem_toList]
    rw [ih, List.drop_eq_getElem_cons hlt, List.reverse_cons, List.append_assoc, hget]
    rfl
  | case2 i r h =>
    have hge : bs.data.toList.length ≤ i := by simpa using h
    rw [List.drop_eq_nil_of_le hge, List.append_nil]

theorem textBytes_append (s t : String) : textBytes (s ++ t) = textBytes s ++ textBytes t := by
  have hlist : ∀ s : String, s.toUTF8.toList = s.toByteArray.data.toList := by
    intro s
    show ByteArray.toList.loop s.toByteArray 0 [] = _
    rw [toList_loop, List.reverse_nil, List.nil_append, List.drop_zero]
  simp only [textBytes, hlist, String.toByteArray_append, ByteArray.data_append,
    Array.toList_append, List.map_append]

theorem textBytes_empty : textBytes "" = [] := by decide +kernel

namespace AssociationTransaction

/-- The bytes that `ComputeHash` writes. -/
def hashInput (t : AssociationTransaction) : List Byte :=
  textBytes t.source ++ textBytes t.transactionType.text ++ t.params.flatMap textBytes

theorem computeHash_eq (eth : Eth) (t : AssociationTransaction) :
    t.computeHash eth = eth.keccak256 t.hashInput := rfl

/-- No other content has these bytes. -/
def Commits (t : AssociationTransaction) : Prop := ∀ t' : AssociationTransaction,
  t'.hashInput = t.hashInput →
    t'.source = t.source ∧ t'.transactionType = t.transactionType ∧ t'.params = t.params

/-- A parameter without characters leaves no trace. -/
theorem hashInput_empty (t : AssociationTransaction) :
    hashInput { t with params := t.params ++ [""] } = t.hashInput := by
  simp [hashInput, textBytes_empty]

theorem hashInput_split {t : AssociationTransaction} {a b : String} {params : List String}
    (ht : t.params = a :: b :: params) {a' b' : String} (h : a' ++ b' = a ++ b) :
    hashInput { t with params := a' :: b' :: params } = t.hashInput := by
  have hbytes := congrArg textBytes h
  rw [textBytes_append, textBytes_append] at hbytes
  simp only [hashInput, ht, List.flatMap_cons]
  rw [← List.append_assoc (textBytes a'), hbytes, List.append_assoc (textBytes a)]

end AssociationTransaction

/-- **The association transaction hash commits to no content**: every transaction has the bytes of
one with another parameter, and a `CreateOffer` whose amount and price are not both empty has those
of another `CreateOffer` with three parameters. -/
theorem association_hash_never_commits (t : AssociationTransaction) :
    ¬t.Commits ∧ ∀ amount price pairName : String, t.params = [amount, price, pairName] →
    amount ++ price ≠ "" →
      ∃ amount' price' : String, (amount', price') ≠ (amount, price) ∧
        AssociationTransaction.hashInput { t with params := [amount', price', pairName] } =
          t.hashInput := by
  refine ⟨?_, ?_⟩
  · intro h
    have hparams := (h _ t.hashInput_empty).2.2
    have hlen := congrArg List.length hparams
    simp at hlen
  · intro amount price pairName hparams hne
    by_cases hamount : amount = ""
    · refine ⟨amount ++ price, "", ?_, AssociationTransaction.hashInput_split hparams (by simp)⟩
      intro h
      rw [Prod.mk.injEq] at h
      exact hne (h.1.trans hamount)
    · refine ⟨"", amount ++ price, ?_, AssociationTransaction.hashInput_split hparams (by simp)⟩
      intro h
      rw [Prod.mk.injEq] at h
      exact hamount h.1.symm

/-- **Two offers, one signature**: 12 at a price of 3, and 1 at a price of 23. -/
theorem association_hash_collision :
    let t : AssociationTransaction := ⟨"0x1", [], 0, .CreateOffer, ["12", "3", "ETH/WETH"]⟩
    let t' : AssociationTransaction := ⟨"0x1", [], 0, .CreateOffer, ["1", "23", "ETH/WETH"]⟩
    t.hashInput = t'.hashInput ∧ t.params ≠ t'.params := by
  decide +kernel

end Dex
