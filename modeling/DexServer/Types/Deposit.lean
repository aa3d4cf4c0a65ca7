import DexServer.Lib.Coll
import DexServer.Types.Crypto
import Mathlib.Algebra.Ring.Rat

/-!
# Deposits (`types/deposit.go`, `swap/ethereum/transaction.go`, `swap/bitcoin/transaction.go`)

A user is given an address of another chain to pay to; the association of the two is stored with a
status. `Associations` is the collection with its two unique indices.
-/

namespace Dex

open Lib

/-- `Chain`: the name of the chain of a payment. -/
structure Chain where
  name : String
  deriving DecidableEq, Repr

/-- `ChainEthereum`. -/
def Chain.ethereum : Chain := ⟨"ethereum"⟩

/-- `ChainBitcoin`. -/
def Chain.bitcoin : Chain := ⟨"bitcoin"⟩

inductive AssetCode
  | ETH | BTC
  deriving DecidableEq, Repr

/-- The text of an asset code. -/
def AssetCode.text : AssetCode → String
  | ETH => "ETH"
  | BTC => "BTC"

/-- The status of an association. -/
inductive DepositStatus
  | PENDING | SUCCESS | FAILED
  deriving DecidableEq, Repr

/-- `AddressAssociationRecord`; the addresses are stored as hexadecimal texts in lower case. The
fields nothing here reads are left out. -/
structure AddressAssociationRecord where
  chain : Chain
  address : Address
  status : DepositStatus
  associatedAddress : Address
  txEnvelopes : List String
  pairName : String
  baseTokenAddress : Address
  deriving DecidableEq, Repr

namespace AddressAssociationRecord

/-- The first unique index. -/
def key (a : AddressAssociationRecord) : Chain × Address := (a.chain, a.address)

/-- The second unique index. -/
def owner (a : AddressAssociationRecord) : Chain × Address := (a.chain, a.associatedAddress)

end AddressAssociationRecord

/-- The collection `associations`. -/
structure Associations where
  coll : Coll AddressAssociationRecord.key
  unique : (coll.docs.map AddressAssociationRecord.owner).Nodup

namespace Associations

def empty : Associations := ⟨.empty, List.nodup_nil⟩

def getByAddress (c : Associations) (chain : Chain) (address : Address) :
    Option AddressAssociationRecord :=
  c.coll.get (chain, address)

def getByAssociatedAddress (c : Associations) (chain : Chain) (address : Address) :
    Option AddressAssociationRecord :=
  c.coll.docs.find? (·.owner = (chain, address))

/-- Rewrite the document of a chain and an address; the indexed fields are kept. -/
def update (c : Associations) (chain : Chain) (address : Address)
    (f : AddressAssociationRecord → AddressAssociationRecord) (hk : ∀ a, (f a).key = a.key)
    (ho : ∀ a, (f a).owner = a.owner) : Associations where
  coll := c.coll.updateWhere (·.key = (chain, address)) f hk
  unique := by
    have hmap : AddressAssociationRecord.owner ∘
        (fun a => if decide (a.key = (chain, address)) then f a else a) =
        AddressAssociationRecord.owner := by
      funext a
      simp only [Function.comp_apply]
      split
      · exact ho a
      · rfl
    show ((c.coll.docs.map _).map _).Nodup
    rw [List.map_map, hmap]
    exact c.unique

/-- `$set` of the association of a chain and a user, which is inserted if there is none. It fails if
the address belongs to another user. -/
def upsert (c : Associations) (a : AddressAssociationRecord) : Option Associations :=
  let others := c.coll.docs.filter (·.owner ≠ a.owner)
  let old := (c.getByAssociatedAddress a.chain a.associatedAddress).map (·.txEnvelopes)
  if h : a.key ∈ others.map (·.key) then none
  else some
    { coll :=
        { docs := others ++ [{ a with txEnvelopes := old.getD a.txEnvelopes }]
          nodup := by
            rw [List.map_append, List.map_singleton, List.nodup_append]
            refine ⟨c.coll.nodup.sublist (List.filter_sublist.map _), List.nodup_singleton _, ?_⟩
            intro k hk k' hk' e
            rw [List.mem_singleton.1 hk'] at e
            exact h (e ▸ hk) }
      unique := by
        show (List.map _ (others ++ [_])).Nodup
        rw [List.map_append, List.map_singleton, List.nodup_append]
        refine ⟨c.unique.sublist (List.filter_sublist.map _), List.nodup_singleton _, ?_⟩
        intro o ho o' ho' e
        obtain ⟨d, hd, rfl⟩ := List.mem_map.1 ho
        have hne : d.owner ≠ a.owner := by simpa using (List.mem_filter.1 hd).2
        exact hne (e.trans (List.mem_singleton.1 ho')) }

section
variable {c c' : Associations} {a d : AddressAssociationRecord}

theorem getByAddress_eq_some {chain : Chain} {address : Address} :
    c.getByAddress chain address = some d ↔ d ∈ c.coll ∧ d.key = (chain, address) :=
  Coll.get_eq_some

theorem mem_of_getByAssociatedAddress {chain : Chain} {address : Address}
    (h : c.getByAssociatedAddress chain address = some d) :
    d ∈ c.coll ∧ d.owner = (chain, address) :=
  ⟨List.mem_of_find?_eq_some h, by simpa using List.find?_some h⟩

theorem getByAddress_update {chain : Chain} {address : Address}
    {f : AddressAssociationRecord → AddressAssociationRecord} (hk : ∀ a, (f a).key = a.key)
    (ho : ∀ a, (f a).owner = a.owner) :
    (c.update chain address f hk ho).getByAddress chain address =
      (c.getByAddress chain address).map f := by
  unfold getByAddress update
  rw [Coll.get_updateWhere]
  cases h : c.coll.get (chain, address) with
  | none => rfl
  | some d => simp [Coll.get_key h]

theorem exists_mem_update {chain : Chain} {address : Address}
    {f : AddressAssociationRecord → AddressAssociationRecord} (hk : ∀ a, (f a).key = a.key)
    (ho : ∀ a, (f a).owner = a.owner) (h : a ∈ c.coll) :
    ∃ a' ∈ (c.update chain address f hk ho).coll, a'.key = a.key ∧ a'.owner = a.owner := by
  have hmem : (if decide (a.key = (chain, address)) then f a else a) ∈
      c.coll.updateWhere (·.key = (chain, address)) f hk := Coll.mem_updateWhere.2 ⟨a, h, rfl⟩
  refine ⟨_, hmem, ?_⟩
  split
  · exact ⟨hk a, ho a⟩
  · exact ⟨rfl, rfl⟩

theorem mem_upsert (h : c.upsert a = some c') :
    d ∈ c'.coll ↔ (d ∈ c.coll ∧ d.owner ≠ a.owner) ∨
      d = { a with txEnvelopes := ((c.getByAssociatedAddress a.chain a.associatedAddress).map
        (·.txEnvelopes)).getD a.txEnvelopes } := by
  unfold upsert at h
  dsimp only at h
  split at h
  · cases h
  · rw [← Option.some.inj h, Coll.mem_def, Coll.mem_def]
    simp

end

end Associations

/-- `DepositTransaction`: an entry of the queue `deposit`. -/
structure DepositTransaction where
  chain : Chain
  transactionID : String
  assetCode : AssetCode
  pairName : String
  amount : String
  associatedAddress : Address
  deriving DecidableEq, Repr

inductive TransactionType
  | CreateOffer | CreateAccount | RemoveSigner
  | other (s : String) (h : s ≠ "CreateOffer" ∧ s ≠ "CreateAccount" ∧ s ≠ "RemoveSigner")
  deriving DecidableEq, Repr

def TransactionType.text : TransactionType → String
  | CreateOffer => "CreateOffer"
  | CreateAccount => "CreateAccount"
  | RemoveSigner => "RemoveSigner"
  | other s _ => s

/-- `AssociationTransaction`. -/
structure AssociationTransaction where
  source : String
  signature : List Byte
  hash : Hash
  transactionType : TransactionType
  params : List String
  deriving DecidableEq, Repr

/-- `[]byte(s)`. -/
def textBytes (s : String) : List Byte := s.toUTF8.toList.map fun b => BitVec.ofNat 8 b.toNat

/-- `AssociationTransaction.ComputeHash`. -/
def AssociationTransaction.computeHash (eth : Eth) (t : AssociationTransaction) : Hash :=
  eth.keccak256 (textBytes t.source ++ textBytes t.transactionType.text ++
    t.params.flatMap textBytes)

/-- A transfer of tokens the server has made. -/
structure TokenTransfer where
  token : Address
  receiver : Address
  amount : Int
  deriving DecidableEq, Repr

/-- The keys of the collection `config` that hold the last blocks. -/
structure BlockConfig where
  ethereumLastBlock : Option Nat
  bitcoinLastBlock : Option Nat
  deriving DecidableEq, Repr

/-- The keys of the collection `config` that count the addresses given out; the values are 64-bit
integers. -/
structure AddressIndices where
  ethereum : Option (BitVec 64)
  bitcoin : Option (BitVec 64)
  deriving DecidableEq, Repr

namespace AddressIndices

def get (c : AddressIndices) (chain : Chain) : Option (BitVec 64) :=
  if chain = .ethereum then c.ethereum else c.bitcoin

def set (c : AddressIndices) (chain : Chain) (v : BitVec 64) : AddressIndices :=
  if chain = .ethereum then { c with ethereum := some v } else { c with bitcoin := some v }

end AddressIndices

/-- `PairAddresses`, as far as it is stored and read again. -/
structure PairAddresses where
  name : String
  baseToken : Address
  deriving DecidableEq, Repr

/-! ## The transactions the listeners hand over -/

namespace Ethereum

/-- `ethereum.Transaction`. -/
structure Transaction where
  hash : String
  valueWei : Int
  /-- `To` -/
  recipient : String
  deriving DecidableEq, Repr

/-- `ValueToWei`. -/
def Transaction.valueToWei (t : Transaction) : String := toString t.valueWei

end Ethereum

namespace Bitcoin

/-- `bitcoin.Transaction`: an output. -/
structure Transaction where
  hash : String
  txOutIndex : Nat
  valueSat : Int
  /-- `To` -/
  recipient : String
  deriving DecidableEq, Repr

/-- `Rat.FloatString(0)`: halves are rounded away from zero. -/
def floatString (q : Rat) : String :=
  (if q.num < 0 then "-" else "") ++ toString ((2 * q.num.natAbs + q.den) / (2 * q.den))

/-- `ValueToWei` at an exchange rate. -/
def Transaction.weiAt (t : Transaction) (exchangeRate : Rat) : String :=
  floatString ((t.valueSat : Rat) / exchangeRate * (10 : Rat) ^ 10)

end Bitcoin

end Dex
