import DexServer.Engine.Engine
import DexServer.Services.Validator

/-!
# An environment to run the model in

No call fails, the clock is the number of the call, documents come in the order they are stored in.
The hash function is a checksum and a signature recovers to the address it holds.
-/

namespace Dex

/-- The bytes as a number, most significant first. -/
def ofBytes {n : Nat} (bs : List Byte) : BitVec n :=
  BitVec.ofNat n (bs.foldl (fun a b => a * 256 + b.toNat) 0)

def Eth.sample : Eth where
  keccak256 bs := BitVec.ofNat 256 (bs.foldl (fun a b => a * 257 + b.toNat + 1) 0)
  recover _ sig := .ok (ofBytes (sig.take 32))
  hex a := toString a.toNat
  hexToHash s := BitVec.ofNat 256 (s.toList.foldl (fun a c => a * 10 + (c.toNat - '0'.toNat)) 0)
  hexToAddress s := BitVec.ofNat 160 (s.toList.foldl (fun a c => a * 10 + (c.toNat - '0'.toNat)) 0)
  hashHex h := toString h.toNat
  marshalAddress a := toString a.toNat
  marshalHash h := toString h.toNat

theorem foldl_repr (n : Nat) :
    n.repr.toList.foldl (fun a c => a * 10 + (c.toNat - '0'.toNat)) 0 = n := by
  rw [Nat.toList_repr]
  conv_rhs => rw [← Nat.ofDigitChars_ten_toDigits (n := n)]
  unfold Nat.ofDigitChars
  simp only [Nat.mul_comm]

theorem Eth.sample_readsBack : Eth.sample.ReadsBack := by
  have hread : ∀ {k : Nat} (b : BitVec k), BitVec.ofNat k
      ((toString b.toNat).toList.foldl (fun a c => a * 10 + (c.toNat - '0'.toNat)) 0) = b := by
    intro k b
    rw [Nat.toString_eq_repr, foldl_repr, BitVec.ofNat_toNat, BitVec.setWidth_eq]
  exact ⟨hread, hread, hread, hread⟩

/-- The matchable orders of a side, as they are stored. -/
def OrderDao.scan (side : Side) (docs : List Order) (o : Order) : List Order :=
  docs.filter fun d => o.Matchable d ∧ d.side = side

theorem OrderDao.scan_resting {side : Side} {docs : List Order} {o d : Order}
    (h : d ∈ scan side docs o) : d.isOpen ∧ o.SamePair d ∧ d.side = side := by
  simp only [scan, List.mem_filter, decide_eq_true_eq] at h
  exact ⟨h.2.1.1, h.2.1.2.1, h.2.2⟩

def OrderDao.stored : OrderDao where
  getMatchingBuyOrders _ := scan .BUY
  getMatchingSellOrders _ := scan .SELL
  buy_subperm _ _ _ := List.filter_sublist.subperm
  buy_resting _ _ _ _ := scan_resting
  sell_subperm _ _ _ := List.filter_sublist.subperm
  sell_resting _ _ _ _ := scan_resting

/-- A store whose decimals are the integers themselves; `k` is the order of the sort keys. -/
def Mongo.sample (k : SortKeys) : Mongo where
  scan _ l := l
  scan_perm _ _ := .rfl
  toDecimal n := n
  parseDecimal128 n := n
  sortKeys _ := k

theorem Mongo.sample_exact (k : SortKeys) : (Mongo.sample k).DecimalExact :=
  ⟨fun _ _ _ => rfl, fun _ _ _ => rfl⟩

def Env.sample (dao : OrderDao) : Env where
  eth := .sample
  fails _ := false
  now n := n
  scanOrders _ l := l
  scanOrders_perm _ _ := .rfl
  scanTrades _ l := l
  scanTrades_perm _ _ := .rfl
  orderDao := dao
  byteOf x := BitVec.ofInt 8 (x.mantissa * 10 ^ x.exponent.toNat)
  byteOf_byte b := by simp
  undefinedInt _ := 0
  basedInt _ := 0
  formatTime t := toString t
  parseTime _ := 0
  sprint _ := ""

theorem Env.sample_faultless (dao : OrderDao) : (Env.sample dao).Faultless := fun _ => rfl

/-- An order of the pair `ZRX/WETH`. -/
def Order.sample (hash : Hash) (side : Side) (pricePoint amount : Int) : Order where
  userAddress := 1
  exchangeAddress := 2
  baseToken := 3
  quoteToken := 4
  status := .OPEN
  side := side
  hash := hash
  signature := none
  pricePoint := pricePoint
  amount := amount
  filledAmount := 0
  nonce := 1
  makeFee := 0
  takeFee := 0
  pairName := "ZRX/WETH"
  createdAt := 0

/-- A signed order of the pair `ZRX/WETH`, as a user submits it. -/
def RawOrder.sample (nonce : Int) (side : Side) (pricePoint amount : Int) : RawOrder where
  userAddress := 1
  exchangeAddress := 2
  baseToken := 3
  quoteToken := 4
  status := .OPEN
  side := side
  hash := 0
  signature := some ⟨27, 1, 0⟩
  pricePoint := some pricePoint
  amount := some amount
  filledAmount := none
  nonce := some nonce
  makeFee := some 0
  takeFee := some 0
  pairName := ""
  createdAt := 0

/-- The order of `RawOrder.sample`, as it is published. -/
def Order.submitted (nonce : Int) (side : Side) (amount : Int) : Order :=
  let o := { Order.sample 0 side 5 amount with
    nonce := nonce
    signature := some ⟨27, 1, 0⟩ }
  { o with hash := o.computeHash .sample }

def Services.sample : Services where
  exchangeAddress := 2
  pairs := [⟨"ZRX", 3, 0, "WETH", 4, 0, 0⟩]
  balanceOf _ _ _ := 10 ^ 30
  allowance _ _ _ _ := 10 ^ 30

/-- A server on which everybody has `funds` of everything. -/
def Services.sampleFunds (funds : Int) : Services :=
  { Services.sample with
    balanceOf := fun _ _ _ => funds
    allowance := fun _ _ _ _ => funds }

def Engine.sample : Engine := ⟨["ZRX/WETH::3::4"]⟩

end Dex
