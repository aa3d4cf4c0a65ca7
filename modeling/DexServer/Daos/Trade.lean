import DexServer.Daos.Session

/-!
# The trade collection (`daos/trade.go`)

The index on a trade's hash is not unique, so the collection is a list: an update of one trade by
its hash changes the first one stored with it. `Create` hands as many nils to the insertion as there
are trades, and then the trades; the store holds one document for each trade afterwards, as the
tests of the repository count them (`daos/trade_test.go`, `e2e/order_test.go`).
-/

namespace Dex

open Lib

/-- The creation time is set. -/
def Trade.stamp (t : Trade) (now : Time) : Trade := { t with createdAt := now }

/-- `Create`, which also sets the creation time of the trades it is given. -/
def createTrades (trades : List Trade) : M (List Trade) := call fun env n w =>
  let trades := trades.map (·.stamp (env.now n))
  (.ok trades, { w with trades := w.trades ++ trades })

/-- Apply `f` to the first trade with hash `h`; `none` if there is no such trade. -/
def updateFirst (h : Hash) (f : Trade → Trade) : List Trade → Option (List Trade)
  | [] => none
  | t :: ts => if t.hash = h then some (f t :: ts) else (updateFirst h f ts).map (t :: ·)

/-- `UpdateTradeStatus`. -/
def updateTradeStatus (h : Hash) (status : TradeStatus) : M Unit := call fun _ _ w =>
  match updateFirst h (fun t => { t with status := status }) w.trades with
  | some trades => (.ok (), { w with trades := trades })
  | none => (.error .notFound, w)

/-- `GetByTakerOrderHash`. -/
def getTradesByTakerOrderHash (h : Hash) : M (List Trade) := call fun env n w =>
  (.ok (env.scanTrades n (w.trades.filter (·.takerOrderHash = h))), w)

/-- The stored trade `d` after an update with `t`: `$set` writes every field but `hash` and
`createdAt`. -/
def Trade.set (t d : Trade) : Trade := { t with hash := d.hash, createdAt := d.createdAt }

/-- `FindAndModify(t.Hash, t)`: a trade that is not stored is inserted. -/
def findAndModifyTrade (t : Trade) : M Trade := call fun env n w =>
  match updateFirst t.hash t.set w.trades, w.trades.find? (·.hash = t.hash) with
  | some trades, some d => (.ok (t.set d), { w with trades := trades })
  | _, _ => (.ok (t.stamp (env.now n)), { w with trades := w.trades ++ [t.stamp (env.now n)] })

/-- `$set` of the status of the trades that `p` selects. -/
def setTradeStatuses (p : Trade → Bool) (status : TradeStatus) (ts : List Trade) : List Trade :=
  ts.map fun t => if p t then { t with status := status } else t

section

variable {p q : Trade → Bool} {status : TradeStatus} {ts : List Trade}

theorem getElem?_setTradeStatuses {i : Nat} {x : Trade} (h : ts[i]? = some x) :
    (setTradeStatuses p status ts)[i]? = some (if p x then { x with status := status } else x) := by
  rw [setTradeStatuses, List.getElem?_map, h]
  rfl

theorem setTradeStatuses_congr (h : ∀ t ∈ ts, p t = q t) :
    setTradeStatuses p status ts = setTradeStatuses q status ts :=
  List.map_congr_left fun t ht => by rw [h t ht]

theorem setTradeStatuses_eq_self :
    setTradeStatuses p status ts = ts ↔ ∀ t ∈ ts, p t = true → t.status = status := by
  have hmap : setTradeStatuses p status ts = ts ↔
      ∀ t ∈ ts, (if p t then { t with status := status } else t) = id t := by
    rw [← List.map_inj_left, List.map_id]
    rfl
  rw [hmap]
  refine forall₂_congr fun t _ => ?_
  constructor
  · intro h hp
    rw [if_pos hp, id] at h
    rw [← h]
  · intro h
    split
    · next hp => rw [← h hp, id]
    · rfl

theorem setTradeStatuses_none (status : TradeStatus) (h : ∀ t ∈ ts, ¬p t = true) :
    setTradeStatuses p status ts = ts :=
  setTradeStatuses_eq_self.2 fun t ht hp => absurd hp (h t ht)

theorem setTradeStatuses_mid (p : Trade → Bool) (status : TradeStatus) (pre post : List Trade)
    (d : Trade) : setTradeStatuses p status (pre ++ d :: post) =
      setTradeStatuses p status pre ++
        (if p d then { d with status := status } else d) :: setTradeStatuses p status post := by
  simp [setTradeStatuses]

theorem map_hash_setTradeStatuses (p : Trade → Bool) (status : TradeStatus) (ts : List Trade) :
    (setTradeStatuses p status ts).map (·.hash) = ts.map (·.hash) := by
  rw [setTradeStatuses, List.map_map]
  refine List.map_congr_left fun t _ => ?_
  rw [Function.comp_apply]
  split <;> rfl

theorem setTradeStatuses_comp (hs hs' : List Hash) (status : TradeStatus) (ts : List Trade) :
    setTradeStatuses (·.hash ∈ hs') status (setTradeStatuses (·.hash ∈ hs) status ts) =
      setTradeStatuses (·.hash ∈ hs ++ hs') status ts := by
  rw [setTradeStatuses, setTradeStatuses, List.map_map]
  refine List.map_congr_left fun t _ => ?_
  by_cases ht : t.hash ∈ hs <;> simp [ht]

end

/-- The update of all trades that a query selects, and their retrieval. When a call fails, the
error is logged and `nil, nil` returned. -/
def updateTradeStatusesWhere (p : Trade → Bool) (status : TradeStatus) : M (List Trade) := do
  let updated ← Prog.attempt <| call fun _ _ w =>
    (.ok (), { w with trades := setTradeStatuses p status w.trades })
  match updated with
  | .error _ => pure []
  | .ok () =>
    let trades ← Prog.attempt <| call fun env n w =>
      (.ok (env.scanTrades n (w.trades.filter p)), w)
    match trades with
    | .error _ => pure []
    | .ok trades => pure trades

/-- `UpdateTradeStatuses`. -/
def updateTradeStatuses (status : TradeStatus) (hashes : List Hash) : M (List Trade) :=
  updateTradeStatusesWhere (·.hash ∈ hashes) status

/-- `UpdateTradeStatusesByOrderHashes`: the query is on the maker's order hash only. -/
def updateTradeStatusesByOrderHashes (status : TradeStatus) (hashes : List Hash) :
    M (List Trade) :=
  updateTradeStatusesWhere (·.makerOrderHash ∈ hashes) status

end Dex
