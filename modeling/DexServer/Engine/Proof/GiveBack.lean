import DexServer.Engine.Proof.Invalidate
import DexServer.Sample

/-!
# What an invalidation gives back

The trades of a batch name one taker and different makers. `invalidateMakerOrders` passes the
taker's hash once for each trade; the store returns the taker once, so it gets back the amount of
the first trade. `invalidateTakerOrders` passes the hashes of the makers; the store returns the
makers in an order of its own, and they get the amounts back by their places.

* `taker_given_back_iff`: the taker gets everything back exactly if the first amount does it.
* `makers_given_back_iff`: whatever order the store answers in, each maker gets its own amount back,
  exactly if the amount of every trade does it for every maker.
-/

namespace Dex

open Lib

/-- The trades of `m` are trades of its taker, each with the maker at its place. -/
structure Matches.Entries (m : Matches) : Prop where
  makers : m.trades.map (·.makerOrderHash) = m.makerOrders.map Order.hash
  taker : ∀ t ∈ m.trades, t.takerOrderHash = m.takerOrder.hash

/-- The taker is none of the makers. -/
def Matches.Apart (m : Matches) : Prop := ∀ t ∈ m.trades, t.makerOrderHash ≠ m.takerOrder.hash

instance (m : Matches) : Decidable m.Apart := inferInstanceAs (Decidable (∀ t ∈ m.trades, _))

theorem Matches.Apart.notMem {m : Matches} (h : m.Apart) :
    m.takerOrder.hash ∉ m.trades.map (·.makerOrderHash) := by
  intro hmem
  obtain ⟨t, ht, he⟩ := List.mem_map.1 hmem
  exact h t ht he

/-- The order `x` is `d` with `a` given back. -/
structure GaveBack (d : Order) (a : Int) (x : Order) : Prop where
  filledAmount : x.filledAmount = d.filledAmount - a
  status : x.status = if d.filledAmount - a = 0 then .OPEN else .PARTIAL_FILLED

/-- Taking `a` off the fill of `d` gives back `due`: they are equal and the order does not stay
full, or `due` is the whole fill and `a` is no less. -/
def Order.Returns (d : Order) (due a : Int) : Prop :=
  (a < d.filledAmount ∧ d.filledAmount - a < d.amount ∧ a = due) ∨
    (d.filledAmount ≤ a ∧ d.filledAmount = due)

instance (d : Order) (due a : Int) : Decidable (d.Returns due a) :=
  inferInstanceAs (Decidable (_ ∨ _))

theorem GaveBack.not_invalidated {d x : Order} {a : Int} (h : GaveBack d a x) :
    x.status ≠ .INVALIDATED := by
  rw [h.status]
  split <;> decide

theorem restored_gaveBack_iff (d : Order) (due a : Int) :
    GaveBack d due (restored d a) ↔ d.Returns due a := by
  unfold restored Order.Returns
  dsimp only
  split
  · rename_i hle
    constructor
    · intro h
      have hfill : 0 = d.filledAmount - due := h.filledAmount
      exact .inr ⟨by omega, by omega⟩
    · intro h
      have hdue : d.filledAmount - due = 0 := by omega
      exact ⟨hdue.symm, by rw [if_pos hdue]⟩
  · rename_i hpos
    split
    · refine iff_of_false (fun h => ?_) (by omega)
      have hs : Status.FILLED = if d.filledAmount - due = 0 then .OPEN
          else .PARTIAL_FILLED := h.status
      split at hs <;> cases hs
    · constructor
      · intro h
        have hfill : d.filledAmount - a = d.filledAmount - due := h.filledAmount
        exact .inl ⟨by omega, by omega, by omega⟩
      · intro h
        have hdue : a = due := by omega
        subst hdue
        exact ⟨rfl, by rw [if_neg (by omega)]⟩

/-! ## The taker -/

/-- `invalidateMakerOrders` gives the taker `d` back what its trades in `m` took. -/
structure TakerGivenBack (m : Matches) (d : Order) (w w' : World) : Prop where
  taker : ∃ x, w'.orders.get m.takerOrder.hash = some x ∧ GaveBack d m.tradeAmounts.sum x
  makers : ∀ mo ∈ m.makerOrders,
    w'.orders.get mo.hash = (w.orders.get mo.hash).map (·.withStatus .INVALIDATED)
  /-- it is published again once, with that fill -/
  republished : ∃ x, w'.orderQueue = w.orderQueue ++ [.NEW_ORDER x] ∧
    x.hash = m.takerOrder.hash ∧ x.filledAmount = d.filledAmount - m.tradeAmounts.sum

theorem TakerGivenBack.stored {m : Matches} {d : Order} {w w' : World}
    (h : TakerGivenBack m d w w') : (w'.orders.get m.takerOrder.hash).map Order.filledAmount =
      some (d.filledAmount - m.tradeAmounts.sum) := by
  obtain ⟨x, hx, hback⟩ := h.taker
  rw [hx, Option.map_some, hback.filledAmount]

/-- There is a first trade, and its amount gives back everything. -/
def FirstReturns (m : Matches) (d : Order) : Prop :=
  m.Apart ∧ m.tradeAmounts.head?.any fun a => d.Returns m.tradeAmounts.sum a

instance (m : Matches) (d : Order) : Decidable (FirstReturns m d) :=
  inferInstanceAs (Decidable (_ ∧ _))

section
variable {m : Matches} (hm : m.Entries) {w : World}
include hm

theorem Matches.Entries.length : m.trades.length = m.makerOrders.length := by
  simpa using congrArg List.length hm.makers

theorem Matches.Entries.readHashes (f : Trade → Hash) : m.readHashes f = m.trades.map f := by
  rw [Matches.readHashes, List.take_of_length_le hm.length.le]

/-- The store finds the taker once, however many trades name it. -/
theorem Matches.Entries.found {d : Order} (hd : w.orders.get m.takerOrder.hash = some d) :
    w.found (m.trades.map (·.takerOrderHash)) = if m.trades = [] then [] else [d] := by
  obtain ⟨hmem, hkey⟩ := Coll.get_eq_some.1 hd
  unfold World.found
  split
  · rename_i hnil
    simp [hnil]
  · rename_i hne
    obtain ⟨t, ht⟩ := List.exists_mem_of_ne_nil _ hne
    rw [← filter_key_eq w.orders.nodup hmem]
    refine List.filter_congr fun x _ => ?_
    rw [hkey, decide_eq_decide]
    constructor
    · intro hx
      obtain ⟨u, hu, hux⟩ := List.mem_map.1 hx
      rw [← hux, hm.taker u hu]
    · intro hx
      rw [hx]
      exact List.mem_map.2 ⟨t, ht, hm.taker t ht⟩

/-- So it gets the first amount back. -/
theorem Matches.Entries.restoredOrders (env : Env) {d : Order}
    (hd : w.orders.get m.takerOrder.hash = some d) :
    env.restoredOrders w (m.trades.map (·.takerOrderHash)) m.tradeAmounts =
      (m.tradeAmounts.head?.map (restored d)).toList := by
  have hperm := env.scanOrders_perm w.calls (w.found (m.trades.map (·.takerOrderHash)))
  rw [hm.found hd] at hperm
  unfold Env.restoredOrders
  rw [hm.found hd]
  unfold Matches.tradeAmounts
  cases htrades : m.trades with
  | nil => simp
  | cons t ts =>
    rw [htrades, if_neg (List.cons_ne_nil t ts), List.perm_singleton] at hperm
    rw [if_neg (List.cons_ne_nil t ts), hperm]
    simp

theorem takerGivenBack_iff {env : Env} {d : Order} (hd : w.orders.get m.takerOrder.hash = some d)
    {w' : World} (h : InvalidatedAs
      (env.restoredOrders w (m.trades.map (·.takerOrderHash)) m.tradeAmounts)
      (m.trades.map (·.takerOrderHash)) (m.trades.map (·.makerOrderHash)) w w') :
    TakerGivenBack m d w w' ↔ FirstReturns m d := by
  obtain ⟨res, -, -, hb⟩ := h
  have hhash : d.hash = m.takerOrder.hash := Coll.get_key hd
  rw [hm.restoredOrders env hd] at hb
  by_cases hapart : m.Apart
  swap
  · -- the taker is marked as a maker
    refine iff_of_false (fun h => ?_) fun h => hapart h.1
    obtain ⟨x, hx, hback⟩ := h.taker
    unfold Matches.Apart at hapart
    push Not at hapart
    obtain ⟨t, ht, he⟩ := hapart
    have hmem : m.takerOrder.hash ∈ m.trades.map (·.makerOrderHash) := List.mem_map.2 ⟨t, ht, he⟩
    rw [hb.orders, get_setStatuses, Option.map_eq_some_iff] at hx
    obtain ⟨y, -, rfl⟩ := hx
    rw [if_pos hmem] at hback
    exact hback.not_invalidated rfl
  have hother := hapart.notMem
  unfold FirstReturns
  rw [and_iff_right hapart]
  cases ha : m.tradeAmounts.head? with
  | none =>
    -- without a trade nothing is given back and nothing is published
    refine iff_of_false (fun h => ?_) (by simp)
    obtain ⟨x, hx, -⟩ := h.republished
    rw [hb.orderQueue, ha] at hx
    simp at hx
  | some a =>
    rw [ha] at hb
    have horders := hb.orders
    have hqueue := hb.orderQueue
    simp only [Option.map_some, Option.toList_some, Coll.putAll_cons, Coll.putAll_nil,
      List.map_cons, List.map_nil] at horders hqueue
    have htaker : w'.orders.get m.takerOrder.hash = some (restored d a) := by
      rw [horders, get_setStatuses, Coll.get_put, if_pos (by rw [restored_hash, hhash])]
      simp [hother]
    rw [Option.any_some, decide_eq_true_iff, ← restored_gaveBack_iff]
    constructor
    · intro h
      obtain ⟨x, hx, hback⟩ := h.taker
      rw [htaker, Option.some.injEq] at hx
      rw [hx]
      exact hback
    · intro hback
      refine ⟨⟨_, htaker, hback⟩, fun mo hmo => ?_, _, hqueue, ?_, hback.filledAmount⟩
      · have hmem : mo.hash ∈ m.trades.map (·.makerOrderHash) := by
          rw [hm.makers]
          exact List.mem_map_of_mem hmo
        have hne : mo.hash ≠ (restored d a).hash := by
          rw [restored_hash, hhash]
          exact fun e => hother (e ▸ hmem)
        rw [horders, get_setStatuses, Coll.get_put_other hne]
        simp only [hmem, if_true]
      · rw [restored_hash, hhash]

end

/-- **Invalidating makers gives the taker back everything** exactly if the amount of the first trade
does. -/
theorem taker_given_back_iff {env : Env} (hf : env.Faultless) {m : Matches} (hm : m.Entries)
    {w : World} {d : Order} (hd : w.orders.get m.takerOrder.hash = some d) :
    Prog.wp (invalidateMakerOrders m) env w
      (fun _ w' => TakerGivenBack m d w w' ↔ FirstReturns m d) (fun _ _ => False) := by
  refine Prog.wp_mono (invalidateMakerOrders_wp m w) (fun _ w' h => ?_) fun e w' h => ?_
  · have hinv := h.2 hf
    rw [hm.readHashes, hm.readHashes] at hinv
    exact takerGivenBack_iff hm hd hinv
  · rcases h.1 with ⟨-, hnf⟩ | hlt
    · exact hnf hf
    · rw [hm.length] at hlt
      exact lt_irrefl _ hlt

/-- A SELL of 4, a SELL of 6 and the BUY of 10 that took both, under the hashes 1, 2 and 3. -/
def World.sampleFilled : World :=
  { World.empty with orders := Lib.Coll.empty.putAll <|
      [(Order.sample 1 .SELL 5 4).complete, (Order.sample 2 .SELL 5 6).complete,
        (Order.sample 3 .BUY 5 10).complete] }

/-- The trade of the BUY with the SELL `h`. -/
def Trade.sampleWith (h : Hash) (amount : Int) : Trade :=
  { newTrade .sample (Order.sample 3 .BUY 5 10) (Order.sample h .SELL 5 amount) with
    amount := amount }

/-- The batch of the BUY with the SELL orders `es`, each with the amount of its trade. -/
def Matches.sampleOf (es : List (Hash × Int)) : Matches :=
  ⟨es.map fun e => Order.sample e.1 .SELL 5 e.2, Order.sample 3 .BUY 5 10,
    es.map fun e => Trade.sampleWith e.1 e.2⟩

/-- One SELL is invalidated: the BUY gets its 4 back. -/
theorem taker_given_back_single :
    ∃ w', invalidateMakerOrders (.sampleOf [(1, 4)]) (.sample .stored) .sampleFilled =
      (.ok (), w') ∧
      TakerGivenBack (.sampleOf [(1, 4)]) (Order.sample 3 .BUY 5 10).complete .sampleFilled w' := by
  have h := taker_given_back_iff (Env.sample_faultless .stored) (m := .sampleOf [(1, 4)])
    ⟨rfl, by decide⟩ (w := .sampleFilled) (d := (Order.sample 3 .BUY 5 10).complete) rfl
  exact ⟨_, rfl, h.2 (by decide)⟩

/-- Both are invalidated: the BUY gets back the 4 of the first trade and is published with the fill
of the second. -/
theorem taker_keeps_fill :
    ∃ w', invalidateMakerOrders (.sampleOf [(1, 4), (2, 6)]) (.sample .stored) .sampleFilled =
        (.ok (), w') ∧
      (Matches.sampleOf [(1, 4), (2, 6)]).Entries ∧
      (w'.orders.get 3).map (fun d => (d.filledAmount, d.status)) = some (6, .PARTIAL_FILLED) ∧
      ¬TakerGivenBack (.sampleOf [(1, 4), (2, 6)]) (Order.sample 3 .BUY 5 10).complete
        .sampleFilled w' := by
  refine ⟨_, rfl, ⟨rfl, by decide⟩, by decide +kernel, fun h => ?_⟩
  exact absurd h.stored (by decide +kernel)

/-! ## The makers -/

/-- The environment with another order of the answers. -/
def Env.withScan (env : Env) (scan : Nat → List Order → List Order)
    (hscan : ∀ n l, (scan n l).Perm l) : Env :=
  { env with scanOrders := scan, scanOrders_perm := hscan }

/-- `invalidateTakerOrders` gives each maker back what its trade in `m` took. -/
structure MakersGivenBack (m : Matches) (w w' : World) : Prop where
  makers : ∀ t ∈ m.trades, ∀ d, w.orders.get t.makerOrderHash = some d →
    ∃ x, w'.orders.get t.makerOrderHash = some x ∧ GaveBack d t.amount x
  taker : w'.orders.get m.takerOrder.hash =
    (w.orders.get m.takerOrder.hash).map (·.withStatus .INVALIDATED)

theorem MakersGivenBack.stored {m : Matches} {w w' : World} (h : MakersGivenBack m w w') {t : Trade}
    (ht : t ∈ m.trades) {d : Order} (hd : w.orders.get t.makerOrderHash = some d) :
    (w'.orders.get t.makerOrderHash).map Order.filledAmount = some (d.filledAmount - t.amount) := by
  obtain ⟨x, hx, hback⟩ := h.makers t ht d hd
  rw [hx, Option.map_some, hback.filledAmount]

/-- The amount of any trade gives back to a maker what is due to it. -/
def AllReturn (m : Matches) (w : World) : Prop :=
  m.Apart ∧ ∀ t ∈ m.trades, ∀ d ∈ w.orders.get t.makerOrderHash,
    ∀ u ∈ m.trades, d.Returns t.amount u.amount

instance (m : Matches) (w : World) : Decidable (AllReturn m w) :=
  inferInstanceAs (Decidable (_ ∧ _))

/-- An answer in which `d` comes at place `j`. -/
def scanAt (d : Order) (j : Nat) (l : List Order) : List Order :=
  if d ∈ l ∧ j < l.length then (l.erase d).insertIdx j d else l

theorem scanAt_perm (d : Order) (j : Nat) (l : List Order) : (scanAt d j l).Perm l := by
  unfold scanAt
  split
  · rename_i h
    have hlen : j ≤ (l.erase d).length := by
      rw [List.length_erase_of_mem h.1]
      omega
    exact (List.perm_insertIdx d (l.erase d) hlen).trans (List.perm_cons_erase h.1).symm
  · exact .rfl

theorem getElem?_scanAt {d : Order} {j : Nat} {l : List Order} (hd : d ∈ l) (hj : j < l.length) :
    (scanAt d j l)[j]? = some d := by
  have hlen : j ≤ (l.erase d).length := by
    rw [List.length_erase_of_mem hd]
    omega
  rw [scanAt, if_pos ⟨hd, hj⟩, List.getElem?_insertIdx_self, if_pos hlen]

theorem mem_found {m : Matches} {w : World} {t : Trade} (ht : t ∈ m.trades) {d : Order}
    (hd : w.orders.get t.makerOrderHash = some d) :
    d ∈ w.found (m.trades.map (·.makerOrderHash)) := by
  obtain ⟨hdmem, hkey⟩ := Coll.get_eq_some.1 hd
  refine List.mem_filter.2 ⟨hdmem, ?_⟩
  rw [hkey]
  exact decide_eq_true (List.mem_map.2 ⟨t, ht, rfl⟩)

section
variable {m : Matches} (hn : (m.trades.map (·.makerOrderHash)).Nodup) {w : World}
  (hs : ∀ t ∈ m.trades, (w.orders.get t.makerOrderHash).isSome) {env : Env}
include hn hs

theorem length_found_makers :
    (w.found (m.trades.map (·.makerOrderHash))).length = m.trades.length := by
  have hperm : ((w.found (m.trades.map (·.makerOrderHash))).map Order.hash).Perm
      (m.trades.map (·.makerOrderHash)) := by
    have hfound : ((w.found (m.trades.map (·.makerOrderHash))).map Order.hash).Nodup :=
      Coll.nodup_of_subperm List.filter_sublist.subperm
    refine (List.perm_ext_iff_of_nodup hfound hn).2 fun h => ?_
    constructor
    · intro hmem
      obtain ⟨d, hd, rfl⟩ := List.mem_map.1 hmem
      simpa using (List.mem_filter.1 hd).2
    · intro hmem
      obtain ⟨t, ht, rfl⟩ := List.mem_map.1 hmem
      obtain ⟨d, hd⟩ := Option.isSome_iff_exists.1 (hs t ht)
      exact List.mem_map.2 ⟨d, mem_found ht hd, Coll.get_key hd⟩
  simpa using hperm.length_eq

omit hn hs in
theorem get_restoredOrders (hapart : m.Apart) {w' : World} (h : InvalidatedAs
      (env.restoredOrders w (m.trades.map (·.makerOrderHash)) m.tradeAmounts)
      (m.trades.map (·.makerOrderHash)) [m.takerOrder.hash] w w') {t u : Trade} (ht : t ∈ m.trades)
    {d : Order} (hd : w.orders.get t.makerOrderHash = some d) {j : Nat}
    (hj : (env.scanOrders w.calls (w.found (m.trades.map (·.makerOrderHash))))[j]? = some d)
    (hu : m.trades[j]? = some u) : w'.orders.get t.makerOrderHash = some (restored d u.amount) := by
  obtain ⟨res, -, -, hb⟩ := h
  have hkey : d.hash = t.makerOrderHash := Coll.get_key hd
  have hmem : restored d u.amount ∈
      env.restoredOrders w (m.trades.map (·.makerOrderHash)) m.tradeAmounts := by
    refine List.mem_of_getElem? (i := j) ?_
    rw [Env.restoredOrders, List.getElem?_zipWith_eq_some]
    exact ⟨d, u.amount, hj, by rw [Matches.tradeAmounts, List.getElem?_map, hu]; rfl, rfl⟩
  have hnodup :=
    (env.givenBackAll w (m.trades.map (·.makerOrderHash)) m.tradeAmounts).givenBack.nodup
  have hget := Coll.get_putAll_mem (c := w.orders) hnodup hmem
  rw [restored_hash, hkey] at hget
  rw [hb.orders, get_setStatuses, hget]
  simp [hapart t ht]

theorem makersGivenBack_of_allReturn (hall : AllReturn m w) {w' : World} (h : InvalidatedAs
      (env.restoredOrders w (m.trades.map (·.makerOrderHash)) m.tradeAmounts)
      (m.trades.map (·.makerOrderHash)) [m.takerOrder.hash] w w') : MakersGivenBack m w w' := by
  have hscan := env.scanOrders_perm w.calls (w.found (m.trades.map (·.makerOrderHash)))
  refine ⟨fun t ht d hd => ?_, ?_⟩
  · have hfound := mem_found ht hd
    -- wherever the store returns the maker, the trade at that place does it
    obtain ⟨j, hj, hjd⟩ := List.getElem_of_mem (hscan.mem_iff.2 hfound)
    have hjt : j < m.trades.length := by
      rw [← length_found_makers hn hs, ← hscan.length_eq]
      exact hj
    have hget := get_restoredOrders hall.1 h ht hd (List.getElem?_eq_some_iff.2 ⟨hj, hjd⟩)
      (List.getElem?_eq_getElem hjt)
    have hreturns := hall.2 t ht d hd _ (List.getElem_mem hjt)
    exact ⟨_, hget, (restored_gaveBack_iff _ _ _).2 hreturns⟩
  · obtain ⟨res, -, -, hb⟩ := h
    have hne : ∀ x ∈ env.restoredOrders w (m.trades.map (·.makerOrderHash)) m.tradeAmounts,
        x.hash ≠ m.takerOrder.hash := by
      intro x hx he
      obtain ⟨d, -, hdh, a, rfl⟩ := (env.givenBackAll w _ _).givenBack.mem hx
      obtain ⟨t, ht, hth⟩ := List.mem_map.1 hdh
      rw [restored_hash, ← hth] at he
      exact hall.1 t ht he
    rw [hb.orders, get_setStatuses, Coll.get_putAll_other hne]
    simp

end

/-- **Invalidating a taker gives each maker back its own amount**, whatever order the store answers
in, exactly if the amount of every trade gives back to every maker what is due to it. -/
theorem makers_given_back_iff {env : Env} (hf : env.Faultless) {m : Matches}
    (hn : (m.trades.map (·.makerOrderHash)).Nodup) {w : World}
    (hs : ∀ t ∈ m.trades, (w.orders.get t.makerOrderHash).isSome) :
    (∀ scan hscan, Prog.wp (invalidateTakerOrders m) (env.withScan scan hscan) w
      (fun _ w' => MakersGivenBack m w w') (fun _ _ => False)) ↔ AllReturn m w := by
  have hrun : ∀ scan hscan, Prog.wp (invalidateTakerOrders m) (env.withScan scan hscan) w
      (fun _ w' => InvalidatedAs ((env.withScan scan hscan).restoredOrders w
        (m.trades.map (·.makerOrderHash)) m.tradeAmounts) (m.trades.map (·.makerOrderHash))
        [m.takerOrder.hash] w w') (fun _ _ => False) := by
    intro scan hscan
    exact Prog.wp_mono (invalidateTakerOrders_wp m w) (fun _ _ h => h.2 hf) fun _ _ h => h.1.2 hf
  constructor
  · intro h
    have hapart : m.Apart := by
      intro t ht he
      obtain ⟨d, hd⟩ := Option.isSome_iff_exists.1 (hs t ht)
      refine Prog.wp_state (P := fun _ => False) (Prog.wp_mono (h (fun _ l => l) fun _ _ => .rfl)
        (fun _ w' hgiven => ?_) fun _ _ h => h)
      obtain ⟨x, hx, hback⟩ := hgiven.makers t ht d hd
      rw [he, hgiven.taker, ← he, hd, Option.map_some, Option.some.injEq] at hx
      exact hback.not_invalidated (hx ▸ rfl)
    refine ⟨hapart, fun t ht d hd u hu => ?_⟩
    obtain ⟨j, hj, hju⟩ := List.getElem_of_mem hu
    have hfound := mem_found ht hd
    -- the store returns the maker of `t` at the place of `u`
    have hplace := getElem?_scanAt hfound (j := j) (by rw [length_found_makers hn hs]; exact hj)
    have hboth := Prog.wp_and (h (fun _ => scanAt d j) fun _ => scanAt_perm d j)
      (hrun (fun _ => scanAt d j) fun _ => scanAt_perm d j)
    refine Prog.wp_state (P := fun _ => d.Returns t.amount u.amount)
      (Prog.wp_mono hboth (fun _ w' ⟨hgiven, hinv⟩ => ?_) fun _ _ h => h.1.elim)
    obtain ⟨x, hx, hback⟩ := hgiven.makers t ht d hd
    have hget := get_restoredOrders hapart hinv ht hd hplace (List.getElem?_eq_some_iff.2 ⟨hj, hju⟩)
    rw [hget, Option.some.injEq] at hx
    exact (restored_gaveBack_iff _ _ _).1 (hx ▸ hback)
  · intro hall scan hscan
    exact Prog.wp_mono (hrun scan hscan) (fun _ _ h => makersGivenBack_of_allReturn hn hs hall h)
      fun _ _ h => h

/-- A SELL of 4 and a SELL of 4 that the BUY of 10 took. -/
def World.sampleEqual : World :=
  { World.empty with orders := Lib.Coll.empty.putAll <|
      [(Order.sample 1 .SELL 5 4).complete, (Order.sample 2 .SELL 5 4).complete,
        { Order.sample 3 .BUY 5 10 with filledAmount := 8, status := .PARTIAL_FILLED }] }

/-- The two trades are of one amount, so the places do not matter. -/
theorem makers_given_back_equal :
    ∃ w', invalidateTakerOrders (.sampleOf [(1, 4), (2, 4)]) (.sample .stored) .sampleEqual =
        (.ok (), w') ∧
      MakersGivenBack (.sampleOf [(1, 4), (2, 4)]) .sampleEqual w' := by
  have h := (makers_given_back_iff (Env.sample_faultless .stored) (m := .sampleOf [(1, 4), (2, 4)])
    (by decide) (w := .sampleEqual) (by decide)).2 (by decide)
  exact ⟨_, rfl, h (fun _ l => l) fun _ _ => .rfl⟩

/-- The store returns the SELL of 6 before the SELL of 4: the first gets 4 back and stays filled
with 2, the second gets more back than it has. -/
theorem makers_swapped :
    let env := (Env.sample .stored).withScan (fun _ l => l.reverse) fun _ l => l.reverse_perm
    ∃ w', invalidateTakerOrders (.sampleOf [(1, 4), (2, 6)]) env .sampleFilled = (.ok (), w') ∧
      (w'.orders.get 1).map (fun d => (d.filledAmount, d.status)) = some (0, .OPEN) ∧
      (w'.orders.get 2).map (fun d => (d.filledAmount, d.status)) = some (2, .PARTIAL_FILLED) ∧
      ¬MakersGivenBack (.sampleOf [(1, 4), (2, 6)]) .sampleFilled w' := by
  intro env
  refine ⟨_, rfl, by decide +kernel, by decide +kernel, fun h => ?_⟩
  have hstored : World.sampleFilled.orders.get (Trade.sampleWith 2 6).makerOrderHash =
      some (Order.sample 2 .SELL 5 6).complete := rfl
  exact absurd (h.stored (.tail _ (.head _)) hstored) (by decide +kernel)

end Dex
