import DexServer.Endpoints.Address
import DexServer.Lib.Run
import DexServer.Sample

/-!
# The addresses users are given

* `AddressRequest.work_worked`: what a step of a request can do. `AddressRequest.work_alone`: a
  request that nobody interrupts does what the handlers say.
* `given_addresses_kept`: an address given to a user stays the user's as long as no other one is
  stored for them. It is lost when the user asks again after the deposit has succeeded or failed, or
  twice at the same time (`given_address_lost`).
* `address_indices_distinct`: `GenerateAddress` increments the index and reads it back with two
  calls, so two callers that come between each other get the same one (`address_index_shared`);
  indices are distinct as long as no call is made between the two.
-/

namespace Dex

open Lib

/-- The chains for which addresses are counted. -/
def Chain.Known (chain : Chain) : Prop := chain = .ethereum ∨ chain = .bitcoin

theorem addressIndexKey_known {chain : Chain} {key : String} (h : addressIndexKey chain = .ok key) :
    chain.Known := by
  unfold addressIndexKey at h
  split at h
  · exact .inl ‹_›
  · split at h
    · exact .inr ‹_›
    · cases h

theorem AddressIndices.get_set {c : AddressIndices} {chain chain' : Chain} {v : BitVec 64}
    (h : chain.Known) (h' : chain'.Known) :
    (c.set chain v).get chain' = if chain' = chain then some v else c.get chain' := by
  rcases h with rfl | rfl <;> rcases h' with rfl | rfl <;> rfl

/-! ## A step of a request -/

/-- How a request ends. -/
def AddressStage.ofResult : Except Err Address → AddressStage
  | .ok address => .returned address
  | .error _ => .failed

namespace AddressRequest

/-- The associations and the indices stay. -/
structure Idle (w w' : World) : Prop where
  associations : w'.associations = w.associations
  addressIndices : w'.addressIndices = w.addressIndices

/-- What the next step of the request `r` can do. -/
inductive Worked (g : AddressGenerator) (w : World) (r : AddressRequest) : AddressStage →
    World → Prop
  | idle {stage : AddressStage} {w' : World} (world : Idle w w') (reading : stage ≠ .reading)
      (generated : AddressDesk.newlyGenerated r stage = [])
      (given : AddressDesk.newlyGiven r stage = []) :
      Worked g w r stage w'
  | found {a : AddressAssociationRecord} {w' : World} (world : Idle w w')
      (stage : r.stage = .looking)
      (stored : a ∈ w.associations.coll) (owner : a.owner = (r.chain, r.associatedAddress)) :
      Worked g w r (.returned a.address) w'
  | incremented {v : BitVec 64} {w' : World} (stage : r.stage = .incrementing)
      (known : r.chain.Known)
      (stored : w.addressIndices.get r.chain = some v) (small : v.toInt ≠ 2 ^ 63 - 1)
      (associations : w'.associations = w.associations)
      (indices : w'.addressIndices = w.addressIndices.set r.chain (v + 1)) :
      Worked g w r .reading w'
  | read {v : BitVec 64} {address : Address} {w' : World} (world : Idle w w')
      (stage : r.stage = .reading)
      (known : r.chain.Known) (stored : w.addressIndices.get r.chain = some v)
      (address_eq : g.generate v.toNat = .ok address) : Worked g w r (.saving address v.toNat) w'
  | saved {address : Address} {index : Nat} {a : AddressAssociationRecord} {c : Associations}
      {w' : World} (stage : r.stage = .saving address index) (key : a.key = (r.chain, address))
      (owner : a.owner = (r.chain, r.associatedAddress)) (upsert : w.associations.upsert a = some c)
      (associations : w'.associations = c) (indices : w'.addressIndices = w.addressIndices) :
      Worked g w r (.returned address) w'

section
variable {g : AddressGenerator} {env : Env} {w : World} {r : AddressRequest}

theorem idle_rfl : Idle w w := ⟨rfl, rfl⟩

theorem idle_tick : Idle w w.tick := ⟨rfl, rfl⟩

theorem Worked.failed {w' : World} (h : Idle w w') : r.Worked g w .failed w' :=
  .idle h nofun (AddressDesk.newlyGenerated_eq_nil nofun) (AddressDesk.newlyGiven_eq_nil nofun)

theorem getAddressIndex_wp {chain : Chain} : Prog.wp (getAddressIndex chain) env w
    (fun index w' => Idle w w' ∧ chain.Known ∧ ∃ v, w.addressIndices.get chain = some v ∧
      index = v.toNat)
    (fun _ w' => Idle w w') := by
  unfold getAddressIndex
  rw [Prog.wp_bind]
  refine wp_checked (fun key hkey => ?_) fun _ => idle_rfl
  simp only [Prog.wp_bind, Prog.wp_attempt]
  refine wp_call (fun _ => idle_tick) fun _ => ?_
  cases hv : w.tick.addressIndices.get chain with
  | none => exact idle_tick
  | some v => exact ⟨idle_tick, addressIndexKey_known hkey, v, hv, rfl⟩

/-- **A step of a request** is one of `Worked`; a panic changes nothing. -/
theorem work_worked (g : AddressGenerator) (r : AddressRequest) (env : Env) (w : World) :
    Prog.wp (r.work g) env w (r.Worked g w) (fun _ => Idle w) := by
  unfold work
  split
  · rename_i hstage
    rw [Prog.wp_bind]
    have hidle : r.Worked g w .incrementing w.tick :=
      .idle idle_tick nofun (AddressDesk.newlyGenerated_eq_nil nofun)
        (AddressDesk.newlyGiven_eq_nil nofun)
    refine wp_attempted (wp_call (fun _ => ⟨hidle, idle_tick⟩) fun _ => ?_)
    rw [Prog.ends_ok]
    cases ha : w.tick.associations.getByAssociatedAddress r.chain r.associatedAddress with
    | none => exact hidle
    | some a =>
      obtain ⟨hmem, howner⟩ := Associations.mem_of_getByAssociatedAddress ha
      dsimp only
      split
      · exact .found idle_tick hstage hmem howner
      · exact hidle
  · rename_i hstage
    rw [Prog.wp_bind]
    refine wp_attempted ?_
    unfold incrementAddressIndex
    rw [Prog.wp_bind]
    refine wp_checked (fun key hkey => ?_) fun _ => ⟨.failed idle_rfl, idle_rfl⟩
    refine wp_call (fun _ => ⟨.failed idle_tick, idle_tick⟩) fun _ => ?_
    cases hv : w.tick.addressIndices.get r.chain with
    | none => exact ⟨.failed idle_tick, idle_tick⟩
    | some v =>
      dsimp only
      split
      · exact ⟨.failed idle_tick, idle_tick⟩
      · exact .incremented hstage (addressIndexKey_known hkey) hv ‹_› rfl rfl
  · rename_i hstage
    rw [Prog.wp_bind]
    refine wp_attempted ?_
    unfold readAddress
    rw [Prog.wp_bind]
    refine Prog.wp_mono getAddressIndex_wp (fun index w₁ h₁ => ?_) fun _ _ h => ⟨.failed h, h⟩
    obtain ⟨hidle, hknown, v, hv, rfl⟩ := h₁
    rw [Prog.wp_bind]
    refine wp_checked (fun address haddress => ?_) fun _ => ⟨.failed hidle, hidle⟩
    exact .read hidle hstage hknown hv haddress
  · rename_i address index hstage
    rw [Prog.wp_bind]
    refine wp_attempted ?_
    unfold DepositService.saveAssociationByChainAddress
    rw [Prog.wp_bind]
    cases r.pairAddresses with
    | none => exact ⟨.failed idle_rfl, idle_rfl⟩
    | some p =>
      refine wp_call (fun _ => ⟨.failed idle_tick, idle_tick⟩) fun _ => ?_
      dsimp only
      split
      · exact ⟨.failed idle_tick, idle_tick⟩
      · rename_i c hc
        exact .saved hstage rfl rfl hc rfl rfl
  · rename_i address hstage
    refine .idle idle_rfl nofun (AddressDesk.newlyGenerated_eq_nil nofun) ?_
    unfold AddressDesk.newlyGiven
    rw [hstage]
  · exact .failed idle_rfl

end

/-- **A request that nobody interrupts** does what `giveAddress` says. -/
theorem work_alone (g : AddressGenerator) (q : AddressQuery) :
    (work g ⟨q, .looking⟩ >>= fun s => work g ⟨q, s⟩ >>= fun s => work g ⟨q, s⟩ >>= fun s =>
      work g ⟨q, s⟩) =
      attempted (DepositEndpoint.giveAddress g q.chain q.associatedAddress q.pairAddresses) >>=
        fun x => pure (.ofResult x) := by
  have hnew : (work g ⟨q, .incrementing⟩ >>= fun s => work g ⟨q, s⟩ >>= fun s => work g ⟨q, s⟩) =
      attempted (DepositEndpoint.newAddress g q.chain q.associatedAddress q.pairAddresses) >>=
        fun x => pure (.ofResult x) := by
    have hgenerate : DepositService.generateAddress g q.chain =
        incrementAddressIndex q.chain >>= fun _ => readAddress g q.chain := rfl
    unfold DepositEndpoint.newAddress
    rw [hgenerate]
    simp only [attempted_bind, Prog.bind_assoc]
    show (attempted (incrementAddressIndex q.chain) >>= _) >>= _ = _
    rw [Prog.bind_assoc]
    refine congrArg (Bind.bind _) (funext fun x => ?_)
    match x with
    | .error e => rfl
    | .ok () =>
      show (attempted (readAddress g q.chain) >>= _) >>= _ = _
      rw [Prog.bind_assoc, Prog.bind_assoc]
      refine congrArg (Bind.bind _) (funext fun x => ?_)
      match x with
      | .error e => rfl
      | .ok (address, index) =>
        simp only [Prog.pure_bind, attempted_pure, Prog.bind_assoc]
        refine congrArg (Bind.bind _) (funext fun x => ?_)
        match x with
        | .error e => rfl
        | .ok () => rfl
  unfold DepositEndpoint.giveAddress
  simp only [attempted_bind, attempted_attempted, Prog.bind_assoc, Prog.pure_bind]
  show (attempted (getAssociationByChainAssociatedAddress _ _) >>= _) >>= _ = _
  rw [Prog.bind_assoc]
  refine congrArg (Bind.bind _) (funext fun x => ?_)
  match x with
  | .ok (some a) =>
    dsimp only
    split
    · rfl
    · exact hnew
  | .ok none => exact hnew
  | .error e => exact hnew
end AddressRequest

/-! ## A step of the desk -/

namespace AddressDesk

/-- What a step can do: requests begin or are lost and statuses change, or one request goes on. -/
inductive Moved (g : AddressGenerator) (σ : AddressDesk) (op : AddressOp) : AddressDesk → Prop
  | idle {σ' : AddressDesk}
      (reading : ∀ (i : Nat) (r : AddressRequest), σ'.requests[i]? = some r → r.stage = .reading →
        σ.requests[i]? = some r)
      (indices : σ'.world.addressIndices = σ.world.addressIndices)
      (associations : ∀ a ∈ σ.world.associations.coll,
        ∃ a' ∈ σ'.world.associations.coll, a'.key = a.key ∧ a'.owner = a.owner)
      (generated : σ'.generated = σ.generated) (given : σ'.given = σ.given) : Moved g σ op σ'
  | work {i : Nat} {r : AddressRequest} {stage : AddressStage} {w : World} (op_eq : op = .work i)
      (request : σ.requests[i]? = some r) (worked : r.Worked g σ.world stage w) :
      Moved g σ op ⟨w, σ.requests.set i { r with stage }, σ.generated ++ newlyGenerated r stage,
        σ.given ++ newlyGiven r stage⟩

variable {g : AddressGenerator} {env : Env} {σ : AddressDesk} {op : AddressOp}

theorem Moved.receive (q : Option AddressQuery) : σ.Moved g op (σ.receive q) := by
  refine .idle (fun i r hr hs => ?_) rfl (fun a ha => ⟨a, ha, rfl, rfl⟩) rfl rfl
  cases q with
  | none => simpa [AddressDesk.receive] using hr
  | some q =>
    simp only [AddressDesk.receive, Option.map_some, Option.toList_some, List.getElem?_append] at hr
    split at hr
    · exact hr
    · rw [List.mem_singleton.1 (List.mem_of_getElem? hr)] at hs
      cases hs

theorem saveAssociationStatus_keeps (chain : Chain) (address : Address) (status : DepositStatus)
    (env : Env) (w : World) :
    (saveAssociationStatus chain address status env w).2.addressIndices = w.addressIndices ∧
      ∀ a ∈ w.associations.coll,
      ∃ a' ∈ (saveAssociationStatus chain address status env w).2.associations.coll,
        a'.key = a.key ∧ a'.owner = a.owner := by
  refine Prog.wp_state (P := fun w' : World => w'.addressIndices = w.addressIndices ∧
    ∀ a ∈ w.associations.coll, ∃ a' ∈ w'.associations.coll, a'.key = a.key ∧ a'.owner = a.owner) ?_
  unfold saveAssociationStatus updateAssociation
  refine wp_call (fun _ => ⟨rfl, fun a ha => ⟨a, ha, rfl, rfl⟩⟩) fun _ => ?_
  cases w.tick.associations.getByAddress chain address with
  | none => exact ⟨rfl, fun a ha => ⟨a, ha, rfl, rfl⟩⟩
  | some _ => exact ⟨rfl, fun a ha => Associations.exists_mem_update (c := w.associations)
      (f := fun a => { a with status }) (fun _ => rfl) (fun _ => rfl) ha⟩

end AddressDesk

/-- **A step of the desk** is one of `AddressDesk.Moved`. -/
theorem AddressOp.step_moved (g : AddressGenerator) (env : Env) (σ : AddressDesk) (op : AddressOp) :
    σ.Moved g op (op.step g env σ) := by
  cases op with
  | http chain userAddress body => exact .receive _
  | ws payload => exact .receive payload
  | work i =>
    unfold step
    dsimp only
    cases hr : σ.requests[i]? with
    | none => exact .idle (fun _ _ h _ => h) rfl (fun a ha => ⟨a, ha, rfl, rfl⟩) rfl rfl
    | some r =>
      have hwork := r.work_worked g env σ.world
      unfold Prog.wp at hwork
      dsimp only
      generalize r.work g env σ.world = x at hwork
      match x, hwork with
      | (.ok stage, w), h => exact .work rfl hr h
      | (.error _, w), h =>
        refine .idle nofun h.addressIndices (fun a ha => ⟨a, ?_, rfl, rfl⟩) rfl rfl
        rw [h.associations]
        exact ha
  | status chain address s =>
    obtain ⟨hindices, hassociations⟩ := AddressDesk.saveAssociationStatus_keeps chain address s
      env σ.world
    exact .idle (fun _ _ h _ => h) hindices hassociations rfl rfl
  | crash => exact .idle nofun rfl (fun a ha => ⟨a, ha, rfl, rfl⟩) rfl rfl

/-! ## Addresses stay with their users -/

/-- The address that is about to be stored. -/
def AddressStage.toSave : AddressStage → Option Address
  | saving address _ => some address
  | _ => none

/-- A request that stores an address is the first one of its user that does. -/
def AddressOp.First (σ : AddressDesk) : AddressOp → Prop
  | work i =>
    ∀ r ∈ σ.requests[i]?, ∀ x ∈ σ.given, x.chain = r.chain → x.user = r.associatedAddress →
    r.stage.toSave = none ∨ r.stage.toSave = some x.address
  | _ => True

instance (σ : AddressDesk) : (op : AddressOp) → Decidable (op.First σ)
  | .work _ => inferInstanceAs (Decidable (∀ r ∈ _, ∀ x ∈ _, _))
  | .http _ _ _ | .ws _ | .status _ _ _ | .crash => inferInstanceAs (Decidable True)

/-- Every address is still the user's. -/
def AddressDesk.Kept (σ : AddressDesk) : Prop :=
  ∀ x ∈ σ.given, ∃ a ∈ σ.world.associations.coll,
    a.key = (x.chain, x.address) ∧ a.owner = (x.chain, x.user)

section
variable {g : AddressGenerator} {env : Env} {σ σ' : AddressDesk} {op : AddressOp}

theorem AddressDesk.Kept.of_associations (h : σ.Kept) (hgiven : σ'.given = σ.given)
    (ha : ∀ a ∈ σ.world.associations.coll,
      ∃ a' ∈ σ'.world.associations.coll, a'.key = a.key ∧ a'.owner = a.owner) : σ'.Kept := by
  intro x hx
  rw [hgiven] at hx
  obtain ⟨a, hmem, hkey, howner⟩ := h x hx
  obtain ⟨a', hmem', hkey', howner'⟩ := ha a hmem
  exact ⟨a', hmem', hkey'.trans hkey, howner'.trans howner⟩

theorem AddressDesk.Kept.moved (h : σ.Kept) (hfirst : op.First σ) (hm : σ.Moved g op σ') :
    σ'.Kept := by
  cases hm with
  | idle reading indices associations generated given => exact h.of_associations given associations
  | @work i r stage w op_eq request worked =>
    subst op_eq
    cases worked with
    | idle world reading generated given =>
      refine h.of_associations ?_ fun a ha => ⟨a, ?_, rfl, rfl⟩
      · rw [given, List.append_nil]
      · show a ∈ w.associations.coll
        rw [world.associations]
        exact ha
    | incremented stage known stored small associations indices =>
      refine h.of_associations ?_ fun a ha => ⟨a, ?_, rfl, rfl⟩
      · show σ.given ++ AddressDesk.newlyGiven r _ = _
        rw [AddressDesk.newlyGiven_eq_nil, List.append_nil]
        nofun
      · show a ∈ w.associations.coll
        rw [associations]
        exact ha
    | read world stage known stored address_eq =>
      refine h.of_associations ?_ fun a ha => ⟨a, ?_, rfl, rfl⟩
      · show σ.given ++ AddressDesk.newlyGiven r _ = _
        rw [AddressDesk.newlyGiven_eq_nil, List.append_nil]
        nofun
      · show a ∈ w.associations.coll
        rw [world.associations]
        exact ha
    | @found a _ world stage stored owner =>
      intro x hx
      show ∃ a ∈ w.associations.coll, _
      rw [world.associations]
      rcases List.mem_append.1 hx with hx | hx
      · exact h x hx
      · have hnew : AddressDesk.newlyGiven r (.returned a.address) =
            [⟨r.chain, r.associatedAddress, a.address⟩] := by
          unfold AddressDesk.newlyGiven
          rw [stage]
        rw [hnew] at hx
        rw [List.mem_singleton.1 hx]
        have hchain : a.chain = r.chain := congrArg Prod.fst owner
        refine ⟨a, stored, ?_, owner⟩
        show (a.chain, a.address) = _
        rw [hchain]
    | @saved address index a c _ stage key owner upsert associations indices =>
      have hnew : AddressDesk.newlyGiven r (.returned address) =
          [⟨r.chain, r.associatedAddress, address⟩] := by
        unfold AddressDesk.newlyGiven
        rw [stage]
      have hmem := fun d => Associations.mem_upsert (d := d) upsert
      have hself : ∃ d ∈ c.coll, d.key = (r.chain, address) ∧
          d.owner = (r.chain, r.associatedAddress) :=
        ⟨_, (hmem _).2 (.inr rfl), key, owner⟩
      intro x hx
      show ∃ a ∈ w.associations.coll, _
      rw [associations]
      rcases List.mem_append.1 hx with hx | hx
      · -- the user's own association is replaced: by `hfirst` it is the one they were given
        by_cases hown : x.chain = r.chain ∧ x.user = r.associatedAddress
        · have hsave := hfirst r request x hx hown.1 hown.2
          rw [stage] at hsave
          rcases hsave with hsave | hsave
          · cases hsave
          · rw [hown.1, hown.2, ← Option.some.inj hsave]
            exact hself
        · obtain ⟨d, hd, hkey, howner⟩ := h x hx
          refine ⟨d, (hmem d).2 (.inl ⟨hd, fun e => hown ?_⟩), hkey, howner⟩
          exact Prod.mk.inj (howner.symm.trans (e.trans owner))
      · rw [hnew] at hx
        rw [List.mem_singleton.1 hx]
        exact hself

end

/-- **An address stays with the user it was given to**, whatever requests come between each other,
whatever fails and however statuses change, as long as no other address of the chain is stored for
the user. -/
theorem given_addresses_kept {g : AddressGenerator} {env : Env} {σ₀ σ : AddressDesk}
    {ops : List AddressOp} (hgiven : σ₀.given = [])
    (h : Run (fun _ σ op => op.First σ) (AddressOp.step g env) σ₀ ops σ) :
    ∀ x ∈ σ.given, ∃ a, σ.world.associations.getByAddress x.chain x.address = some a ∧
      a.associatedAddress = x.user := by
  have hkept : σ.Kept := h.invariant (I := fun _ σ => σ.Kept)
    (by unfold AddressDesk.Kept; rw [hgiven]; nofun)
    fun _ σ op _ hi hfirst => hi.moved hfirst (op.step_moved g env σ)
  intro x hx
  obtain ⟨a, hmem, hkey, howner⟩ := hkept x hx
  exact ⟨a, Associations.getByAddress_eq_some.2 ⟨hmem, hkey⟩, congrArg Prod.snd howner⟩

/-- Addresses are the numbers of their keys. -/
def AddressGenerator.sample : AddressGenerator := ⟨fun i => .ok (i.setWidth 160)⟩

/-- One ethereum address has been given out. -/
def AddressDesk.sample : AddressDesk where
  world := { World.empty with addressIndices := ⟨some 1, some 1⟩ }
  requests := []
  generated := []
  given := []

/-- A user asks for an ethereum address. -/
def AddressQuery.sample (user : Address) : AddressQuery := ⟨.ethereum, user, some ⟨"ETH/ETH", 3⟩⟩

/-- Two users ask, and the deposit of the first one succeeds. -/
theorem given_addresses_kept_succeeded :
    let ops := [.ws (some (.sample 1)), .work 0, .work 0, .work 0, .work 0,
      .status .ethereum 2 .SUCCESS, .ws (some (.sample 2)), .work 1, .work 1, .work 1, .work 1]
    ∃ σ, Run (fun _ σ op => op.First σ) (AddressOp.step .sample (.sample .stored)) .sample ops σ ∧
      σ.given = [⟨.ethereum, 1, 2⟩, ⟨.ethereum, 2, 3⟩] ∧
      ∃ a, σ.world.associations.getByAddress .ethereum 2 = some a ∧ a.associatedAddress = 1 := by
  intro ops
  have hrun : Run (fun _ σ op => op.First σ)
      (AddressOp.step .sample (.sample .stored)) .sample ops _ :=
    Run.of_check _ (by decide +kernel)
  have hkept := given_addresses_kept rfl hrun
  exact ⟨_, hrun, by decide +kernel, hkept ⟨.ethereum, 1, 2⟩ (by decide +kernel)⟩

/-- The user is given the address 2, and after the deposit has succeeded the address 3: nobody is
found at the address 2 any more. The same happens when the user asks twice at the same time. -/
theorem given_address_lost :
    let again := [.ws (some (.sample 1)), .work 0, .work 0, .work 0, .work 0,
      .status .ethereum 2 .SUCCESS, .ws (some (.sample 1)), .work 1, .work 1, .work 1, .work 1]
    let twice := [.ws (some (.sample 1)), .ws (some (.sample 1)), .work 0, .work 1,
      .work 0, .work 0, .work 0, .work 1, .work 1, .work 1]
    (∃ σ, Run (fun _ _ _ => True) (AddressOp.step .sample (.sample .stored)) .sample again σ ∧
      ⟨.ethereum, 1, 2⟩ ∈ σ.given ∧ σ.world.associations.getByAddress .ethereum 2 = none) ∧
    ∃ σ, Run (fun _ _ _ => True) (AddressOp.step .sample (.sample .stored)) .sample twice σ ∧
      ⟨.ethereum, 1, 2⟩ ∈ σ.given ∧ σ.world.associations.getByAddress .ethereum 2 = none :=
  ⟨⟨_, Run.of_check _ (by decide +kernel), by decide +kernel, by decide +kernel⟩,
    ⟨_, Run.of_check _ (by decide +kernel), by decide +kernel, by decide +kernel⟩⟩

/-! ## Indices -/

/-- A request increments the index when no other one of its chain has still to read it back, and
reads an index of at most 32 bits. -/
def AddressOp.Alone (σ : AddressDesk) : AddressOp → Prop
  | work i => ∀ r ∈ σ.requests[i]?,
    (r.stage = .incrementing → ∀ r' ∈ σ.requests, r'.stage = .reading → r'.chain ≠ r.chain) ∧
    (r.stage = .reading → ∀ n ∈ (σ.world.addressIndices.get r.chain).map (·.toNat), n < 2 ^ 32)
  | _ => True

instance (σ : AddressDesk) : (op : AddressOp) → Decidable (op.Alone σ)
  | .work _ => inferInstanceAs (Decidable (∀ r ∈ _, (_ → ∀ r' ∈ _, _) ∧ (_ → ∀ n ∈ _, _)))
  | .http _ _ _ | .ws _ | .status _ _ _ | .crash => inferInstanceAs (Decidable True)

/-- One request of a chain reads at a time, what was read before is below the stored index, and at
most equal to it when nobody reads. -/
structure AddressDesk.Indexed (g : AddressGenerator) (σ : AddressDesk) : Prop where
  alone : ∀ (i j : Nat) (r r' : AddressRequest), σ.requests[i]? = some r →
    σ.requests[j]? = some r' → r.stage = .reading → r'.stage = .reading → r.chain = r'.chain → i = j
  known : ∀ x ∈ σ.generated, x.chain.Known
  below : ∀ x ∈ σ.generated, ∃ v, σ.world.addressIndices.get x.chain = some v ∧
    (x.index : Int) ≤ v.toInt ∧
    ((∃ r ∈ σ.requests, r.stage = .reading ∧ r.chain = x.chain) → (x.index : Int) < v.toInt)
  address : ∀ x ∈ σ.generated, x.index < 2 ^ 32 ∧ g.generate x.index = .ok x.address
  distinct : σ.generated.Pairwise fun x y => x.chain = y.chain → x.index ≠ y.index

section
variable {g : AddressGenerator} {σ σ' : AddressDesk} {op : AddressOp}

namespace AddressDesk.Indexed

theorem of_reading (h : σ.Indexed g)
    (hreading : ∀ (i : Nat) (r : AddressRequest), σ'.requests[i]? = some r → r.stage = .reading →
      σ.requests[i]? = some r)
    (hindices : σ'.world.addressIndices = σ.world.addressIndices)
    (hgenerated : σ'.generated = σ.generated) : σ'.Indexed g where
  alone i j r r' hr hr' hs hs' := h.alone i j r r' (hreading i r hr hs)
    (hreading j r' hr' hs') hs hs'
  known := hgenerated ▸ h.known
  below x hx := by
    rw [hgenerated] at hx
    obtain ⟨v, hv, hle, hlt⟩ := h.below x hx
    refine ⟨v, hindices ▸ hv, hle, fun ⟨r, hr, hs, hc⟩ => hlt ⟨r, ?_, hs, hc⟩⟩
    obtain ⟨i, hi⟩ := List.mem_iff_getElem?.1 hr
    exact List.mem_of_getElem? (hreading i r hi hs)
  address := hgenerated ▸ h.address
  distinct := hgenerated ▸ h.distinct

variable {i : Nat} {r : AddressRequest}

theorem reading_set (stage : AddressStage) (hne : stage ≠ .reading) (j : Nat) (r' : AddressRequest)
    (hr' : (σ.requests.set i { r with stage })[j]? = some r') (hs : r'.stage = .reading) :
    j ≠ i ∧ σ.requests[j]? = some r' := by
  rw [List.getElem?_set] at hr'
  split at hr'
  · split at hr'
    · rw [← Option.some.inj hr'] at hs
      exact absurd hs hne
    · cases hr'
  · exact ⟨fun e => by simp_all, hr'⟩

theorem toInt_succ {v : BitVec 64} (h : v.toInt ≠ 2 ^ 63 - 1) : (v + 1).toInt = v.toInt + 1 := by
  have hlt := BitVec.toInt_lt (x := v)
  have hle := BitVec.le_toInt v
  rw [BitVec.toInt_add]
  show Int.bmod (v.toInt + 1) _ = _
  apply Int.bmod_eq_of_le <;> omega

theorem incremented (h : σ.Indexed g)
    (halone : ∀ r' ∈ σ.requests, r'.stage = .reading → r'.chain ≠ r.chain) (hknown : r.chain.Known)
    {v : BitVec 64} (hv : σ.world.addressIndices.get r.chain = some v)
    (hsmall : v.toInt ≠ 2 ^ 63 - 1)
    {w : World} (hw : w.addressIndices = σ.world.addressIndices.set r.chain (v + 1))
    {given : List GivenAddress} :
    AddressDesk.Indexed g ⟨w, σ.requests.set i { r with stage := .reading }, σ.generated,
      given⟩ := by
  have hset : ∀ (j : Nat) (r' : AddressRequest),
      (σ.requests.set i { r with stage := .reading })[j]? = some r' → r'.stage = .reading →
      j = i ∧ r'.chain = r.chain ∨ r' ∈ σ.requests ∧ σ.requests[j]? = some r' := by
    intro j r' hr' hs
    rw [List.getElem?_set] at hr'
    split at hr'
    · split at hr'
      · rw [← Option.some.inj hr']
        exact .inl ⟨by omega, rfl⟩
      · cases hr'
    · exact .inr ⟨List.mem_of_getElem? hr', hr'⟩
  refine ⟨fun j k r₁ r₂ h₁ h₂ hs₁ hs₂ hc => ?_, h.known, fun x hx => ?_, h.address, h.distinct⟩
  · rcases hset j r₁ h₁ hs₁ with ⟨hj, hc₁⟩ | ⟨hm₁, h₁⟩
    · rcases hset k r₂ h₂ hs₂ with ⟨hk, -⟩ | ⟨hm₂, -⟩
      · omega
      · exact absurd (hc.symm.trans hc₁) (halone r₂ hm₂ hs₂)
    · rcases hset k r₂ h₂ hs₂ with ⟨-, hc₂⟩ | ⟨-, h₂⟩
      · exact absurd (hc.trans hc₂) (halone r₁ hm₁ hs₁)
      · exact h.alone j k r₁ r₂ h₁ h₂ hs₁ hs₂ hc
  · obtain ⟨u, hu, hle, hlt⟩ := h.below x hx
    show ∃ v, w.addressIndices.get x.chain = some v ∧ _
    rw [hw, AddressIndices.get_set hknown (h.known x hx)]
    by_cases hc : x.chain = r.chain
    · rw [hc, hv] at hu
      cases hu
      have hnext := toInt_succ hsmall
      rw [if_pos hc]
      exact ⟨_, rfl, by omega, fun _ => by omega⟩
    · rw [if_neg hc]
      refine ⟨u, hu, hle, fun ⟨r', hr', hs, hc'⟩ => hlt ⟨r', ?_, hs, hc'⟩⟩
      obtain ⟨j, hj⟩ := List.mem_iff_getElem?.1 hr'
      rcases hset j r' hj hs with ⟨-, hc₁⟩ | ⟨hm, -⟩
      · exact absurd (hc'.symm.trans hc₁) hc
      · exact hm

theorem read (h : σ.Indexed g) (hr : σ.requests[i]? = some r) (hstage : r.stage = .reading)
    (hknown : r.chain.Known) {v : BitVec 64} (hv : σ.world.addressIndices.get r.chain = some v)
    (hsmall : v.toNat < 2 ^ 32) {address : Address} (haddress : g.generate v.toNat = .ok address)
    {w : World} (hw : w.addressIndices = σ.world.addressIndices) {given : List GivenAddress} :
    AddressDesk.Indexed g ⟨w, σ.requests.set i { r with stage := .saving address v.toNat },
      σ.generated ++ [⟨r.chain, v.toNat, address⟩], given⟩ := by
  have hint : v.toInt = v.toNat := BitVec.toInt_eq_toNat_of_lt (by omega)
  have hset := reading_set (σ := σ) (i := i) (r := r) (.saving address v.toNat) nofun
  -- this request was the one that reads, so nobody else of the chain does
  have hnone : ¬∃ r' ∈ σ.requests.set i { r with stage := .saving address v.toNat },
      r'.stage = .reading ∧ r'.chain = r.chain := by
    rintro ⟨r', hr', hs, hc⟩
    obtain ⟨j, hj⟩ := List.mem_iff_getElem?.1 hr'
    obtain ⟨hne, hj⟩ := hset j r' hj hs
    exact hne (h.alone j i r' r hj hr hs hstage hc)
  have hbefore : ∀ x ∈ σ.generated, x.chain = r.chain → (x.index : Int) < v.toInt := by
    intro x hx hc
    obtain ⟨u, hu, -, hlt⟩ := h.below x hx
    rw [hc, hv] at hu
    cases hu
    exact hlt ⟨r, List.mem_of_getElem? hr, hstage, hc.symm⟩
  refine ⟨fun j k r₁ r₂ h₁ h₂ hs₁ hs₂ hc => ?_, fun x hx => ?_, fun x hx => ?_, fun x hx => ?_, ?_⟩
  · exact h.alone j k r₁ r₂ (hset j r₁ h₁ hs₁).2 (hset k r₂ h₂ hs₂).2 hs₁ hs₂ hc
  · rcases List.mem_append.1 hx with hx | hx
    · exact h.known x hx
    · rw [List.mem_singleton.1 hx]
      exact hknown
  · show ∃ v, w.addressIndices.get x.chain = some v ∧ _
    rw [hw]
    rcases List.mem_append.1 hx with hx | hx
    · obtain ⟨u, hu, hle, hlt⟩ := h.below x hx
      refine ⟨u, hu, hle, fun ⟨r', hr', hs, hc⟩ => hlt ⟨r', ?_, hs, hc⟩⟩
      obtain ⟨j, hj⟩ := List.mem_iff_getElem?.1 hr'
      exact List.mem_of_getElem? (hset j r' hj hs).2
    · rw [List.mem_singleton.1 hx]
      exact ⟨v, hv, hint.ge, fun hreads => absurd hreads hnone⟩
  · rcases List.mem_append.1 hx with hx | hx
    · exact h.address x hx
    · rw [List.mem_singleton.1 hx]
      exact ⟨hsmall, haddress⟩
  · refine List.pairwise_append.2 ⟨h.distinct, List.pairwise_singleton _ _, fun x hx y hy hc => ?_⟩
    rw [List.mem_singleton.1 hy] at hc ⊢
    have hlt := hbefore x hx hc
    show x.index ≠ v.toNat
    omega

theorem moved (h : σ.Indexed g) (halone : op.Alone σ) (hm : σ.Moved g op σ') : σ'.Indexed g := by
  cases hm with
  | idle reading indices associations generated given =>
    exact h.of_reading reading indices generated
  | @work i r stage w op_eq request worked =>
    subst op_eq
    obtain ⟨hincrement, hread⟩ := halone r request
    cases worked with
    | idle world reading generated given =>
      rw [generated, List.append_nil]
      exact h.of_reading (fun j r' hr' hs => (reading_set _ reading j r' hr' hs).2)
        world.addressIndices rfl
    | found world stage stored owner =>
      refine h.of_reading (fun j r' hr' hs => (reading_set (.returned _) nofun j r' hr' hs).2)
        world.addressIndices ?_
      show σ.generated ++ AddressDesk.newlyGenerated r _ = _
      rw [AddressDesk.newlyGenerated_eq_nil, List.append_nil]
      nofun
    | saved stage key owner upsert associations indices =>
      refine h.of_reading (fun j r' hr' hs => (reading_set (.returned _) nofun j r' hr' hs).2)
        indices ?_
      show σ.generated ++ AddressDesk.newlyGenerated r _ = _
      rw [AddressDesk.newlyGenerated_eq_nil, List.append_nil]
      nofun
    | incremented stage known stored small associations indices =>
      have hnone : AddressDesk.newlyGenerated r .reading = [] :=
        AddressDesk.newlyGenerated_eq_nil nofun
      rw [hnone, List.append_nil]
      exact h.incremented (hincrement stage) known stored small indices
    | @read v address _ world stage known stored address_eq =>
      have hnew : AddressDesk.newlyGenerated r (.saving address v.toNat) =
          [⟨r.chain, v.toNat, address⟩] := by
        unfold AddressDesk.newlyGenerated
        rw [stage]
      rw [hnew]
      have hsmall := hread stage v.toNat (by rw [stored]; rfl)
      exact h.read request stage known stored hsmall address_eq world.addressIndices

end AddressDesk.Indexed

end

/-- **No two calls of `GenerateAddress` for a chain return the same index**, nor the same address,
as long as no other call is made between the two calls to the store of one of them. -/
theorem address_indices_distinct {g : AddressGenerator} {env : Env} {σ₀ σ : AddressDesk}
    {ops : List AddressOp}
    (hinj : ∀ i j a, g.childAddress i = .ok a → g.childAddress j = .ok a → i = j)
    (hrequests : σ₀.requests = []) (hgenerated : σ₀.generated = [])
    (h : Run (fun _ σ op => op.Alone σ) (AddressOp.step g env) σ₀ ops σ) :
    σ.generated.Pairwise fun x y => x.chain = y.chain →
    x.index ≠ y.index ∧ x.address ≠ y.address := by
  have hstart : σ₀.Indexed g := by
    refine ⟨?_, ?_, ?_, ?_, ?_⟩
    · rw [hrequests]
      nofun
    all_goals rw [hgenerated]
    · nofun
    · nofun
    · nofun
    · exact .nil
  have hi : σ.Indexed g := h.invariant (I := fun _ σ => σ.Indexed g) hstart
    fun _ σ op _ hi halone => hi.moved halone (op.step_moved g env σ)
  refine hi.distinct.imp_of_mem fun {x y} hx hy hne hc => ⟨hne hc, fun ha => hne hc ?_⟩
  obtain ⟨hxlt, hxa⟩ := hi.address x hx
  obtain ⟨hylt, hya⟩ := hi.address y hy
  have heq := congrArg BitVec.toNat (hinj _ _ _ hxa (ha ▸ hya))
  rwa [BitVec.toNat_ofNat, BitVec.toNat_ofNat, Nat.mod_eq_of_lt hxlt, Nat.mod_eq_of_lt hylt] at heq

/-- Two users ask one after the other. -/
theorem address_indices_distinct_in_turn :
    let ops := [.ws (some (.sample 1)), .ws (some (.sample 2)), .work 0, .work 1, .work 0, .work 0,
      .work 1, .work 1]
    ∃ σ, Run (fun _ σ op => op.Alone σ) (AddressOp.step .sample (.sample .stored)) .sample ops σ ∧
      σ.generated = [⟨.ethereum, 2, 2⟩, ⟨.ethereum, 3, 3⟩] ∧
      σ.generated.Pairwise fun x y => x.chain = y.chain →
      x.index ≠ y.index ∧ x.address ≠ y.address := by
  intro ops
  have hrun : Run (fun _ σ op => op.Alone σ)
      (AddressOp.step .sample (.sample .stored)) .sample ops _ :=
    Run.of_check _ (by decide +kernel)
  refine ⟨_, hrun, by decide +kernel, address_indices_distinct (fun i j a hi hj => ?_) rfl rfl hrun⟩
  have heq := congrArg BitVec.toNat (Except.ok.inj (hi.trans hj.symm))
  simp only [BitVec.toNat_setWidth] at heq
  have hi' := i.isLt
  have hj' := j.isLt
  exact BitVec.eq_of_toNat_eq (by omega)

/-- Both users increment the index before one of them reads it: they get the same address. -/
theorem address_index_shared :
    let ops := [.ws (some (.sample 1)), .ws (some (.sample 2)), .work 0, .work 1, .work 0, .work 1,
      .work 0, .work 1]
    ∃ σ, Run (fun _ _ _ => True) (AddressOp.step .sample (.sample .stored)) .sample ops σ ∧
      σ.generated = [⟨.ethereum, 3, 3⟩, ⟨.ethereum, 3, 3⟩] ∧
      ¬σ.generated.Pairwise fun x y => x.chain = y.chain →
      x.index ≠ y.index ∧ x.address ≠ y.address :=
  ⟨_, Run.of_check _ (by decide +kernel), by decide +kernel, by decide +kernel⟩

end Dex
