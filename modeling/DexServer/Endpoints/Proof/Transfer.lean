import DexServer.Endpoints.Proof.Deposit
import DexServer.Endpoints.Transfer
import DexServer.Lib.Run
import DexServer.Swap.Proof.Kept

/-!
# The status of a deposit and its transfer

`processTokenTransaction` takes the first event of the token for its own, and only if no other has
been received when it looks.

* `Collector.Collecting.looked`: it sees the first event, or the first two.
* `Collector.Collecting.looks`: it does not wait for ever once an event has come in.
* `deposit_status_truthful_iff`: when the status that is stored says what has happened to the
  tokens.
-/

namespace Dex

open Lib

/-! ## The collector -/

namespace Collector

/-- How many events the goroutine has received, by where the caller stands. -/
def Counts (c : Collector) : Prop :=
  match c.caller with
  | .transferring | .waiting => c.logs.length = if c.sending then 1 else 0
  | .released => c.logs.length = if c.sending then 2 else 1
  | .looked logs => (logs.length = 1 ∨ logs.length = 2) ∧ logs <+: c.logs

/-- The events are received in order. -/
structure Collecting (c : Collector) : Prop where
  logs : c.logs <+: c.stream
  counts : c.Counts

namespace Collecting

variable {c : Collector}

theorem started : Collecting .started := ⟨List.nil_prefix, rfl⟩

theorem collect (h : Collecting c) : Collecting (CollectOp.collect.step c) := by
  unfold CollectOp.step
  by_cases hs : c.sending = true
  · simpa [hs] using h
  · simp only [hs]
    cases he : c.stream[c.logs.length]? with
    | none => exact h
    | some event =>
      obtain ⟨⟨rest, hrest⟩, hcounts⟩ := h
      refine ⟨⟨rest.tail, ?_⟩, ?_⟩
      · -- the event is the first of those that have not been received
        rw [← hrest, List.getElem?_append_right le_rfl, Nat.sub_self] at he
        cases rest with
        | nil => simp at he
        | cons x rest =>
          simp only [List.getElem?_cons_zero, Option.some.injEq] at he
          simp [← hrest, he]
      · unfold Counts at hcounts ⊢
        cases hc : c.caller with
        | looked logs =>
          simp only [hc] at hcounts ⊢
          exact ⟨hcounts.1, hcounts.2.trans (List.prefix_append _ _)⟩
        | _ => simpa [hc, hs] using hcounts

theorem step (h : Collecting c) (op : CollectOp) : Collecting (op.step c) := by
  obtain ⟨hlogs, hcounts⟩ := h
  cases op with
  | arrive event => exact ⟨hlogs.trans (List.prefix_append _ _), hcounts⟩
  | collect => exact collect ⟨hlogs, hcounts⟩
  | transferred =>
    unfold CollectOp.step
    cases hc : c.caller with
    | transferring => exact ⟨hlogs, by simpa [Counts, hc] using hcounts⟩
    | _ => exact ⟨hlogs, hcounts⟩
  | meet =>
    unfold CollectOp.step
    cases hc : c.caller with
    | waiting =>
      by_cases hs : c.sending = true
      · simp only [hs, if_true]
        exact ⟨hlogs, by simpa [Counts, hc, hs] using hcounts⟩
      · simp only [hs]
        exact ⟨hlogs, hcounts⟩
    | _ => exact ⟨hlogs, hcounts⟩
  | look =>
    unfold CollectOp.step
    cases hc : c.caller with
    | released =>
      refine ⟨hlogs, ?_, List.prefix_rfl⟩
      simp only [Counts, hc] at hcounts
      split at hcounts
      · exact .inr hcounts
      · exact .inl hcounts
    | _ => exact ⟨hlogs, hcounts⟩

theorem looked (h : Collecting c) {logs : List TransferEvent} (hc : c.caller = .looked logs) :
    logs <+: c.stream ∧ (logs.length = 1 ∨ logs.length = 2) := by
  obtain ⟨hlogs, hcounts⟩ := h
  unfold Counts at hcounts
  rw [hc] at hcounts
  exact ⟨hcounts.2.trans hlogs, hcounts.1⟩

/-- So it sees an event alone if that is the first one, and it looks before there is a second. -/
theorem looked_eq (h : Collecting c) {logs : List TransferEvent} (hc : c.caller = .looked logs)
    (event : TransferEvent) : logs = [event] ↔ c.stream.head? = some event ∧ logs.length = 1 := by
  obtain ⟨⟨rest, hrest⟩, -⟩ := h.looked hc
  constructor
  · intro hlogs
    rw [hlogs] at hrest
    simp [← hrest, hlogs]
  · rintro ⟨hhead, hlength⟩
    obtain ⟨x, rfl⟩ := List.length_eq_one_iff.1 hlength
    rw [← hrest] at hhead
    simpa using hhead

/-- Once an event has come in the goroutine stands at `done <- true` before the caller goes on. -/
theorem collected (h : Collecting c) (hstream : c.stream ≠ [])
    (hc : c.caller = .transferring ∨ c.caller = .waiting) :
    (CollectOp.collect.step c).sending = true := by
  unfold CollectOp.step
  by_cases hs : c.sending = true
  · simp [hs]
  · have hcounts := h.counts
    have hnil : c.logs.length = 0 := by
      rcases hc with hc | hc <;> simpa [Counts, hc, hs] using hcounts
    simp only [hs, hnil]
    cases hst : c.stream with
    | nil => exact absurd hst hstream
    | cons x xs => simp

/-- The caller returns once an event has come in. -/
theorem looks (h : Collecting c) (hstream : c.stream ≠ []) :
    ∃ logs, ([.collect, .transferred, .meet, .look].foldl CollectOp.step c).caller =
      .looked logs := by
  have hcaller : (CollectOp.collect.step c).caller = c.caller := by
    simp only [CollectOp.step]
    split
    · rfl
    · split <;> rfl
  have hsending := h.collected hstream
  simp only [List.foldl_cons, List.foldl_nil]
  generalize CollectOp.collect.step c = c' at hcaller hsending
  cases hc : c.caller with
  | transferring => simp [CollectOp.step, hcaller, hc, hsending]
  | waiting => simp [CollectOp.step, hcaller, hc, hsending]
  | released => simp [CollectOp.step, hcaller, hc]
  | looked logs => simp [CollectOp.step, hcaller, hc]

end Collecting

end Collector

/-! ## A submission up to the transfer -/

namespace DepositEndpoint

section
variable {e : DepositEndpoint} {env : Env} {w : World} {a : AddressAssociationRecord}

theorem orFailed_bind {α β : Type} (m : M α) (f : α → M β) :
    orFailed a (m >>= f) = orFailed a m >>= fun x => orFailed a (f x) := by
  unfold orFailed
  rw [attempted_bind, Prog.bind_assoc, Prog.bind_assoc]
  refine congrArg _ (funext fun x => ?_)
  cases x with
  | ok x => rfl
  | error err => rw [Prog.pure_bind, Prog.bind_assoc]; rfl

theorem orFailed_pure {α : Type} (x : α) : orFailed a (pure x) = pure x := rfl

theorem onSubmitTransaction_eq {chain : Chain} {destination : Address} {t : AssociationTransaction}
    (ht : t.transactionType = .CreateOffer) : e.onSubmitTransaction chain destination t =
      e.prepareOffer chain destination t >>= fun p =>
        orFailed p.1 (transfer p.1 p.2) >>= fun _ => e.completeOffer p.1 p.2 := by
  have htransfer : ∀ a q, e.transferTokens a q =
      e.prepareTransfer a q >>= fun n => transfer a n >>= fun _ => pure n := by
    intro a q
    unfold transferTokens prepareTransfer transfer
    simp only [Prog.bind_assoc, Prog.pure_bind]
  unfold onSubmitTransaction submitOffer prepareOffer
  simp only [if_pos ht, htransfer, orFailed_bind, orFailed_pure, Prog.bind_assoc, Prog.pure_bind]

/-! ## What is stored -/

theorem orFailed_ok {α : Type} {m : M α} {Q : α → World → Prop}
    (h : Prog.wp m env w Q fun _ _ => True) : Prog.wp (orFailed a m) env w Q fun _ _ => True := by
  unfold orFailed
  rw [Prog.wp_bind]
  refine wp_attempted (Prog.wp_mono h (fun x w' hx => hx) fun err w' _ => ⟨?_, trivial⟩)
  rw [Prog.wp_bind]
  exact Prog.wp_of_forall (fun _ _ => trivial) fun _ _ => trivial

theorem prepareTransfer_quiet (quoteAmount : Int) : Quiet (e.prepareTransfer a quoteAmount) :=
  (Quiet.query fun _ _ _ => .ok ()).bind fun _ =>
    (e.depositService.getBaseTokenAmount_quiet a.pairName quoteAmount).bind fun _ =>
      (Quiet.query fun _ _ _ => .ok ()).bind fun _ => .pure _

omit e a in
theorem updateAssociation_stored {chain : Chain} {address : Address}
    {f : AddressAssociationRecord → AddressAssociationRecord} (hk : ∀ a, (f a).key = a.key)
    (ho : ∀ a, (f a).owner = a.owner) :
    Prog.wp (updateAssociation chain address f hk ho) env w
      (fun _ w' => env.fails w.calls = false ∧ w'.calls = w.calls + 1 ∧
        ∃ r, w.associations.getByAddress chain address = some r ∧
          w'.associations.getByAddress chain address = some (f r))
      (fun err w' => w'.associations = w.associations ∧
        (w.associations.getByAddress chain address = none ∨ env.fails w.calls = true ∧
          err = .io)) := by
  refine wp_call (fun hf => ⟨rfl, .inr ⟨hf, rfl⟩⟩) fun hf => ?_
  have hassociations : w.tick.associations = w.associations := rfl
  rw [hassociations]
  cases hr : w.associations.getByAddress chain address with
  | none => exact ⟨rfl, .inl rfl⟩
  | some r =>
    refine ⟨hf, rfl, r, rfl, ?_⟩
    dsimp only
    rw [Associations.getByAddress_update, hr]
    rfl

variable (e env w) in
theorem prepareOffer_stored (chain : Chain) (destination : Address) (t : AssociationTransaction) :
    Prog.wp (e.prepareOffer chain destination t) env w
      (fun p w₁ => ∃ r, w₁.associations.getByAddress p.1.chain p.1.address = some r)
      (fun _ _ => True) := by
  unfold prepareOffer
  simp only [Prog.wp_bind, Prog.wp_pure]
  refine wp_call (fun _ => trivial) fun _ => ?_
  cases ha : w.tick.associations.getByAssociatedAddress chain destination with
  | none => trivial
  | some a =>
    have hchain : a.chain = chain := congrArg Prod.fst
      (Associations.mem_of_getByAssociatedAddress ha).2
    show Prog.wp (orFailed a _) env w.tick _ _
    refine orFailed_ok (wp_checked (fun transaction _ => ?_) fun _ => trivial)
    refine orFailed_ok (Prog.wp_mono (updateAssociation_stored _ _) (fun _ w₁ hw₁ => ?_)
      fun _ _ _ => trivial)
    have hstored : ∃ r, w₁.associations.getByAddress a.chain a.address = some r := by
      obtain ⟨-, -, r, -, hr⟩ := hw₁
      rw [hchain]
      exact ⟨_, hr⟩
    refine wp_index (fun amount _ => ?_) fun _ => trivial
    refine orFailed_ok (wp_checked (fun quoteAmount _ => ?_) fun _ => trivial)
    exact orFailed_ok ((prepareTransfer_quiet quoteAmount).wp (fun n k => hstored)
      fun _ _ => trivial)

variable (env) in
theorem attempted_saveStatus {r : AddressAssociationRecord} (status : DepositStatus)
    (hr : w.associations.getByAddress a.chain a.address = some r) :
    ∃ x w', attempted (DepositService.saveAssociationStatusByChainAddress a status) env w =
      (.ok x, w') ∧ w'.depositStatus a = some (if env.fails w.calls then r.status else status) := by
  have hwp : Prog.wp (DepositService.saveAssociationStatusByChainAddress a status) env w _ _ :=
    updateAssociation_stored _ _
  unfold Prog.wp at hwp
  unfold World.depositStatus
  match hsave : DepositService.saveAssociationStatusByChainAddress a status env w, hwp with
  | (.ok (), w'), ⟨hf, _, r', hr', hw'⟩ =>
    refine ⟨.ok (), w', attempted_ok hsave, ?_⟩
    rw [hw', hf]
    rfl
  | (.error err, w'), ⟨hw', hcause⟩ =>
    obtain ⟨hf, rfl⟩ : env.fails w.calls = true ∧ err = .io := by simpa [hr] using hcause
    refine ⟨.error .io, w', ?_, ?_⟩
    · unfold attempted
      rw [Prog.bind_ok (Prog.attempt_eq hsave)]
      rfl
    · rw [hw', hr, hf]
      rfl

/-- The status is stored, or was so before. -/
def Recorded (env : Env) (w : World) (a : AddressAssociationRecord) (status : DepositStatus) :
    Prop :=
  env.fails (w.calls + 1) = false ∨ w.depositStatus a = some status

instance (status : DepositStatus) : Decidable (Recorded env w a status) :=
  inferInstanceAs (Decidable (_ ∨ _))

/-- Does the outcome of the submission, with its transfer made in `w`, tell the truth? -/
def Truthful (env : Env) (w : World) (a : AddressAssociationRecord) (x : Except Err Unit × World) :
    Prop :=
  if env.fails w.calls then x.2.depositStatus a = some .FAILED
  else x.1 = .ok () ∧ x.2.depositStatus a = some .SUCCESS

instance (x : Except Err Unit × World) : Decidable (Truthful env w a x) :=
  inferInstanceAs (Decidable (if env.fails w.calls then x.2.depositStatus a = some .FAILED
    else x.1 = .ok () ∧ x.2.depositStatus a = some .SUCCESS))

/-! ## The outcome -/

omit a in
variable (env w) in
theorem checkTransfer_eq (a : AddressAssociationRecord) (n : Int) :
    if e.transferEvents w.calls = [⟨a.associatedAddress, n⟩] then e.checkTransfer a n env w =
      (.ok (), w)
    else ∃ s, e.checkTransfer a n env w = (.error (.msg s), w) := by
  unfold checkTransfer
  rw [Prog.bind_ok (m := Prog.get) rfl]
  match e.transferEvents w.calls with
  | [] => simp [Prog.throw]
  | _ :: _ :: _ => simp [Prog.throw]
  | [⟨receiver, value⟩] =>
    have hchecked : ∀ (c : Prop) [Decidable c] (s : String), checked (require c s) env w =
        (if c then .ok () else .error (.msg s), w) := by
      intro c _ s
      by_cases hc : c <;> simp [checked, require, Prog.ofExcept, Except.mapError, hc]
    by_cases hreceiver : receiver = a.associatedAddress
    · by_cases hvalue : value = n
      · simp [Bind.bind, hchecked, hreceiver, hvalue]
      · simp [Bind.bind, hchecked, hreceiver, hvalue]
    · simp [Bind.bind, hchecked, hreceiver]

section
variable {r : AddressAssociationRecord} {n : Int}
  (hr : w.associations.getByAddress a.chain a.address = some r)
include hr

theorem transfer_failed (hf : env.fails w.calls = true) :
    ∃ x w', (orFailed a (transfer a n) >>= fun _ => e.completeOffer a n) env w = (x, w') ∧
      w'.depositStatus a = some (if env.fails (w.calls + 1) then r.status else .FAILED) := by
  have htransfer : transfer a n env w = (.error .io, w.tick) := by
    unfold transfer call
    rw [if_pos hf]
  have hattempted : attempted (transfer a n) env w = (.ok (.error .io), w.tick) := by
    unfold attempted
    rw [Prog.bind_ok (Prog.attempt_eq htransfer)]
    rfl
  obtain ⟨y, w', hsave, hw'⟩ := attempted_saveStatus env (w := w.tick) .FAILED hr
  have hfailed : orFailed a (transfer a n) env w = (.error .io, w') := by
    unfold orFailed
    rw [Prog.bind_ok hattempted]
    dsimp only
    rw [Prog.bind_ok hsave]
    rfl
  exact ⟨.error .io, w', Prog.bind_error hfailed, hw'⟩

/-- When the tokens have been sent, SUCCESS is stored if the events show the transfer and nothing
else; otherwise an error is returned. -/
theorem transfer_sent (hf : env.fails w.calls = false) :
    ∃ x w', (orFailed a (transfer a n) >>= fun _ => e.completeOffer a n) env w = (x, w') ∧
      if e.transferEvents (w.calls + 1) = [⟨a.associatedAddress, n⟩] then
        x = .ok () ∧ w'.depositStatus a = some
          (if env.fails (w.calls + 1) then r.status else .SUCCESS)
      else x ≠ .ok () := by
  obtain ⟨w₁, htransfer, hr₁, hcalls⟩ : ∃ w₁, transfer a n env w = (.ok (), w₁) ∧
      w₁.associations.getByAddress a.chain a.address = some r ∧ w₁.calls = w.calls + 1 := by
    unfold transfer call
    rw [if_neg (by rw [hf]; exact Bool.false_ne_true)]
    exact ⟨_, rfl, hr, rfl⟩
  have hsent : orFailed a (transfer a n) env w = (.ok (), w₁) := by
    unfold orFailed
    rw [Prog.bind_ok (attempted_ok htransfer)]
    rfl
  rw [Prog.bind_ok hsent, ← hcalls]
  have hcheck := checkTransfer_eq (e := e) env w₁ a n
  unfold completeOffer
  by_cases hevents : e.transferEvents w₁.calls = [⟨a.associatedAddress, n⟩]
  · rw [if_pos hevents] at hcheck
    have hseen : orFailed a (e.checkTransfer a n) env w₁ = (.ok (), w₁) := by
      unfold orFailed
      rw [Prog.bind_ok (attempted_ok hcheck)]
      rfl
    obtain ⟨y, w', hsave, hw'⟩ := attempted_saveStatus env .SUCCESS hr₁
    rw [Prog.bind_ok hseen, Prog.bind_ok hsave]
    refine ⟨.ok (), w', rfl, ?_⟩
    rw [if_pos hevents]
    exact ⟨rfl, hw'⟩
  · rw [if_neg hevents] at hcheck
    obtain ⟨s, hs⟩ := hcheck
    have hattempted : attempted (e.checkTransfer a n) env w₁ = (.ok (.error (.msg s)), w₁) := by
      unfold attempted
      rw [Prog.bind_ok (Prog.attempt_eq hs)]
      rfl
    obtain ⟨y, w', hsave, -⟩ := attempted_saveStatus env .FAILED hr₁
    have hfailed : orFailed a (e.checkTransfer a n) env w₁ = (.error (.msg s), w') := by
      unfold orFailed
      rw [Prog.bind_ok hattempted]
      dsimp only
      rw [Prog.bind_ok hsave]
      rfl
    refine ⟨.error (.msg s), w', Prog.bind_error hfailed, ?_⟩
    rw [if_neg hevents]
    nofun

end

end

end DepositEndpoint

open DepositEndpoint in
/-- **A submission tells the truth** exactly if its transfer fails and that can be stored, or if the
first event of the token is the one of its transfer, the goroutine has not received another when the
caller looks, and the success can be stored. -/
theorem deposit_status_truthful_iff {e : DepositEndpoint} {env : Env} {w w₁ : World} {chain : Chain}
    {destination : Address} {t : AssociationTransaction} {a : AddressAssociationRecord} {n : Int}
    {ops : List CollectOp} {c : Collector} (ht : t.transactionType = .CreateOffer)
    (hprepare : e.prepareOffer chain destination t env w = (.ok (a, n), w₁))
    (hrun : Run (fun _ _ _ => True) CollectOp.step .started ops c)
    (hlooked : env.fails w₁.calls = false → c.caller = .looked (e.transferEvents (w₁.calls + 1))) :
    Truthful env w₁ a (e.onSubmitTransaction chain destination t env w) ↔
      if env.fails w₁.calls then Recorded env w₁ a .FAILED
      else (c.stream.head? = some ⟨a.associatedAddress, n⟩ ∧
          (e.transferEvents (w₁.calls + 1)).length = 1) ∧ Recorded env w₁ a .SUCCESS := by
  have hcollecting : c.Collecting := hrun.invariant (I := fun _ c => c.Collecting)
    Collector.Collecting.started fun _ _ op _ h _ => h.step op
  obtain ⟨r, hr⟩ : ∃ r, w₁.associations.getByAddress a.chain a.address = some r := by
    have hstored := prepareOffer_stored e env w chain destination t
    unfold Prog.wp at hstored
    rw [hprepare] at hstored
    exact hstored
  have hstatus : w₁.depositStatus a = some r.status := by
    unfold World.depositStatus
    rw [hr]
    rfl
  rw [onSubmitTransaction_eq ht, Prog.bind_ok hprepare]
  unfold Truthful Recorded
  rw [hstatus]
  cases hf : env.fails w₁.calls with
  | true =>
    obtain ⟨x, w', hx, hw'⟩ := transfer_failed (e := e) (n := n) hr hf
    rw [hx]
    dsimp only
    rw [hw']
    cases env.fails (w₁.calls + 1) <;> simp
  | false =>
    obtain ⟨x, w', hx, hw'⟩ := transfer_sent (e := e) (n := n) hr hf
    rw [hx]
    have hevents := hcollecting.looked_eq (hlooked hf) ⟨a.associatedAddress, n⟩
    simp only [Bool.false_eq_true, if_false]
    rw [← hevents]
    by_cases hown : e.transferEvents (w₁.calls + 1) = [⟨a.associatedAddress, n⟩]
    · rw [if_pos hown] at hw'
      rw [hw'.1, hw'.2]
      cases env.fails (w₁.calls + 1) <;> simp [hown]
    · rw [if_neg hown] at hw'
      simp [hown, hw']

/-- A CreateOffer for 50 tokens. -/
def AssociationTransaction.sample : AssociationTransaction :=
  ⟨"1", [], 0, .CreateOffer, ["50", "1", "ETH/ETH"]⟩

/-- The endpoint, with what it finds in `logs`. -/
def DepositEndpoint.sample (logs : List TransferEvent) : DepositEndpoint :=
  { SwapEngine.sample.endpoint with transferEvents := fun _ => logs }

open DepositEndpoint in
theorem deposit_status_truthful_alone :
    let env := Env.sample .stored
    let w := { World.empty with associations := .sample .PENDING }
    let x := (sample [⟨1, 50⟩]).prepareOffer .ethereum 1 .sample env w
    ∃ a, x.1 = .ok (a, 50) ∧
      Truthful env x.2 a ((sample [⟨1, 50⟩]).onSubmitTransaction .ethereum 1 .sample env w) := by
  intro env w x
  let ops : List CollectOp := [.arrive ⟨1, 50⟩, .collect, .transferred, .meet, .look,
    .arrive ⟨8, 60⟩]
  have hrun : Run (fun _ _ _ => True) CollectOp.step .started ops _ := Run.of_check _ (by decide)
  have hx : x.1 = .ok (⟨.ethereum, 7, .PENDING, 1, [], "ETH/ETH", 3⟩, 50) := by decide +kernel
  exact ⟨_, hx, (deposit_status_truthful_iff rfl (Prod.ext hx rfl) hrun (fun _ => rfl)).2
    (by decide +kernel)⟩

open DepositEndpoint in
/-- Another transfer of the token comes first, or its event is received before the caller looks: the
tokens have been sent and FAILED is stored. -/
theorem deposit_status_wrong :
    let env := Env.sample .stored
    let w := { World.empty with associations := .sample .PENDING }
    let own : TransferEvent := ⟨1, 50⟩
    let foreign : TransferEvent := ⟨8, 60⟩
    let Wrong (ops : List CollectOp) (logs : List TransferEvent) : Prop :=
      let x := (sample logs).prepareOffer .ethereum 1 .sample env w
      let y := (sample logs).onSubmitTransaction .ethereum 1 .sample env w
      (ops.foldl CollectOp.step .started).caller = .looked logs ∧
      ∃ a, x.1 = .ok (a, 50) ∧ env.fails x.2.calls = false ∧ y.2.transfers = [⟨3, 1, 50⟩] ∧
        y.2.depositStatus a = some .FAILED ∧ ¬Truthful env x.2 a y
    Wrong [.arrive foreign, .arrive own, .collect, .transferred, .meet, .look] [foreign] ∧
    Wrong [.arrive own, .arrive foreign, .collect, .transferred, .meet, .collect, .look]
      [own, foreign] := by
  intro env w own foreign Wrong
  let a : AddressAssociationRecord := ⟨.ethereum, 7, .PENDING, 1, [], "ETH/ETH", 3⟩
  refine ⟨⟨by decide, a, ?_⟩, ⟨by decide, a, ?_⟩⟩
  · exact ⟨by decide +kernel, by decide +kernel, by decide +kernel, by decide +kernel,
      by decide +kernel⟩
  · exact ⟨by decide +kernel, by decide +kernel, by decide +kernel, by decide +kernel,
      by decide +kernel⟩

end Dex
