import DexServer.Operator.Operator

/-!
# The queue that a batch goes to

`GetShortestQueue` starts from a queue that is none of the operator's and from 1000 in place of a
length. `shortestQueue_eq` is what the loop computes, from the lengths that the broker reports;
`foldl_shorter` is its invariant: either no length was below the start, or a queue of minimal length
has been found.

* `Operator.queueTrade_eq`: the queue it starts from is never published on, so that it does not
  matter how.
-/

namespace Dex

open Lib

/-- What `TxQueue.Length` says of the queue `txq` at call `n`. -/
def reportedLength (env : Env) (w : World) (n txq : Nat) : Nat :=
  if env.fails n then 0 else w.txQueue.countP (·.1 = txq)

/-- The queues with what they report, one after the other. -/
def reportedLengths (env : Env) (w : World) (n : Nat) : List Nat → List (Nat × Nat)
  | [] => []
  | txq :: txqs => (txq, reportedLength env w n txq) :: reportedLengths env w (n + 1) txqs

theorem mem_reportedLengths {env : Env} {w : World} {txqs : List Nat} {n : Nat} {l : Nat × Nat} :
    l ∈ reportedLengths env w n txqs ↔ ∃ i, txqs[i]? = some l.1 ∧
    l.2 = reportedLength env w (n + i) l.1 := by
  induction txqs generalizing n with
  | nil => simp [reportedLengths]
  | cons txq txqs ih =>
    rw [reportedLengths, List.mem_cons, ih]
    constructor
    · rintro (rfl | ⟨i, hi, hl⟩)
      · exact ⟨0, rfl, rfl⟩
      · exact ⟨i + 1, hi, by rwa [← Nat.add_assoc, Nat.add_right_comm]⟩
    · rintro ⟨i, hi, hl⟩
      cases i with
      | zero =>
        left
        cases hi
        exact Prod.ext rfl hl
      | succ i => exact .inr ⟨i, hi, by rwa [Nat.add_right_comm, Nat.add_assoc]⟩

/-- The body of the loop. -/
def shorter (best : Option Nat × Nat) (l : Nat × Nat) : Option Nat × Nat :=
  if l.2 < best.2 then (some l.1, l.2) else best

/-- The invariant of the loop: a queue of minimal length has been found, unless no length is below
the start. -/
theorem foldl_shorter (ls : List (Nat × Nat)) (best : Option Nat × Nat) :
    (ls.foldl shorter best = best ∧ ∀ l ∈ ls, best.2 ≤ l.2) ∨
      ∃ l ∈ ls, ls.foldl shorter best = (some l.1, l.2) ∧ l.2 < best.2 ∧ ∀ l' ∈ ls, l.2 ≤ l'.2 := by
  induction ls generalizing best with
  | nil => exact .inl ⟨rfl, fun l hl => absurd hl List.not_mem_nil⟩
  | cons x ls ih =>
    rw [List.foldl_cons]
    by_cases hx : x.2 < best.2
    · rw [shorter, if_pos hx]
      right
      rcases ih (some x.1, x.2) with ⟨heq, hle⟩ | ⟨l, hl, heq, hlt, hle⟩
      · exact ⟨x, List.mem_cons_self, heq, hx, List.forall_mem_cons.2 ⟨Nat.le_refl _, hle⟩⟩
      · exact ⟨l, List.mem_cons_of_mem _ hl, heq, Nat.lt_trans hlt hx,
          List.forall_mem_cons.2 ⟨Nat.le_of_lt hlt, hle⟩⟩
    · rw [shorter, if_neg hx]
      rcases ih best with ⟨heq, hle⟩ | ⟨l, hl, heq, hlt, hle⟩
      · exact .inl ⟨heq, List.forall_mem_cons.2 ⟨Nat.le_of_not_lt hx, hle⟩⟩
      · exact .inr ⟨l, List.mem_cons_of_mem _ hl, heq, hlt, List.forall_mem_cons.2 ⟨by omega, hle⟩⟩

section
variable {env : Env} {w : World}

theorem txQueueLength_eq (txq n : Nat) :
    txQueueLength txq env { w with calls := n } =
      (.ok (reportedLength env w n txq), { w with calls := n + 1 }) := by
  unfold reportedLength
  cases hf : env.fails n with
  | true =>
    have hcall : ∀ f, call (α := Nat) f env { w with calls := n } =
      (.error .io, { w with calls := n + 1 }) := by
      intro f
      rw [call, if_pos hf]
      rfl
    rw [txQueueLength, Prog.bind_ok (Prog.attempt_eq (hcall _))]
    rfl
  | false =>
    have hcall : ∀ f, call (α := Nat) f env { w with calls := n } =
      f env n { w with calls := n + 1 } := by
      intro f
      rw [call, if_neg (by rw [hf]; decide)]
      rfl
    rw [txQueueLength, Prog.bind_ok (Prog.attempt_eq (hcall _))]
    rfl

theorem shortestQueue_eq (txqs : List Nat) (shortest : Option Nat) (min n : Nat) :
    shortestQueue shortest min txqs env { w with calls := n } =
      (.ok ((reportedLengths env w n txqs).foldl shorter (shortest, min)),
        { w with calls := n + txqs.length }) := by
  induction txqs generalizing shortest min n with
  | nil => rfl
  | cons txq txqs ih =>
    have hlen : n + (txq :: txqs).length = n + 1 + txqs.length := by
      rw [List.length_cons]
      omega
    rw [shortestQueue, Prog.bind_ok (txQueueLength_eq txq n), reportedLengths, List.foldl_cons,
      shorter, hlen]
    dsimp only
    split
    · exact ih (some txq) _ (n + 1)
    · exact ih shortest min (n + 1)

end

/-- The queue that the loop starts from is never published on. -/
theorem Operator.queueTrade_eq (op : Operator) (m : Matches) :
    op.queueTrade m = queueTradeOn (List.range op.txQueues) m := by
  funext env w
  unfold queueTrade queueTradeOn getShortestQueue
  rw [Prog.bind_ok (shortestQueue_eq _ _ _ w.calls), Prog.bind_ok (shortestQueue_eq _ _ _ w.calls)]
  rcases foldl_shorter (reportedLengths env w w.calls (List.range op.txQueues)) (none, 1000) with
    ⟨heq, -⟩ | ⟨l, -, heq, -, -⟩
  · rw [heq]
    rfl
  · rw [heq]
    rfl

/-- A batch goes to a queue of minimal length, if it is not full: then it is published there once,
unless that call fails. Otherwise, and if there is no queue, nothing is published. -/
theorem trades_go_to_shortest_queue (txqs : List Nat) (m : Matches) (env : Env) (w : World) :
    let ls := reportedLengths env w w.calls txqs
    let n := w.calls + txqs.length
    ((∀ l ∈ ls, 10 < l.2) ∧ Operator.queueTradeOn txqs m env w =
        (.error (.msg "Transaction queue is full"), { w with calls := n })) ∨
      ∃ l ∈ ls, l.1 ∈ txqs ∧ l.2 ≤ 10 ∧ (∀ l' ∈ ls, l.2 ≤ l'.2) ∧
      Operator.queueTradeOn txqs m env w =
        if env.fails n then (.error .io, { w with calls := n + 1 })
        else (.ok (), { w with calls := n + 1, txQueue := w.txQueue ++ [(l.1, m)] }) := by
  intro ls n
  unfold Operator.queueTradeOn
  rw [Prog.bind_ok (shortestQueue_eq _ _ _ w.calls)]
  rcases foldl_shorter ls (none, 1000) with ⟨heq, hle⟩ | ⟨l, hl, heq, -, hle⟩
  · left
    refine ⟨fun l hl => Nat.lt_of_lt_of_le (by decide) (hle l hl), ?_⟩
    rw [heq]
    rfl
  · rw [heq]
    by_cases hfull : l.2 > 10
    · left
      refine ⟨fun l' hl' => Nat.lt_of_lt_of_le hfull (hle l' hl'), ?_⟩
      dsimp only
      rw [if_pos hfull]
      rfl
    · right
      obtain ⟨i, hi, -⟩ := mem_reportedLengths.1 hl
      refine ⟨l, hl, List.mem_of_getElem? hi, Nat.le_of_not_lt hfull, hle, ?_⟩
      dsimp only
      rw [if_neg hfull]
      rfl

end Dex
