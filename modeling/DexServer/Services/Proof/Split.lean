import DexServer.Services.Proof.Messages

/-!
# Splitting the matches of a response

The order service goes through the makers of a response: a match goes to the valid ones or to the
invalid ones (`checkMakers_split`), and the valid ones may be stored and then published
(`storeMatches_split`).
-/

namespace Dex

open Lib

/-- The trades of a batch as they are stored. -/
def Matches.stamp (now : Time) (m : Matches) : Matches :=
  { m with trades := m.trades.map (·.stamp now) }

namespace Services

/-- A batch to which the matches `ps` were appended. -/
def extended (m : Matches) (ps : List (Order × Trade)) : Matches :=
  ⟨m.makerOrders ++ ps.map (·.1), m.takerOrder, m.trades ++ ps.map (·.2)⟩

theorem extended_appendMatch (m : Matches) (mo : Order) (t : Trade) (ps : List (Order × Trade)) :
    extended (m.appendMatch mo t) ps = extended m ((mo, t) :: ps) := by
  simp [extended, Matches.appendMatch]

section
variable {s : Services} {env : Env}

theorem checkMakers_split (m : Matches) :
    ∀ (trades : List Trade) (i : Nat) (valid invalid : Matches)
    (w : World), Prog.wp (s.checkMakers m valid invalid i trades) env w
      (fun x w' => w.Same w' ∧ ∃ ps qs : List (Order × Trade),
        ps.Sublist ((m.makerOrders.drop i).zip trades) ∧
        qs.Sublist ((m.makerOrders.drop i).zip trades) ∧
        ((ps ++ qs).map (·.2)).Perm trades ∧
        x = (extended valid ps, extended invalid qs))
      (fun _ w' => w.Same w')
  | [], i, valid, invalid, w => by
    refine ⟨w.same_rfl, [], [], List.nil_sublist _, List.nil_sublist _, by simp, ?_⟩
    simp [extended]
  | t :: trades, i, valid, invalid, w => by
    unfold checkMakers
    rw [Prog.wp_bind]
    refine wp_index (fun mo hmo => ?_) fun _ => w.same_rfl
    obtain ⟨hi, hget⟩ := List.getElem?_eq_some_iff.1 hmo
    have hzip : (m.makerOrders.drop i).zip (t :: trades) =
        (mo, t) :: (m.makerOrders.drop (i + 1)).zip trades := by
      rw [List.drop_eq_getElem_cons hi, hget, List.zip_cons_cons]
    rw [hzip, Prog.wp_bind]
    have hquiet := Silent.quiet (s.validateBalance_quiet mo)
    refine wp_attempted (Prog.wp_mono hquiet.same (fun _ w₁ h₁ => ?_) fun e w₁ h₁ => ⟨?_, h₁⟩)
    · refine Prog.wp_mono (checkMakers_split m trades (i + 1) (valid.appendMatch mo t) invalid w₁)
        (fun x w' hx => ?_) fun _ w' h => h₁.same h
      obtain ⟨hw', ps, qs, hps, hqs, hp, hx⟩ := hx
      rw [extended_appendMatch] at hx
      exact ⟨h₁.same hw', _, qs, hps.cons_cons _, hqs.cons _, hp.cons _, hx⟩
    · refine Prog.wp_mono (checkMakers_split m trades (i + 1) valid (invalid.appendMatch mo t) w₁)
        (fun x w' hx => ?_) fun _ w' h => h₁.same h
      obtain ⟨hw', ps, qs, hps, hqs, hp, hx⟩ := hx
      rw [extended_appendMatch] at hx
      exact ⟨h₁.same hw', ps, _, hps.cons _, hqs.cons_cons _,
        (List.perm_middle.map _).trans (hp.cons _), hx⟩

theorem storeMatches_split (o : Order) (m valid : Matches) (w : World) : ∃ ts bs,
    w.Dispatched ts [] bs (storeMatches o m valid env w).2 ∧
    (∀ t ∈ ts, ∃ u ∈ valid.trades, ∃ now, t = u.stamp now) ∧
    (bs = [] ∨ valid.trades ≠ [] ∧ ∃ now, bs = [valid.stamp now]) := by
  refine Prog.wp_state (P := fun w' : World => ∃ ts bs, w.Dispatched ts [] bs w' ∧
    (∀ t ∈ ts, ∃ u ∈ valid.trades, ∃ now, t = u.stamp now) ∧
    (bs = [] ∨ valid.trades ≠ [] ∧ ∃ now, bs = [valid.stamp now])) ?_
  unfold storeMatches
  split
  · exact ⟨[], [], w.same_rfl.dispatched, by simp, .inl rfl⟩
  · rename_i hne
    rw [List.isEmpty_iff] at hne
    simp only [Prog.wp_bind, Prog.wp_attempt]
    have hstamp : ∀ t ∈ valid.trades.map (·.stamp (env.now w.calls)),
        ∃ u ∈ valid.trades, ∃ now, t = u.stamp now := by
      intro t ht
      obtain ⟨u, hu, rfl⟩ := List.mem_map.1 ht
      exact ⟨u, hu, _, rfl⟩
    -- the creation fails, or the publication, or neither
    refine wp_call (fun _ => ?_) fun _ => ?_
    · exact ⟨[], [], ⟨rfl, by simp, by simp, rfl, by simp [World.tick], rfl, rfl⟩, by simp,
        .inl rfl⟩
    · rw [Prog.ends_ok]
      refine wp_call (fun _ => ?_) fun _ => ?_
      · exact ⟨_, [], ⟨rfl, rfl, by simp [World.tick], rfl, by simp [World.tick], rfl, rfl⟩,
          hstamp, .inl rfl⟩
      · refine ⟨_, [valid.stamp (env.now w.calls)],
          ⟨rfl, rfl, by simp [World.tick], rfl, by simp [World.tick, Matches.stamp], rfl, rfl⟩,
          hstamp, .inr ⟨hne, _, rfl⟩⟩

end

end Services

end Dex
