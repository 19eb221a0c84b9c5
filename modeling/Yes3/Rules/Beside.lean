import Yes3.Rules.Parts

/-!
# Yes3.Rules.Beside — two components side by side

The system of two components that share nothing but their callers: outside code
calls either of them, and calls back into either from inside a call of either.

* `beside` is the system; `leftPart` and `rightPart` are its parts.
* `Seat` places a component in a system that it does not share its state with: its
  trees of calls are trees of the system, in which nothing else changes.
* `observed_beside_iff` is the law: between two calls, the states of the system are
  the pairs of states that the components can be in alone. So the two cannot keep
  each other from anything, and neither learns anything of the other.
-/

namespace CallTree

variable {σ ι κ ε σ₁ ι₁ ε₁ σ₂ ι₂ ε₂ : Type} {run : Machine σ ι κ ε} {run₁ : Machine σ₁ ι₁ κ ε₁}
  {run₂ : Machine σ₂ ι₂ κ ε₂}

/-! ## The system -/

/-- The outcome of one component, with the state of the other. -/
def Stage.withRight (s₂ : σ₂) : Stage σ₁ → Stage (σ₁ × σ₂)
  | .done s₁ => .done (s₁, s₂)
  | .out s₁ => .out (s₁, s₂)

def Stage.withLeft (s₁ : σ₁) : Stage σ₂ → Stage (σ₁ × σ₂)
  | .done s₂ => .done (s₁, s₂)
  | .out s₂ => .out (s₁, s₂)

variable (P₁ : TwoPhase run₁) (P₂ : TwoPhase run₂)

def besideBefore : ι₁ ⊕ ι₂ → κ → σ₁ × σ₂ → Except (ε₁ ⊕ ε₂) (Stage (σ₁ × σ₂))
  | .inl i, k, s => ((P₁.before i k s.1).map (Stage.withRight s.2)).mapError .inl
  | .inr i, k, s => ((P₂.before i k s.2).map (Stage.withLeft s.1)).mapError .inr

def besideAfter : ι₁ ⊕ ι₂ → κ → σ₁ × σ₂ → Except (ε₁ ⊕ ε₂) (σ₁ × σ₂)
  | .inl i, k, s => ((P₁.after i k s.1).map fun s₁ => (s₁, s.2)).mapError .inl
  | .inr i, k, s => ((P₂.after i k s.2).map fun s₂ => (s.1, s₂)).mapError .inr

def besideRun : Machine (σ₁ × σ₂) (ι₁ ⊕ ι₂) κ (ε₁ ⊕ ε₂) := fun i k f s =>
  Stage.finish f (besideAfter P₁ P₂ i k) (besideBefore P₁ P₂ i k s)

/-- The two components side by side. -/
def beside : TwoPhase (besideRun P₁ P₂) where
  before := besideBefore P₁ P₂
  after := besideAfter P₁ P₂
  run_eq := fun _ _ _ _ => rfl

section Outcome

variable {α β γ : Type}

theorem of_mapError_ok {f : α → β} {g : ε₁ → ε} {x : Except ε₁ α} {b : β}
    (h : (x.map f).mapError g = .ok b) : ∃ a, x = .ok a ∧ f a = b := by
  cases x with
  | error e => cases h
  | ok a => exact ⟨a, rfl, Except.ok.inj h⟩

theorem of_withRight_done {p : Stage σ₁} {s₂ : σ₂} {s : σ₁ × σ₂}
    (h : p.withRight s₂ = .done s) : p = .done s.1 ∧ s.2 = s₂ := by
  cases p with
  | done s₁ =>
      obtain rfl : (s₁, s₂) = s := Stage.done.inj h
      exact ⟨rfl, rfl⟩
  | out s₁ => cases h

theorem of_withRight_out {p : Stage σ₁} {s₂ : σ₂} {s : σ₁ × σ₂}
    (h : p.withRight s₂ = .out s) : p = .out s.1 ∧ s.2 = s₂ := by
  cases p with
  | done s₁ => cases h
  | out s₁ =>
      obtain rfl : (s₁, s₂) = s := Stage.out.inj h
      exact ⟨rfl, rfl⟩

theorem of_withLeft_done {p : Stage σ₂} {s₁ : σ₁} {s : σ₁ × σ₂}
    (h : p.withLeft s₁ = .done s) : p = .done s.2 ∧ s.1 = s₁ := by
  cases p with
  | done s₂ =>
      obtain rfl : (s₁, s₂) = s := Stage.done.inj h
      exact ⟨rfl, rfl⟩
  | out s₂ => cases h

theorem of_withLeft_out {p : Stage σ₂} {s₁ : σ₁} {s : σ₁ × σ₂}
    (h : p.withLeft s₁ = .out s) : p = .out s.2 ∧ s.1 = s₁ := by
  cases p with
  | done s₂ => cases h
  | out s₂ =>
      obtain rfl : (s₁, s₂) = s := Stage.out.inj h
      exact ⟨rfl, rfl⟩

end Outcome

/-- A call of the first component. -/
def leftCall : ι₁ ⊕ ι₂ → κ → Option (ι₁ × κ)
  | .inl i, k => some (i, k)
  | .inr _, _ => none

/-- A call of the second component. -/
def rightCall : ι₁ ⊕ ι₂ → κ → Option (ι₂ × κ)
  | .inl _, _ => none
  | .inr i, k => some (i, k)

def leftPart : Part (beside P₁ P₂) P₁ where
  view := Prod.fst
  mine := leftCall
  done := by
    rintro (i | i) k j l s s' ⟨⟩ h
    obtain ⟨p, hp, hs⟩ := of_mapError_ok h
    rw [hp, (of_withRight_done hs).1]
  out := by
    rintro (i | i) k j l s s' ⟨⟩ h
    obtain ⟨p, hp, hs⟩ := of_mapError_ok h
    rw [hp, (of_withRight_out hs).1]
  after := by
    rintro (i | i) k j l s s' ⟨⟩ h
    obtain ⟨s₁, hs₁, rfl⟩ := of_mapError_ok h
    exact hs₁
  done_other := by
    rintro (i | i) k s s' hm h
    · cases hm
    · obtain ⟨p, _, hs⟩ := of_mapError_ok h
      exact (of_withLeft_done hs).2
  out_other := by
    rintro (i | i) k s s' hm h
    · cases hm
    · obtain ⟨p, _, hs⟩ := of_mapError_ok h
      exact (of_withLeft_out hs).2
  after_other := by
    rintro (i | i) k s s' hm h
    · cases hm
    · obtain ⟨s₂, _, rfl⟩ := of_mapError_ok h
      rfl

def rightPart : Part (beside P₁ P₂) P₂ where
  view := Prod.snd
  mine := rightCall
  done := by
    rintro (i | i) k j l s s' ⟨⟩ h
    obtain ⟨p, hp, hs⟩ := of_mapError_ok h
    rw [hp, (of_withLeft_done hs).1]
  out := by
    rintro (i | i) k j l s s' ⟨⟩ h
    obtain ⟨p, hp, hs⟩ := of_mapError_ok h
    rw [hp, (of_withLeft_out hs).1]
  after := by
    rintro (i | i) k j l s s' ⟨⟩ h
    obtain ⟨s₂, hs₂, rfl⟩ := of_mapError_ok h
    exact hs₂
  done_other := by
    rintro (i | i) k s s' hm h
    · obtain ⟨p, _, hs⟩ := of_mapError_ok h
      exact (of_withRight_done hs).2
    · cases hm
  out_other := by
    rintro (i | i) k s s' hm h
    · obtain ⟨p, _, hs⟩ := of_mapError_ok h
      exact (of_withRight_out hs).2
    · cases hm
  after_other := by
    rintro (i | i) k s s' hm h
    · obtain ⟨s₁, _, rfl⟩ := of_mapError_ok h
      rfl
    · cases hm

/-! ## A component in a system -/

/-- A place for the component `P₁` in the system `P`, the rest of which stays as it
is: `put` is the state of the system with the component in a given state. -/
structure Seat (P : TwoPhase run) (P₁ : TwoPhase run₁) where
  put : σ₁ → σ
  call : ι₁ → ι
  err : ε₁ → ε
  done : ∀ i k s s', P₁.before i k s = .ok (.done s') →
    P.before (call i) k (put s) = .ok (.done (put s'))
  out : ∀ i k s s', P₁.before i k s = .ok (.out s') →
    P.before (call i) k (put s) = .ok (.out (put s'))
  fails : ∀ i k s e, P₁.before i k s = .error e →
    P.before (call i) k (put s) = .error (err e)
  after : ∀ i k s s', P₁.after i k s = .ok s' → P.after (call i) k (put s) = .ok (put s')
  after_fails : ∀ i k s e, P₁.after i k s = .error e →
    P.after (call i) k (put s) = .error (err e)

namespace Seat

variable {P : TwoPhase run} {P₁ : TwoPhase run₁} (S : Seat P P₁)

mutual

/-- A tree of calls of the component, as one of the system. -/
def embed : Tree ι₁ κ ε₁ → Tree ι κ ε
  | .call i k body => .call (S.call i) k (embedAll body)
  | .frame body fails => .frame (embedAll body) (fails.map S.err)

def embedAll : List (Tree ι₁ κ ε₁) → List (Tree ι κ ε)
  | [] => []
  | t :: ts => embed t :: embedAll ts

end

/-- The outcome of a call of the component, in the system. -/
def outcome (x : Except ε₁ σ₁) : Except ε σ := (x.map S.put).mapError S.err

theorem settle_outcome (s : σ₁) (x : Except ε₁ σ₁) :
    settle (S.put s) (S.outcome x) = S.put (settle s x) := by
  cases x <;> rfl

mutual

theorem exec_embed : ∀ (t : Tree ι₁ κ ε₁) (s : σ₁),
    exec run (S.embed t) (S.put s) = S.outcome (exec run₁ t s)
  | .call i k body, s => by
      rw [embed, exec, exec, P.run_eq, P₁.run_eq]
      cases hb : P₁.before i k s with
      | error e =>
          rw [S.fails i k s e hb]
          rfl
      | ok stage =>
          cases stage with
          | done s' =>
              rw [S.done i k s s' hb]
              rfl
          | out s₁ =>
              rw [S.out i k s s₁ hb]
              simp only [Stage.finish]
              rw [execAll_embed body s₁]
              cases ha : P₁.after i k (execAll run₁ body s₁) with
              | error e => exact S.after_fails i k _ e ha
              | ok s' => exact S.after i k _ s' ha
  | .frame body none, s => by
      rw [embed, Option.map_none, exec, exec, execAll_embed body s]
      rfl
  | .frame body (some e), s => by
      rw [embed, Option.map_some, exec, exec]
      rfl

/-- Trees of the component do in the system what they do alone. -/
theorem execAll_embed : ∀ (ts : List (Tree ι₁ κ ε₁)) (s : σ₁),
    execAll run (S.embedAll ts) (S.put s) = S.put (execAll run₁ ts s)
  | [], _ => rfl
  | t :: ts, s => by
      rw [embedAll, execAll, execAll, exec_embed t s, settle_outcome]
      exact execAll_embed ts _

end

section Guard

variable {guard : ι → σ → Prop} {guard₁ : ι₁ → σ₁ → Prop}

mutual

theorem meets_embed (hguard : ∀ i s, guard₁ i s → guard (S.call i) (S.put s)) :
    ∀ (t : Tree ι₁ κ ε₁) (s : σ₁), P₁.Meets guard₁ t s → P.Meets guard (S.embed t) (S.put s)
  | .call i k body, s, hm => by
      rintro ⟨s', hx⟩
      rw [← embed, S.exec_embed] at hx
      -- the call succeeds alone as well
      cases hx₁ : exec run₁ (.call i k body) s with
      | error e =>
          rw [hx₁] at hx
          cases hx
      | ok s₁' =>
          rcases hm ⟨s₁', hx₁⟩ with ⟨hg, hbody⟩
          refine ⟨hguard i s hg, ?_⟩
          intro s₂ hs₂
          cases hb : P₁.before i k s with
          | error e =>
              rw [S.fails i k s e hb] at hs₂
              cases hs₂
          | ok stage =>
              cases stage with
              | done s₁ =>
                  rw [S.done i k s s₁ hb] at hs₂
                  cases hs₂
              | out s₁ =>
                  rw [S.out i k s s₁ hb] at hs₂
                  obtain rfl : S.put s₁ = s₂ := Stage.out.inj (Except.ok.inj hs₂)
                  exact meetsAll_embed hguard body s₁ (hbody s₁ hb)
  | .frame body none, s, hm => meetsAll_embed hguard body s hm
  | .frame _ (some _), _, _ => trivial

theorem meetsAll_embed (hguard : ∀ i s, guard₁ i s → guard (S.call i) (S.put s)) :
    ∀ (ts : List (Tree ι₁ κ ε₁)) (s : σ₁), P₁.MeetsAll guard₁ ts s →
      P.MeetsAll guard (S.embedAll ts) (S.put s)
  | [], _, _ => trivial
  | t :: ts, s, hm => by
      have hrest := meetsAll_embed hguard ts _ hm.2
      rw [← S.settle_outcome, ← S.exec_embed] at hrest
      exact ⟨meets_embed hguard t s hm.1, hrest⟩

end

/-- Where the component can be alone, it can be in the system. -/
theorem observed_put {s₀ s : σ₁} {st : List (ι₁ × κ)}
    (hguard : ∀ i s, guard₁ i s → guard (S.call i) (S.put s)) (h : P₁.Observed guard₁ s₀ st s) :
    P.Observed guard (S.put s₀) (st.map fun ik => (S.call ik.1, ik.2)) (S.put s) := by
  induction h with
  | init => exact TwoPhase.Observed.init
  | exec t _ hm hx ih =>
      refine ih.exec (S.embed t) (S.meets_embed hguard t _ hm) ?_
      rw [S.exec_embed, hx]
      rfl
  | enter i k _ hg hb ih => exact ih.enter _ k (hguard i _ hg) (S.out i k _ _ hb)

/-- The same between two calls. -/
theorem reachable_put {s₀ s : σ₁} (hguard : ∀ i s, guard₁ i s → guard (S.call i) (S.put s))
    (h : P₁.Observed guard₁ s₀ [] s) : P.Observed guard (S.put s₀) [] (S.put s) :=
  S.observed_put hguard h

end Guard

end Seat

/-- The first component, with the second one in the state `s₂`. -/
def leftSeat (s₂ : σ₂) : Seat (beside P₁ P₂) P₁ where
  put := fun s₁ => (s₁, s₂)
  call := .inl
  err := .inl
  done := fun i k s s' h => by simp [beside, besideBefore, h]; rfl
  out := fun i k s s' h => by simp [beside, besideBefore, h]; rfl
  fails := fun i k s e h => by simp [beside, besideBefore, h]; rfl
  after := fun i k s s' h => by simp [beside, besideAfter, h]; rfl
  after_fails := fun i k s e h => by simp [beside, besideAfter, h]; rfl

/-- The second component, with the first one in the state `s₁`. -/
def rightSeat (s₁ : σ₁) : Seat (beside P₁ P₂) P₂ where
  put := fun s₂ => (s₁, s₂)
  call := .inr
  err := .inr
  done := fun i k s s' h => by simp [beside, besideBefore, h]; rfl
  out := fun i k s s' h => by simp [beside, besideBefore, h]; rfl
  fails := fun i k s e h => by simp [beside, besideBefore, h]; rfl
  after := fun i k s s' h => by simp [beside, besideAfter, h]; rfl
  after_fails := fun i k s e h => by simp [beside, besideAfter, h]; rfl

/-- A run that goes on from the end of another one. -/
theorem TwoPhase.Observed.trans {P : TwoPhase run} {guard : ι → σ → Prop} {s₀ s s' : σ}
    {st : List (ι × κ)} (h : P.Observed guard s₀ [] s) (h' : P.Observed guard s st s') :
    P.Observed guard s₀ st s' := by
  induction h' with
  | init => exact h
  | exec t _ hm hx ih => exact ih.exec t hm hx
  | enter i k _ hg hb ih => exact ih.enter i k hg hb

variable {P₁ P₂}

/-- A guard for each of the two. -/
def besideGuard (guard₁ : ι₁ → Prop) (guard₂ : ι₂ → Prop) : ι₁ ⊕ ι₂ → σ₁ × σ₂ → Prop
  | .inl i, _ => guard₁ i
  | .inr i, _ => guard₂ i

/-- **Two components side by side.** Between two calls, the states of the system are
the pairs of states that the components can be in alone. -/
theorem observed_beside_iff {guard₁ : ι₁ → Prop} {guard₂ : ι₂ → Prop} {a : σ₁} {b : σ₂}
    {s : σ₁ × σ₂} :
    (beside P₁ P₂).Observed (besideGuard guard₁ guard₂) (a, b) [] s ↔
      P₁.Observed (fun i _ => guard₁ i) a [] s.1 ∧ P₂.Observed (fun i _ => guard₂ i) b [] s.2 := by
  constructor
  · intro h
    constructor
    · refine (leftPart P₁ P₂).observed_view ?_ h
      rintro (i | i) k j l s ⟨⟩ hg
      exact hg
    · refine (rightPart P₁ P₂).observed_view ?_ h
      rintro (i | i) k j l s ⟨⟩ hg
      exact hg
  · rintro ⟨hleft, hright⟩
    have h₁ : (beside P₁ P₂).Observed (besideGuard guard₁ guard₂) (a, b) [] (s.1, b) :=
      (leftSeat P₁ P₂ b).reachable_put (fun _ _ hg => hg) hleft
    have h₂ : (beside P₁ P₂).Observed (besideGuard guard₁ guard₂) (s.1, b) [] s :=
      (rightSeat P₁ P₂ s.1).reachable_put (fun _ _ hg => hg) hright
    exact h₁.trans h₂

end CallTree
