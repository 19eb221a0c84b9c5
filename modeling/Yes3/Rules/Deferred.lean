import Yes3.Rules.CallTree

/-!
# Yes3.Rules.Deferred — calls with work left after the callback

`CallTree.EffectsFirst` asks that an entry point hands control out last. Here an
entry point may still fail after the callback, and may have work left to do.

* `TwoPhase` splits the entry points of a component at the point where they call
  out; `Observed` are the states in which outside code runs, with the stack of
  the calls that are still pending.
* `survivors` are the calls of a tree that are not undone, in the order in which
  they were made.
* `Preserved` is the invariant rule: what single calls keep, up to and after the
  point where they call out, holds in every observed state.
* `Deferrable` is the discipline: a call that succeeds while others are pending
  would also have succeeded had they been finished before it, with the same
  effect. So the work left may be moved forward, over the callback.
* `exec_survivors` is the payoff: a tree is the flat run of its survivors.
-/

namespace CallTree

variable {σ ι κ ε : Type}

/-- How far a call gets before it gives up control: to its end, or to a point
where it calls out. -/
inductive Stage (σ : Type) where
  | done (s : σ)
  | out (s : σ)

def Stage.map (f : σ → σ) : Stage σ → Stage σ
  | .done s => .done (f s)
  | .out s => .out (f s)

/-- The rest of a call, when the callback does `f` and `after` is what the call
does after it. -/
def Stage.finish (f : σ → σ) (after : σ → Except ε σ) : Except ε (Stage σ) → Except ε σ
  | .ok (.done s) => .ok s
  | .ok (.out s) => after (f s)
  | .error e => .error e

/-- A call that is over before any callback. -/
theorem Stage.finish_done (f : σ → σ) (after : σ → Except ε σ) (r : Except ε σ) :
    Stage.finish f after (do let s ← r; return .done s) = r := by
  cases r with
  | error e => rfl
  | ok s => rfl

/-- A call that calls out on a condition. -/
theorem Stage.finish_ite (f : σ → σ) (after : σ → Except ε σ) (p : Prop) [Decidable p]
    (s₁ s₂ : σ) :
    Stage.finish f after (if p then return .out s₁ else return .done s₂) =
      if p then after (f s₁) else .ok s₂ := by
  split
  · rfl
  · rfl

/-- A component whose calls call out at most once: `before` is what a call does
until then, and `after` is the rest. -/
structure TwoPhase (run : Machine σ ι κ ε) where
  before : ι → κ → σ → Except ε (Stage σ)
  after : ι → κ → σ → Except ε σ
  run_eq : ∀ i k f s, run i k f s = Stage.finish f (after i k) (before i k s)

variable {run : Machine σ ι κ ε} (P : TwoPhase run) (guard : ι → σ → Prop)

namespace TwoPhase

mutual

/-- The calls of a tree that are not undone, each before those that it makes. -/
def survivors : Tree ι κ ε → σ → List (ι × κ)
  | .call i k body, s =>
    match exec run (.call i k body) s, P.before i k s with
    | .ok _, .ok (.out s₁) => (i, k) :: survivorsAll body s₁
    | .ok _, _ => [(i, k)]
    | .error _, _ => []
  | .frame body none, s => survivorsAll body s
  | .frame _ (some _), _ => []

/-- The calls that are not undone of trees run one after the other. -/
def survivorsAll : List (Tree ι κ ε) → σ → List (ι × κ)
  | [], _ => []
  | t :: ts, s => survivors t s ++ survivorsAll ts (settle s (exec run t s))

end

mutual

/-- Every call made in the tree, if it is not undone, meets the guard in the state
it is made in. -/
def Meets : Tree ι κ ε → σ → Prop
  | .call i k body, s => (∃ s', exec run (.call i k body) s = .ok s') →
    guard i s ∧ ∀ s₁, P.before i k s = .ok (.out s₁) → MeetsAll body s₁
  | .frame body none, s => MeetsAll body s
  | .frame _ (some _), _ => True

/-- Every call made in the trees, run one after the other, meets the guard if it
is not undone. -/
def MeetsAll : List (Tree ι κ ε) → σ → Prop
  | [], _ => True
  | t :: ts, s => Meets t s ∧ MeetsAll ts (settle s (exec run t s))

end

mutual

/-- Every tree meets the guard that asks for nothing. -/
theorem meets_true : ∀ (t : Tree ι κ ε) (s : σ), P.Meets (fun _ _ => True) t s
  | .call _ _ body, _ => fun _ => ⟨trivial, fun s₁ _ => meetsAll_true body s₁⟩
  | .frame body none, s => meetsAll_true body s
  | .frame _ (some _), _ => trivial

theorem meetsAll_true : ∀ (ts : List (Tree ι κ ε)) (s : σ), P.MeetsAll (fun _ _ => True) ts s
  | [], _ => trivial
  | t :: ts, s => ⟨meets_true t s, meetsAll_true ts _⟩

end

/-- The states in which outside code runs, in runs from `s₀` whose calls meet the
guard. The list is the stack of the calls that are pending, the innermost one
first. Whether they will be undone is not known yet, so they meet the guard too. -/
inductive Observed (s₀ : σ) : List (ι × κ) → σ → Prop where
  | init : Observed s₀ [] s₀
  | exec {st : List (ι × κ)} {s s' : σ} (t : Tree ι κ ε) : Observed s₀ st s →
      P.Meets guard t s → CallTree.exec run t s = .ok s' → Observed s₀ st s'
  | enter {st : List (ι × κ)} {s s₁ : σ} (i : ι) (k : κ) : Observed s₀ st s → guard i s →
      P.before i k s = .ok (.out s₁) → Observed s₀ ((i, k) :: st) s₁

end TwoPhase

/-! ## Invariants -/

/-- An invariant of the states with their pending calls. `tail i k` is the work
that the call `i` leaves for after its callback. -/
structure Preserved (P : TwoPhase run) (guard : ι → σ → Prop) (tail : ι → κ → σ → σ)
    (good : List (ι × κ) → σ → Prop) : Prop where
  after_eq : ∀ i k s s', P.after i k s = .ok s' → s' = tail i k s
  done : ∀ st s i k s', good st s → guard i s → P.before i k s = .ok (.done s') → good st s'
  enter : ∀ st s i k s₁, good st s → guard i s → P.before i k s = .ok (.out s₁) →
    good ((i, k) :: st) s₁
  leave : ∀ st s i k, good ((i, k) :: st) s → good st (tail i k s)

variable {P guard} {tail : ι → κ → σ → σ} {good : List (ι × κ) → σ → Prop}

/-- A call that succeeds, seen from its two phases. -/
theorem TwoPhase.of_run_ok {i : ι} {k : κ} {f : σ → σ} {s s' : σ} (h : run i k f s = .ok s') :
    P.before i k s = .ok (.done s') ∨
      ∃ s₁, P.before i k s = .ok (.out s₁) ∧ P.after i k (f s₁) = .ok s' := by
  rw [P.run_eq] at h
  cases hb : P.before i k s with
  | error e =>
      rw [hb] at h
      cases h
  | ok stage =>
      rw [hb] at h
      cases stage with
      | done s₁ =>
          obtain rfl : s₁ = s' := Except.ok.inj h
          exact Or.inl rfl
      | out s₁ => exact Or.inr ⟨s₁, rfl, h⟩

mutual

theorem exec_preserved (hI : Preserved P guard tail good) :
    ∀ (t : Tree ι κ ε) (st : List (ι × κ)) (s s' : σ), good st s → P.Meets guard t s →
      exec run t s = .ok s' → good st s'
  | .call i k body, st, s, s', hgood, hm, hx => by
      rcases hm ⟨s', hx⟩ with ⟨hg, hbody⟩
      rcases P.of_run_ok hx with hb | ⟨s₁, hb, hafter⟩
      · exact hI.done st s i k s' hgood hg hb
      · have hgood₁ := hI.enter st s i k s₁ hgood hg hb
        have hgood' := execAll_preserved hI body ((i, k) :: st) s₁ hgood₁ (hbody s₁ hb)
        rw [hI.after_eq i k _ s' hafter]
        exact hI.leave st _ i k hgood'
  | .frame body none, st, s, s', hgood, hm, hx => by
      obtain rfl : execAll run body s = s' := Except.ok.inj hx
      exact execAll_preserved hI body st s hgood hm
  | .frame _ (some _), _, _, _, _, _, hx => nomatch hx

theorem execAll_preserved (hI : Preserved P guard tail good) :
    ∀ (ts : List (Tree ι κ ε)) (st : List (ι × κ)) (s : σ), good st s → P.MeetsAll guard ts s →
      good st (execAll run ts s)
  | [], _, _, hgood, _ => hgood
  | t :: ts, st, s, hgood, hm => by
      refine execAll_preserved hI ts st _ ?_ hm.2
      cases hx : exec run t s with
      | error e => exact hgood
      | ok s₁ => exact exec_preserved hI t st s s₁ hgood hm.1 hx

end

variable {s₀ s s' : σ} {st : List (ι × κ)}

/-- **Invariant induction** over the states in which outside code runs. -/
theorem TwoPhase.Observed.invariant (hI : Preserved P guard tail good) (hinit : good [] s₀)
    (h : P.Observed guard s₀ st s) : good st s := by
  induction h with
  | init => exact hinit
  | exec t _ hm hx ih => exact exec_preserved hI t _ _ _ ih hm hx
  | enter i k _ hg hb ih => exact hI.enter _ _ i k _ ih hg hb

/-- The state after trees run at an observed point is observed. -/
theorem TwoPhase.Observed.execAll {ts : List (Tree ι κ ε)} (h : P.Observed guard s₀ st s)
    (hm : P.MeetsAll guard ts s) : P.Observed guard s₀ st (CallTree.execAll run ts s) := by
  induction ts generalizing s with
  | nil => exact h
  | cons t ts ih =>
      refine ih ?_ hm.2
      cases hx : CallTree.exec run t s with
      | error e => exact h
      | ok s₁ => exact h.exec t hm.1 hx

/-- The end of a flat run is observed. -/
theorem TwoPhase.Observed.steps {is : List (ι × κ)} (h : P.Observed guard s₀ st s)
    (hs : Steps run guard s is s') : P.Observed guard s₀ st s' := by
  induction hs with
  | nil s => exact h
  | @cons s s₁ s' i k is hg hr _ ih =>
      have hnil : CallTree.execAll run ([] : List (Tree ι κ ε)) = id := rfl
      have hx : CallTree.exec run (.call i k []) s = .ok s₁ := by
        rw [CallTree.exec, hnil]
        exact hr
      exact ih (h.exec (.call i k []) (fun _ => ⟨hg, fun _ _ => trivial⟩) hx)

/-! ## Deferred work -/

/-- The pending calls finished, the innermost one first. -/
def unwind (tail : ι → κ → σ → σ) : List (ι × κ) → σ → σ
  | [], s => s
  | (i, k) :: st, s => unwind tail st (tail i k s)

/-- The work that calls leave for later may be done at once. -/
structure Deferrable (P : TwoPhase run) (guard : ι → σ → Prop) (tail : ι → κ → σ → σ)
    (good : List (ι × κ) → σ → Prop) : Prop extends Preserved P guard tail good where
  /-- It does not depend on the state whether a call gets to its end. -/
  ends : ∀ i k s s₁ s', P.after i k s = .ok s' → P.after i k s₁ = .ok (tail i k s₁)
  /-- A call that succeeds now succeeds with the same effect after the pending
  calls are finished. -/
  commutes : ∀ st s i k s', good st s → guard i s → run i k id s = .ok s' →
    guard i (unwind tail st s) ∧ run i k id (unwind tail st s) = .ok (unwind tail st s')

mutual

/-- **Linearisation**: a tree that succeeds while calls are pending is the flat
run of its survivors, made after the pending calls are finished. -/
theorem exec_survivors (hD : Deferrable P guard tail good) :
    ∀ (t : Tree ι κ ε) (st : List (ι × κ)) (s s' : σ), good st s → P.Meets guard t s →
      exec run t s = .ok s' →
      Steps run guard (unwind tail st s) (P.survivors t s) (unwind tail st s')
  | .call i k body, st, s, s', hgood, hm, hx => by
      rcases hm ⟨s', hx⟩ with ⟨hg, hbody⟩
      rw [TwoPhase.survivors, hx]
      rcases P.of_run_ok hx with hb | ⟨s₁, hb, hafter⟩
      · -- no callback is made
        have hid : run i k id s = .ok s' := by rw [P.run_eq, hb]; rfl
        rcases hD.commutes st s i k s' hgood hg hid with ⟨hg', hr⟩
        rw [hb]
        exact Steps.cons hg' hr (Steps.nil _)
      · have hgood₁ := hD.enter st s i k s₁ hgood hg hb
        have hsteps := execAll_survivors hD body ((i, k) :: st) s₁ hgood₁ (hbody s₁ hb)
        -- the call on its own, with its work done before the calls of the callback
        have hid : run i k id s = .ok (tail i k s₁) := by
          rw [P.run_eq, hb]
          exact hD.ends i k _ s₁ s' hafter
        rcases hD.commutes st s i k _ hgood hg hid with ⟨hg', hr⟩
        rw [hb, hD.after_eq i k _ s' hafter]
        exact Steps.cons hg' hr hsteps
  | .frame body none, st, s, s', hgood, hm, hx => by
      obtain rfl : execAll run body s = s' := Except.ok.inj hx
      exact execAll_survivors hD body st s hgood hm
  | .frame _ (some _), _, _, _, _, _, hx => nomatch hx

theorem execAll_survivors (hD : Deferrable P guard tail good) :
    ∀ (ts : List (Tree ι κ ε)) (st : List (ι × κ)) (s : σ), good st s → P.MeetsAll guard ts s →
      Steps run guard (unwind tail st s) (P.survivorsAll ts s) (unwind tail st (execAll run ts s))
  | [], _, _, _, _ => Steps.nil _
  | t :: ts, st, s, hgood, hm => by
      rcases hm with ⟨ht, hts⟩
      rw [TwoPhase.survivorsAll, execAll]
      cases hx : exec run t s with
      | error e =>
          rw [hx] at hts
          -- a tree that fails has no survivors
          have hnone : P.survivors t s = [] := by
            cases t with
            | call i k body => rw [TwoPhase.survivors, hx]
            | frame body fails =>
                cases fails with
                | none => cases hx
                | some e' => rw [TwoPhase.survivors]
          rw [hnone]
          exact execAll_survivors hD ts st s hgood hts
      | ok s₁ =>
          rw [hx] at hts
          have hgood₁ := exec_preserved hD.toPreserved t st s s₁ hgood ht hx
          have hsteps := exec_survivors hD t st s s₁ hgood ht hx
          have hsteps' := execAll_survivors hD ts st s₁ hgood₁ hts
          exact hsteps.append hsteps'

end

end CallTree
