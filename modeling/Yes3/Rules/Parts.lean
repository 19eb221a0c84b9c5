import Yes3.Rules.Deferred

/-!
# Yes3.Rules.Parts — the parts of a system of components

Several components live side by side, and outside code calls now the one and now
the other, also back from inside a call of either. A component is a `Part` of the
system if the calls that are its own do to its state what they do when it is
alone, and the other calls leave its state as it is.

* `project` are the trees of calls that a part sees of a tree of the system: its
  own calls, with what was undone left out.
* `execAll_project` says that these trees lead the part alone to where it is in the
  system, so that what is proved of the component alone holds of it in the system
  (`Observed.part`), whatever the other components do in between.
-/

namespace CallTree

variable {σ ι κ ε σ₁ ι₁ κ₁ ε₁ : Type} {run : Machine σ ι κ ε} {run₁ : Machine σ₁ ι₁ κ₁ ε₁}

/-- The component `P₁` as a part of the system `P`: `view` is its state, and `mine`
tells its own calls. -/
structure Part (P : TwoPhase run) (P₁ : TwoPhase run₁) where
  view : σ → σ₁
  mine : ι → κ → Option (ι₁ × κ₁)
  done : ∀ i k j l s s', mine i k = some (j, l) → P.before i k s = .ok (.done s') →
    P₁.before j l (view s) = .ok (.done (view s'))
  out : ∀ i k j l s s', mine i k = some (j, l) → P.before i k s = .ok (.out s') →
    P₁.before j l (view s) = .ok (.out (view s'))
  after : ∀ i k j l s s', mine i k = some (j, l) → P.after i k s = .ok s' →
    P₁.after j l (view s) = .ok (view s')
  done_other : ∀ i k s s', mine i k = none → P.before i k s = .ok (.done s') → view s' = view s
  out_other : ∀ i k s s', mine i k = none → P.before i k s = .ok (.out s') → view s' = view s
  after_other : ∀ i k s s', mine i k = none → P.after i k s = .ok s' → view s' = view s

namespace Part

variable {P : TwoPhase run} {P₁ : TwoPhase run₁} (V : Part P P₁)

mutual

/-- What the part sees of a tree. -/
def project : Tree ι κ ε → σ → List (Tree ι₁ κ₁ ε₁)
  | .call i k body, s =>
    match exec run (.call i k body) s, V.mine i k, P.before i k s with
    | .ok _, some (j, l), .ok (.out s₁) => [.call j l (projectAll body s₁)]
    | .ok _, some (j, l), _ => [.call j l []]
    | .ok _, none, .ok (.out s₁) => projectAll body s₁
    | _, _, _ => []
  | .frame body none, s => projectAll body s
  | .frame _ (some _), _ => []

/-- What the part sees of trees run one after the other. -/
def projectAll : List (Tree ι κ ε) → σ → List (Tree ι₁ κ₁ ε₁)
  | [], _ => []
  | t :: ts, s => project t s ++ projectAll ts (settle s (exec run t s))

end

/-- Trees one after the other. -/
theorem execAll_append (run : Machine σ ι κ ε) (ts ts' : List (Tree ι κ ε)) (s : σ) :
    execAll run (ts ++ ts') s = execAll run ts' (execAll run ts s) := by
  induction ts generalizing s with
  | nil => rfl
  | cons t ts ih => exact ih _

/-- A call of a component, from its two phases. -/
theorem execAll_call_out {j : ι₁} {l : κ₁} {body : List (Tree ι₁ κ₁ ε₁)} {s s₁ s' : σ₁}
    (hout : P₁.before j l s = .ok (.out s₁))
    (hafter : P₁.after j l (execAll run₁ body s₁) = .ok s') :
    execAll run₁ [.call j l body] s = s' := by
  have hx : exec run₁ (.call j l body) s = .ok s' := by
    rw [exec, P₁.run_eq, hout]
    exact hafter
  rw [execAll, hx]
  rfl

theorem execAll_call_done {j : ι₁} {l : κ₁} {body : List (Tree ι₁ κ₁ ε₁)} {s s' : σ₁}
    (hdone : P₁.before j l s = .ok (.done s')) : execAll run₁ [.call j l body] s = s' := by
  have hx : exec run₁ (.call j l body) s = .ok s' := by
    rw [exec, P₁.run_eq, hdone]
    rfl
  rw [execAll, hx]
  rfl

mutual

/-- A tree that succeeds in the system takes the part where the projection does. -/
theorem exec_project : ∀ (t : Tree ι κ ε) (s s' : σ), exec run t s = .ok s' →
    execAll run₁ (V.project t s) (V.view s) = V.view s'
  | .call i k body, s, s', hx => by
      rw [project, hx]
      rcases P.of_run_ok hx with hb | ⟨s₁, hb, hafter⟩
      · -- no callback is made
        rw [hb]
        cases hm : V.mine i k with
        | none => exact (V.done_other i k s s' hm hb).symm
        | some jl => exact execAll_call_done (V.done i k _ _ s s' hm hb)
      · rw [hb]
        have hbody := execAll_project body s₁
        cases hm : V.mine i k with
        | none =>
            -- only the callback concerns the part
            rw [V.out_other i k s s₁ hm hb] at hbody
            exact hbody.trans (V.after_other i k _ s' hm hafter).symm
        | some jl =>
            refine execAll_call_out (V.out i k _ _ s s₁ hm hb) ?_
            rw [hbody]
            exact V.after i k _ _ _ s' hm hafter
  | .frame body none, s, s', hx => by
      obtain rfl : execAll run body s = s' := Except.ok.inj hx
      exact execAll_project body s
  | .frame _ (some _), _, _, hx => nomatch hx

/-- **Projection**: trees of the system take the part where the projection does. -/
theorem execAll_project : ∀ (ts : List (Tree ι κ ε)) (s : σ),
    execAll run₁ (V.projectAll ts s) (V.view s) = V.view (execAll run ts s)
  | [], _ => rfl
  | t :: ts, s => by
      rw [projectAll, execAll_append, execAll]
      cases hx : exec run t s with
      | error e =>
          -- the part sees nothing of a tree that fails
          have hnone : V.project t s = [] := by
            cases t with
            | call i k body => rw [project, hx]
            | frame body fails =>
                cases fails with
                | none => cases hx
                | some e' => rw [project]
          rw [hnone]
          exact execAll_project ts s
      | ok s₁ =>
          rw [exec_project t s s₁ hx]
          exact execAll_project ts s₁

end

/-! ## Observed states -/

section Guard

variable {guard : ι → σ → Prop} {guard₁ : ι₁ → σ₁ → Prop}

theorem meetsAll_append {ts ts' : List (Tree ι₁ κ₁ ε₁)} {s : σ₁} (h : P₁.MeetsAll guard₁ ts s)
    (h' : P₁.MeetsAll guard₁ ts' (execAll run₁ ts s)) : P₁.MeetsAll guard₁ (ts ++ ts') s := by
  induction ts generalizing s with
  | nil => exact h'
  | cons t ts ih => exact ⟨h.1, ih h.2 h'⟩

mutual

/-- The calls that a part sees of a tree meet the guard of the part, if those of the
tree meet the guard of the system. -/
theorem meets_project
    (hguard : ∀ i k j l s, V.mine i k = some (j, l) → guard i s → guard₁ j (V.view s)) :
    ∀ (t : Tree ι κ ε) (s : σ), P.Meets guard t s → P₁.MeetsAll guard₁ (V.project t s) (V.view s)
  | .call i k body, s, hm => by
      cases hx : exec run (.call i k body) s with
      | error e =>
          rw [project, hx]
          trivial
      | ok s' =>
          rcases hm ⟨s', hx⟩ with ⟨hg, hbody⟩
          rw [project, hx]
          rcases P.of_run_ok hx with hb | ⟨s₁, hb, _⟩
          · rw [hb]
            cases hmine : V.mine i k with
            | none => trivial
            | some jl => exact ⟨fun _ => ⟨hguard i k _ _ s hmine hg, fun _ _ => trivial⟩, trivial⟩
          · have hbody' := meetsAll_project hguard body s₁ (hbody s₁ hb)
            rw [hb]
            cases hmine : V.mine i k with
            | none =>
                rw [V.out_other i k s s₁ hmine hb] at hbody'
                exact hbody'
            | some jl =>
                refine ⟨fun _ => ⟨hguard i k _ _ s hmine hg, ?_⟩, trivial⟩
                intro v hv
                -- there is one state in which the call gives up control
                obtain rfl : V.view s₁ = v :=
                  Stage.out.inj (Except.ok.inj ((V.out i k _ _ s s₁ hmine hb).symm.trans hv))
                exact hbody'
  | .frame body none, s, hm => meetsAll_project hguard body s hm
  | .frame _ (some _), _, _ => trivial

theorem meetsAll_project
    (hguard : ∀ i k j l s, V.mine i k = some (j, l) → guard i s → guard₁ j (V.view s)) :
    ∀ (ts : List (Tree ι κ ε)) (s : σ), P.MeetsAll guard ts s →
      P₁.MeetsAll guard₁ (V.projectAll ts s) (V.view s)
  | [], _, _ => trivial
  | t :: ts, s, hm => by
      have hfirst := meets_project hguard t s hm.1
      have hrest := meetsAll_project hguard ts _ hm.2
      have hstate := V.execAll_project [t] s
      rw [projectAll, projectAll, List.append_nil, execAll, execAll] at hstate
      rw [← hstate] at hrest
      exact meetsAll_append hfirst hrest

end

/-- The pending calls of the part. -/
def pending (st : List (ι × κ)) : List (ι₁ × κ₁) :=
  st.filterMap fun ik => V.mine ik.1 ik.2

/-- **A part of a system behaves as it does alone**: in a state of the system in
which outside code runs, it is in a state in which outside code runs when the part is
alone. -/
theorem observed_view {s₀ s : σ} {st : List (ι × κ)}
    (hguard : ∀ i k j l s, V.mine i k = some (j, l) → guard i s → guard₁ j (V.view s))
    (h : P.Observed guard s₀ st s) : P₁.Observed guard₁ (V.view s₀) (V.pending st) (V.view s) := by
  induction h with
  | init => exact TwoPhase.Observed.init
  | exec t _ hm hx ih =>
      rw [← V.exec_project t _ _ hx]
      exact ih.execAll (V.meets_project hguard t _ hm)
  | @enter st s s₁ i k _ hg hb ih =>
      cases hmine : V.mine i k with
      | none =>
          have hst : V.pending ((i, k) :: st) = V.pending st := by simp [pending, hmine]
          rw [hst, V.out_other i k s s₁ hmine hb]
          exact ih
      | some jl =>
          have hst : V.pending ((i, k) :: st) = jl :: V.pending st := by simp [pending, hmine]
          rw [hst]
          exact ih.enter _ _ (hguard i k _ _ s hmine hg) (V.out i k _ _ s s₁ hmine hb)

end Guard

end Part

end CallTree
