import Mathlib.Logic.Basic

/-!
# Yes3.Rules.CallTree — re-entrant calls with rollback

A component with entry points `ι` is called by outside code, and an entry point
may itself call outside code, which may call back in, to any depth. A call that
fails leaves no trace: everything done in it, nested calls included, is undone.

* `Tree` is one finite execution of outside code: a call into the component with
  the calls made back from inside it, or a frame of outside code around several
  calls, which may fail and undo them all;
* `exec` runs a tree, given the component as a `Machine`: the effect of an entry
  point with the effect of its callback as a parameter;
* `EffectsFirst` is the discipline under which nesting is harmless: an entry
  point does all it does to the state before it hands control out;
* `exec_linearises` is the payoff: under that discipline every tree is a flat
  sequence of calls whose callbacks do nothing, and what single calls do can be
  said `Along` it;
* `ReachableBy.invariant` is the rule users of this file need: what every flat
  step keeps holds in every state that outside code can observe.

Everything is relative to a `guard` on the calls made, so that one rule serves
the unrestricted runs (`fun _ _ => True`) and the runs that keep to a condition.
-/

namespace CallTree

variable {σ ι κ ε : Type}

/-- One execution of outside code: a call of entry point `i`, where `k` says how
the code called out to behaves and `body` lists the calls it makes back, or a
frame of outside code that makes the calls `body` and fails if `fails` is set. -/
inductive Tree (ι κ ε : Type) where
  | call (i : ι) (k : κ) (body : List (Tree ι κ ε))
  | frame (body : List (Tree ι κ ε)) (fails : Option ε)

/-- A component: `run i k f s` is entry point `i` called in state `s`, where `f`
is what the calls made back from inside it do to the state. -/
abbrev Machine (σ ι κ ε : Type) := ι → κ → (σ → σ) → σ → Except ε σ

/-- The state after a call made in `s`: a failed call leaves `s` as it was. -/
def settle (s : σ) : Except ε σ → σ
  | .ok s' => s'
  | .error _ => s

variable (run : Machine σ ι κ ε)

mutual

/-- Run one tree. -/
def exec : Tree ι κ ε → σ → Except ε σ
  | .call i k body, s => run i k (execAll body) s
  | .frame body none, s => .ok (execAll body s)
  | .frame _ (some e), _ => .error e

/-- Run trees one after the other, failed ones undone. -/
def execAll : List (Tree ι κ ε) → σ → σ
  | [], s => s
  | t :: ts, s => execAll ts (settle s (exec t s))

end

variable (guard : ι → σ → Prop)

mutual

/-- Every call made in the tree meets the guard in the state it is made in. -/
def Meets : Tree ι κ ε → σ → Prop
  | .call i k body, s => guard i s ∧ ∀ s₁, run i k id s = .ok s₁ → MeetsAll body s₁
  | .frame body _, s => MeetsAll body s

/-- Every call made in the trees, run one after the other, meets the guard. -/
def MeetsAll : List (Tree ι κ ε) → σ → Prop
  | [], _ => True
  | t :: ts, s => Meets t s ∧ MeetsAll ts (settle s (exec run t s))

end

/-! ## Flat runs -/

/-- A run of calls that all succeed and whose callbacks do nothing. -/
inductive Steps : σ → List (ι × κ) → σ → Prop where
  | nil (s : σ) : Steps s [] s
  | cons {s s₁ s' : σ} {i : ι} {k : κ} {is : List (ι × κ)} :
      guard i s → run i k id s = .ok s₁ → Steps s₁ is s' → Steps s ((i, k) :: is) s'

variable {run guard}

theorem Steps.append {s s₁ s' : σ} {is js : List (ι × κ)}
    (h : Steps run guard s is s₁) (h' : Steps run guard s₁ js s') :
    Steps run guard s (is ++ js) s' := by
  induction h with
  | nil s => exact h'
  | cons hg hr _ ih => exact Steps.cons hg hr (ih h')

/-- What `Q` says of every call of a flat run, from the state it is made in to the
state it leaves. -/
def Along (run : Machine σ ι κ ε) (Q : σ → ι → κ → σ → Prop) : List (ι × κ) → σ → Prop
  | [], _ => True
  | (i, k) :: is, s => ∀ s₁, run i k id s = .ok s₁ → Q s i k s₁ ∧ Along run Q is s₁

section Along

variable {Q Q' : σ → ι → κ → σ → Prop}

theorem along_of_forall (h : ∀ s i k s', run i k id s = .ok s' → Q s i k s') :
    ∀ (is : List (ι × κ)) (s : σ), Along run Q is s
  | [], _ => trivial
  | (i, k) :: is, s => fun s₁ h₁ => ⟨h s i k s₁ h₁, along_of_forall h is s₁⟩

theorem along_congr (h : ∀ s i k s', run i k id s = .ok s' → (Q s i k s' ↔ Q' s i k s')) :
    ∀ (is : List (ι × κ)) (s : σ), Along run Q is s ↔ Along run Q' is s
  | [], _ => Iff.rfl
  | (i, k) :: is, s =>
    forall₂_congr fun s₁ h₁ => and_congr (h s i k s₁ h₁) (along_congr h is s₁)

end Along

/-- The discipline: a call that succeeds with some callback also succeeds with
the callback that does nothing, and then the callback, if it was made at all,
ran last. -/
def EffectsFirst (run : Machine σ ι κ ε) : Prop :=
  ∀ i k f s s', run i k f s = .ok s' → ∃ s₁, run i k id s = .ok s₁ ∧ (s' = s₁ ∨ s' = f s₁)

mutual

/-- **Linearisation**: a tree that succeeds is a flat run, in which each call
takes effect before the calls made back from inside it. -/
theorem exec_linearises (hE : EffectsFirst run) :
    ∀ (t : Tree ι κ ε) (s s' : σ), Meets run guard t s → exec run t s = .ok s' →
      ∃ is, Steps run guard s is s'
  | .call i k body, s, s', hm, h => by
      rcases hm with ⟨hg, hbody⟩
      rcases hE i k (execAll run body) s s' h with ⟨s₁, h₁, rfl | rfl⟩
      · -- no callback was made
        exact ⟨[(i, k)], Steps.cons hg h₁ (Steps.nil _)⟩
      · rcases execAll_linearises hE body s₁ (hbody s₁ h₁) with ⟨is, his⟩
        exact ⟨(i, k) :: is, Steps.cons hg h₁ his⟩
  | .frame body none, s, s', hm, h => by
      obtain rfl : execAll run body s = s' := Except.ok.inj h
      exact execAll_linearises hE body s hm
  | .frame _ (some _), _, _, _, h => nomatch h

theorem execAll_linearises (hE : EffectsFirst run) :
    ∀ (ts : List (Tree ι κ ε)) (s : σ), MeetsAll run guard ts s →
      ∃ is, Steps run guard s is (execAll run ts s)
  | [], s, _ => ⟨[], Steps.nil s⟩
  | t :: ts, s, hm => by
      rcases hm with ⟨ht, hts⟩
      rcases execAll_linearises hE ts (settle s (exec run t s)) hts with ⟨js, hjs⟩
      cases hx : exec run t s with
      | error e =>
          -- the failed tree is undone: only the rest of the list runs
          rw [hx] at hjs
          exact ⟨js, by rw [execAll, hx]; exact hjs⟩
      | ok s₁ =>
          rw [hx] at hjs
          rcases exec_linearises hE t s s₁ ht hx with ⟨is, his⟩
          exact ⟨is ++ js, by rw [execAll, hx]; exact his.append hjs⟩

end

mutual

/-- A weaker guard is met as well. -/
theorem Meets.mono {guard' : ι → σ → Prop} (hg : ∀ i s, guard i s → guard' i s) :
    ∀ (t : Tree ι κ ε) (s : σ), Meets run guard t s → Meets run guard' t s
  | .call i _ body, s, h => ⟨hg i s h.1, fun s₁ h₁ => MeetsAll.mono hg body s₁ (h.2 s₁ h₁)⟩
  | .frame body _, s, h => MeetsAll.mono hg body s h

theorem MeetsAll.mono {guard' : ι → σ → Prop} (hg : ∀ i s, guard i s → guard' i s) :
    ∀ (ts : List (Tree ι κ ε)) (s : σ), MeetsAll run guard ts s → MeetsAll run guard' ts s
  | [], _, _ => trivial
  | t :: ts, _, h => ⟨Meets.mono hg t _ h.1, MeetsAll.mono hg ts _ h.2⟩

end

mutual

/-- Every tree meets the guard that asks for nothing. -/
theorem meets_true : ∀ (t : Tree ι κ ε) (s : σ), Meets run (fun _ _ => True) t s
  | .call _ _ body, _ => ⟨trivial, fun s₁ _ => meetsAll_true body s₁⟩
  | .frame body _, s => meetsAll_true body s

theorem meetsAll_true : ∀ (ts : List (Tree ι κ ε)) (s : σ),
    MeetsAll run (fun _ _ => True) ts s
  | [], _ => trivial
  | t :: ts, s => ⟨meets_true t s, meetsAll_true ts _⟩

end

/-! ## Observable states -/

variable (run guard)

/-- The states that outside code can observe in runs from `s₀` whose calls meet
the guard. A state inside a callback counts: it is the state after the call
whose callback does nothing, followed by the calls made back so far. -/
inductive ReachableBy (s₀ : σ) : σ → Prop where
  | init : ReachableBy s₀ s₀
  | exec {s s' : σ} (t : Tree ι κ ε) : ReachableBy s₀ s → Meets run guard t s →
      CallTree.exec run t s = .ok s' → ReachableBy s₀ s'

variable {run guard} {s₀ s s' : σ}

theorem ReachableBy.step (h : ReachableBy run guard s₀ s) {i : ι} {k : κ}
    (hg : guard i s) (hr : run i k id s = .ok s') : ReachableBy run guard s₀ s' := by
  have hnil : execAll run ([] : List (Tree ι κ ε)) = id := rfl
  have hx : CallTree.exec run (.call i k []) s = .ok s' := by
    rw [CallTree.exec, hnil]
    exact hr
  exact h.exec (.call i k []) ⟨hg, fun _ _ => trivial⟩ hx

/-- The state after a list of trees, failed ones undone, is observable. -/
theorem ReachableBy.execAll {ts : List (Tree ι κ ε)} (h : ReachableBy run guard s₀ s)
    (hm : MeetsAll run guard ts s) : ReachableBy run guard s₀ (CallTree.execAll run ts s) := by
  induction ts generalizing s with
  | nil => exact h
  | cons t ts ih =>
      refine ih ?_ hm.2
      cases hx : CallTree.exec run t s with
      | error e => exact h
      | ok s₁ => exact h.exec t hm.1 hx

theorem ReachableBy.trans (h : ReachableBy run guard s₀ s) (h' : ReachableBy run guard s s') :
    ReachableBy run guard s₀ s' := by
  induction h' with
  | init => exact h
  | exec t _ hm hx ih => exact ih.exec t hm hx

theorem ReachableBy.mono {guard' : ι → σ → Prop} (hg : ∀ i s, guard i s → guard' i s)
    (h : ReachableBy run guard s₀ s) : ReachableBy run guard' s₀ s := by
  induction h with
  | init => exact ReachableBy.init
  | exec t _ hm hx ih => exact ih.exec t (hm.mono hg) hx

/-- An observable state is the end of a flat run. -/
theorem ReachableBy.steps (hE : EffectsFirst run) (h : ReachableBy run guard s₀ s) :
    ∃ is, Steps run guard s₀ is s := by
  induction h with
  | init => exact ⟨[], Steps.nil s₀⟩
  | exec t _ hm hx ih =>
      rcases ih with ⟨is, his⟩
      rcases exec_linearises hE t _ _ hm hx with ⟨js, hjs⟩
      exact ⟨is ++ js, his.append hjs⟩

/-- The end of a flat run is observable. -/
theorem Steps.reachableBy {is : List (ι × κ)} (hs : Steps run guard s is s')
    (h : ReachableBy run guard s₀ s) : ReachableBy run guard s₀ s' := by
  induction hs with
  | nil s => exact h
  | cons hg hr _ ih => exact ih (h.step hg hr)

/-- What every step of a flat run keeps holds at its end. The step may use that
the state it starts from is itself observable. -/
theorem Steps.invariant {P : σ → Prop} {is : List (ι × κ)}
    (hstep : ∀ s i k s', ReachableBy run guard s₀ s → P s → guard i s →
      run i k id s = .ok s' → P s')
    (hs : Steps run guard s is s') (hr : ReachableBy run guard s₀ s) (hP : P s) : P s' := by
  induction hs with
  | nil s => exact hP
  | cons hg hx _ ih => exact ih (hr.step hg hx) (hstep _ _ _ _ hr hP hg hx)

/-- **Invariant induction** over all observable states. -/
theorem ReachableBy.invariant {P : σ → Prop} (hE : EffectsFirst run) (hinit : P s₀)
    (hstep : ∀ s i k s', ReachableBy run guard s₀ s → P s → guard i s →
      run i k id s = .ok s' → P s')
    (h : ReachableBy run guard s₀ s) : P s := by
  rcases h.steps hE with ⟨is, his⟩
  exact his.invariant hstep ReachableBy.init hinit

end CallTree
