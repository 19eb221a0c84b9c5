import Mathlib.Data.List.Induction
import Yes3.Rules.CallTree

/-!
# Yes3.Rules.Replay — a log of calls as a run of an abstract machine

An abstract machine takes a call or refuses it. A log of calls is legal if the
machine takes all of them, one after the other, and `replay` is the state that it
is in then.

* `replay_invariant` is the rule for what holds of legal logs.
* `replay_of_reachable` connects a component to its abstract machine: if every
  single call is one that the machine takes, with the same effect, then the log of
  the component is legal in every observable state, and the machine shows that
  state. So what is proved of the machine holds of the component.
* `view_eq_of_visible_eq` is for a part of the state that is updated on its own: it
  depends on the calls that update it, and on the order of these.
-/

namespace Replay

open CallTree

variable {α ι : Type} {step : α → ι → Option α} {a b : α} {log : List ι} {i : ι}

/-- The state of the machine after the log, if it takes every call in it. -/
def replay (step : α → ι → Option α) (a : α) (log : List ι) : Option α :=
  log.foldlM step a

theorem replay_append (step : α → ι → Option α) (a : α) (log log' : List ι) :
    replay step a (log ++ log') = (replay step a log).bind fun b => replay step b log' :=
  List.foldlM_append ..

/-- One more call. -/
theorem replay_snoc (step : α → ι → Option α) (a : α) (log : List ι) (i : ι) :
    replay step a (log ++ [i]) = (replay step a log).bind fun b => step b i := by
  rw [replay_append]
  congr 1
  funext b
  exact bind_pure (step b i)

/-- What holds at the start, and after every call that the machine takes, holds
after every legal log. -/
theorem replay_invariant {P : List ι → α → Prop} (hinit : P [] a)
    (hstep : ∀ log b i c, P log b → step b i = some c → P (log ++ [i]) c)
    (h : replay step a log = some b) : P log b := by
  induction log using List.reverseRecOn generalizing b with
  | nil =>
      obtain rfl : a = b := Option.some.inj h
      exact hinit
  | append_singleton log i ih =>
      rw [replay_snoc] at h
      obtain ⟨c, hc, hstep'⟩ := Option.bind_eq_some_iff.mp h
      exact hstep log c i b (ih hc) hstep'

variable {σ κ ε : Type} {run : Machine σ ι κ ε} {guard : ι → σ → Prop} {s₀ s : σ}

/-- **Refinement**: where every single call does to the component what it does to
the machine, the machine is in the state that the component shows. -/
theorem replay_of_reachable (hE : EffectsFirst run) (calls : σ → List ι) (abs : σ → α)
    (hinit : calls s₀ = [])
    (hcalls : ∀ s i k s', run i k id s = .ok s' → calls s' = calls s ++ [i])
    (hstep : ∀ s i k s', ReachableBy run guard s₀ s → guard i s → run i k id s = .ok s' →
      step (abs s) i = some (abs s'))
    (h : ReachableBy run guard s₀ s) : replay step (abs s₀) (calls s) = some (abs s) := by
  refine ReachableBy.invariant hE (P := fun s => replay step (abs s₀) (calls s) = some (abs s))
    ?_ ?_ h
  · rw [hinit]
    rfl
  · intro s i k s' hr hs hg hx
    rw [hcalls s i k s' hx, replay_snoc, hs]
    exact hstep s i k s' hr hg hx

/-! ## Views

A view of the component that every call updates on its own, whatever the rest of the
state, is a fold over the calls, and the calls that update nothing can be left out. -/

section Views

variable {β : Type} {view : σ → β} {upd : ι → β → β} {visible : ι → Bool}

/-- The view is a fold over the calls. -/
theorem view_of_reachable (hE : EffectsFirst run) (calls : σ → List ι)
    (hinit : calls s₀ = [])
    (hcalls : ∀ s i k s', run i k id s = .ok s' → calls s' = calls s ++ [i])
    (hview : ∀ s i k s', run i k id s = .ok s' → view s' = upd i (view s))
    (h : ReachableBy run guard s₀ s) :
    view s = (calls s).foldl (fun v i => upd i v) (view s₀) := by
  refine ReachableBy.invariant hE
    (P := fun s => view s = (calls s).foldl (fun v i => upd i v) (view s₀)) ?_ ?_ h
  · rw [hinit]
    rfl
  · intro s i k s' _ hs _ hx
    rw [hcalls s i k s' hx, hview s i k s' hx, List.foldl_append, ← hs]
    rfl

/-- Calls that update nothing make no difference. -/
theorem foldl_filter_visible (hquiet : ∀ i, visible i = false → ∀ v, upd i v = v)
    (log : List ι) (v : β) :
    log.foldl (fun v i => upd i v) v = (log.filter visible).foldl (fun v i => upd i v) v := by
  rw [List.foldl_filter]
  congr 1
  funext v i
  cases hi : visible i with
  | true => rfl
  | false => exact hquiet i hi v

/-- **Confluence**: the view is the same in two states with the same visible calls,
in the same order, whatever invisible calls they interleave. -/
theorem view_eq_of_visible_eq (hE : EffectsFirst run) (calls : σ → List ι)
    (view : σ → β) (upd : ι → β → β) (hinit : calls s₀ = [])
    (hcalls : ∀ s i k s', run i k id s = .ok s' → calls s' = calls s ++ [i])
    (hview : ∀ s i k s', run i k id s = .ok s' → view s' = upd i (view s))
    (hquiet : ∀ i, visible i = false → ∀ v, upd i v = v) {t : σ}
    (hs : ReachableBy run guard s₀ s) (ht : ReachableBy run guard s₀ t)
    (hvisible : (calls s).filter visible = (calls t).filter visible) : view s = view t := by
  rw [view_of_reachable hE calls hinit hcalls hview hs,
    view_of_reachable hE calls hinit hcalls hview ht, foldl_filter_visible hquiet (calls s),
    foldl_filter_visible hquiet (calls t), hvisible]

end Views

end Replay
