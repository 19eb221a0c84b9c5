import Yes3.Rules.CallTree

/-!
# Yes3.Rules.Unwinding — one part of a component does not interfere with another

An observer of one part of the state sees some of the calls (`visible`) and
cannot tell certain states apart (`agree`). `Unwinding` lists what has to be
checked of single calls: an invisible call changes nothing that the observer
sees, and a visible call has the same outcome, as far as the observer sees, in
states that the observer cannot tell apart. `Unwinding.noninterference` is the
consequence for two whole runs, whatever invisible calls they interleave.
-/

namespace CallTree

variable {σ ι κ ε : Type}

/-- The unwinding conditions, under the invariant `inv` of the component. -/
structure Unwinding (run : Machine σ ι κ ε) (inv : σ → Prop) (visible : ι → Bool)
    (agree : σ → σ → Prop) : Prop where
  /-- The observer's view is an equivalence. -/
  equivalence : Equivalence agree
  /-- The invariant is one. -/
  keeps : ∀ s i k s', inv s → run i k id s = .ok s' → inv s'
  /-- Invisible calls change nothing that the observer sees. -/
  respects : ∀ s i k s', inv s → visible i = false → run i k id s = .ok s' → agree s s'
  /-- What the observer sees of a visible call is determined by what it saw before. -/
  consistent : ∀ s t i k k' s' t', inv s → inv t → agree s t → visible i = true →
    run i k id s = .ok s' → run i k' id t = .ok t' → agree s' t'

variable {run : Machine σ ι κ ε} {guard guard' : ι → σ → Prop} {inv : σ → Prop}
  {visible : ι → Bool} {agree : σ → σ → Prop}

/-- The visible calls of a flat run. -/
def seen (visible : ι → Bool) (is : List (ι × κ)) : List ι :=
  (is.map Prod.fst).filter visible

/-- A run without visible calls changes nothing that the observer sees. -/
theorem Unwinding.agree_of_unseen (hU : Unwinding run inv visible agree) {s s' : σ}
    {is : List (ι × κ)} (h : Steps run guard s is s') (hs : inv s)
    (hseen : seen visible is = []) : agree s s' := by
  induction h with
  | nil s => exact hU.equivalence.refl s
  | @cons s s₁ s' i k is _ hr _ ih =>
      cases hi : visible i with
      | true => simp [seen, hi] at hseen
      | false =>
          have hstep := hU.respects _ _ _ _ hs hi hr
          have hrest := ih (hU.keeps _ _ _ _ hs hr) (by simpa [seen, hi] using hseen)
          exact hU.equivalence.trans hstep hrest

/-- The first visible call of a run, made in a state that the observer cannot
tell from the one that the run starts in. -/
theorem Unwinding.exists_first_seen (hU : Unwinding run inv visible agree) {s s' : σ}
    {is : List (ι × κ)} {i : ι} {seen' : List ι} (h : Steps run guard s is s') (hs : inv s)
    (hseen : seen visible is = i :: seen') :
    ∃ s₀ k s₁ js, agree s s₀ ∧ inv s₀ ∧ run i k id s₀ = .ok s₁ ∧ Steps run guard s₁ js s' ∧
      seen visible js = seen' := by
  induction h with
  | nil s => simp [seen] at hseen
  | @cons s s₁ s' j k is _ hr hrest ih =>
      cases hj : visible j with
      | true =>
          obtain ⟨rfl, hseen'⟩ : j = i ∧ seen visible is = seen' := by
            simpa [seen, hj] using hseen
          exact ⟨s, k, s₁, is, hU.equivalence.refl s, hs, hr, hrest, hseen'⟩
      | false =>
          have hstep := hU.respects _ _ _ _ hs hj hr
          rcases ih (hU.keeps _ _ _ _ hs hr) (by simpa [seen, hj] using hseen) with
            ⟨s₀, k', s₂, js, hagree, hinv, hr', hjs, hseen'⟩
          exact ⟨s₀, k', s₂, js, hU.equivalence.trans hstep hagree, hinv, hr', hjs, hseen'⟩

/-- **Noninterference**: two runs from states that the observer cannot tell
apart, with the same visible calls, end in states that it cannot tell apart. -/
theorem Unwinding.noninterference (hU : Unwinding run inv visible agree) {s s' t t' : σ}
    {is js : List (ι × κ)} (hs : Steps run guard s is s') (ht : Steps run guard' t js t')
    (hinvs : inv s) (hinvt : inv t) (hagree : agree s t)
    (hseen : seen visible is = seen visible js) : agree s' t' := by
  induction hs generalizing t js with
  | nil s =>
      have hunseen : seen visible js = [] := by simpa [seen] using hseen.symm
      exact hU.equivalence.trans hagree (hU.agree_of_unseen ht hinvt hunseen)
  | @cons s s₁ s' i k is _ hr _ ih =>
      have hinv₁ := hU.keeps _ _ _ _ hinvs hr
      cases hi : visible i with
      | false =>
          have hstep := hU.respects _ _ _ _ hinvs hi hr
          exact ih ht hinv₁ hinvt (hU.equivalence.trans (hU.equivalence.symm hstep) hagree)
            (by simpa [seen, hi] using hseen)
      | true =>
          -- the other run makes the same call next, up to invisible ones
          have hnext : seen visible js = i :: seen visible is := by
            simpa [seen, hi] using hseen.symm
          rcases hU.exists_first_seen ht hinvt hnext with
            ⟨t₀, k', t₁, js', hagree₀, hinv₀, hr', hjs, hseen'⟩
          have hagree' := hU.equivalence.trans hagree hagree₀
          have hagree₁ := hU.consistent _ _ _ _ _ _ _ hinvs hinv₀ hagree' hi hr hr'
          exact ih hjs hinv₁ (hU.keeps _ _ _ _ hinv₀ hr') hagree₁ hseen'.symm

end CallTree
