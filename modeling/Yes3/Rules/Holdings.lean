import Mathlib.Data.Set.Card

/-!
# Yes3.Rules.Holdings — how much each holder has

Things that are assigned to holders one at a time. When a thing is given to
somebody, the new holder has one more, the old one has one less, and the others
have what they had.
-/

namespace Holdings

variable {α β : Type} {f : α → β} {x : α} {b c : β}

/-- The things assigned to `b`. -/
def heldBy (f : α → β) (b : β) : Set α := {x | f x = b}

@[simp] theorem mem_heldBy : x ∈ heldBy f b ↔ f x = b := Iff.rfl

variable [DecidableEq α]

theorem heldBy_update_self (f : α → β) (x : α) (b : β) :
    heldBy (Function.update f x b) b = insert x (heldBy f b) := by
  ext y
  by_cases hy : y = x
  · simp [hy]
  · simp [hy]

theorem heldBy_update_of_ne (f : α → β) (x : α) (h : c ≠ b) :
    heldBy (Function.update f x b) c = heldBy f c \ {x} := by
  ext y
  by_cases hy : y = x
  · simp [hy, Ne.symm h]
  · simp [hy]

/-- One assignment leaves nobody with infinitely many things. -/
theorem finite_update (h : (heldBy f c).Finite) (x : α) (b : β) :
    (heldBy (Function.update f x b) c).Finite := by
  by_cases hc : c = b
  · subst hc
    rw [heldBy_update_self]
    exact h.insert x
  · rw [heldBy_update_of_ne f x hc]
    exact h.sdiff

/-- The new holder has one more. -/
theorem ncard_update_gain (hfin : (heldBy f b).Finite) (hx : f x ≠ b) :
    (heldBy (Function.update f x b) b).ncard = (heldBy f b).ncard + 1 := by
  rw [heldBy_update_self]
  exact Set.ncard_insert_of_notMem hx hfin

/-- The old holder has one less. -/
theorem ncard_update_lose (hfin : (heldBy f c).Finite) (hx : f x = c) (h : c ≠ b) :
    (heldBy (Function.update f x b) c).ncard + 1 = (heldBy f c).ncard := by
  rw [heldBy_update_of_ne f x h]
  exact Set.ncard_sdiff_singleton_add_one hx hfin

/-- The others have what they had. -/
theorem heldBy_update_of_ne_of_ne (h : c ≠ b) (hx : f x ≠ c) :
    heldBy (Function.update f x b) c = heldBy f c := by
  rw [heldBy_update_of_ne f x h]
  exact Set.sdiff_singleton_eq_self hx

end Holdings
