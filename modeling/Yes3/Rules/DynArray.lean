import Mathlib.Data.List.Basic
import Mathlib.Data.List.Perm.Basic

/-!
# Yes3.Rules.DynArray — loops over dynamic arrays

Two loops that contract code writes by hand over a dynamic array, with every
access that can fail at run time (a bounds-checked read or write, the checked
`length - 1`, the pop of an empty array) kept as a possible failure.

* `removeFirst` removes an element without keeping the order: scan for the
  first match, overwrite it by the last element, pop the last element, stop.
  `swapErase` is what it computes, by recursion on the array, and
  `removeFirst_eq` joins the two: no access of the loop ever fails.
  `swapErase_perm` reduces every question that ignores order to `List.eraseP`,
  from which the rules on counts and membership follow. In the one case in which
  the order is kept, the removal undoes a push (`swapErase_append_singleton`).
* `mapInto` fills a fresh array with a function of another one; `mapInto_eq`
  says that it is `List.map`.
-/

namespace DynArray

/-- The ways an access to a dynamic array can fail. -/
inductive Fault where
  | outOfBounds
  | underflow
  | emptyPop
deriving DecidableEq, Repr

variable {α : Type}

/-! ## Checked accesses -/

/-- `xs[i]`. -/
def readAt (xs : List α) (i : ℕ) : Except Fault α :=
  match xs[i]? with
  | some a => .ok a
  | none => .error .outOfBounds

/-- `xs[i] = a`. -/
def writeAt (xs : List α) (i : ℕ) (a : α) : Except Fault (List α) :=
  if i < xs.length then .ok (xs.set i a) else .error .outOfBounds

/-- `xs.length - 1` in checked arithmetic. -/
def lastIndex (xs : List α) : Except Fault ℕ :=
  if xs.length = 0 then .error .underflow else .ok (xs.length - 1)

/-- `xs.pop()`. -/
def pop (xs : List α) : Except Fault (List α) :=
  if xs.length = 0 then .error .emptyPop else .ok xs.dropLast

/-! ## Removal by swap and pop -/

/-- The loop from index `i` on. The array only changes in the iteration that
leaves the loop, so the bound `xs.length` is read from the same array. -/
def removeFrom (test : α → Bool) (xs : List α) (i : ℕ) : Except Fault (List α) :=
  if i < xs.length then do
    let a ← readAt xs i
    if test a then do
      let j ← lastIndex xs
      let last ← readAt xs j
      let xs ← writeAt xs i last
      pop xs
    else
      removeFrom test xs (i + 1)
  else
    .ok xs
termination_by xs.length - i

/-- Remove the first element that passes `test`, if there is one. -/
def removeFirst (test : α → Bool) (xs : List α) : Except Fault (List α) :=
  removeFrom test xs 0

/-- The first element that passes `test` is replaced by the last element of
the array, which is dropped from its own place. -/
def swapErase (test : α → Bool) : List α → List α
  | [] => []
  | x :: xs =>
    if test x then
      match xs.getLast? with
      | none => []
      | some last => last :: xs.dropLast
    else
      x :: swapErase test xs

/-- The loop entered at the end of the prefix `pre`, which it has scanned. -/
theorem removeFrom_append (test : α → Bool) (pre rest : List α) :
    removeFrom test (pre ++ rest) pre.length = .ok (pre ++ swapErase test rest) := by
  induction rest generalizing pre with
  | nil => rw [removeFrom]; simp [swapErase]
  | cons a rest ih =>
      rw [removeFrom]
      by_cases ha : test a
      · -- the match: what the last element is depends on whether `a` is the last
        rcases List.eq_nil_or_concat rest with rfl | ⟨init, last, rfl⟩
        · simp [ha, readAt, writeAt, lastIndex, pop, swapErase, bind, Except.bind]
        · have hdrop : (last :: (init ++ [last])).dropLast = last :: init := by
            rw [← List.cons_append, List.dropLast_concat]
          simp [ha, readAt, writeAt, lastIndex, pop, swapErase, bind, Except.bind, hdrop]
      · have hnext := ih (pre ++ [a])
        simpa [ha, readAt, swapErase, bind, Except.bind] using hnext

/-- The loop never fails, and computes `swapErase`. -/
theorem removeFirst_eq (test : α → Bool) (xs : List α) :
    removeFirst test xs = .ok (swapErase test xs) := by
  simpa [removeFirst] using removeFrom_append test [] xs

/-- Without a match nothing changes. -/
theorem swapErase_of_forall_not {test : α → Bool} {xs : List α} (h : ∀ a ∈ xs, ¬ test a) :
    swapErase test xs = xs := by
  induction xs with
  | nil => rfl
  | cons x xs ih =>
      have hx : ¬ test x := h x List.mem_cons_self
      rw [swapErase, if_neg hx, ih fun a ha => h a (List.mem_cons_of_mem x ha)]

/-- A value that has just been pushed is taken out again, and the array is as
before: if an equal value is found first, the one that was pushed takes its place. -/
theorem swapErase_append_singleton {test : α → Bool} {x : α} (htest : ∀ a, test a ↔ a = x)
    (xs : List α) : swapErase test (xs ++ [x]) = xs := by
  induction xs with
  | nil => simp [swapErase, htest]
  | cons y xs ih =>
      rw [List.cons_append, swapErase]
      by_cases hy : test y
      · obtain rfl := (htest y).mp hy
        simp [htest]
      · rw [if_neg hy, ih]

/-! ## Removal, up to order -/

/-- Up to order, the loop erases the first match and nothing else. -/
theorem swapErase_perm (test : α → Bool) (xs : List α) :
    (swapErase test xs).Perm (xs.eraseP test) := by
  induction xs with
  | nil => simp [swapErase]
  | cons x xs ih =>
      by_cases hx : test x
      · rcases List.eq_nil_or_concat xs with rfl | ⟨init, last, rfl⟩
        · simp [swapErase, hx]
        · have hrot : (last :: init).Perm (init ++ [last]) :=
            (List.perm_append_singleton last init).symm
          simpa [swapErase, hx] using hrot
      · simpa [swapErase, hx] using ih.cons x

section Equality

variable [DecidableEq α] {test : α → Bool} {x : α}

/-- A test for one value erases that value. -/
theorem swapErase_perm_erase (htest : ∀ a, test a ↔ a = x) (xs : List α) :
    (swapErase test xs).Perm (xs.erase x) := by
  have hfun : test = (x == ·) := by
    funext a
    rw [Bool.eq_iff_iff, htest a, beq_iff_eq]
    exact eq_comm
  rw [List.erase_eq_eraseP, ← hfun]
  exact swapErase_perm test xs

/-- One occurrence of the value goes. -/
theorem count_swapErase_self (htest : ∀ a, test a ↔ a = x) (xs : List α) :
    (swapErase test xs).count x = xs.count x - 1 := by
  rw [(swapErase_perm_erase htest xs).count_eq, List.count_erase_self]

/-- The occurrences of every other value stay. -/
theorem count_swapErase_of_ne (htest : ∀ a, test a ↔ a = x) {y : α} (hy : y ≠ x)
    (xs : List α) : (swapErase test xs).count y = xs.count y := by
  rw [(swapErase_perm_erase htest xs).count_eq, List.count_erase_of_ne hy]

end Equality

/-! ## Filling a fresh array -/

variable {β : Type}

/-- `for (i..) { out[i] = f(xs[i]); }` from index `i` on. -/
def mapIntoFrom (f : α → β) (xs : List α) (out : List β) (i : ℕ) : Except Fault (List β) :=
  if i < xs.length then do
    let a ← readAt xs i
    let out ← writeAt out i (f a)
    mapIntoFrom f xs out (i + 1)
  else
    .ok out
termination_by xs.length - i

/-- Fill a fresh array of the length of `xs`, blank at first, with `f` of its elements. -/
def mapInto (f : α → β) (blank : β) (xs : List α) : Except Fault (List β) :=
  mapIntoFrom f xs (List.replicate xs.length blank) 0

/-- The loop entered at the end of the prefix `pre`, whose images it has written. -/
theorem mapIntoFrom_append (f : α → β) (pre rest : List α) (todo : List β)
    (hlen : todo.length = rest.length) :
    mapIntoFrom f (pre ++ rest) (pre.map f ++ todo) pre.length = .ok ((pre ++ rest).map f) := by
  induction rest generalizing pre todo with
  | nil =>
      obtain rfl : todo = [] := List.length_eq_zero_iff.mp hlen
      rw [mapIntoFrom]; simp
  | cons a rest ih =>
      rcases List.exists_cons_of_length_eq_add_one hlen with ⟨b, todo, rfl⟩
      have hnext := ih (pre ++ [a]) todo (by simpa using hlen)
      have hset : (pre.map f ++ b :: todo).set pre.length (f a) = pre.map f ++ f a :: todo := by
        rw [List.set_append_right _ _ (by simp)]
        simp
      rw [mapIntoFrom]
      simpa [readAt, writeAt, bind, Except.bind, hset] using hnext

/-- The loop never fails, and computes `List.map`. -/
theorem mapInto_eq (f : α → β) (blank : β) (xs : List α) :
    mapInto f blank xs = .ok (xs.map f) := by
  simpa [mapInto] using mapIntoFrom_append f [] xs (List.replicate xs.length blank) (by simp)

end DynArray
