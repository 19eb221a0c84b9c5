import Mathlib.Algebra.Group.Nat.Defs
import Yes3.Rules.DynArray

/-!
# Yes3.Evm — what the contracts use of the machine below them

Addresses, the data of a call, and the ways a call can revert. `uint256` values
are natural numbers; where the code depends on the width, the check that
Solidity 0.8 inserts is written out (`checkedIncr`).
-/

namespace Yes3

abbrev Address := BitVec 160
abbrev Bytes := List UInt8
abbrev Bytes4 := BitVec 32

/-- `address(0)`. -/
def zeroAddress : Address := 0

/-- `msg.sender` and `block.timestamp` of a call. -/
structure Msg where
  sender : Address
  timestamp : ℕ
deriving DecidableEq, Repr

/-- Why a call reverts: a failed `require` (or `revert`) with its text, a
`Panic` with its code, a custom error of the contract, or the revert data of
another contract passed on unchanged. -/
inductive Revert (ε : Type) where
  | require (reason : String)
  | panic (code : ℕ)
  | custom (error : ε)
  | raw (data : Bytes)
deriving DecidableEq, Repr

variable {ε α : Type}

/-- `require(cond, reason)`. -/
def require (cond : Prop) [Decidable cond] (reason : String) : Except (Revert ε) Unit :=
  if cond then .ok () else .error (.require reason)

/-- `++n` on a `uint256`, checked. -/
def checkedIncr (n : ℕ) : Except (Revert ε) ℕ :=
  if n + 1 < 2 ^ 256 then .ok (n + 1) else .error (.panic 0x11)

/-- `n -= 1` on a `uint256`, checked. -/
def checkedDecr (n : ℕ) : Except (Revert ε) ℕ :=
  if n = 0 then .error (.panic 0x11) else .ok (n - 1)

/-- `x + y` on `uint256`, checked. -/
def checkedAdd (x y : ℕ) : Except (Revert ε) ℕ :=
  if x + y < 2 ^ 256 then .ok (x + y) else .error (.panic 0x11)

/-- `x * y` on `uint256`, checked. -/
def checkedMul (x y : ℕ) : Except (Revert ε) ℕ :=
  if x * y < 2 ^ 256 then .ok (x * y) else .error (.panic 0x11)

/-- `n += 1` on a `uint256` in an `unchecked` block. -/
def uncheckedIncr (n : ℕ) : ℕ := (n + 1) % 2 ^ 256

/-- `n -= 1` on a `uint256` in an `unchecked` block. -/
def uncheckedDecr (n : ℕ) : ℕ := (n + (2 ^ 256 - 1)) % 2 ^ 256

/-- The panic codes of the array accesses. -/
def faultCode : DynArray.Fault → ℕ
  | .outOfBounds => 0x32
  | .underflow => 0x11
  | .emptyPop => 0x31

/-- A faulty array access reverts the call. -/
def checked : Except DynArray.Fault α → Except (Revert ε) α
  | .ok a => .ok a
  | .error f => .error (.panic (faultCode f))

@[simp] theorem checked_ok (a : α) : (checked (.ok a) : Except (Revert ε) α) = .ok a := rfl

/-- A call whose first part succeeds leaves the rest. -/
theorem bind_of_ok {β : Type} {x : Except (Revert ε) α} {a : α} (h : x = .ok a)
    (k : α → Except (Revert ε) β) : (x >>= k) = k a := by
  rw [h]
  rfl

/-- A call that succeeds gets past its first part. -/
theorem of_bind_ok {β : Type} {x : Except (Revert ε) α} {k : α → Except (Revert ε) β} {b : β}
    (h : (x >>= k) = .ok b) : ∃ a, x = .ok a ∧ k a = .ok b := by
  cases x with
  | error e => cases h
  | ok a => exact ⟨a, rfl, h⟩

/-- A `require` that passes leaves the rest of the call. -/
@[simp] theorem require_bind_of_pos {cond : Prop} [Decidable cond] (h : cond) (reason : String)
    (k : Unit → Except (Revert ε) α) : (require cond reason >>= k) = k () := by
  simp [require, h, bind, Except.bind]

/-- A `require` that fails reverts the call. -/
@[simp] theorem require_bind_of_neg {cond : Prop} [Decidable cond] (h : ¬ cond) (reason : String)
    (k : Unit → Except (Revert ε) α) : (require cond reason >>= k) = .error (.require reason) := by
  simp [require, h, bind, Except.bind]

/-- A call that gets past a `require` met its condition. -/
theorem of_require_bind_ok {cond : Prop} [Decidable cond] {reason : String}
    {k : Unit → Except (Revert ε) α} {a : α} (h : (require cond reason >>= k) = .ok a) :
    cond ∧ k () = .ok a := by
  by_cases hc : cond
  · exact ⟨hc, by simpa [hc] using h⟩
  · simp [hc] at h

/-- An increment that does not overflow leaves the rest of the call. -/
theorem checkedIncr_bind_of_lt {n : ℕ} (h : n + 1 < 2 ^ 256) (k : ℕ → Except (Revert ε) α) :
    (checkedIncr n >>= k) = k (n + 1) := by
  unfold checkedIncr
  rw [if_pos h]
  rfl

/-- An increment that overflows reverts the call. -/
theorem checkedIncr_bind_of_max {n : ℕ} (h : ¬ n + 1 < 2 ^ 256) (k : ℕ → Except (Revert ε) α) :
    (checkedIncr n >>= k) = .error (.panic 0x11) := by
  unfold checkedIncr
  rw [if_neg h]
  rfl

/-- A decrement of a positive number leaves the rest of the call. -/
theorem checkedDecr_bind_of_ne {n : ℕ} (h : n ≠ 0) (k : ℕ → Except (Revert ε) α) :
    (checkedDecr n >>= k) = k (n - 1) := by
  unfold checkedDecr
  rw [if_neg h]
  rfl

theorem checkedAdd_of_lt {x y : ℕ} (h : x + y < 2 ^ 256) :
    (checkedAdd x y : Except (Revert ε) ℕ) = .ok (x + y) := by
  unfold checkedAdd
  rw [if_pos h]

theorem checkedMul_of_lt {x y : ℕ} (h : x * y < 2 ^ 256) :
    (checkedMul x y : Except (Revert ε) ℕ) = .ok (x * y) := by
  unfold checkedMul
  rw [if_pos h]

/-- A call that gets past a checked increment did not overflow. -/
theorem of_checkedIncr_bind_ok {n : ℕ} {k : ℕ → Except (Revert ε) α} {a : α}
    (h : (checkedIncr n >>= k) = .ok a) : n + 1 < 2 ^ 256 ∧ k (n + 1) = .ok a := by
  unfold checkedIncr at h
  split at h
  · exact ⟨‹_›, h⟩
  · simp [bind, Except.bind] at h

end Yes3
