import Yes3.LyonPrompt.Contract
import Yes3.Rules.Decimal

/-!
# Yes3.LyonPrompt.ToString — `toString` of `LyonPrompt.sol`

The conversion of a `uint256` to its decimal representation. One loop counts the
digits, and a second one fills a buffer of that length from the right, with every
check that the compiler inserts. `toString_is_numeral` says that no check fails
and that the string is the numeral of the value.
-/

namespace Yes3.LyonPrompt

open Decimal

/-- The first loop. -/
def countDigits (temp digits : ℕ) : Result ℕ :=
  if temp ≠ 0 then do
    let digits ← checkedIncr digits
    countDigits (temp / 10) digits
  else
    .ok digits
termination_by temp
decreasing_by omega

/-- `new bytes(digits)`. A length that does not fit in 64 bits is refused. -/
def newBuffer (digits : ℕ) : Result Bytes :=
  if digits < 2 ^ 64 then .ok (List.replicate digits 0) else .error (.panic 0x41)

/-- The second loop, with the `digits` it ends with. -/
def fillDigits (value digits : ℕ) (buffer : Bytes) : Result (ℕ × Bytes) :=
  if value ≠ 0 then do
    let digits ← checkedDecr digits
    let buffer ← checked (DynArray.writeAt buffer digits (UInt8.ofNat (48 + value % 10)))
    fillDigits (value / 10) digits buffer
  else
    .ok (digits, buffer)
termination_by value
decreasing_by omega

/-- `toString`. -/
protected def toString (value : ℕ) : Result Bytes :=
  if value = 0 then
    .ok [0x30]
  else do
    let digits ← countDigits value 0
    let buffer ← newBuffer digits
    let (_, buffer) ← fillDigits value digits buffer
    return buffer

/-! ## The loops -/

/-- The first loop counts the digits that are left. -/
theorem countDigits_eq {temp digits : ℕ} (h : digits + (digitsBelow temp).length < 2 ^ 256) :
    countDigits temp digits = .ok (digits + (digitsBelow temp).length) := by
  fun_induction countDigits temp digits with
  | case1 temp digits hzero ih =>
      have hlen : (digitsBelow temp).length = (digitsBelow (temp / 10)).length + 1 := by
        rw [digitsBelow_eq hzero, List.length_append, List.length_singleton]
      rw [hlen] at h ⊢
      rw [checkedIncr_bind_of_lt (by omega), ih (digits + 1) (by omega)]
      congr 1
      omega
  | case2 temp digits hzero =>
      obtain rfl : temp = 0 := by omega
      rfl

/-- The second loop, entered when `front` is as long as the value that is left and
`back` is written. It uses up `front` and `digits` together. -/
theorem fillDigits_eq {value : ℕ} {front back : Bytes}
    (h : front.length = (digitsBelow value).length) :
    fillDigits value front.length (front ++ back) = .ok (0, digitsBelow value ++ back) := by
  induction value using Nat.strongRecOn generalizing front back with
  | ind value ih =>
      rw [fillDigits]
      by_cases hzero : value = 0
      · subst hzero
        have hfront : front = [] := List.eq_nil_of_length_eq_zero h
        rw [hfront]
        rfl
      · rcases List.eq_nil_or_concat' front with rfl | ⟨front, byte, rfl⟩
        · exact absurd (List.eq_nil_of_length_eq_zero h.symm) (digitsBelow_ne_nil hzero)
        · -- the byte that is written is the last one of the front
          have hlast : (front ++ [byte]).length - 1 = front.length := by
            simp
          have hlen : front.length = (digitsBelow (value / 10)).length := by
            rw [digitsBelow_eq hzero, List.length_append, List.length_append] at h
            simpa using h
          have hwrite : (checked (DynArray.writeAt (front ++ [byte] ++ back) front.length
              (digit (value % 10))) : Result Bytes)
                = .ok (front ++ digit (value % 10) :: back) := by
            simp [DynArray.writeAt]
          have hbytes : digitsBelow value ++ back
              = digitsBelow (value / 10) ++ digit (value % 10) :: back := by
            rw [digitsBelow_eq hzero, List.append_assoc, List.singleton_append]
          rw [if_pos hzero, checkedDecr_bind_of_ne (by simp), hlast, hbytes]
          exact (bind_of_ok hwrite _).trans (ih (value / 10) (by omega) hlen)

/-! ## The string -/

/-- Every `uint256` has fewer digits than a buffer may have bytes. -/
theorem length_digitsBelow_uint256 {value : ℕ} (h : value < 2 ^ 256) :
    (digitsBelow value).length ≤ 78 :=
  length_digitsBelow_le (by omega)

/-- **The string is the numeral of the value**, the only one it has. For a value that
is not zero the loops agree: the second one ends at the left end of the buffer, and
what the buffer held before shows nowhere. -/
theorem toString_is_numeral (value : ℕ) (h : value < 2 ^ 256) :
    ∃ s, LyonPrompt.toString value = .ok s ∧ IsNumeral s value ∧
      (∀ s', IsNumeral s' value → s' = s) ∧
      (value ≠ 0 → ∃ n, countDigits value 0 = .ok n ∧
        newBuffer n = .ok (List.replicate n 0) ∧ s.length = n ∧
        ∀ buffer : Bytes, buffer.length = n → fillDigits value n buffer = .ok (0, s)) := by
  by_cases hzero : value = 0
  · subst hzero
    exact ⟨numeral 0, rfl, isNumeral_numeral 0, fun s' hs' => hs'.eq_numeral,
      fun hne => absurd rfl hne⟩
  · have hsize := length_digitsBelow_uint256 h
    have hcount : countDigits value 0 = .ok (digitsBelow value).length := by
      rw [countDigits_eq (by omega), Nat.zero_add]
    have hbuffer : newBuffer (digitsBelow value).length
        = .ok (List.replicate (digitsBelow value).length 0) := if_pos (by omega)
    have hfill : ∀ buffer : Bytes, buffer.length = (digitsBelow value).length →
        fillDigits value (digitsBelow value).length buffer = .ok (0, digitsBelow value) := by
      intro buffer hlen
      have hall : fillDigits value buffer.length (buffer ++ [])
          = .ok (0, digitsBelow value ++ []) := fillDigits_eq hlen
      rwa [List.append_nil, List.append_nil, hlen] at hall
    have hnumeral : IsNumeral (digitsBelow value) value := by
      have hs := isNumeral_numeral value
      rwa [numeral, if_neg hzero] at hs
    refine ⟨digitsBelow value, ?_, hnumeral, ?_, ?_⟩
    · rw [LyonPrompt.toString, if_neg hzero, bind_of_ok hcount, bind_of_ok hbuffer,
        bind_of_ok (hfill _ (by simp))]
      rfl
    · intro s' hs'
      rw [hs'.eq_numeral, numeral, if_neg hzero]
    · intro _
      exact ⟨_, hcount, hbuffer, rfl, hfill⟩

/-- `2 ^ 256 - 1` has 78 digits. -/
theorem toString_is_numeral_max :
    ∃ s, LyonPrompt.toString (2 ^ 256 - 1) = .ok s ∧ IsNumeral s (2 ^ 256 - 1) := by
  obtain ⟨s, hs, hnumeral, _⟩ := toString_is_numeral (2 ^ 256 - 1) (by decide)
  exact ⟨s, hs, hnumeral⟩

example : LyonPrompt.toString 907 = .ok [0x39, 0x30, 0x37] := by decide +kernel

end Yes3.LyonPrompt
