import Mathlib.Data.Nat.Digits.Lemmas

/-!
# Yes3.Rules.Decimal — decimal numerals

Numbers below ten as ASCII characters, and the strings that denote a number: not
empty, digits only, and without a leading zero unless the string is `0`. Every
number has one such string (`isNumeral_numeral`, `IsNumeral.eq_numeral`). Its
characters are the digits of Mathlib's `Nat.digits`, which has the least
significant one first, so a program that produces them from the right is compared
with `digitsBelow`.
-/

namespace Decimal

/-- The character of a digit. -/
def digit (d : ℕ) : UInt8 := UInt8.ofNat (48 + d)

/-- The number that a character stands for. -/
def digitValue (c : UInt8) : ℕ := c.toNat - 48

/-- The number that a string stands for, from the left. -/
def value (s : List UInt8) : ℕ := s.foldl (fun v c => 10 * v + digitValue c) 0

/-- `s` denotes `v`. -/
structure IsNumeral (s : List UInt8) (v : ℕ) : Prop where
  nonempty : s ≠ []
  digits : ∀ c ∈ s, 48 ≤ c.toNat ∧ c.toNat ≤ 57
  /-- Only zero begins with a zero. -/
  canonical : s.head? = some 48 → s = [48]
  value_eq : value s = v

/-- The digits of `v`, without one for zero. -/
def digitsBelow (v : ℕ) : List UInt8 := ((Nat.digits 10 v).map digit).reverse

/-- The string that denotes `v`. -/
def numeral (v : ℕ) : List UInt8 := if v = 0 then [48] else digitsBelow v

theorem toNat_digit {d : ℕ} (h : d < 10) : (digit d).toNat = 48 + d := by
  rw [digit, UInt8.toNat_ofNat']
  omega

theorem digitValue_digit {d : ℕ} (h : d < 10) : digitValue (digit d) = d := by
  rw [digitValue, toNat_digit h]
  omega

theorem digit_digitValue {c : UInt8} (h : 48 ≤ c.toNat) : digit (digitValue c) = c := by
  have hc : c.toNat < 256 := c.toNat_lt
  rw [← UInt8.toNat_inj, digit, digitValue, UInt8.toNat_ofNat']
  omega

/-- One more digit on the left: the number without its last digit comes before it. -/
theorem digitsBelow_eq {v : ℕ} (h : v ≠ 0) :
    digitsBelow v = digitsBelow (v / 10) ++ [digit (v % 10)] := by
  rw [digitsBelow, Nat.digits_def' (by omega) (Nat.pos_of_ne_zero h), List.map_cons,
    List.reverse_cons]
  rfl

theorem length_digitsBelow (v : ℕ) : (digitsBelow v).length = (Nat.digits 10 v).length := by
  simp [digitsBelow]

theorem length_digitsBelow_le {v k : ℕ} (h : v < 10 ^ k) : (digitsBelow v).length ≤ k := by
  rw [length_digitsBelow]
  exact (Nat.digits_length_le_iff (by omega) v).mpr h

theorem digitsBelow_ne_nil {v : ℕ} (h : v ≠ 0) : digitsBelow v ≠ [] := by
  rw [digitsBelow_eq h]
  exact List.append_ne_nil_of_right_ne_nil _ (List.cons_ne_nil _ _)

/-- Reading from the left is what `Nat.ofDigits` does from the right. -/
theorem value_eq_ofDigits (s : List UInt8) :
    value s = Nat.ofDigits 10 (s.map digitValue).reverse := by
  rw [Nat.ofDigits_eq_foldr, List.foldr_reverse, List.foldl_map, value]
  congr
  funext v c
  exact Nat.add_comm _ _

theorem value_digitsBelow (v : ℕ) : value (digitsBelow v) = v := by
  have hdigits : (Nat.digits 10 v).map (digitValue ∘ digit) = Nat.digits 10 v := by
    have hid : ∀ d ∈ Nat.digits 10 v, (digitValue ∘ digit) d = id d := fun d hd =>
      digitValue_digit (Nat.digits_lt_base (by omega) hd)
    rw [List.map_congr_left hid, List.map_id]
  rw [value_eq_ofDigits, digitsBelow, List.map_reverse, List.reverse_reverse, List.map_map,
    hdigits, Nat.ofDigits_digits]

/-- The leftmost digit is no zero. -/
theorem head_digitsBelow (v : ℕ) : (digitsBelow v).head? ≠ some 48 := by
  intro hhead
  rw [digitsBelow, List.head?_reverse, List.getLast?_map] at hhead
  obtain ⟨d, hlast, hd⟩ := Option.map_eq_some_iff.mp hhead
  have hmem : d ∈ Nat.digits 10 v := List.mem_of_getLast? hlast
  have hzero : d = 0 := by
    have hlt : d < 10 := Nat.digits_lt_base (by omega) hmem
    rw [← digitValue_digit hlt, hd]
    rfl
  have hv : v ≠ 0 := by
    rintro rfl
    simp at hmem
  rw [List.getLast?_eq_some_getLast (Nat.digits_ne_nil_iff_ne_zero.mpr hv), hzero] at hlast
  exact Nat.getLast_digit_ne_zero 10 hv (Option.some.inj hlast)

/-- Every number has a numeral. -/
theorem isNumeral_numeral (v : ℕ) : IsNumeral (numeral v) v := by
  by_cases hv : v = 0
  · subst hv
    refine ⟨List.cons_ne_nil _ _, ?_, fun _ => rfl, rfl⟩
    intro c hc
    obtain rfl : c = 48 := List.mem_singleton.mp hc
    decide
  · rw [numeral, if_neg hv]
    refine ⟨digitsBelow_ne_nil hv, ?_, fun hhead => absurd hhead (head_digitsBelow v),
      value_digitsBelow v⟩
    intro c hc
    rw [digitsBelow, List.mem_reverse] at hc
    obtain ⟨d, hd, rfl⟩ := List.mem_map.mp hc
    have hlt : d < 10 := Nat.digits_lt_base (by omega) hd
    rw [toNat_digit hlt]
    omega

/-- And only one. -/
theorem IsNumeral.eq_numeral {s : List UInt8} {v : ℕ} (h : IsNumeral s v) : s = numeral v := by
  by_cases hhead : s.head? = some 48
  · obtain rfl := h.canonical hhead
    obtain rfl := h.value_eq
    rfl
  · cases s with
    | nil => exact absurd rfl h.nonempty
    | cons c s =>
        -- the digits of the string, from the right, are the digits of its number
        have hdigits : Nat.digits 10 v = ((c :: s).map digitValue).reverse := by
          rw [← h.value_eq, value_eq_ofDigits]
          apply Nat.digits_ofDigits 10 (by omega)
          · intro d hd
            obtain ⟨c', hc', rfl⟩ := List.mem_map.mp (List.mem_reverse.mp hd)
            have hdigit := h.digits c' hc'
            unfold digitValue
            omega
          · intro hne hlast
            rw [List.getLast_reverse] at hlast
            have hzero : digitValue c = 0 := hlast
            apply hhead
            rw [List.head?_cons, ← digit_digitValue (h.digits c List.mem_cons_self).1, hzero]
            rfl
        have hv : v ≠ 0 := by
          rintro rfl
          simp at hdigits
        have hchars : ∀ c' ∈ c :: s, (digit ∘ digitValue) c' = id c' := fun c' hc' =>
          digit_digitValue (h.digits c' hc').1
        rw [numeral, if_neg hv, digitsBelow, hdigits, List.map_reverse, List.reverse_reverse,
          List.map_map, List.map_congr_left hchars, List.map_id]

end Decimal
