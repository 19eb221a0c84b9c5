import Yes3.Base64.Encode
import Yes3.Rules.Rfc4648

/-!
# Yes3.Base64.Correct — what the assembly computes

The encoder against RFC 4648. A pass of the loop appends the four symbols of the
next three bytes (`LoopInv.encodeGroup`), whatever those bytes are, so the text
before the padding is the encoding of an endless input that begins with the
data. The padding replaces all but the bits of at most one byte behind the data
(`encoded_eq`).
-/

namespace Yes3.Base64

open Yul Rfc4648

/-! ## One word -/

/-- The last three bytes of a word. -/
theorem and_mload (m : Memory) (p : ℕ) :
    Yul.and (mload m p) 0xffffff = group (m (p + 29)) (m (p + 30)) (m (p + 31)) := by
  have hsplit : mload m p = ByteMemory.value m p 29 * 256 ^ 3 + ByteMemory.value m (p + 29) 3 :=
    ByteMemory.value_add m p 29 3
  have hlow : ByteMemory.value m (p + 29) 3 = group (m (p + 29)) (m (p + 30)) (m (p + 31)) := by
    show ((0 * 256 + (m (p + 29)).toNat) * 256 + (m (p + 30)).toNat) * 256 + (m (p + 31)).toNat = _
    unfold group
    omega
  have hlt : ByteMemory.value m (p + 29) 3 < 256 ^ 3 := ByteMemory.value_lt m (p + 29) 3
  have hmask : Yul.and (mload m p) 0xffffff = mload m p % 2 ^ 24 := and_mask (mload m p) 24
  rw [hmask, ← hlow]
  omega

/-- The last byte of a word. -/
theorem mload_mod (m : Memory) (p : ℕ) : mload m p % 256 = (m (p + 31)).toNat := by
  have hlt : (m (p + 31)).toNat < 256 := (m (p + 31)).toNat_lt
  have hsplit : mload m p = ByteMemory.value m p 31 * 256 + (m (p + 31)).toNat := rfl
  omega

/-- The four shifts leave the last byte of the first word and the three masked
bytes at the top of the word. -/
theorem shl_out {w x y z : ℕ} (hx : x < 256) (hy : y < 256) (hz : z < 256) :
    shl 224 (add (shl 8 (add (shl 8 (add (shl 8 w) x)) y)) z)
      = (((w % 256 * 256 + x) * 256 + y) * 256 + z) * 2 ^ 224 := by
  simp only [shl_eq, add]
  omega

/-- The byte of such a word at each of the first four places. -/
theorem byte_of_out {w t : ℕ} {c : ℕ → UInt8} (hw : w % 256 = (c 0).toNat) (ht : t < 4) :
    UInt8.ofNat ((((w % 256 * 256 + (c 1).toNat) * 256 + (c 2).toNat) * 256 + (c 3).toNat)
      * 2 ^ 224 / 256 ^ (31 - t)) = c t := by
  have hc : ∀ j, (c j).toNat < 256 := fun j => (c j).toNat_lt
  have h1 := hc 1
  have h2 := hc 2
  have h3 := hc 3
  rw [← UInt8.toNat_inj, UInt8.toNat_ofNat']
  rcases (by omega : t = 0 ∨ t = 1 ∨ t = 2 ∨ t = 3) with rfl | rfl | rfl | rfl
  · omega
  · omega
  · omega
  · omega

/-- The shift and the mask of the assembly take out a 6-bit group. -/
theorem and_shr (g i : ℕ) : Yul.and (shr (18 - 6 * i) g) 0x3F = (sextet g i).val := by
  have hmask : Yul.and (shr (18 - 6 * i) g) 0x3F = shr (18 - 6 * i) g % 2 ^ 6 := and_mask _ 6
  rw [hmask, shr_eq]
  rfl

/-- The characters of the table in memory, reached through `tablePtr`. -/
def TableAt (m : Memory) (tablePtr : ℕ) : Prop :=
  ∀ v : Fin 64, m (tablePtr + v.val + 31) = symbol v

/-- A load from the table ends with the character. -/
theorem TableAt.mload_mod {m : Memory} {tablePtr : ℕ} (h : TableAt m tablePtr)
    (hlt : tablePtr + 64 < 2 ^ 256) (v : Fin 64) :
    mload m (add tablePtr v.val) % 256 = (symbol v).toNat := by
  have hadd : add tablePtr v.val = tablePtr + v.val := add_of_lt (by omega)
  rw [hadd, Base64.mload_mod, h v]

theorem TableAt.and_mload {m : Memory} {tablePtr : ℕ} (h : TableAt m tablePtr)
    (hlt : tablePtr + 64 < 2 ^ 256) (v : Fin 64) :
    Yul.and (mload m (add tablePtr v.val)) 0xFF = (symbol v).toNat := by
  rw [← h.mload_mod hlt v]
  exact and_mask _ 8

/-- The word that one pass stores begins with four symbols. -/
theorem encodeGroup_byte {data tablePtr t : ℕ} {s : Loop} (htable : TableAt s.mem tablePtr)
    (htableLt : tablePtr + 64 < 2 ^ 256) (hdata : data + s.i + 3 < 2 ^ 256) (ht : t < 4) :
    (encodeGroup data tablePtr s).mem (s.resultPtr + t)
      = symbol (sextet (group (s.mem (data + 32 + s.i)) (s.mem (data + 32 + s.i + 1))
          (s.mem (data + 32 + s.i + 2))) t) := by
  have hi : add s.i 3 = s.i + 3 := add_of_lt (by omega)
  have hp : add data (s.i + 3) = data + (s.i + 3) := add_of_lt (by omega)
  have hinput : Yul.and (mload s.mem (data + (s.i + 3))) 0xffffff
      = group (s.mem (data + 32 + s.i)) (s.mem (data + 32 + s.i + 1))
          (s.mem (data + 32 + s.i + 2)) := by
    rw [and_mload]
    congr 2 <;> omega
  rw [← hinput]
  -- the characters depend on the three bytes only through this number
  generalize hg : Yul.and (mload s.mem (data + (s.i + 3))) 0xffffff = g
  have h0 : Yul.and (shr 18 g) 0x3F = (sextet g 0).val := and_shr g 0
  have h1 : Yul.and (shr 12 g) 0x3F = (sextet g 1).val := and_shr g 1
  have h2 : Yul.and (shr 6 g) 0x3F = (sextet g 2).val := and_shr g 2
  have h3 : Yul.and g 0x3F = (sextet g 3).val := and_shr g 3
  have hlt : ∀ v, (symbol v).toNat < 256 := fun v => (symbol v).toNat_lt
  simp only [encodeGroup, hi, hp, hg, h0, h1, h2, h3, htable.and_mload htableLt]
  rw [mstore_byte (by omega), shl_out (hlt _) (hlt _) (hlt _)]
  exact byte_of_out (c := fun j => symbol (sextet g j)) (htable.mload_mod htableLt _) ht

/-- One pass writes one word. -/
theorem encodeGroup_frame {data tablePtr a : ℕ} {s : Loop}
    (h : a < s.resultPtr ∨ s.resultPtr + 32 ≤ a) :
    (encodeGroup data tablePtr s).mem a = s.mem a := by
  rcases h with h | h
  · exact mstore_of_lt h
  · exact mstore_of_le h

/-! ## The loop -/

/-- The memory when the loop starts: the data, behind it the result with room for
the text and one more word, behind that the table. -/
structure Ready (m : Memory) (data len result table : ℕ) : Prop where
  source : data + 32 + len ≤ result
  room : result + 64 + 4 * ((len + 2) / 3) ≤ table
  bounded : table + 96 < 2 ^ 256
  chars : TableAt m (table + 1)

/-- The memory from the data on, as an endless input. -/
def stream (m : Memory) (data j : ℕ) : UInt8 := m (data + 32 + j)

/-- After `k` passes from the memory `m`, the text has the symbols of the first
`k` groups. Nothing is written outside the bytes of the result object. -/
structure LoopInv (m : Memory) (data len result k : ℕ) (s : Loop) : Prop where
  passes : k ≤ (len + 2) / 3
  index : s.i = 3 * k
  resultPtr : s.resultPtr = result + 32 + 4 * k
  text : ∀ i < 4 * k, s.mem (result + 32 + i) = symbolAt symbol (stream m data) i
  frame : ∀ a, a < result + 32 ∨ result + 64 + 4 * ((len + 2) / 3) ≤ a → s.mem a = m a

variable {m : Memory} {data len result table k : ℕ} {s : Loop}

theorem loopInv_start (hready : Ready m data len result table) :
    LoopInv m data len result 0 ⟨m, 0, add result 32⟩ where
  passes := Nat.zero_le _
  index := rfl
  resultPtr := by
    have := hready.room
    have := hready.bounded
    exact add_of_lt (by omega)
  text i hi := by
    omega
  frame _ _ := rfl

/-- The table is not written. -/
theorem LoopInv.chars (h : LoopInv m data len result k s)
    (hready : Ready m data len result table) : TableAt s.mem (table + 1) := by
  intro v
  have hroom := hready.room
  rw [h.frame _ (Or.inr (by omega))]
  exact hready.chars v

/-- One pass. It may read behind the data, but not what the loop has written. -/
theorem LoopInv.encodeGroup (h : LoopInv m data len result k s)
    (hready : Ready m data len result table) (hi : s.i < len) :
    LoopInv m data len result (k + 1) (encodeGroup data (table + 1) s) := by
  have hsource := hready.source
  have hroom := hready.room
  have hbounded := hready.bounded
  have hindex := h.index
  have hptr := h.resultPtr
  have hpasses : k + 1 ≤ (len + 2) / 3 := by omega
  have hread : ∀ j < 3, s.mem (data + 32 + s.i + j) = stream m data (3 * k + j) := by
    intro j hj
    rw [h.frame _ (Or.inl (by omega)), hindex, Nat.add_assoc (data + 32)]
    rfl
  refine ⟨hpasses, ?_, ?_, ?_, ?_⟩
  · rw [Nat.mul_add_one, ← hindex]
    exact add_of_lt (by omega)
  · rw [Nat.mul_add_one, ← Nat.add_assoc, ← hptr]
    exact add_of_lt (by omega)
  · intro i hi
    rcases Nat.lt_or_ge i (4 * k) with hlt | hge
    · -- a character of an earlier pass lies below the word that is stored
      rw [encodeGroup_frame (Or.inl (by omega))]
      exact h.text i hlt
    · -- one of the four characters of this pass
      obtain ⟨t, rfl⟩ := Nat.exists_eq_add_of_le hge
      have ht : t < 4 := by omega
      have hdiv : (4 * k + t) / 4 = k := by omega
      have hmod : (4 * k + t) % 4 = t := by omega
      have hzero : s.mem (data + 32 + s.i) = stream m data (3 * k) := hread 0 (by omega)
      rw [← Nat.add_assoc, ← hptr,
        encodeGroup_byte (h.chars hready) (by omega) (by omega) ht,
        hread 1 (by omega), hread 2 (by omega)]
      rw [hzero, symbolAt, hdiv, hmod]
  · intro a ha
    rw [encodeGroup_frame (by omega)]
    exact h.frame a ha

/-- The whole loop. -/
theorem LoopInv.encodeLoop (hready : Ready m data len result table) (hlen : len + 2 < 2 ^ 256)
    (h : LoopInv m data len result k s) :
    LoopInv m data len result ((len + 2) / 3) (encodeLoop data (table + 1) len hlen s) := by
  fun_induction Base64.encodeLoop data (table + 1) len hlen s generalizing k with
  | case1 s hi ih => exact ih (h.encodeGroup hready hi)
  | case2 s hi =>
      have hindex := h.index
      have hpasses := h.passes
      have hk : k = (len + 2) / 3 := by omega
      rwa [← hk]

/-! ## The padding and the length -/

/-- What the `switch` does: nothing, or one store with the signs of padding at the
top of the word, which ends them where the text ends. -/
theorem padResult_cases (len : ℕ) (s : Loop) :
    (padding len = 0 ∧ padResult len s = s.mem) ∨
    ∃ w, 0 < padding len ∧ padResult len s = mstore s.mem (sub s.resultPtr (padding len)) w ∧
      ∀ j < padding len, UInt8.ofNat (w / 256 ^ (31 - j)) = equalsSign := by
  have hlen : len % 3 = 0 ∨ len % 3 = 1 ∨ len % 3 = 2 := by omega
  unfold padResult padding
  rcases hlen with hlen | hlen | hlen
  · rw [hlen]
    exact Or.inl ⟨rfl, rfl⟩
  · rw [hlen]
    exact Or.inr ⟨_, by decide, rfl, by decide⟩
  · rw [hlen]
    exact Or.inr ⟨_, by decide, rfl, by decide⟩

/-- The padding is shorter than a group of symbols. -/
theorem padding_le (len : ℕ) : padding len ≤ 4 * ((len + 2) / 3) ∧ padding len < 3 := by
  unfold padding
  omega

/-- The text after the `switch`. -/
theorem LoopInv.padResult_text (h : LoopInv m data len result ((len + 2) / 3) s)
    (hready : Ready m data len result table) {i : ℕ} (hi : i < 4 * ((len + 2) / 3)) :
    padResult len s (result + 32 + i)
      = if i < 4 * ((len + 2) / 3) - padding len
          then symbolAt symbol (stream m data) i else equalsSign := by
  have hptr := h.resultPtr
  have hroom := hready.room
  have hbounded := hready.bounded
  have hpad := padding_le len
  rcases padResult_cases len s with ⟨hzero, heq⟩ | ⟨w, _, heq, hsigns⟩
  · rw [heq, hzero, Nat.sub_zero, if_pos hi]
    exact h.text i hi
  · have hsub : sub s.resultPtr (padding len) = s.resultPtr - padding len :=
      sub_of_le (by omega) (by omega)
    rw [heq, hsub]
    by_cases htext : i < 4 * ((len + 2) / 3) - padding len
    · -- the signs are stored at the end of the text, so this is still the loop's
      rw [if_pos htext, mstore_of_lt (by omega)]
      exact h.text i hi
    · obtain ⟨j, hj⟩ : ∃ j, i = 4 * ((len + 2) / 3) - padding len + j :=
        Nat.exists_eq_add_of_le (by omega)
      have hplace : result + 32 + i = s.resultPtr - padding len + j := by omega
      rw [if_neg htext, hplace, mstore_byte (by omega)]
      exact hsigns j (by omega)

/-- The string that the last store cuts off is the encoding of the data, completed
with the byte behind it. -/
theorem LoopInv.bytesAt_result {bs : Bytes} (h : LoopInv m data len result ((len + 2) / 3) s)
    (hready : Ready m data len result table) (hlen : bs.length = len)
    (hdata : ∀ j, (hj : j < bs.length) → stream m data j = bs[j]) :
    bytesAt (mstore (padResult len s) result (4 * ((len + 2) / 3))) result
      = encodeWith symbol equalsSign (stream m data len) bs := by
  subst hlen
  have hroom := hready.room
  have hbounded := hready.bounded
  have hword : mload (mstore (padResult bs.length s) result (4 * ((bs.length + 2) / 3))) result
      = (encodeWith symbol equalsSign (stream m data bs.length) bs).length := by
    rw [length_encodeWith]
    exact mload_mstore _ _ (by omega)
  rw [bytesAt, hword, ByteMemory.read_eq_iff]
  intro i hi
  have hget := List.getElem?_eq_getElem hi
  rw [length_encodeWith] at hi
  rw [getElem?_encodeWith hdata rfl hi, Option.some_inj] at hget
  rw [mstore_of_le (by omega), h.padResult_text hready hi, hget]

/-! ## The call -/

/-- The byte behind `n` bytes of data, as `encode` finds it. Where the free memory
begins there, the result object has been put over it, and its length has no bit
that high. -/
def strayByte (m : Memory) (data n : ℕ) : UInt8 :=
  if data + 32 + n < freePtr m then m (data + 32 + n) else 0

theorem length_table : TABLE.length = 64 := by decide

/-- The table, once it is in memory. -/
theorem tableAt_literal (hhigh : freePtr m + 32 < 2 ^ 256) :
    TableAt (literal m TABLE).1 (freePtr m + 1) := by
  intro v
  have hv : v.val < TABLE.length := by
    rw [length_table]
    exact v.isLt
  have hplace : freePtr m + 1 + v.val + 31 = freePtr m + 32 + v.val := by omega
  rw [hplace, literal_byte TABLE hhigh hv]
  rfl

/-- What the two allocations leave for the loop. -/
theorem ready_of_allocates {m m' : Memory} {bs : Bytes} (h : Holds m data bs)
    (hroom : 4 * ((bs.length + 2) / 3) + 32 < 2 ^ 64)
    (hresult : Allocates m m' (4 * ((bs.length + 2) / 3) + 32)) :
    Ready (literal m' TABLE).1 data bs.length (freePtr m) (freePtr m') ∧
      (∀ j, (hj : j < bs.length) → stream (literal m' TABLE).1 data j = bs[j]) ∧
      stream (literal m' TABLE).1 data bs.length = strayByte m data bs.length := by
  have hlow := h.low
  have hallocated := h.allocated
  have hbounded := h.bounded
  have hup := le_roundUp (4 * ((bs.length + 2) / 3) + 32)
  have hup' := roundUp_lt (4 * ((bs.length + 2) / 3) + 32)
  have hnext := hresult.next
  have hlow' : 0x60 ≤ freePtr m' := by omega
  have hhigh' : freePtr m' + (32 + roundUp TABLE.length) < 2 ^ 256 := by
    rw [length_table]
    have := roundUp_lt 64
    omega
  have htable := literal_allocates TABLE hlow' hhigh'
  have hold : ∀ a < freePtr m', ¬ AtFreePtr a → (literal m' TABLE).1 a = m' a := htable.old
  have houter : ∀ j, ¬ AtFreePtr (data + 32 + j) := by
    intro j hj
    have := hj.2
    omega
  have hkeep : ∀ j, data + 32 + j < freePtr m →
      stream (literal m' TABLE).1 data j = m (data + 32 + j) := by
    intro j hj
    rw [stream, hold _ (by omega) (houter j)]
    exact hresult.old _ hj (houter j)
  refine ⟨⟨hallocated, by omega, by omega, tableAt_literal (by omega)⟩, ?_, ?_⟩
  · intro j hj
    rw [hkeep j (by omega)]
    exact h.byte hj
  · unfold strayByte
    split
    next hlt => exact hkeep _ hlt
    next hge =>
      -- the byte is the first one of the length word of the result
      have hplace : data + 32 + bs.length = freePtr m := by omega
      rw [stream, hplace, hold _ (by omega) (hplace ▸ houter _)]
      apply first_byte_of_mload_lt
      rw [hresult.length]
      omega

/-- The lengths that `encode` computes before it allocates do not overflow. -/
theorem encode_eq {bs : Bytes} (h : Holds m data bs) (hne : bs.length ≠ 0) :
    encode m data = do
      let (m, result) ← newBytes m (4 * ((bs.length + 2) / 3) + 32)
      let (m, table) := literal m TABLE
      let s := encodeLoop data (add table 1) bs.length h.length_lt ⟨m, 0, add result 32⟩
      let m := padResult bs.length s
      return (mstore m result (4 * ((bs.length + 2) / 3)), result) := by
  have hallocated := h.allocated
  have hbounded := h.bounded
  simp only [encode, h.length, if_neg hne, dif_pos h.length_lt]
  rw [bind_of_ok (checkedMul_of_lt (by omega)), bind_of_ok (checkedAdd_of_lt (by omega))]

/-- With room for the result, a call allocates it and goes through the loop. -/
theorem encode_allocates {bs : Bytes} (h : Holds m data bs) (hne : bs.length ≠ 0)
    (hroom : 4 * ((bs.length + 2) / 3) + 32 < 2 ^ 64) :
    ∃ m', (newBytes m (4 * ((bs.length + 2) / 3) + 32) : Except (Revert Empty) _)
        = .ok (m', freePtr m) ∧
      Allocates m m' (4 * ((bs.length + 2) / 3) + 32) ∧
      encode m data = .ok (mstore (padResult bs.length (encodeLoop data (add (freePtr m') 1)
        bs.length h.length_lt ⟨(literal m' TABLE).1, 0, add (freePtr m) 32⟩)) (freePtr m)
        (4 * ((bs.length + 2) / 3)), freePtr m) := by
  have hlow := h.low
  have hallocated := h.allocated
  have hbounded := h.bounded
  have hup := roundUp_lt (4 * ((bs.length + 2) / 3) + 32)
  obtain ⟨m', hnew, hresult⟩ := newBytes_eq (ε := Empty) (m := m) (by omega) (by omega) hroom
  refine ⟨m', hnew, hresult, ?_⟩
  rw [encode_eq h hne, bind_of_ok hnew]
  rfl

/-- Without room it allocates nothing. -/
theorem encode_refused {bs : Bytes} (h : Holds m data bs) (hne : bs.length ≠ 0)
    (hroom : ¬ 4 * ((bs.length + 2) / 3) + 32 < 2 ^ 64) :
    encode m data = .error (.panic 0x41) := by
  rw [encode_eq h hne, newBytes, if_neg hroom]
  rfl

/-- An empty input is answered by an empty string of its own. -/
theorem encoded_empty {bs : Bytes} (h : Holds m data bs) (hempty : bs.length = 0) :
    encoded m data = .ok [] := by
  have hlow := h.low
  have hallocated := h.allocated
  have hbounded := h.bounded
  have hroom : freePtr m + (32 + roundUp ([] : Bytes).length) < 2 ^ 256 := by
    show freePtr m + (32 + 0) < 2 ^ 256
    omega
  have hzero : mload (literal m []).1 (freePtr m) = 0 :=
    (literal_allocates [] (by omega) hroom).length
  have hencode : encode m data = .ok (literal m []) := by
    simp only [encode, h.length, hempty, if_true]
  have hbytes : bytesAt (literal m []).1 (freePtr m) = [] := by
    rw [bytesAt, hzero]
    rfl
  rw [encoded, bind_of_ok hencode]
  exact congrArg Except.ok hbytes

/-- The loop starts from a memory that is ready, and ends as its invariant says. -/
theorem encode_ok {bs : Bytes} (h : Holds m data bs) (hne : bs.length ≠ 0)
    (hroom : 4 * ((bs.length + 2) / 3) + 32 < 2 ^ 64) :
    ∃ m' table s, Ready m' data bs.length (freePtr m) table ∧
      LoopInv m' data bs.length (freePtr m) ((bs.length + 2) / 3) s ∧
      (∀ j, (hj : j < bs.length) → stream m' data j = bs[j]) ∧
      stream m' data bs.length = strayByte m data bs.length ∧
      encode m data = .ok (mstore (padResult bs.length s) (freePtr m)
        (4 * ((bs.length + 2) / 3)), freePtr m) := by
  obtain ⟨m', _, hresult, hencode⟩ := encode_allocates h hne hroom
  obtain ⟨hready, hdata, hstray⟩ := ready_of_allocates h hroom hresult
  have htable : add (freePtr m') 1 = freePtr m' + 1 := by
    have hbounded := hready.bounded
    exact add_of_lt (by omega)
  rw [htable] at hencode
  exact ⟨_, _, _, hready, (loopInv_start hready).encodeLoop hready h.length_lt, hdata, hstray,
    hencode⟩

/-- `encode` returns the encoding of the data completed with the byte behind it, or
refuses the length of the result. -/
theorem encoded_eq {bs : Bytes} (h : Holds m data bs) :
    encoded m data
      = if 4 * ((bs.length + 2) / 3) + 32 < 2 ^ 64
          then .ok (encodeWith symbol equalsSign (strayByte m data bs.length) bs)
          else .error (.panic 0x41) := by
  by_cases hne : bs.length = 0
  · have hnil : bs = [] := List.eq_nil_of_length_eq_zero hne
    rw [encoded_empty h hne, hnil]
    rfl
  by_cases hroom : 4 * ((bs.length + 2) / 3) + 32 < 2 ^ 64
  · obtain ⟨m', table, s, hready, hinv, hdata, hstray, hencode⟩ := encode_ok h hne hroom
    rw [if_pos hroom, encoded, bind_of_ok hencode, ← hstray,
      ← hinv.bytesAt_result hready rfl hdata]
    rfl
  · rw [if_neg hroom, encoded, encode_refused h hne hroom]
    rfl

/-! ## The standard -/

/-- With a zero byte behind the data the string is the Base64 of the data, for every
length that `new bytes` accepts. A whole number of groups needs nothing behind it. -/
theorem encode_is_base64 {bs : Bytes} (h : Holds m data bs)
    (hzero : bs.length % 3 ≠ 0 → m (data + 32 + bs.length) = 0) :
    encoded m data
        = (if 4 * ((bs.length + 2) / 3) + 32 < 2 ^ 64
            then .ok (base64 bs) else .error (.panic 0x41)) ∧
      (base64 bs).length = 4 * ((bs.length + 2) / 3) ∧
      (base64 bs).count equalsSign = if bs.length % 3 = 0 then 0 else 3 - bs.length % 3 := by
  have hagree : Agree bs.length (strayByte m data bs.length) 0 := by
    have hstray : bs.length % 3 ≠ 0 → strayByte m data bs.length = 0 := by
      intro hmod
      rw [strayByte, hzero hmod, ite_self]
    constructor
    · intro hmod
      rw [hstray (by omega)]
    · intro hmod
      rw [hstray (by omega)]
  have hencode : encodeWith symbol equalsSign (strayByte m data bs.length) bs = base64 bs :=
    (encodeWith_eq_iff symbol_injective bs).mpr hagree
  refine ⟨?_, length_encodeWith 0 bs, ?_⟩
  · rw [encoded_eq h, hencode]
  · have hcount : (base64 bs).count equalsSign = padding bs.length :=
      count_pad symbol_ne_equalsSign 0 bs
    rw [hcount]
    unfold padding
    split <;> omega

/-- Two bytes and a zero: `YWI=`. -/
theorem encode_is_base64_two_bytes :
    encoded (laidOut [0x61, 0x62] 0) 0x80 = .ok (base64 [0x61, 0x62]) ∧
      base64 [0x61, 0x62] = [0x59, 0x57, 0x49, 0x3d] :=
  ⟨(encode_is_base64 (holds_laidOut 0 (by decide)) fun _ => laidOut_stray _ 0).1, by decide⟩

end Yes3.Base64
