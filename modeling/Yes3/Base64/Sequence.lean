import Yes3.Base64.Frame

/-!
# Yes3.Base64.Sequence — many calls in one memory

A call of `encode` runs in a memory that other code uses as well, earlier calls
among it, and what it returns may be encoded again.

* `encode_grows` is the frame of one call: it keeps to the allocator.
* `encode_zero_behind` is what the word-sized stores leave behind the text: zeros.
  So a result, unlike an arbitrary string, has nothing behind it that could get into
  its encoding.
* `encode_in_sequence` is the law of whole runs of calls and other code: every object
  stays what it was, every result goes on decoding to what was encoded, and encoding
  a result is exactly Base64.
-/

namespace Yes3.Base64

open Yul ByteMemory Rfc4648

variable {m m' : Memory} {data r : ℕ} {bs : Bytes}

/-! ## One call -/

/-- An empty string is allocated, and nothing is written in it. -/
theorem encode_empty (h : Holds m data bs) (hempty : bs.length = 0)
    (hencode : encode m data = .ok (m', r)) : r = freePtr m ∧ Allocates m m' 0 := by
  have hlow := h.low
  have hallocated := h.allocated
  have hbounded := h.bounded
  have hroom : freePtr m + (32 + roundUp ([] : Bytes).length) < 2 ^ 256 := by
    show freePtr m + (32 + 0) < 2 ^ 256
    omega
  have hliteral : encode m data = .ok (literal m []) := by
    simp only [encode, h.length, hempty, if_true]
  obtain ⟨rfl, rfl⟩ := Prod.mk.inj (Except.ok.inj (hliteral.symm.trans hencode))
  exact ⟨rfl, literal_allocates [] (by omega) hroom⟩

/-- A call that succeeds, in its parts: the result is allocated, then the table, and
then everything is written in the result. -/
theorem encode_parts (h : Holds m data bs) (hne : bs.length ≠ 0)
    (hencode : encode m data = .ok (m', r)) :
    r = freePtr m ∧ encodedLength bs.length + 32 < 2 ^ 64 ∧ ∃ m₀,
      (newBytes m (encodedLength bs.length + 32) : Except (Revert Empty) _) = .ok (m₀, freePtr m) ∧
      Allocates m m₀ (encodedLength bs.length + 32) ∧
      m' = mstore (padResult bs.length (encodeLoop data (add (freePtr m₀) 1) bs.length h.length_lt
        ⟨(literal m₀ TABLE).1, 0, add (freePtr m) 32⟩)) (freePtr m) (encodedLength bs.length) := by
  by_cases hroom : encodedLength bs.length + 32 < 2 ^ 64
  · obtain ⟨m₀, hnew, hresult, heq⟩ := encode_allocates h hne hroom
    obtain ⟨rfl, rfl⟩ := Prod.mk.inj (Except.ok.inj (heq.symm.trans hencode))
    exact ⟨rfl, hroom, m₀, hnew, hresult, rfl⟩
  · rw [encode_refused h hne hroom] at hencode
    cases hencode

/-- Outside the result the call leaves the memory as the two allocations left it. -/
theorem encode_outside (h : Holds m data bs) (hne : bs.length ≠ 0)
    (hencode : encode m data = .ok (m', r)) :
    ∃ m₀, Allocates m m₀ (encodedLength bs.length + 32) ∧
      ∀ a, a < freePtr m ∨ freePtr m + encodedLength bs.length + 64 ≤ a →
        m' a = (literal m₀ TABLE).1 a := by
  obtain ⟨_, hroom, m₀, _, hresult, hm'⟩ := encode_parts h hne hencode
  obtain ⟨hready, _, _⟩ := ready_of_allocates h hroom hresult
  have hwithin := encodeStores_within hready h.length_lt
  refine ⟨m₀, hresult, ?_⟩
  intro a ha
  rw [hm', ← replay_encodeStores]
  exact replay_frame hwithin ha

/-- Where the free memory begins after the call: behind the result and the table. -/
theorem freePtr_encode (h : Holds m data bs) (hne : bs.length ≠ 0)
    (hencode : encode m data = .ok (m', r)) :
    freePtr m' = freePtr m + (32 + roundUp (encodedLength bs.length + 32)) + 96 := by
  have hlow := h.low
  have hallocated := h.allocated
  have hbounded := h.bounded
  obtain ⟨_, hroom, _⟩ := encode_parts h hne hencode
  obtain ⟨m₀, hresult, houtside⟩ := encode_outside h hne hencode
  have hnext := hresult.next
  have hup := roundUp_lt (encodedLength bs.length + 32)
  have htable := literal_allocates TABLE (m := m₀) (by omega) (by
    rw [length_table]
    have := roundUp_lt 64
    omega)
  have hsame : freePtr m' = freePtr (literal m₀ TABLE).1 :=
    value_congr fun i hi => houtside _ (Or.inl (by omega))
  rw [hsame, htable.next, hnext, length_table]
  rfl

/-- A call keeps to the allocator. -/
theorem encode_grows (h : Holds m data bs) (hencode : encode m data = .ok (m', r))
    (hgas : freePtr m' < 2 ^ 64) : Grows m m' := by
  by_cases hne : bs.length = 0
  · obtain ⟨_, hempty⟩ := encode_empty h hne hencode
    have hnext := hempty.next
    exact ⟨fun a hlow ha => hempty.old a ha (not_atFreePtr hlow), by omega, hgas⟩
  · obtain ⟨_, hroom, _⟩ := encode_parts h hne hencode
    obtain ⟨m₀, hresult, houtside⟩ := encode_outside h hne hencode
    have hnext := freePtr_encode h hne hencode
    have hintact := intact_of_outside h hroom hresult houtside
    exact ⟨fun a hlow ha => hintact.allocated a ha (not_atFreePtr hlow), by omega, hgas⟩

/-- The result is where the free memory was, and lies in the allocated memory. -/
theorem encode_place (h : Holds m data bs) (hencode : encode m data = .ok (m', r)) :
    r = freePtr m ∧ r + 32 + encodedLength bs.length ≤ freePtr m' ∧
      (bs.length ≠ 0 → r + 32 + encodedLength bs.length < freePtr m') := by
  by_cases hne : bs.length = 0
  · obtain ⟨rfl, hempty⟩ := encode_empty h hne hencode
    have hnext := hempty.next
    refine ⟨rfl, ?_, fun hpos => absurd hne hpos⟩
    rw [hne]
    unfold encodedLength
    omega
  · obtain ⟨rfl, _⟩ := encode_parts h hne hencode
    have hnext := freePtr_encode h hne hencode
    have hup := le_roundUp (encodedLength bs.length + 32)
    exact ⟨rfl, by omega, fun _ => by omega⟩

/-- A call for which there is room succeeds. -/
theorem encode_succeeds (h : Holds m data bs) (hroom : encodedLength bs.length + 32 < 2 ^ 64) :
    ∃ m', encode m data = .ok (m', freePtr m) := by
  have hread := (encoded_eq h).trans (if_pos hroom)
  obtain ⟨⟨m', r⟩, hencode, _⟩ := of_bind_ok hread
  obtain ⟨rfl, _⟩ := encode_place h hencode
  exact ⟨m', hencode⟩

/-- What the call returns is an object that the allocator knows. -/
theorem encode_holds (h : Holds m data bs) (hencode : encode m data = .ok (m', r))
    (hgas : freePtr m' < 2 ^ 64) :
    Holds m' r (encodeWith symbol equalsSign (strayByte m data bs.length) bs) := by
  have hlow := h.low
  have hallocated := h.allocated
  obtain ⟨hptr, hplace, _⟩ := encode_place h hencode
  have hread : encoded m data = .ok (bytesAt m' r) := by
    rw [encoded, bind_of_ok hencode]
    rfl
  refine ⟨?_, by omega, ?_, hgas⟩
  · rw [encoded_eq h] at hread
    split at hread
    · exact (Except.ok.inj hread).symm
    · cases hread
  · rw [length_encodeWith]
    exact hplace

/-! ## Behind the text -/

/-- A word that was shifted by whole bytes ends with zeros. -/
theorem byte_shl_eq_zero {j t : ℕ} (x : ℕ) (hj : j ≤ 32) (ht : t < 32) (hlow : 32 ≤ t + j) :
    UInt8.ofNat (shl (8 * j) x / 256 ^ (31 - t)) = 0 := by
  have hpow : (2 : ℕ) ^ (8 * j) = 256 ^ j := Nat.pow_mul 2 8 j
  have hdvd : 256 ^ j ∣ shl (8 * j) x := by
    rw [shl_eq, hpow]
    have hword : 256 ^ j ∣ 2 ^ 256 := by
      rw [← hpow]
      exact Nat.pow_dvd_pow 2 (by omega)
    exact (Nat.dvd_mod_iff hword).mpr (Nat.dvd_mul_left _ _)
  have hsplit : (256 : ℕ) ^ j = 256 ^ (31 - t) * 256 * 256 ^ (t + j - 32) := by
    rw [← Nat.pow_succ, ← Nat.pow_add]
    congr 1
    omega
  obtain ⟨y, hy⟩ := hdvd
  have hbyte : shl (8 * j) x / 256 ^ (31 - t) = 256 * (256 ^ (t + j - 32) * y) := by
    rw [hy, hsplit, Nat.mul_assoc, Nat.mul_assoc]
    exact Nat.mul_div_cancel_left _ (Nat.pow_pos (by omega))
  rw [hbyte, ← UInt8.toNat_inj, UInt8.toNat_ofNat']
  exact Nat.mul_mod_right 256 _

/-- The word that a pass stores has four bytes of text. -/
theorem encodeGroup_zero {tablePtr t : ℕ} (s : Loop) (ht : 4 ≤ t) (ht' : t < 32) :
    (encodeGroup data tablePtr s).mem (s.resultPtr + t) = 0 := by
  simp only [encodeGroup]
  rw [mstore_byte ht']
  exact byte_shl_eq_zero (j := 28) _ (by omega) ht' (by omega)

/-- From `a` on the result is zero. -/
def ZeroFrom (len result a : ℕ) (mem : Memory) : Prop :=
  ∀ b, a ≤ b → b < result + encodedLength len + 64 → mem b = 0

variable {len result table k : ℕ} {s : Loop}

/-- A pass moves the zeros behind its four bytes. -/
theorem ZeroFrom.encodeGroup (h : ZeroFrom len result s.resultPtr s.mem) (tablePtr : ℕ) :
    ZeroFrom len result (s.resultPtr + 4) (encodeGroup data tablePtr s).mem := by
  intro b hlo hhi
  by_cases hb : b < s.resultPtr + 32
  · obtain ⟨t, rfl⟩ := Nat.exists_eq_add_of_le (Nat.le_trans (Nat.le_add_right _ 4) hlo)
    exact encodeGroup_zero s (by omega) (by omega)
  · rw [encodeGroup_frame (Or.inr (by omega))]
    exact h b (by omega) hhi

theorem ZeroFrom.encodeLoop (hready : Ready m data len result table) (hlen : len + 2 < 2 ^ 256)
    (hinv : LoopInv m data len result k s) (h : ZeroFrom len result s.resultPtr s.mem) :
    ZeroFrom len result (result + 32 + encodedLength len)
      (encodeLoop data (table + 1) len hlen s).mem := by
  fun_induction Base64.encodeLoop data (table + 1) len hlen s generalizing k with
  | case1 s hi ih =>
      have hnext := hinv.encodeGroup hready hi
      refine ih hnext ?_
      have hptr := hinv.resultPtr
      have hptr' := hnext.resultPtr
      have hmove : (Base64.encodeGroup data (table + 1) s).resultPtr = s.resultPtr + 4 := by omega
      rw [hmove]
      exact h.encodeGroup (table + 1)
  | case2 s hi =>
      have hindex := hinv.index
      have hpasses := hinv.passes
      have hptr := hinv.resultPtr
      have hk : k = (len + 2) / 3 := by omega
      rw [hptr, hk] at h
      exact h

/-- The signs of padding end where the text ends. -/
theorem ZeroFrom.padResult (hbounded : s.resultPtr < 2 ^ 256) (hpos : 2 ≤ s.resultPtr)
    (h : ZeroFrom len result s.resultPtr s.mem) :
    ZeroFrom len result s.resultPtr (padResult len s) := by
  -- a word with `j` signs, stored so that they end at the end of the text
  have hsigns : ∀ j x, 1 ≤ j → j ≤ 2 →
      ZeroFrom len result s.resultPtr
        (mstore s.mem (sub s.resultPtr j) (shl (8 * (32 - j)) x)) := by
    intro j x hj hj' b hlo hhi
    have hsub : sub s.resultPtr j = s.resultPtr - j := sub_of_le (by omega) hbounded
    rw [hsub]
    by_cases hb : b < s.resultPtr - j + 32
    · obtain ⟨t, rfl⟩ := Nat.exists_eq_add_of_le (show s.resultPtr - j ≤ b by omega)
      rw [mstore_byte (by omega)]
      exact byte_shl_eq_zero x (by omega) (by omega) (by omega)
    · rw [mstore_of_le (by omega)]
      exact h b hlo hhi
  have hlen : len % 3 = 0 ∨ len % 3 = 1 ∨ len % 3 = 2 := by omega
  unfold Base64.padResult
  rcases hlen with hlen | hlen | hlen
  · rw [hlen]
    exact h
  · rw [hlen]
    exact hsigns 2 0x3d3d (by omega) (by omega)
  · rw [hlen]
    exact hsigns 1 0x3d (by omega) (by omega)

/-- Behind the text of a result there is a zero. -/
theorem encode_zero_behind (h : Holds m data bs) (hne : bs.length ≠ 0)
    (hencode : encode m data = .ok (m', r)) : m' (r + 32 + encodedLength bs.length) = 0 := by
  have hlow := h.low
  have hallocated := h.allocated
  have hbounded := h.bounded
  obtain ⟨rfl, hroom, m₀, hnew, hresult, rfl⟩ := encode_parts h hne hencode
  obtain ⟨hready, _, _⟩ := ready_of_allocates h hroom hresult
  have htable : add (freePtr m₀) 1 = freePtr m₀ + 1 := by
    have hbounded' := hready.bounded
    exact add_of_lt (by omega)
  have hstart := loopInv_start hready
  have hend := hstart.encodeLoop hready h.length_lt
  have hptr : _ = freePtr m + 32 + encodedLength bs.length := hend.resultPtr
  -- the result is zero before the first pass
  have hzero : ZeroFrom bs.length (freePtr m) (freePtr m + 32) (literal m₀ TABLE).1 := by
    intro b hlo hhi
    have hnext := hresult.next
    have hup := le_roundUp (encodedLength bs.length + 32)
    have hup' := roundUp_lt (encodedLength bs.length + 32)
    have hkeep := (literal_allocates TABLE (m := m₀) (by omega) (by
      rw [length_table]
      have := roundUp_lt 64
      omega)).old b (by omega) (not_atFreePtr (by omega))
    rw [hkeep]
    exact newBytes_zero (by omega) hnew hlo (by omega)
  have hloop : ZeroFrom bs.length (freePtr m) _ _ :=
    ZeroFrom.encodeLoop hready h.length_lt hstart (by rw [hstart.resultPtr]; exact hzero)
  rw [← hptr] at hloop
  rw [htable, mstore_of_le (by omega), ← hptr]
  refine (hloop.padResult ?_ ?_) _ (Nat.le_refl _) (by omega)
  · omega
  · omega

/-! ## Runs -/

/-- A `bytes` object, and what it is the encoding of, if it is the result of a call. -/
structure Object where
  ptr : ℕ
  bytes : Bytes
  source : Option Bytes := none

/-- Runs of code that shares a memory: calls of `encode` on any of the objects, which
add their results, and other code that keeps to the allocator and may add objects of
its own. No code can pay for a memory of `2 ^ 64` bytes. -/
inductive Run : Memory → List Object → Memory → List Object → Prop where
  | nil (m : Memory) (objects : List Object) : Run m objects m objects
  | encode {m m₁ m' : Memory} {objects objects' : List Object} {o : Object} {r : ℕ}
      (ho : o ∈ objects) (hencode : encode m o.ptr = .ok (m₁, r)) (hgas : freePtr m₁ < 2 ^ 64)
      (rest : Run m₁ (objects ++ [⟨r, bytesAt m₁ r, some o.bytes⟩]) m' objects') :
      Run m objects m' objects'
  | other {m m₁ m' : Memory} {objects objects' new : List Object} (hgrows : Grows m m₁)
      (hnew : ∀ o ∈ new, Holds m₁ o.ptr o.bytes ∧ o.source = none)
      (rest : Run m₁ (objects ++ new) m' objects') : Run m objects m' objects'

/-- The object is there. A result decodes to what was encoded, and if it does not end
with a whole group, a zero follows it. -/
structure Kept (m : Memory) (o : Object) : Prop where
  holds : Holds m o.ptr o.bytes
  decodes : ∀ src, o.source = some src → decodeBase64 o.bytes = some src
  padded : o.source ≠ none → o.bytes.length % 3 ≠ 0 →
    o.ptr + 32 + o.bytes.length < freePtr m ∧ m (o.ptr + 32 + o.bytes.length) = 0

theorem Kept.grows {o : Object} (h : Kept m o) (hgrows : Grows m m') : Kept m' o where
  holds := h.holds.grows hgrows
  decodes := h.decodes
  padded hsource hlen := by
    have hlow := h.holds.low
    have hnext := hgrows.next
    obtain ⟨hlt, hzero⟩ := h.padded hsource hlen
    refine ⟨by omega, ?_⟩
    rw [hgrows.old _ (by omega) hlt, hzero]

/-- A call adds an object that is kept. -/
theorem Kept.encode {o : Object} (h : Kept m o) (hencode : encode m o.ptr = .ok (m', r))
    (hgas : freePtr m' < 2 ^ 64) : Kept m' ⟨r, bytesAt m' r, some o.bytes⟩ := by
  have hholds := encode_holds h.holds hencode hgas
  have htext := hholds.object
  have hlength : (bytesAt m' r).length = encodedLength o.bytes.length := by
    rw [htext]
    exact length_encodeWith _ _
  constructor
  case holds => exact htext ▸ hholds
  case decodes =>
    rintro src ⟨⟩
    rw [htext]
    exact decode_encodeWith symbolValue_symbol symbol_ne_equalsSign _ _
  case padded =>
    intro _ hlen
    have hne : o.bytes.length ≠ 0 := by
      intro hzero
      rw [hlength, hzero] at hlen
      exact hlen rfl
    change r + 32 + (bytesAt m' r).length < freePtr m' ∧ m' (r + 32 + (bytesAt m' r).length) = 0
    rw [hlength]
    exact ⟨(encode_place h.holds hencode).2.2 hne, encode_zero_behind h.holds hne hencode⟩

/-- What is kept is encoded as the standard says, if it is a result. -/
theorem Kept.encoded_eq_base64 {o : Object} (h : Kept m o) (hsource : o.source ≠ none)
    (hroom : encodedLength o.bytes.length + 32 < 2 ^ 64) :
    encoded m o.ptr = .ok (base64 o.bytes) := by
  have hagree : Agree o.bytes.length (strayByte m o.ptr o.bytes.length) 0 := by
    have hzero : o.bytes.length % 3 ≠ 0 → strayByte m o.ptr o.bytes.length = 0 := by
      intro hlen
      rw [strayByte, (h.padded hsource hlen).2, ite_self]
    constructor
    · intro hlen
      rw [hzero (by omega)]
    · intro hlen
      rw [hzero (by omega)]
  rw [encoded_eq h.holds, (encodeWith_eq_iff symbol_injective o.bytes).mpr hagree]
  exact if_pos hroom

/-- Every run keeps the objects. -/
theorem Run.kept {objects objects' : List Object} (hrun : Run m objects m' objects')
    (h : ∀ o ∈ objects, Kept m o) : objects <+: objects' ∧ ∀ o ∈ objects', Kept m' o := by
  induction hrun with
  | nil m objects => exact ⟨List.prefix_rfl, h⟩
  | encode ho hencode hgas rest ih =>
      have hgrows := encode_grows (h _ ho).holds hencode hgas
      obtain ⟨hstill, hkept⟩ := ih fun o' ho' => by
        rcases List.mem_append.mp ho' with hold | hnew
        · exact (h o' hold).grows hgrows
        · rw [List.mem_singleton.mp hnew]
          exact (h _ ho).encode hencode hgas
      exact ⟨(List.prefix_append _ _).trans hstill, hkept⟩
  | other hgrows hnew rest ih =>
      obtain ⟨hstill, hkept⟩ := ih fun o' ho' => by
        rcases List.mem_append.mp ho' with hold | hfresh
        · exact (h o' hold).grows hgrows
        · obtain ⟨hholds, hnone⟩ := hnew o' hfresh
          refine ⟨hholds, ?_, ?_⟩
          · simp [hnone]
          · simp [hnone]
      exact ⟨(List.prefix_append _ _).trans hstill, hkept⟩

/-- **Calls in sequence.** Whatever calls of `encode` are made, on whichever objects,
results of earlier calls among them, and whatever else the code around them does that
keeps to the allocator: in the end every object is what it was, every result decodes
to the bytes that were encoded, and a call on a result returns exactly its Base64. -/
theorem encode_in_sequence {objects objects' : List Object} (hrun : Run m objects m' objects')
    (hheld : ∀ o ∈ objects, Holds m o.ptr o.bytes ∧ o.source = none) :
    objects <+: objects' ∧ ∀ o ∈ objects', Holds m' o.ptr o.bytes ∧
      ∀ src, o.source = some src → decodeBase64 o.bytes = some src ∧
        (encodedLength o.bytes.length + 32 < 2 ^ 64 →
          encoded m' o.ptr = .ok (base64 o.bytes)) := by
  have hstart : ∀ o ∈ objects, Kept m o := by
    intro o ho
    obtain ⟨hholds, hnone⟩ := hheld o ho
    refine ⟨hholds, ?_, ?_⟩
    · simp [hnone]
    · simp [hnone]
  obtain ⟨hstill, hkept⟩ := hrun.kept hstart
  refine ⟨hstill, ?_⟩
  intro o ho
  refine ⟨(hkept o ho).holds, ?_⟩
  intro src hsrc
  have hsource : o.source ≠ none := by
    rw [hsrc]
    exact Option.some_ne_none src
  exact ⟨(hkept o ho).decodes src hsrc, (hkept o ho).encoded_eq_base64 hsource⟩

/-- A byte with something behind it, encoded twice: what was behind it gets into the first
result, but nothing gets into the second. -/
theorem encode_in_sequence_twice :
    ∃ m₁ m₂ s, encode (laidOut [0x61] 0xff) 0x80 = .ok (m₁, 0xc0) ∧
      encode m₁ 0xc0 = .ok (m₂, 0x180) ∧ bytesAt m₂ 0xc0 = s ∧ s ≠ base64 [0x61] ∧
      decodeBase64 s = some [0x61] ∧ encoded m₂ 0xc0 = .ok (base64 s) ∧
      decodeBase64 (bytesAt m₂ 0x180) = some s := by
  have hholds : Holds (laidOut [0x61] 0xff) 0x80 [0x61] := holds_laidOut 0xff (by decide)
  have hfree : freePtr (laidOut [0x61] 0xff) = 0xc0 := by decide +kernel
  obtain ⟨m₁, hfirst⟩ := encode_succeeds hholds (by decide)
  rw [hfree] at hfirst
  have hfree₁ : freePtr m₁ = 0x180 := by
    rw [freePtr_encode hholds (by decide) hfirst, hfree]
    decide
  have hgas₁ : freePtr m₁ < 2 ^ 64 := by omega
  have hholds₁ := encode_holds hholds hfirst hgas₁
  have hstray : encodeWith symbol equalsSign
      (strayByte (laidOut [0x61] 0xff) 0x80 [(0x61 : UInt8)].length) [0x61]
        = [0x59, 0x66, 0x3d, 0x3d] := by decide +kernel
  rw [hstray] at hholds₁
  obtain ⟨m₂, hsecond⟩ := encode_succeeds hholds₁ (by decide)
  rw [hfree₁] at hsecond
  have hfree₂ : freePtr m₂ = 0x240 := by
    rw [freePtr_encode hholds₁ (by decide) hsecond, hfree₁]
    decide
  have hgas₂ : freePtr m₂ < 2 ^ 64 := by omega
  have hrun : Run (laidOut [0x61] 0xff) [⟨0x80, [0x61], none⟩] m₂
      [⟨0x80, [0x61], none⟩, ⟨0xc0, bytesAt m₁ 0xc0, some [0x61]⟩,
        ⟨0x180, bytesAt m₂ 0x180, some (bytesAt m₁ 0xc0)⟩] := by
    refine .encode (o := ⟨0x80, [0x61], none⟩) (by simp) hfirst hgas₁ ?_
    refine .encode (o := ⟨0xc0, bytesAt m₁ 0xc0, some [0x61]⟩) (by simp) hsecond hgas₂ ?_
    exact .nil _ _
  obtain ⟨_, hend⟩ := encode_in_sequence hrun (by simp [hholds])
  have htext : bytesAt m₁ 0xc0 = [0x59, 0x66, 0x3d, 0x3d] := hholds₁.object
  rw [htext] at hend
  obtain ⟨hkept₁, hdecodes₁⟩ := hend ⟨0xc0, [0x59, 0x66, 0x3d, 0x3d], some [0x61]⟩ (by simp)
  obtain ⟨_, hdecodes₂⟩ :=
    hend ⟨0x180, bytesAt m₂ 0x180, some [0x59, 0x66, 0x3d, 0x3d]⟩ (by simp)
  obtain ⟨hdecode, hencoded⟩ := hdecodes₁ [0x61] rfl
  exact ⟨m₁, m₂, _, hfirst, hsecond, hkept₁.object, by decide, hdecode, hencoded (by decide),
    (hdecodes₂ _ rfl).1⟩

end Yes3.Base64
