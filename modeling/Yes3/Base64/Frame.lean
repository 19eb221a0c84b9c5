import Yes3.Base64.Correct

/-!
# Yes3.Base64.Frame — what the assembly writes

Every store of the assembly is a whole word, and each one but the last runs past
the text it is for. Here the stores are written down in order (`encodeStores`)
and carried out again: they leave the memory that `encode` leaves, and none of
them leaves the result object, which has a word more than the text needs. So all
other memory keeps its content from the first store to the last
(`encode_writes_result`).
-/

namespace Yes3.Base64

open Yul ByteMemory

/-- `encodedLen`. -/
def encodedLength (n : ℕ) : ℕ := 4 * ((n + 2) / 3)

/-- The one store of a pass. -/
def groupStore (data tablePtr : ℕ) (s : Loop) : Store :=
  wordStore s.resultPtr (mload (encodeGroup data tablePtr s).mem s.resultPtr)

/-- The stores of the loop. -/
def loopStores (data tablePtr len : ℕ) (hlen : len + 2 < 2 ^ 256) (s : Loop) : List Store :=
  if s.i < len then
    groupStore data tablePtr s :: loopStores data tablePtr len hlen (encodeGroup data tablePtr s)
  else
    []
termination_by len - s.i
decreasing_by
  have hi : (encodeGroup data tablePtr s).i = s.i + 3 := add_of_lt (by omega)
  omega

/-- The stores of the `switch`. -/
def padStores (len : ℕ) (s : Loop) : List Store :=
  match len % 3 with
  | 1 => [wordStore (sub s.resultPtr 2) (shl 240 0x3d3d)]
  | 2 => [wordStore (sub s.resultPtr 1) (shl 248 0x3d)]
  | _ => []

/-- The stores of the assembly, which it makes in the memory `m`. The last one is
the length of the result. -/
def encodeStores (m : Memory) (data result table len : ℕ) (hlen : len + 2 < 2 ^ 256) :
    List Store :=
  let s : Loop := ⟨m, 0, add result 32⟩
  loopStores data (add table 1) len hlen s
    ++ padStores len (encodeLoop data (add table 1) len hlen s)
    ++ [wordStore result (encodedLength len)]

/-! ## The stores leave the memory of `encode` -/

/-- The words of the loop fit in a word. -/
theorem encodeGroup_mem (data tablePtr : ℕ) (s : Loop) (ws : List Store) :
    replay s.mem (groupStore data tablePtr s :: ws)
      = replay (encodeGroup data tablePtr s).mem ws := by
  have hout : ∀ out, mload (mstore s.mem s.resultPtr (shl 224 out)) s.resultPtr = shl 224 out :=
    fun out => mload_mstore s.mem s.resultPtr (shl_lt 224 out)
  rw [groupStore, replay_wordStore]
  simp only [encodeGroup, hout]

theorem replay_loopStores (data tablePtr len : ℕ) (hlen : len + 2 < 2 ^ 256) (s : Loop) :
    replay s.mem (loopStores data tablePtr len hlen s)
      = (encodeLoop data tablePtr len hlen s).mem := by
  fun_induction loopStores data tablePtr len hlen s with
  | case1 s hi ih =>
      rw [encodeGroup_mem, ih, encodeLoop.eq_def data tablePtr len hlen s, if_pos hi]
  | case2 s hi =>
      rw [encodeLoop, if_neg hi]
      rfl

theorem replay_padStores (len : ℕ) (s : Loop) :
    replay s.mem (padStores len s) = padResult len s := by
  have hlen : len % 3 = 0 ∨ len % 3 = 1 ∨ len % 3 = 2 := by omega
  rcases hlen with hlen | hlen | hlen
  · simp only [padStores, padResult, hlen, replay_nil]
  · simp only [padStores, padResult, hlen, replay_wordStore, replay_nil]
  · simp only [padStores, padResult, hlen, replay_wordStore, replay_nil]

theorem replay_encodeStores (m : Memory) (data result table len : ℕ)
    (hlen : len + 2 < 2 ^ 256) :
    replay m (encodeStores m data result table len hlen)
      = mstore (padResult len (encodeLoop data (add table 1) len hlen ⟨m, 0, add result 32⟩))
          result (encodedLength len) := by
  have hloop := replay_loopStores data (add table 1) len hlen ⟨m, 0, add result 32⟩
  rw [encodeStores, replay_append, replay_append, hloop, replay_padStores]
  rfl

/-! ## The stores stay in the result object -/

variable {m : Memory} {data len result table k : ℕ} {s : Loop}

/-- A pass begins its word in the text, at least four bytes before its end. -/
theorem loopStores_within (hready : Ready m data len result table) (hlen : len + 2 < 2 ^ 256)
    (h : LoopInv m data len result k s) :
    ∀ w ∈ loopStores data (table + 1) len hlen s,
      w.Within result (result + encodedLength len + 64) := by
  fun_induction loopStores data (table + 1) len hlen s generalizing k with
  | case1 s hi ih =>
      intro w hw
      rcases List.mem_cons.mp hw with rfl | hw
      · have hindex := h.index
        have hptr := h.resultPtr
        have hlast : 4 * k + 4 ≤ encodedLength len := by
          unfold encodedLength
          omega
        exact within_wordStore (by omega) (by omega)
      · exact ih (h.encodeGroup hready hi) w hw
  | case2 s hi =>
      intro w hw
      cases hw

/-- The padding begins its word one or two bytes before the end of the text. -/
theorem padStores_within (hready : Ready m data len result table)
    (h : LoopInv m data len result ((len + 2) / 3) s) :
    ∀ w ∈ padStores len s, w.Within result (result + encodedLength len + 64) := by
  have hroom := hready.room
  have hbounded := hready.bounded
  have hptr : s.resultPtr = result + 32 + encodedLength len := h.resultPtr
  have hback : ∀ j word, j ≤ 2 →
      (wordStore (sub s.resultPtr j) word).Within result (result + encodedLength len + 64) := by
    intro j word hj
    have hsub : sub s.resultPtr j = s.resultPtr - j := by
      unfold encodedLength at hptr
      exact sub_of_le (by omega) (by omega)
    rw [hsub]
    exact within_wordStore (by omega) (by omega)
  intro w hw
  unfold padStores at hw
  split at hw
  · rw [List.mem_singleton.mp hw]
    exact hback 2 _ (by omega)
  · rw [List.mem_singleton.mp hw]
    exact hback 1 _ (by omega)
  · cases hw

/-- No store of the assembly leaves the object. -/
theorem encodeStores_within (hready : Ready m data len result table)
    (hlen : len + 2 < 2 ^ 256) :
    ∀ w ∈ encodeStores m data result table len hlen,
      w.Within result (result + encodedLength len + 64) := by
  have htable : add table 1 = table + 1 := by
    have hbounded := hready.bounded
    exact add_of_lt (by omega)
  have hstart := loopInv_start hready
  intro w hw
  simp only [encodeStores, htable, List.mem_append, List.mem_singleton] at hw
  rcases hw with (hw | hw) | rfl
  · exact loopStores_within hready hlen hstart w hw
  · exact padStores_within hready (hstart.encodeLoop hready hlen) w hw
  · exact within_wordStore (Nat.le_refl result) (by omega)

/-! ## The call -/

/-- A memory `m'` between two stores of a call made in `m` on `bs`, whose assembly
starts in `m₁`. Only the result object may have changed. -/
structure Intact (m m₁ m' : Memory) (data table : ℕ) (bs : Bytes) : Prop where
  outside : ∀ a, a < freePtr m ∨ freePtr m + encodedLength bs.length + 64 ≤ a → m' a = m₁ a
  /-- All that was allocated before the call is as it was then. -/
  allocated : ∀ a < freePtr m, ¬ AtFreePtr a → m' a = m a
  data : bytesAt m' data = bs
  table : bytesAt m' table = TABLE

/-- What leaves the rest of the memory alone leaves it intact. -/
theorem intact_of_outside {m₀ m' : Memory} {bs : Bytes} (h : Holds m data bs)
    (hroom : encodedLength bs.length + 32 < 2 ^ 64)
    (hresult : Allocates m m₀ (encodedLength bs.length + 32))
    (houtside : ∀ a, a < freePtr m ∨ freePtr m + encodedLength bs.length + 64 ≤ a →
      m' a = (literal m₀ TABLE).1 a) :
    Intact m (literal m₀ TABLE).1 m' data (freePtr m₀) bs := by
  have hlow := h.low
  have hallocated := h.allocated
  have hbounded := h.bounded
  have hnext := hresult.next
  have hup := le_roundUp (encodedLength bs.length + 32)
  have hup' := roundUp_lt (encodedLength bs.length + 32)
  have hlow' : 0x60 ≤ freePtr m₀ := by omega
  have hhigh' : freePtr m₀ + (32 + roundUp TABLE.length) < 2 ^ 256 := by
    rw [length_table]
    have htable := roundUp_lt 64
    omega
  -- the two allocations before the assembly only move the free memory pointer
  have hkeep : ∀ a < freePtr m, ¬ AtFreePtr a → m' a = m a := by
    intro a ha hfree
    rw [houtside a (Or.inl ha), (literal_allocates TABLE hlow' hhigh').old a (by omega) hfree]
    exact hresult.old a ha hfree
  have htable : bytesAt m' (freePtr m₀) = bytesAt (literal m₀ TABLE).1 (freePtr m₀) :=
    bytesAt_congr fun a ha _ => houtside a (Or.inr (by omega))
  exact ⟨houtside, hkeep, h.bytesAt_eq fun a hlow ha => hkeep a ha (not_atFreePtr hlow),
    htable.trans (bytesAt_literal TABLE hlow' hhigh')⟩

/-- All that the assembly writes is in the object `new bytes(encodedLen + 32)`, so
the rest of the memory is intact after every store. At the end the length word is
that of the text. -/
theorem encode_writes_result {bs : Bytes} (h : Holds m data bs) (hne : bs ≠ []) :
    (encodedLength bs.length + 32 < 2 ^ 64 →
      ∃ m₀ m₁ table ws, (newBytes m (encodedLength bs.length + 32) : Except (Revert Empty) _)
          = .ok (m₀, freePtr m) ∧
        literal m₀ TABLE = (m₁, table) ∧
        ws = encodeStores m₁ data (freePtr m) table bs.length h.length_lt ∧
        encode m data = .ok (replay m₁ ws, freePtr m) ∧
        (∀ w ∈ ws, w.Within (freePtr m) (freePtr m + encodedLength bs.length + 64)) ∧
        (∀ done, done <+: ws → Intact m m₁ (replay m₁ done) data table bs) ∧
        mload (replay m₁ ws) (freePtr m) = encodedLength bs.length) ∧
    (¬ encodedLength bs.length + 32 < 2 ^ 64 → encode m data = .error (.panic 0x41)) := by
  have hlen : bs.length ≠ 0 := fun hzero => hne (List.eq_nil_of_length_eq_zero hzero)
  refine ⟨?_, encode_refused h hlen⟩
  intro hroom
  obtain ⟨m₀, hnew, hresult, hencode⟩ := encode_allocates h hlen hroom
  obtain ⟨hready, _, _⟩ := ready_of_allocates h hroom hresult
  have hwithin := encodeStores_within hready h.length_lt
  have hreplay := replay_encodeStores (literal m₀ TABLE).1 data (freePtr m) (freePtr m₀)
    bs.length h.length_lt
  refine ⟨m₀, _, _, _, hnew, rfl, rfl,
    hencode.trans (congrArg (fun m' => Except.ok (m', freePtr m)) hreplay.symm), hwithin, ?_, ?_⟩
  · intro done hdone
    apply intact_of_outside h hroom hresult
    intro a ha
    -- the stores made so far are some of the stores
    exact replay_frame (fun w hw => hwithin w (hdone.subset hw)) ha
  · have hsize : encodedLength bs.length < 2 ^ 256 := by omega
    exact (congrArg (mload · (freePtr m)) hreplay).trans (mload_mstore _ _ hsize)

/-- One byte: the three stores stay in the 68 bytes of the object. -/
theorem encode_writes_result_one_byte :
    ∃ m₁ ws, encode (laidOut [0x61] 0xff) 0x80 = .ok (replay m₁ ws, 0xc0) ∧
      (∀ w ∈ ws, w.Within 0xc0 (0xc0 + 68)) ∧ mload (replay m₁ ws) 0xc0 = 4 := by
  have hfree : freePtr (laidOut [0x61] 0xff) = 0xc0 := by decide +kernel
  have hholds : Holds (laidOut [0x61] 0xff) 0x80 [0x61] := holds_laidOut 0xff (by decide)
  have hresult := (encode_writes_result hholds (by decide)).1 (by decide)
  rw [hfree] at hresult
  obtain ⟨_, m₁, _, ws, _, _, _, hencode, hwithin, _, hlength⟩ := hresult
  exact ⟨m₁, ws, hencode, hwithin, hlength⟩

end Yes3.Base64
