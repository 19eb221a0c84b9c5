import Yes3.Evm
import Yes3.Rules.ByteMemory

/-!
# Yes3.Memory — the memory of a call

The instructions of inline assembly that the contracts use, on words that are
natural numbers below `2 ^ 256`, and the way Solidity lays memory out: the word
at `0x40` points behind the last allocated object, and a `bytes` object is its
length, one word, and then its bytes.
-/

namespace Yes3

/-! ## Words -/

namespace Yul

def add (x y : ℕ) : ℕ := (x + y) % 2 ^ 256

def sub (x y : ℕ) : ℕ := (x + (2 ^ 256 - y)) % 2 ^ 256

protected def and (x y : ℕ) : ℕ := x &&& y

/-- `shl(bits, x)`. -/
def shl (bits x : ℕ) : ℕ := (x <<< bits) % 2 ^ 256

/-- `shr(bits, x)`. -/
def shr (bits x : ℕ) : ℕ := x >>> bits

theorem add_of_lt {x y : ℕ} (h : x + y < 2 ^ 256) : add x y = x + y :=
  Nat.mod_eq_of_lt h

theorem sub_of_le {x y : ℕ} (h : y ≤ x) (hx : x < 2 ^ 256) : sub x y = x - y := by
  unfold sub
  omega

/-- A mask of the low bits is a remainder. -/
theorem and_mask (x k : ℕ) : Yul.and x (2 ^ k - 1) = x % 2 ^ k :=
  Nat.and_two_pow_sub_one_eq_mod x k

theorem shl_eq (bits x : ℕ) : shl bits x = x * 2 ^ bits % 2 ^ 256 := by
  rw [shl, Nat.shiftLeft_eq]

theorem shl_lt (bits x : ℕ) : shl bits x < 2 ^ 256 := by
  rw [shl_eq]
  exact Nat.mod_lt _ (by decide)

theorem shr_eq (bits x : ℕ) : shr bits x = x / 2 ^ bits :=
  Nat.shiftRight_eq_div_pow x bits

end Yul

/-! ## Loads and stores -/

abbrev Memory := ByteMemory

/-- `mload(p)`: the 32 bytes from `p` on. -/
def mload (m : Memory) (p : ℕ) : ℕ := ByteMemory.value m p 32

/-- `mstore(p, w)`. -/
def mstore (m : Memory) (p w : ℕ) : Memory := ByteMemory.write m p (ByteMemory.digits 32 w)

/-- The store of an `mstore`. -/
def wordStore (p w : ℕ) : ByteMemory.Store := ⟨p, ByteMemory.digits 32 w⟩

variable {m m' : Memory} {p q a i n w : ℕ} {bs : Bytes} {ε : Type}

@[simp] theorem replay_wordStore (m : Memory) (p w : ℕ) (ws : List ByteMemory.Store) :
    ByteMemory.replay m (wordStore p w :: ws) = ByteMemory.replay (mstore m p w) ws := rfl

theorem within_wordStore {lo hi : ℕ} (hlo : lo ≤ p) (hhi : p + 32 ≤ hi) :
    (wordStore p w).Within lo hi :=
  ⟨hlo, by rwa [wordStore, ByteMemory.length_digits]⟩

theorem mstore_of_lt (h : a < p) : mstore m p w a = m a :=
  ByteMemory.write_of_lt h

theorem mstore_of_le (h : p + 32 ≤ a) : mstore m p w a = m a :=
  ByteMemory.write_of_le h

/-- A byte of a stored word. -/
theorem mstore_byte (h : i < 32) :
    mstore m p w (p + i) = UInt8.ofNat (w / 256 ^ (31 - i)) :=
  ByteMemory.write_digits h

theorem mload_mstore (m : Memory) (p : ℕ) (h : w < 2 ^ 256) : mload (mstore m p w) p = w := by
  have hload : mload (mstore m p w) p = w % 256 ^ 32 := ByteMemory.value_digits m p 32 w
  rw [hload]
  exact Nat.mod_eq_of_lt h

theorem mload_mstore_of_disjoint (h : q + 32 ≤ p ∨ p + 32 ≤ q) :
    mload (mstore m p w) q = mload m q :=
  ByteMemory.value_write_of_disjoint h

theorem mstore_comm {v : ℕ} (h : p + 32 ≤ q ∨ q + 32 ≤ p) :
    mstore (mstore m p v) q w = mstore (mstore m q w) p v :=
  ByteMemory.write_comm h

/-- The first byte of a small number. -/
theorem first_byte_of_mload_lt (h : mload m p < 2 ^ 248) : m p = 0 := by
  have hsplit : mload m p = ByteMemory.value m p 1 * 256 ^ 31 + ByteMemory.value m (p + 1) 31 :=
    ByteMemory.value_add m p 1 31
  have hone : ByteMemory.value m p 1 = (m p).toNat := by
    simp [ByteMemory.value]
  have hzero : (m p).toNat = 0 := by
    omega
  exact UInt8.toNat_inj.mp hzero

/-! ## The allocator -/

/-- The free memory pointer. -/
def freePtr (m : Memory) : ℕ := mload m 0x40

/-- `n` rounded up to whole words. -/
def roundUp (n : ℕ) : ℕ := (n + 31) / 32 * 32

theorem le_roundUp (n : ℕ) : n ≤ roundUp n := by
  unfold roundUp
  omega

theorem roundUp_lt (n : ℕ) : roundUp n < n + 32 := by
  unfold roundUp
  omega

/-- The memory with `size` bytes behind `p` taken. -/
def finalizeAllocation (m : Memory) (p size : ℕ) : Memory := mstore m 0x40 (Yul.add p size)

/-- `new bytes(n)`: the object at the free memory pointer, its bytes zero. A length
that does not fit in 64 bits is refused. -/
def newBytes (m : Memory) (n : ℕ) : Except (Revert ε) (Memory × ℕ) :=
  if n < 2 ^ 64 then
    let p := freePtr m
    let m := mstore m p n
    let m := finalizeAllocation m p (32 + roundUp n)
    .ok (ByteMemory.write m (Yul.add p 32) (List.replicate n 0), p)
  else
    .error (.panic 0x41)

/-- A literal copied to memory. -/
def literal (m : Memory) (bs : Bytes) : Memory × ℕ :=
  let p := freePtr m
  let m := finalizeAllocation m p (32 + roundUp bs.length)
  let m := mstore m p bs.length
  (ByteMemory.write m (Yul.add p 32) bs, p)

/-- The `bytes` object at `p`. -/
def bytesAt (m : Memory) (p : ℕ) : Bytes := ByteMemory.read m (p + 32) (mload m p)

/-- An object is read from its own bytes only. -/
theorem bytesAt_congr (h : ∀ a, p ≤ a → a < p + 32 + mload m p → m' a = m a) :
    bytesAt m' p = bytesAt m p := by
  have hlength : mload m' p = mload m p :=
    ByteMemory.value_congr fun i hi => h (p + i) (by omega) (by omega)
  rw [bytesAt, bytesAt, hlength]
  exact ByteMemory.read_congr fun i hi => h (p + 32 + i) (by omega) (by omega)

/-- `bs` is the `bytes` object at `p`, in the allocated part of memory. Allocation
starts at `0x80`; the word at `0x60` serves every empty object. No call can pay for
a memory of `2 ^ 64` bytes. -/
structure Holds (m : Memory) (p : ℕ) (bs : Bytes) : Prop where
  object : bytesAt m p = bs
  low : 0x60 ≤ p
  allocated : p + 32 + bs.length ≤ freePtr m
  bounded : freePtr m < 2 ^ 64

theorem Holds.length (h : Holds m p bs) : mload m p = bs.length := by
  rw [← h.object, bytesAt, ByteMemory.length_read]

theorem Holds.byte (h : Holds m p bs) (hi : i < bs.length) : m (p + 32 + i) = bs[i] := by
  have hread : ByteMemory.read m (p + 32) bs.length = bs := by
    rw [← h.length]
    exact h.object
  exact ByteMemory.read_eq_iff.mp hread i hi

/-- No allocated object has a length near the end of the words. -/
theorem Holds.length_lt (h : Holds m p bs) : bs.length + 2 < 2 ^ 256 := by
  have hallocated := h.allocated
  have hbounded := h.bounded
  omega

/-- A memory with `bs` at the start of the allocated part, and `stray` in every byte
that is neither its own nor part of the free memory pointer. -/
def laidOut (bs : Bytes) (stray : UInt8) : Memory :=
  mstore (ByteMemory.write (mstore (fun _ => stray) 0x80 bs.length) 0xa0 bs) 0x40
    (0xa0 + roundUp bs.length)

/-- Any byte string has a place in memory, whatever follows it. -/
theorem holds_laidOut (stray : UInt8) (hlen : bs.length < 2 ^ 64 - 256) :
    Holds (laidOut bs stray) 0x80 bs := by
  have hup := le_roundUp bs.length
  have hup' := roundUp_lt bs.length
  have hfree : freePtr (laidOut bs stray) = 0xa0 + roundUp bs.length :=
    mload_mstore _ _ (by omega)
  have hlength : mload (laidOut bs stray) 0x80 = bs.length := by
    rw [laidOut, mload_mstore_of_disjoint (Or.inr (by omega)), mload,
      ByteMemory.value_write_of_disjoint (Or.inl (by omega))]
    exact mload_mstore _ _ (by omega)
  refine ⟨?_, by omega, by omega, by omega⟩
  rw [bytesAt, hlength, ByteMemory.read_eq_iff]
  intro i hi
  rw [laidOut, mstore_of_le (by omega)]
  exact ByteMemory.write_of_mem hi

/-- The byte behind it. -/
theorem laidOut_stray (bs : Bytes) (stray : UInt8) :
    laidOut bs stray (0x80 + 32 + bs.length) = stray := by
  rw [laidOut, mstore_of_le (by omega), ByteMemory.write_of_le (by omega),
    mstore_of_le (by omega)]

/-- The word of the free memory pointer. -/
def AtFreePtr (a : ℕ) : Prop := 0x40 ≤ a ∧ a < 0x60

/-- Objects lie above it. -/
theorem not_atFreePtr (h : 0x60 ≤ a) : ¬ AtFreePtr a :=
  fun hfree => absurd hfree.2 (Nat.not_lt.mpr h)

/-- An object is there as long as the allocated memory is. -/
theorem Holds.bytesAt_eq (h : Holds m p bs)
    (hkeep : ∀ a, 0x60 ≤ a → a < freePtr m → m' a = m a) : bytesAt m' p = bs := by
  have hlow := h.low
  have hallocated := h.allocated
  rw [← h.object]
  apply bytesAt_congr
  intro a ha ha'
  rw [h.length] at ha'
  exact hkeep a (by omega) (by omega)

/-- What an allocation of `n` bytes leaves behind: an object of that length where the
free memory was, and the allocated memory as it was. -/
structure Allocates (m m' : Memory) (n : ℕ) : Prop where
  length : mload m' (freePtr m) = n
  next : freePtr m' = freePtr m + (32 + roundUp n)
  old : ∀ a < freePtr m, ¬ AtFreePtr a → m' a = m a

/-- A write behind the length of a fresh object does not spoil the allocation. -/
theorem Allocates.write (h : Allocates m m' n) (bs : Bytes) (hlow : 0x60 ≤ freePtr m) :
    Allocates m (ByteMemory.write m' (freePtr m + 32) bs) n where
  length := by
    rw [← h.length]
    exact ByteMemory.value_write_of_disjoint (Or.inl (Nat.le_refl _))
  next := by
    rw [← h.next]
    exact ByteMemory.value_write_of_disjoint (Or.inl (by omega))
  old a ha hfree := by
    rw [ByteMemory.write_of_lt (by omega)]
    exact h.old a ha hfree

/-- The two stores of an allocation, the pointer first. -/
theorem allocates_pointer_first (hlow : 0x60 ≤ freePtr m)
    (hhigh : freePtr m + (32 + roundUp n) < 2 ^ 256) :
    Allocates m (mstore (finalizeAllocation m (freePtr m) (32 + roundUp n)) (freePtr m) n) n where
  length := by
    have hn : n ≤ roundUp n := le_roundUp n
    exact mload_mstore _ _ (by omega)
  next := by
    have hkeep : freePtr (mstore (finalizeAllocation m (freePtr m) (32 + roundUp n)) (freePtr m) n)
        = freePtr (finalizeAllocation m (freePtr m) (32 + roundUp n)) :=
      mload_mstore_of_disjoint (Or.inl (by omega))
    rw [hkeep, ← Yul.add_of_lt hhigh]
    exact mload_mstore _ _ (Nat.mod_lt _ (by decide))
  old a ha hfree := by
    rw [mstore_of_lt ha]
    unfold AtFreePtr at hfree
    rcases Nat.lt_or_ge a 0x40 with hlt | hge
    · exact mstore_of_lt hlt
    · exact mstore_of_le (by omega)

/-- The length first. -/
theorem allocates_length_first (hlow : 0x60 ≤ freePtr m)
    (hhigh : freePtr m + (32 + roundUp n) < 2 ^ 256) :
    Allocates m (finalizeAllocation (mstore m (freePtr m) n) (freePtr m) (32 + roundUp n)) n := by
  have hcomm : finalizeAllocation (mstore m (freePtr m) n) (freePtr m) (32 + roundUp n)
      = mstore (finalizeAllocation m (freePtr m) (32 + roundUp n)) (freePtr m) n :=
    mstore_comm (Or.inr hlow)
  rw [hcomm]
  exact allocates_pointer_first hlow hhigh

/-- `new bytes(n)` allocates, unless the length is refused. -/
theorem newBytes_eq (hlow : 0x60 ≤ freePtr m) (hhigh : freePtr m + (32 + roundUp n) < 2 ^ 256)
    (hn : n < 2 ^ 64) :
    ∃ m', (newBytes m n : Except (Revert ε) _) = .ok (m', freePtr m) ∧ Allocates m m' n := by
  have hdata : Yul.add (freePtr m) 32 = freePtr m + 32 := Yul.add_of_lt (by omega)
  have hwrite : Allocates m _ n :=
    (allocates_length_first hlow hhigh).write (List.replicate n 0) hlow
  refine ⟨_, ?_, hwrite⟩
  simp only [newBytes, if_pos hn, hdata]

/-- A literal is allocated, and holds its bytes. -/
theorem literal_allocates (bs : Bytes) (hlow : 0x60 ≤ freePtr m)
    (hhigh : freePtr m + (32 + roundUp bs.length) < 2 ^ 256) :
    Allocates m (literal m bs).1 bs.length := by
  have hdata : Yul.add (freePtr m) 32 = freePtr m + 32 := Yul.add_of_lt (by omega)
  simp only [literal, hdata]
  exact (allocates_pointer_first hlow hhigh).write bs hlow

theorem literal_byte (bs : Bytes) (hhigh : freePtr m + 32 < 2 ^ 256) (h : i < bs.length) :
    (literal m bs).1 (freePtr m + 32 + i) = bs[i] := by
  have hdata : Yul.add (freePtr m) 32 = freePtr m + 32 := Yul.add_of_lt hhigh
  simp only [literal, hdata]
  exact ByteMemory.write_of_mem h

/-- The object that a literal becomes. -/
theorem bytesAt_literal (bs : Bytes) (hlow : 0x60 ≤ freePtr m)
    (hhigh : freePtr m + (32 + roundUp bs.length) < 2 ^ 256) :
    bytesAt (literal m bs).1 (freePtr m) = bs := by
  rw [bytesAt, (literal_allocates bs hlow hhigh).length, ByteMemory.read_eq_iff]
  intro i hi
  exact literal_byte bs (by omega) hi

/-- The fresh object is all zero. -/
theorem newBytes_zero {a : ℕ} (hhigh : freePtr m + 32 < 2 ^ 256)
    (hnew : (newBytes m n : Except (Revert ε) _) = .ok (m', p)) (hlo : freePtr m + 32 ≤ a)
    (hhi : a < freePtr m + 32 + n) : m' a = 0 := by
  unfold newBytes at hnew
  split at hnew
  · have hdata : Yul.add (freePtr m) 32 = freePtr m + 32 := Yul.add_of_lt hhigh
    simp only [Except.ok.injEq, Prod.mk.injEq, hdata] at hnew
    obtain ⟨rfl, _⟩ := hnew
    obtain ⟨j, rfl⟩ := Nat.exists_eq_add_of_le hlo
    have hj : j < (List.replicate n (0 : UInt8)).length := by
      rw [List.length_replicate]
      omega
    rw [ByteMemory.write_of_mem hj, List.getElem_replicate]
  · cases hnew

/-! ## Code that keeps to the allocator -/

/-- What code does to the memory that leaves alone what others have allocated. The
scratch space and the free memory pointer, below `0x60`, are for all code to write. -/
structure Grows (m m' : Memory) : Prop where
  old : ∀ a, 0x60 ≤ a → a < freePtr m → m' a = m a
  next : freePtr m ≤ freePtr m'
  bounded : freePtr m' < 2 ^ 64

/-- It spoils no object. -/
theorem Holds.grows (h : Holds m p bs) (hgrows : Grows m m') : Holds m' p bs where
  object := h.bytesAt_eq hgrows.old
  low := h.low
  allocated := Nat.le_trans h.allocated hgrows.next
  bounded := hgrows.bounded

end Yes3
