import Mathlib.Algebra.Group.Nat.Defs
import Mathlib.Data.List.Basic

/-!
# Yes3.Rules.ByteMemory — a byte-addressed memory

A byte at every address, and what a machine does with it: `write` puts a list of
bytes somewhere, `read` takes one out, `value` reads a number stored with its
most significant byte first, and `digits` are the bytes of such a number.

* `write_of_lt`, `write_of_le` and `write_of_mem` say what a byte is after a
  write;
* a read sees nothing but its own bytes (`read_congr`, `value_congr`), so a write
  next to them goes unnoticed (`value_write_of_disjoint`);
* `value_digits` reads a stored number back;
* `replay` carries out a list of stores, and what lies outside all of them is
  left as it was, after the last store and between any two (`replay_frame`).
-/

abbrev ByteMemory := ℕ → UInt8

namespace ByteMemory

variable {m m' : ByteMemory} {p q a n k w : ℕ} {bs : List UInt8}

/-- The `n` bytes from `p` on. -/
def read (m : ByteMemory) (p : ℕ) : ℕ → List UInt8
  | 0 => []
  | n + 1 => m p :: read m (p + 1) n

/-- Those bytes as a number, the most significant one first. -/
def value (m : ByteMemory) (p : ℕ) : ℕ → ℕ
  | 0 => 0
  | n + 1 => value m p n * 256 + (m (p + n)).toNat

/-- The memory with `bs` from `p` on. -/
def write (m : ByteMemory) (p : ℕ) (bs : List UInt8) : ByteMemory :=
  fun a => if p ≤ a then bs[a - p]?.getD (m a) else m a

/-- The last `k` bytes of a number, the most significant one first. -/
def digits : ℕ → ℕ → List UInt8
  | 0, _ => []
  | k + 1, w => UInt8.ofNat (w / 256 ^ k) :: digits k w

/-! ## Writes -/

/-- A write leaves the bytes below it alone. -/
theorem write_of_lt (h : a < p) : write m p bs a = m a := by
  unfold write
  rw [if_neg (by omega)]

/-- A write leaves the bytes above it alone. -/
theorem write_of_le (h : p + bs.length ≤ a) : write m p bs a = m a := by
  unfold write
  rw [if_pos (by omega), List.getElem?_eq_none (by omega)]
  rfl

/-- A write leaves its own bytes. -/
theorem write_of_mem {i : ℕ} (h : i < bs.length) : write m p bs (p + i) = bs[i] := by
  unfold write
  rw [if_pos (by omega), Nat.add_sub_cancel_left, List.getElem?_eq_getElem h]
  rfl

/-- Writes next to each other commute. -/
theorem write_comm {cs : List UInt8} (h : p + bs.length ≤ q ∨ q + cs.length ≤ p) :
    write (write m p bs) q cs = write (write m q cs) p bs := by
  funext a
  by_cases hp : p ≤ a ∧ a < p + bs.length
  · obtain ⟨i, rfl⟩ := Nat.exists_eq_add_of_le hp.1
    have hi : i < bs.length := by omega
    have hq : write (write m p bs) q cs (p + i) = write m p bs (p + i) := by
      -- the other write lies wholly above or wholly below
      rcases h with h | h
      · exact write_of_lt (by omega)
      · exact write_of_le (by omega)
    rw [hq, write_of_mem hi, write_of_mem hi]
  · have houtside : ∀ m', write m' p bs a = m' a := by
      intro m'
      rcases Nat.lt_or_ge a p with hlt | hge
      · exact write_of_lt hlt
      · exact write_of_le (by omega)
    have hq : write (write m p bs) q cs a
        = if q ≤ a then cs[a - q]?.getD (write m p bs a) else write m p bs a := rfl
    rw [houtside, hq, houtside]
    rfl

/-! ## Reads -/

@[simp] theorem length_read (m : ByteMemory) (p n : ℕ) : (read m p n).length = n := by
  induction n generalizing p with
  | zero => rfl
  | succ n ih => simp [read, ih]

theorem getElem_read {i : ℕ} (h : i < (read m p n).length) : (read m p n)[i] = m (p + i) := by
  induction n generalizing p i with
  | zero => exact absurd h (Nat.not_lt_zero i)
  | succ n ih =>
      cases i with
      | zero => rfl
      | succ i =>
          have hi : i < (read m (p + 1) n).length := by
            simpa [read] using h
          have := ih hi
          simpa [read, Nat.add_assoc, Nat.add_comm 1 i] using this

/-- What a read returns is what the bytes are. -/
theorem read_eq_iff : read m p bs.length = bs ↔ ∀ i, (h : i < bs.length) → m (p + i) = bs[i] := by
  constructor
  · intro h i hi
    have hi' : i < (read m p bs.length).length := by
      rwa [length_read]
    have hget : (read m p bs.length)[i] = bs[i] := by
      simp only [h]
    rw [← hget, getElem_read]
  · intro h
    apply List.ext_getElem (length_read m p bs.length)
    intro i hi hi'
    rw [getElem_read, h i hi']

/-- A read returns the bytes at its own addresses. -/
theorem read_congr (h : ∀ i < n, m (p + i) = m' (p + i)) : read m p n = read m' p n := by
  have hlen : (read m' p n).length = n := length_read m' p n
  have hread : read m p (read m' p n).length = read m' p n := by
    rw [read_eq_iff]
    intro i hi
    rw [getElem_read hi, h i (by omega)]
  rwa [hlen] at hread

/-! ## Numbers -/

/-- A number is read from its own bytes only. -/
theorem value_congr (h : ∀ i < n, m (p + i) = m' (q + i)) : value m p n = value m' q n := by
  induction n with
  | zero => rfl
  | succ n ih =>
      have hn : m (p + n) = m' (q + n) := h n (Nat.lt_succ_self n)
      rw [value, value, ih fun i hi => h i (Nat.lt_succ_of_lt hi), hn]

/-- The first bytes of a number and the others. -/
theorem value_add (m : ByteMemory) (p n k : ℕ) :
    value m p (n + k) = value m p n * 256 ^ k + value m (p + n) k := by
  induction k with
  | zero => simp [value]
  | succ k ih =>
      rw [← Nat.add_assoc, value, ih, value, Nat.pow_succ, Nat.add_assoc p n k,
        Nat.add_mul, Nat.mul_assoc, Nat.add_assoc]

theorem value_lt (m : ByteMemory) (p n : ℕ) : value m p n < 256 ^ n := by
  induction n with
  | zero => exact Nat.one_pos
  | succ n ih =>
      have hbyte : (m (p + n)).toNat < 256 := (m (p + n)).toNat_lt
      rw [value, Nat.pow_succ]
      omega

/-- A write next to a number leaves it alone. -/
theorem value_write_of_disjoint (h : q + n ≤ p ∨ p + bs.length ≤ q) :
    value (write m p bs) q n = value m q n := by
  apply value_congr
  intro i hi
  rcases h with h | h
  · exact write_of_lt (by omega)
  · exact write_of_le (by omega)

@[simp] theorem length_digits (k w : ℕ) : (digits k w).length = k := by
  induction k with
  | zero => rfl
  | succ k ih => simp [digits, ih]

theorem getElem_digits {i : ℕ} (h : i < (digits k w).length) :
    (digits k w)[i] = UInt8.ofNat (w / 256 ^ (k - 1 - i)) := by
  induction k generalizing i with
  | zero => exact absurd h (Nat.not_lt_zero i)
  | succ k ih =>
      cases i with
      | zero => rfl
      | succ i =>
          have hi : i < (digits k w).length := by
            simpa [digits] using h
          have hexp : k + 1 - 1 - (i + 1) = k - 1 - i := by omega
          rw [hexp, ← ih hi]
          rfl

/-- A byte of a stored number. -/
theorem write_digits {i : ℕ} (h : i < k) :
    write m p (digits k w) (p + i) = UInt8.ofNat (w / 256 ^ (k - 1 - i)) := by
  have hi : i < (digits k w).length := by
    simpa using h
  rw [write_of_mem hi, getElem_digits]

/-- A stored number is read back, up to the bytes that did not fit. -/
theorem value_digits (m : ByteMemory) (p k w : ℕ) :
    value (write m p (digits k w)) p k = w % 256 ^ k := by
  -- the first `n` bytes read are the most significant digits
  have hprefix : ∀ n ≤ k, value (write m p (digits k w)) p n = w / 256 ^ (k - n) % 256 ^ n := by
    intro n
    induction n with
    | zero => intro _; simp [value, Nat.mod_one]
    | succ n ih =>
        intro hn
        have hexp : k - n = k - (n + 1) + 1 := by omega
        have hdiv : w / 256 ^ (k - n) = w / 256 ^ (k - (n + 1)) / 256 := by
          rw [hexp, Nat.pow_succ, Nat.div_div_eq_div_mul]
        have hlast : k - 1 - n = k - (n + 1) := by omega
        have hbyte : (UInt8.ofNat (w / 256 ^ (k - (n + 1)))).toNat
            = w / 256 ^ (k - (n + 1)) % 256 := by simp
        rw [value, ih (by omega), write_digits (by omega), hdiv, hlast, hbyte,
          Nat.pow_succ' (n := n), Nat.mod_mul]
        omega
  have h := hprefix k (Nat.le_refl k)
  rwa [Nat.sub_self, Nat.pow_zero, Nat.div_one] at h

/-! ## Stores one after the other -/

/-- Bytes and the place where they are put. -/
structure Store where
  addr : ℕ
  bytes : List UInt8

/-- A store between two addresses. -/
def Store.Within (w : Store) (lo hi : ℕ) : Prop :=
  lo ≤ w.addr ∧ w.addr + w.bytes.length ≤ hi

/-- The memory after some stores, the first of the list first. -/
def replay (m : ByteMemory) (ws : List Store) : ByteMemory :=
  ws.foldl (fun m w => write m w.addr w.bytes) m

@[simp] theorem replay_nil (m : ByteMemory) : replay m [] = m := rfl

@[simp] theorem replay_cons (m : ByteMemory) (w : Store) (ws : List Store) :
    replay m (w :: ws) = replay (write m w.addr w.bytes) ws := rfl

theorem replay_append (m : ByteMemory) (ws vs : List Store) :
    replay m (ws ++ vs) = replay (replay m ws) vs :=
  List.foldl_append

/-- What no store reaches is left alone. -/
theorem replay_frame {ws : List Store} {lo hi : ℕ} (h : ∀ w ∈ ws, w.Within lo hi)
    (ha : a < lo ∨ hi ≤ a) : replay m ws a = m a := by
  induction ws generalizing m with
  | nil => rfl
  | cons w ws ih =>
      obtain ⟨hlo, hhi⟩ := h w List.mem_cons_self
      have hrest : replay (write m w.addr w.bytes) ws a = write m w.addr w.bytes a :=
        ih fun v hv => h v (List.mem_cons_of_mem w hv)
      rw [replay_cons, hrest]
      rcases ha with ha | ha
      · exact write_of_lt (by omega)
      · exact write_of_le (by omega)

end ByteMemory
