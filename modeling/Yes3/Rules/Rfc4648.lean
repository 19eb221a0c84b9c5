import Mathlib.Algebra.Group.Nat.Defs
import Mathlib.Data.List.FinRange
import Mathlib.Data.List.Nodup

/-!
# Yes3.Rules.Rfc4648 — Base64

The encoding of RFC 4648, section 4, over any alphabet of 64 symbols: three
bytes are one 24-bit group and give the symbols of its four 6-bit groups, the
most significant first. The last group may lack one or two bytes. It is
completed on the right, and the symbols that come from no input bit at all are
replaced by padding.

The standard completes with zeros (`encode`). `encodeWith fill` completes with
the bits of any byte, which is what an encoder does that reads past its input;
`encodeWith_eq_iff` says when the difference shows. An encoder that works by
position is compared with it through `getElem?_encodeWith`.

`decode` reads an encoding back. It lets the padding say how many bytes the last
group has and drops the bits that fill up their last symbol, so it inverts every
`encodeWith` (`decode_encodeWith`), and whatever it reads is an `encodeWith`
(`exists_encodeWith_of_decode`).
-/

namespace Rfc4648

variable {α : Type} (σ : Fin 64 → α) (pad : α)

/-- Three bytes as one number. -/
def group (a b c : UInt8) : ℕ := a.toNat * 2 ^ 16 + b.toNat * 2 ^ 8 + c.toNat

/-- The `i`-th 6-bit group of a 24-bit group, from the left. -/
def sextet (g i : ℕ) : Fin 64 := Fin.ofNat 64 (g / 2 ^ (18 - 6 * i))

/-- The encoding of a list of bytes, its last group completed with `fill`. -/
def encodeWith (fill : UInt8) : List UInt8 → List α
  | [] => []
  | [a] => [σ (sextet (group a fill 0) 0), σ (sextet (group a fill 0) 1), pad, pad]
  | [a, b] =>
    [σ (sextet (group a b fill) 0), σ (sextet (group a b fill) 1),
      σ (sextet (group a b fill) 2), pad]
  | a :: b :: c :: bs =>
    σ (sextet (group a b c) 0) :: σ (sextet (group a b c) 1) ::
      σ (sextet (group a b c) 2) :: σ (sextet (group a b c) 3) :: encodeWith fill bs

/-- The standard: zeros are added on the right. -/
def encode (bs : List UInt8) : List α := encodeWith σ pad 0 bs

/-- The symbols of padding behind `n` bytes. -/
def padding (n : ℕ) : ℕ := (3 - n % 3) % 3

/-- The symbol at position `i` of the encoding of an endless input. -/
def symbolAt (B : ℕ → UInt8) (i : ℕ) : α :=
  σ (sextet (group (B (3 * (i / 4))) (B (3 * (i / 4) + 1)) (B (3 * (i / 4) + 2))) (i % 4))

/-! ## The alphabet -/

/-- The alphabet of the standard, as bytes. -/
def alphabet : List UInt8 :=
  "ABCDEFGHIJKLMNOPQRSTUVWXYZabcdefghijklmnopqrstuvwxyz0123456789+/".toList.map fun c =>
    UInt8.ofNat c.toNat

theorem length_alphabet : alphabet.length = 64 := by decide

/-- The symbol of a 6-bit group. -/
def symbol (v : Fin 64) : UInt8 := alphabet.get (v.cast length_alphabet.symm)

/-- The byte of `=`. -/
def equalsSign : UInt8 := 0x3d

/-- Base64. -/
def base64 (bs : List UInt8) : List UInt8 := encode symbol equalsSign bs

theorem nodup_alphabet : alphabet.Nodup := by decide +kernel

theorem symbol_injective : Function.Injective symbol := by
  intro v w h
  have hcast := List.nodup_iff_injective_get.mp nodup_alphabet h
  exact Fin.ext (congrArg Fin.val hcast)

/-- The padding is not in the alphabet. -/
theorem symbol_ne_equalsSign (v : Fin 64) : symbol v ≠ equalsSign := by
  revert v
  decide

example : base64 [0x66] = [0x5a, 0x67, 0x3d, 0x3d] := by decide

/-! ## The shape of an encoding -/

variable {σ pad} {fill fill' : UInt8} {bs : List UInt8}

/-- Four symbols for every three bytes, begun or complete. -/
theorem length_encodeWith (fill : UInt8) (bs : List UInt8) :
    (encodeWith σ pad fill bs).length = 4 * ((bs.length + 2) / 3) := by
  fun_induction encodeWith σ pad fill bs with
  | case1 => rfl
  | case2 a => simp
  | case3 a b => simp
  | case4 a b c bs ih =>
      simp only [List.length_cons, ih]
      omega

/-- The padding is all that is outside the alphabet. -/
theorem count_pad [DecidableEq α] (hpad : ∀ v, σ v ≠ pad) (fill : UInt8) (bs : List UInt8) :
    (encodeWith σ pad fill bs).count pad = padding bs.length := by
  fun_induction encodeWith σ pad fill bs with
  | case1 => rfl
  | case2 a => simp [padding, hpad]
  | case3 a b => simp [padding, hpad]
  | case4 a b c bs ih =>
      have hlen : padding (bs.length + 1 + 1 + 1) = padding bs.length := by
        unfold padding
        omega
      simp [hlen, hpad, ih]

/-! ## The bits of a symbol -/

theorem val_sextet_zero (a b c : UInt8) : (sextet (group a b c) 0).val = a.toNat / 4 := by
  have ha : a.toNat < 256 := a.toNat_lt
  have hb : b.toNat < 256 := b.toNat_lt
  have hc : c.toNat < 256 := c.toNat_lt
  simp only [sextet, group, Fin.val_ofNat]
  omega

theorem val_sextet_one (a b c : UInt8) :
    (sextet (group a b c) 1).val = a.toNat % 4 * 16 + b.toNat / 16 := by
  have hb : b.toNat < 256 := b.toNat_lt
  have hc : c.toNat < 256 := c.toNat_lt
  simp only [sextet, group, Fin.val_ofNat]
  omega

theorem val_sextet_two (a b c : UInt8) :
    (sextet (group a b c) 2).val = b.toNat % 16 * 4 + c.toNat / 64 := by
  have hc : c.toNat < 256 := c.toNat_lt
  simp only [sextet, group, Fin.val_ofNat]
  omega

/-- The first symbol comes from the first byte alone. -/
theorem sextet_zero_congr (a b c b' c' : UInt8) :
    sextet (group a b c) 0 = sextet (group a b' c') 0 := by
  apply Fin.ext
  rw [val_sextet_zero, val_sextet_zero]

/-- The second symbol comes from the first two bytes. -/
theorem sextet_one_congr (a b c c' : UInt8) :
    sextet (group a b c) 1 = sextet (group a b c') 1 := by
  apply Fin.ext
  rw [val_sextet_one, val_sextet_one]

/-! ## The symbols by position -/

/-- The symbols of the first group. -/
theorem symbolAt_of_lt (B : ℕ → UInt8) {i : ℕ} (hi : i < 4) :
    symbolAt σ B i = σ (sextet (group (B 0) (B 1) (B 2)) i) := by
  have hdiv : i / 4 = 0 := by omega
  have hmod : i % 4 = i := by omega
  unfold symbolAt
  rw [hdiv, hmod]

/-- A group further on, the position is four symbols further on. -/
theorem symbolAt_add_four (B : ℕ → UInt8) (i : ℕ) :
    symbolAt σ B (i + 4) = symbolAt σ (fun j => B (j + 3)) i := by
  have hdiv : (i + 4) / 4 = i / 4 + 1 := by omega
  have hmod : (i + 4) % 4 = i % 4 := by omega
  unfold symbolAt
  rw [hdiv, hmod, Nat.mul_add_one, Nat.add_right_comm _ 3 1, Nat.add_right_comm _ 3 2]

/-- Where the padding begins, a group further on. -/
theorem lt_text_add_three (n i : ℕ) :
    i + 4 < 4 * ((n + 3 + 2) / 3) - padding (n + 3) ↔ i < 4 * ((n + 2) / 3) - padding n := by
  unfold padding
  omega

/-- Three bytes leave no room for padding in their group. -/
theorem lt_text_of_lt (n : ℕ) {i : ℕ} (hi : i < 4) :
    i < 4 * ((n + 3 + 2) / 3) - padding (n + 3) := by
  unfold padding
  omega

/-- An encoding is what the endless encoding has at the same positions, up to the padding. -/
theorem getElem?_encodeWith {B : ℕ → UInt8} (hB : ∀ j, (h : j < bs.length) → B j = bs[j])
    (hfill : B bs.length = fill) {i : ℕ} (hi : i < 4 * ((bs.length + 2) / 3)) :
    (encodeWith σ pad fill bs)[i]?
      = some (if i < 4 * ((bs.length + 2) / 3) - padding bs.length
          then symbolAt σ B i else pad) := by
  fun_induction encodeWith σ pad fill bs generalizing B i with
  | case1 => simp at hi
  | case2 a =>
      have ha : B 0 = a := hB 0 (by simp)
      have hfill' : B 1 = fill := hfill
      have hi' : i = 0 ∨ i = 1 ∨ i = 2 ∨ i = 3 := by
        simp only [List.length_singleton] at hi
        omega
      -- two symbols and two signs of padding
      rcases hi' with rfl | rfl | rfl | rfl
      · simp [padding, symbolAt, ha, hfill', sextet_zero_congr a fill 0 fill (B 2)]
      · simp [padding, symbolAt, ha, hfill', sextet_one_congr a fill 0 (B 2)]
      · simp [padding]
      · simp [padding]
  | case3 a b =>
      have ha : B 0 = a := hB 0 (by simp)
      have hb : B 1 = b := hB 1 (by simp)
      have hfill' : B 2 = fill := hfill
      have hi' : i < 3 ∨ i = 3 := by
        simp only [List.length_cons, List.length_nil] at hi
        omega
      rcases hi' with hi' | rfl
      · have htext : i < 4 * (([a, b].length + 2) / 3) - padding [a, b].length := by
          simp only [padding, List.length_cons, List.length_nil]
          omega
        rw [if_pos htext, symbolAt_of_lt B (by omega), ha, hb, hfill']
        rcases (by omega : i = 0 ∨ i = 1 ∨ i = 2) with rfl | rfl | rfl <;> rfl
      · simp [padding]
  | case4 a b c bs ih =>
      have hlen : (a :: b :: c :: bs).length = bs.length + 3 := rfl
      rw [hlen] at hi ⊢
      rcases Nat.lt_or_ge i 4 with hlt | hge
      · have ha : B 0 = a := hB 0 (by simp)
        have hb : B 1 = b := hB 1 (by simp)
        have hc : B 2 = c := hB 2 (by simp)
        rw [if_pos (lt_text_of_lt bs.length hlt), symbolAt_of_lt B hlt, ha, hb, hc]
        rcases (by omega : i = 0 ∨ i = 1 ∨ i = 2 ∨ i = 3) with rfl | rfl | rfl | rfl <;> rfl
      · obtain ⟨i, rfl⟩ := Nat.exists_eq_add_of_le' hge
        -- the rest of the input is encoded like an input of its own
        have hB' : ∀ j, (h : j < bs.length) → B (j + 3) = bs[j] := by
          intro j hj
          rw [hB (j + 3) (by rw [hlen]; omega)]
          rfl
        have hrest := ih hB' hfill (i := i) (by omega)
        rw [if_congr (lt_text_add_three bs.length i) rfl rfl, symbolAt_add_four, ← hrest]
        rfl

/-! ## Two ways to complete the last group -/

/-- The bits of a completing byte that end up in a symbol: four behind one byte,
two behind two. -/
def Agree (n : ℕ) (fill fill' : UInt8) : Prop :=
  (n % 3 = 1 → fill.toNat / 16 = fill'.toNat / 16) ∧
    (n % 3 = 2 → fill.toNat / 64 = fill'.toNat / 64)

instance (n : ℕ) (fill fill' : UInt8) : Decidable (Agree n fill fill') :=
  inferInstanceAs (Decidable (_ ∧ _))

/-- The completing byte shows in the encoding by those bits and no others. -/
theorem encodeWith_eq_iff (hσ : Function.Injective σ) (bs : List UInt8) :
    encodeWith σ pad fill bs = encodeWith σ pad fill' bs ↔ Agree bs.length fill fill' := by
  fun_induction encodeWith σ pad fill bs with
  | case1 => simp [encodeWith, Agree]
  | case2 a =>
      have hzero := sextet_zero_congr a fill 0 fill' 0
      have hone : sextet (group a fill 0) 1 = sextet (group a fill' 0) 1
          ↔ fill.toNat / 16 = fill'.toNat / 16 := by
        rw [Fin.ext_iff, val_sextet_one, val_sextet_one]
        omega
      simp [encodeWith, Agree, hσ.eq_iff, hzero, hone]
  | case3 a b =>
      have hzero := sextet_zero_congr a b fill b fill'
      have hone := sextet_one_congr a b fill fill'
      have htwo : sextet (group a b fill) 2 = sextet (group a b fill') 2
          ↔ fill.toNat / 64 = fill'.toNat / 64 := by
        rw [Fin.ext_iff, val_sextet_two, val_sextet_two]
        omega
      simp [encodeWith, Agree, hσ.eq_iff, hzero, hone, htwo]
  | case4 a b c bs ih =>
      -- a whole group has no room for the completing byte
      have hlen : (a :: b :: c :: bs).length % 3 = bs.length % 3 := by
        simp only [List.length_cons]
        omega
      have hagree : Agree (a :: b :: c :: bs).length fill fill' ↔ Agree bs.length fill fill' := by
        unfold Agree
        rw [hlen]
      rw [hagree, ← ih]
      simp [encodeWith]

/-! ## Decoding -/

theorem val_sextet_three (a b c : UInt8) : (sextet (group a b c) 3).val = c.toNat % 64 := by
  have hc : c.toNat < 256 := c.toNat_lt
  simp only [sextet, group, Fin.val_ofNat]
  omega

/-- The three bytes of a group, each from the two symbols it is spread over. -/
def byteOne (u v : Fin 64) : UInt8 := UInt8.ofNat (u.val * 4 + v.val / 16)

def byteTwo (v w : Fin 64) : UInt8 := UInt8.ofNat (v.val % 16 * 16 + w.val / 4)

def byteThree (w x : Fin 64) : UInt8 := UInt8.ofNat (w.val % 4 * 64 + x.val)

/-- A decoder: `value` gives the bits of a symbol. Two signs of padding leave one
byte of the last group, one sign leaves two, and the low bits of the symbol before
the padding are not looked at. -/
def decode [DecidableEq α] (value : α → Option (Fin 64)) (pad : α) :
    List α → Option (List UInt8)
  | [] => some []
  | s₀ :: s₁ :: s₂ :: s₃ :: rest => do
    let u ← value s₀
    let v ← value s₁
    if s₂ = pad then
      if s₃ = pad ∧ rest = [] then some [byteOne u v] else none
    else do
      let w ← value s₂
      if s₃ = pad then
        if rest = [] then some [byteOne u v, byteTwo v w] else none
      else do
        let x ← value s₃
        let bs ← decode value pad rest
        return byteOne u v :: byteTwo v w :: byteThree w x :: bs
  | _ => none

/-- The first byte is all in the first two symbols. -/
theorem byteOne_sextet (a b c : UInt8) :
    byteOne (sextet (group a b c) 0) (sextet (group a b c) 1) = a := by
  have ha : a.toNat < 256 := a.toNat_lt
  have hb : b.toNat < 256 := b.toNat_lt
  rw [← UInt8.toNat_inj, byteOne, UInt8.toNat_ofNat', val_sextet_zero, val_sextet_one]
  omega

/-- The second one is in the second symbol and the third. -/
theorem byteTwo_sextet (a b c : UInt8) :
    byteTwo (sextet (group a b c) 1) (sextet (group a b c) 2) = b := by
  have hb : b.toNat < 256 := b.toNat_lt
  have hc : c.toNat < 256 := c.toNat_lt
  rw [← UInt8.toNat_inj, byteTwo, UInt8.toNat_ofNat', val_sextet_one, val_sextet_two]
  omega

theorem byteThree_sextet (a b c : UInt8) :
    byteThree (sextet (group a b c) 2) (sextet (group a b c) 3) = c := by
  have hc : c.toNat < 256 := c.toNat_lt
  rw [← UInt8.toNat_inj, byteThree, UInt8.toNat_ofNat', val_sextet_two, val_sextet_three]
  omega

/-- Whatever completes the last group, decoding gives the bytes back. -/
theorem decode_encodeWith [DecidableEq α] {value : α → Option (Fin 64)}
    (hvalue : ∀ v, value (σ v) = some v) (hpad : ∀ v, σ v ≠ pad) (fill : UInt8)
    (bs : List UInt8) : decode value pad (encodeWith σ pad fill bs) = some bs := by
  fun_induction encodeWith σ pad fill bs with
  | case1 => rfl
  | case2 a => simp [decode, hvalue, byteOne_sextet]
  | case3 a b => simp [decode, hvalue, hpad, byteOne_sextet, byteTwo_sextet]
  | case4 a b c bs ih =>
      simp [decode, hvalue, hpad, ih, byteOne_sextet, byteTwo_sextet, byteThree_sextet]

/-! ## Every text that decodes is an encoding -/

section Texts

variable (u v w x : Fin 64)

theorem sextet_zero_bytes (b c : UInt8) : sextet (group (byteOne u v) b c) 0 = u := by
  have hu := u.isLt
  have hv := v.isLt
  apply Fin.ext
  rw [val_sextet_zero, byteOne, UInt8.toNat_ofNat']
  omega

theorem sextet_one_bytes (c : UInt8) : sextet (group (byteOne u v) (byteTwo v w) c) 1 = v := by
  have hu := u.isLt
  have hv := v.isLt
  have hw := w.isLt
  apply Fin.ext
  rw [val_sextet_one, byteOne, byteTwo, UInt8.toNat_ofNat', UInt8.toNat_ofNat']
  omega

theorem sextet_two_bytes (a : UInt8) : sextet (group a (byteTwo v w) (byteThree w x)) 2 = w := by
  have hv := v.isLt
  have hw := w.isLt
  have hx := x.isLt
  apply Fin.ext
  rw [val_sextet_two, byteTwo, byteThree, UInt8.toNat_ofNat', UInt8.toNat_ofNat']
  omega

theorem sextet_three_bytes (a b : UInt8) : sextet (group a b (byteThree w x)) 3 = x := by
  have hw := w.isLt
  have hx := x.isLt
  apply Fin.ext
  rw [val_sextet_three, byteThree, UInt8.toNat_ofNat']
  omega

end Texts

/-- The bits that a decoder drops are some completion of the last group. -/
theorem exists_encodeWith_of_decode [DecidableEq α] {value : α → Option (Fin 64)}
    (hvalue : ∀ s v, value s = some v → σ v = s) {text : List α}
    (h : decode value pad text = some bs) : ∃ fill, encodeWith σ pad fill bs = text := by
  fun_induction decode value pad text generalizing bs with
  | case1 =>
      obtain rfl := Option.some.inj h
      exact ⟨0, rfl⟩
  | case2 s₀ s₁ s₂ s₃ rest ih =>
      obtain ⟨u, hu, htwo⟩ := Option.bind_eq_some_iff.mp h
      obtain ⟨v, hv, hthree⟩ := Option.bind_eq_some_iff.mp htwo
      obtain rfl := hvalue s₀ u hu
      obtain rfl := hvalue s₁ v hv
      by_cases hpad₂ : s₂ = pad
      · -- one byte is left, and the second symbol has four bits too many
        rw [if_pos hpad₂] at hthree
        split at hthree
        next hend =>
            obtain ⟨rfl, rfl⟩ := hend
            obtain rfl := Option.some.inj hthree
            refine ⟨byteTwo v 0, ?_⟩
            simp [encodeWith, sextet_zero_bytes, sextet_one_bytes, hpad₂]
        next => cases hthree
      · rw [if_neg hpad₂] at hthree
        obtain ⟨w, hw, hfour⟩ := Option.bind_eq_some_iff.mp hthree
        obtain rfl := hvalue s₂ w hw
        by_cases hpad₃ : s₃ = pad
        · -- two bytes are left, and the third symbol has two bits too many
          rw [if_pos hpad₃] at hfour
          split at hfour
          next hend =>
              subst hend
              obtain rfl := Option.some.inj hfour
              refine ⟨byteThree w 0, ?_⟩
              simp [encodeWith, sextet_zero_bytes, sextet_one_bytes, sextet_two_bytes, hpad₃]
          next => cases hfour
        · rw [if_neg hpad₃] at hfour
          obtain ⟨x, hx, hrest⟩ := Option.bind_eq_some_iff.mp hfour
          obtain ⟨bs', hbs', hbs⟩ := Option.bind_eq_some_iff.mp hrest
          obtain rfl := hvalue s₃ x hx
          obtain rfl := Option.some.inj hbs
          obtain ⟨fill, rfl⟩ := ih hbs'
          refine ⟨fill, ?_⟩
          simp [encodeWith, sextet_zero_bytes, sextet_one_bytes, sextet_two_bytes,
            sextet_three_bytes]
  | case3 => cases h

/-- The bits of a byte of the alphabet. -/
def symbolValue (c : UInt8) : Option (Fin 64) :=
  (List.finRange 64).find? fun v => symbol v = c

/-- The decoder of Base64. -/
def decodeBase64 (cs : List UInt8) : Option (List UInt8) := decode symbolValue equalsSign cs

theorem symbolValue_symbol (v : Fin 64) : symbolValue (symbol v) = some v := by
  have hmem : v ∈ List.finRange 64 := List.mem_finRange v
  cases hfind : symbolValue (symbol v) with
  | none => exact absurd (List.find?_eq_none.mp hfind v hmem) (by simp)
  | some w =>
      have hw : symbol w = symbol v := by
        simpa using List.find?_some hfind
      rw [symbol_injective hw]

theorem symbol_of_symbolValue {c : UInt8} {v : Fin 64} (h : symbolValue c = some v) :
    symbol v = c := by
  simpa using List.find?_some h

end Rfc4648
