import Yes3.Base64.Correct

/-!
# Yes3.Base64.Stray — what lies behind the data

The last pass of the loop loads three bytes even when only one or two are left,
and it does not mask the others. Up to four bits of the byte behind the data get
into the last character before the padding, so the string is not a function of
the argument alone (`encoded_eq_iff`). A decoder does not look at these bits, so
the argument is a function of the string (`decode_encoded`). And since the byte can
be any, every string with that argument is one that the call may return
(`encode_returns_iff_decodes`).
-/

namespace Yes3.Base64

open Rfc4648

variable {m m' : Memory} {data data' : ℕ} {bs : Bytes}

/-- Two memories that hold the same bytes are encoded alike exactly when the byte
behind them agrees in the bits that are used: the upper four behind a single byte,
the upper two behind a pair. A result too long to allocate is refused in both. -/
theorem encoded_eq_iff (h : Holds m data bs) (h' : Holds m' data' bs) :
    encoded m data = encoded m' data' ↔
      (4 * ((bs.length + 2) / 3) + 32 < 2 ^ 64 →
        Agree bs.length (strayByte m data bs.length) (strayByte m' data' bs.length)) := by
  rw [encoded_eq h, encoded_eq h']
  by_cases hroom : 4 * ((bs.length + 2) / 3) + 32 < 2 ^ 64
  · rw [if_pos hroom, if_pos hroom, Except.ok.injEq, encodeWith_eq_iff symbol_injective]
    exact ⟨fun hagree _ => hagree, fun hagree => hagree hroom⟩
  · rw [if_neg hroom, if_neg hroom]
    exact ⟨fun _ hroom' => absurd hroom' hroom, fun _ => rfl⟩

/-- A whole number of groups, over two different memories. -/
theorem encoded_eq_iff_three_bytes :
    encoded (laidOut [0x61, 0x62, 0x63] 0) 0x80 = encoded (laidOut [0x61, 0x62, 0x63] 0xff) 0x80 :=
  (encoded_eq_iff (holds_laidOut 0 (by decide)) (holds_laidOut 0xff (by decide))).mpr
    fun _ => ⟨by decide, by decide⟩

/-- One byte, `a`, is `YQ==` before a zero and `Yf==` before `0xff`. -/
theorem encoded_leaks :
    Holds (laidOut [0x61] 0) 0x80 [0x61] ∧ Holds (laidOut [0x61] 0xff) 0x80 [0x61] ∧
      encoded (laidOut [0x61] 0) 0x80 = .ok [0x59, 0x51, 0x3d, 0x3d] ∧
      encoded (laidOut [0x61] 0xff) 0x80 = .ok [0x59, 0x66, 0x3d, 0x3d] := by
  refine ⟨holds_laidOut 0 (by decide), holds_laidOut 0xff (by decide), ?_, ?_⟩
  · decide +kernel
  · decide +kernel

/-- What `encode` returns decodes to the data, whatever is behind them. So two calls
that return the same string were made on the same bytes, in whatever memories. -/
theorem decode_encoded (h : Holds m data bs) :
    (if 4 * ((bs.length + 2) / 3) + 32 < 2 ^ 64
      then ∃ s, encoded m data = .ok s ∧ decodeBase64 s = some bs
      else encoded m data = .error (.panic 0x41)) ∧
    ∀ m' data' bs' s, Holds m' data' bs' → encoded m data = .ok s → encoded m' data' = .ok s →
      bs' = bs := by
  have hdecode : ∀ fill bs, decodeBase64 (encodeWith symbol equalsSign fill bs) = some bs :=
    decode_encodeWith symbolValue_symbol symbol_ne_equalsSign
  have hok : ∀ m data bs s, Holds m data bs → encoded m data = .ok s →
      decodeBase64 s = some bs := by
    intro m data bs s h hs
    rw [encoded_eq h] at hs
    split at hs
    next =>
        cases hs
        exact hdecode _ bs
    next => cases hs
  refine ⟨?_, ?_⟩
  · rw [encoded_eq h]
    split
    next => exact ⟨_, rfl, hdecode _ bs⟩
    next => rfl
  · intro m' data' bs' s h' hs hs'
    have hbs : some bs' = some bs := by
      rw [← hok m' data' bs' s h' hs', hok m data bs s h hs]
    exact Option.some.inj hbs

/-- `Yf==`, with four bits of the byte behind the data in it, is `a` again. -/
theorem decode_encoded_one_byte :
    Holds (laidOut [0x61] 0xff) 0x80 [0x61] ∧
      ∃ s, encoded (laidOut [0x61] 0xff) 0x80 = .ok s ∧ decodeBase64 s = some [0x61] := by
  have h : Holds (laidOut [0x61] 0xff) 0x80 [0x61] := holds_laidOut 0xff (by decide)
  exact ⟨h, (decode_encoded h).1⟩

/-- The bytes with a word allocated behind them, so that any byte can follow. -/
def followed (bs : Bytes) (next : UInt8) : Memory :=
  mstore (laidOut bs next) 0x40 (0xc0 + roundUp bs.length)

theorem holds_followed (next : UInt8) (hlen : bs.length < 2 ^ 64 - 256) :
    Holds (followed bs next) 0x80 bs ∧ strayByte (followed bs next) 0x80 bs.length = next := by
  have hup := le_roundUp bs.length
  have hup' := roundUp_lt bs.length
  have hold : freePtr (laidOut bs next) = 0xa0 + roundUp bs.length := mload_mstore _ _ (by omega)
  have hfree : freePtr (followed bs next) = 0xc0 + roundUp bs.length :=
    mload_mstore _ _ (by omega)
  have hgrows : Grows (laidOut bs next) (followed bs next) := by
    refine ⟨?_, by omega, by omega⟩
    intro a hlow _
    exact mstore_of_le hlow
  refine ⟨(holds_laidOut next hlen).grows hgrows, ?_⟩
  rw [strayByte, if_pos (by omega), followed, mstore_of_le (by omega)]
  exact laidOut_stray bs next

/-- **What `encode` may return.** Over all memories that hold the data, it returns the
texts that decode to the data, each of them and no others. -/
theorem encode_returns_iff_decodes (bs text : Bytes) :
    (∃ m data, Holds m data bs ∧ encoded m data = .ok text) ↔
      decodeBase64 text = some bs ∧ text.length + 32 < 2 ^ 64 := by
  constructor
  · rintro ⟨m, data, h, htext⟩
    rw [encoded_eq h] at htext
    split at htext
    next hroom =>
        obtain rfl := Except.ok.inj htext
        refine ⟨decode_encodeWith symbolValue_symbol symbol_ne_equalsSign _ bs, ?_⟩
        rwa [length_encodeWith]
    next => cases htext
  · rintro ⟨hdecode, hroom⟩
    -- the bits that the decoder drops tell what must be behind the data
    obtain ⟨fill, rfl⟩ := exists_encodeWith_of_decode (fun _ _ => symbol_of_symbolValue) hdecode
    rw [length_encodeWith] at hroom
    have hlen : bs.length < 2 ^ 64 - 256 := by omega
    obtain ⟨hholds, hstray⟩ := holds_followed fill hlen
    refine ⟨_, _, hholds, ?_⟩
    rw [encoded_eq hholds, if_pos hroom, hstray]

end Yes3.Base64
