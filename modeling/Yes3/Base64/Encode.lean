import Yes3.Memory

/-!
# Yes3.Base64.Encode — `encode` of `Base64.sol`

The library's one function, statement by statement, over the memory of the call
it runs in. The assembly works on words: each pass of the loop loads 32 bytes to
use three and stores 32 bytes to leave four, and the stores overrun the text
until the length word cuts it off.
-/

namespace Yes3.Base64

open Yul

/-- `TABLE`. -/
def TABLE : Bytes :=
  "ABCDEFGHIJKLMNOPQRSTUVWXYZabcdefghijklmnopqrstuvwxyz0123456789+/".toList.map fun c =>
    UInt8.ofNat c.toNat

/-- The memory and the variables that the loop changes. -/
structure Loop where
  mem : Memory
  i : ℕ
  resultPtr : ℕ

/-- The body of the loop. `i` is advanced first, so that the word at `data + i`
ends with the next three bytes. -/
def encodeGroup (data tablePtr : ℕ) (s : Loop) : Loop :=
  let i := add s.i 3
  let input := Yul.and (mload s.mem (add data i)) 0xffffff
  -- the word from the table is not masked: what precedes the character in it
  -- is shifted out at the end
  let out := mload s.mem (add tablePtr (Yul.and (shr 18 input) 0x3F))
  let out := shl 8 out
  let out := add out (Yul.and (mload s.mem (add tablePtr (Yul.and (shr 12 input) 0x3F))) 0xFF)
  let out := shl 8 out
  let out := add out (Yul.and (mload s.mem (add tablePtr (Yul.and (shr 6 input) 0x3F))) 0xFF)
  let out := shl 8 out
  let out := add out (Yul.and (mload s.mem (add tablePtr (Yul.and input 0x3F))) 0xFF)
  let out := shl 224 out
  { mem := mstore s.mem s.resultPtr out
    i := i
    resultPtr := add s.resultPtr 4 }

/-- The `for` loop. The check of `len + 2` before it keeps `i` from wrapping. -/
def encodeLoop (data tablePtr len : ℕ) (hlen : len + 2 < 2 ^ 256) (s : Loop) : Loop :=
  if s.i < len then
    encodeLoop data tablePtr len hlen (encodeGroup data tablePtr s)
  else
    s
termination_by len - s.i
decreasing_by
  have hi : (encodeGroup data tablePtr s).i = s.i + 3 := add_of_lt (by omega)
  omega

/-- The `switch`: the last one or two characters become `=`. -/
def padResult (len : ℕ) (s : Loop) : Memory :=
  match len % 3 with
  | 1 => mstore s.mem (sub s.resultPtr 2) (shl 240 0x3d3d)
  | 2 => mstore s.mem (sub s.resultPtr 1) (shl 248 0x3d)
  | _ => s.mem

/-- `encode`: the memory it leaves behind and the string it returns a pointer to. -/
def encode (m : Memory) (data : ℕ) : Except (Revert Empty) (Memory × ℕ) :=
  let len := mload m data
  if len = 0 then
    .ok (literal m [])
  else if hlen : len + 2 < 2 ^ 256 then do
    let encodedLen ← checkedMul 4 ((len + 2) / 3)
    let size ← checkedAdd encodedLen 32
    let (m, result) ← newBytes m size
    let (m, table) := literal m TABLE
    let s := encodeLoop data (add table 1) len hlen ⟨m, 0, add result 32⟩
    let m := padResult len s
    return (mstore m result encodedLen, result)
  else
    .error (.panic 0x11)

/-- The string that `encode` returns. -/
def encoded (m : Memory) (data : ℕ) : Except (Revert Empty) Bytes := do
  let (m, result) ← encode m data
  return bytesAt m result

end Yes3.Base64
