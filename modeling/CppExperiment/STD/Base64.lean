/-
  Base64 in CommonTools/STD.cc: `STD::Base64Encode_WithAdd` and
  `STD::Base64Decode`.

  The encoder runs over the bytes one by one, with three phases and the bits
  left over in `t`; the decoder takes groups of four characters, the last one
  by itself.
-/
import CppExperiment.Lib.Memory
import CppExperiment.Lib.Base64

namespace CppExperiment.STD

/-! ## The encoder -/

/-- `Base2Chr_WithAdd`: one character at `out[i]`; the number of characters
    written. -/
def base2ChrWithAdd (m : Mem) (n : UInt8) (out i : ℕ) : Option (Mem × ℕ) := do
  let n := n &&& 0x3F
  if n < 26 then return (← m.store out i (n + 65), 1)
  else if n < 52 then return (← m.store out i (n - 26 + 97), 1)
  else if n < 62 then return (← m.store out i (n - 52 + 48), 1)
  else if n = 62 then return (← m.store out i 43, 1)
  else return (← m.store out i 47, 1)

/-- The sum of two `int`s; signed overflow is undefined. -/
def addInt (a b : ℤ) : Option ℤ := if a + b < 2 ^ 31 then some (a + b) else none

theorem addInt_eq {a b : ℤ} (h : a + b < 2 ^ 31) : addInt a b = some (a + b) := if_pos h

theorem addInt_overflow {a b : ℤ} (h : 2 ^ 31 ≤ a + b) : addInt a b = none := if_neg (not_lt.2 h)

/-- The loop of `Base64Encode_WithAdd` over `str[i]`, `k` bytes of it left:
    `len` is one less than the size of the buffer. -/
def encodeLoop (len : ℤ) (out str : ℕ) : (k i : ℕ) → Mem → (pos : ℕ) → (t : UInt8) →
    Option (Mem × ℕ × UInt8)
  | 0, _, m, pos, t => some (m, pos, t)
  | k + 1, i, m, pos, t => do
    let c ← m.load str i
    if i % 3 = 0 then
      if (← addInt pos 4) ≥ len then some (m, pos, t)
      else
        let (m, w) ← base2ChrWithAdd m (c >>> 2) out pos
        encodeLoop len out str k (i + 1) m (pos + w) ((c <<< 4) &&& 0x3F)
    else if i % 3 = 1 then
      if (← addInt pos 4) ≥ len then some (m, pos, t)
      else
        let (m, w) ← base2ChrWithAdd m (t ||| (c >>> 4)) out pos
        encodeLoop len out str k (i + 1) m (pos + w) ((c <<< 2) &&& 0x3F)
    else
      if (← addInt pos 6) ≥ len then some (m, pos, t)
      else
        let (m, w) ← base2ChrWithAdd m (t ||| (c >>> 6)) out pos
        let (m, w') ← base2ChrWithAdd m (c &&& 0x3F) out (pos + w)
        encodeLoop len out str k (i + 1) m (pos + w + w') t

/-- What follows the loop: the last digit with its padding, and the
    terminator. -/
def encodeTail (len : ℤ) (out n : ℕ) (m : Mem) (pos : ℕ) (t : UInt8) : Option Mem := do
  let padded ← if n % 3 ≠ 0 then (addInt pos 5).map fun r => decide (r < len) else some false
  if padded then
    let (m, w) ← base2ChrWithAdd m t out pos
    let m ← m.store out (pos + w) Base64.pad
    if n % 3 = 1 then
      let m ← m.store out (pos + w + 1) Base64.pad
      m.store out (pos + w + 2) 0
    else m.store out (pos + w + 1) 0
  else m.store out pos 0

/-- `Base64Encode_WithAdd(out, len, str, str_len)`; it returns `out`. -/
def base64EncodeWithAdd (m : Mem) (out : ℕ) (len : ℤ) (str strLen : ℕ) : Option Mem := do
  let (m, pos, t) ← encodeLoop (len - 1) out str strLen 0 m 0 0
  encodeTail (len - 1) out strLen m pos t

/-! ## The decoder -/

/-- The characters that `Base64Filter` keeps. -/
def isBase64Chr (c : UInt8) : Bool :=
  (97 ≤ c ∧ c ≤ 122) ∨ (65 ≤ c ∧ c ≤ 90) ∨ (48 ≤ c ∧ c ≤ 57) ∨ c = 37 ∨ c = 47 ∨ c = 43 ∨ c = 61

/-- The loop of `Base64Filter`, with at most `fuel` characters left in the
    block.  No terminator is written behind the characters kept. -/
def filterLoop (str : ℕ) : (fuel : ℕ) → Mem → (src dst : ℕ) → Option Mem
  | 0, _, _, _ => none
  | fuel + 1, m, src, dst => do
    let c ← m.load str src
    if c = 0 then some m
    else if isBase64Chr c then
      let m ← m.store str dst c
      filterLoop str fuel m (src + 1) (dst + 1)
    else filterLoop str fuel m (src + 1) dst

/-- `Base64Filter(str)`: keeps the characters of Base64, in place. -/
def base64Filter (m : Mem) (str : ℕ) : Option Mem := filterLoop str (m str).length m 0 0

/-- `Chr2Base(c)`: the value of a digit. -/
def chr2Base (c : UInt8) : UInt8 :=
  if 65 ≤ c ∧ c ≤ 90 then c - 65
  else if 97 ≤ c ∧ c ≤ 122 then c - 97 + 26
  else if 48 ≤ c ∧ c ≤ 57 then c - 48 + 52
  else if c = 43 then 62
  else 63

/-- The array `bufa`. -/
abbrev Bufa := UInt8 × UInt8 × UInt8 × UInt8

/-- `bufa` from four characters of the text. -/
def loadGroup (m : Mem) (inp j : ℕ) : Option Bufa := do
  let a ← m.load inp j
  let b ← m.load inp (j + 1)
  let c ← m.load inp (j + 2)
  let d ← m.load inp (j + 3)
  return (chr2Base a, chr2Base b, chr2Base c, chr2Base d)

/-- The three bytes of a group. -/
def groupBytes : Bufa → List UInt8
  | (a, b, c, d) =>
    [(a <<< 2) ||| ((b &&& 0x30) >>> 4), ((b &&& 0x0F) <<< 4) ||| ((c &&& 0x3C) >>> 2),
      ((c &&& 0x03) <<< 6) ||| (d &&& 0x3F)]

/-- The cast of an `unsigned long` to `int`. -/
def toInt (n : ℤ) : ℤ := Int.bmod n (2 ^ 32)

theorem toInt_eq {n : ℤ} (h : -2 ^ 31 ≤ n) (h' : n < 2 ^ 31) : toInt n = n := by
  rw [toInt]
  exact Int.bmod_eq_of_le (by omega) (by omega)

/-- The loop of `Base64Decode` over `z` groups of four characters: `i` bytes
    written, `j` characters read, `outLen` one less than the size of the
    buffer. -/
def decodeGroups (outLen : ℤ) (inp out : ℕ) : (z : ℕ) → Mem → (i j : ℕ) → Option (Mem × ℕ × ℕ)
  | 0, m, i, j => some (m, i, j)
  | z + 1, m, i, j => do
    let bufa ← loadGroup m inp j
    if toInt (i + 3) > outLen then some (m, i, j)
    else
      let m ← m.storeAll out i (groupBytes bufa)
      decodeGroups outLen inp out z m (i + 3) (j + 4)

/-- The number of padding characters, from the last two of the text. -/
def padding (m : Mem) (inp len : ℕ) : Option ℕ := do
  if (← m.load inp (len - 2)) = Base64.pad then return 2
  else if (← m.load inp (len - 1)) = Base64.pad then return 1
  else return 0

/-- `bufa[4 - z - 1] = 0` for `z < y`. -/
def zeroLast : ℕ → Bufa → Bufa
  | 0, bufa => bufa
  | 1, (a, b, c, _) => (a, b, c, 0)
  | _, (a, b, _, _) => (a, b, 0, 0)

/-- What follows the loop: the last group, without the bytes that padding
    stands for, and the terminator. -/
def decodeLast (outLen : ℤ) (inp out len : ℕ) (m : Mem) (i j : ℕ) : Option (Mem × ℕ) := do
  let bufa ← loadGroup m inp j
  let y ← padding m inp len
  let bufb := groupBytes (zeroLast y bufa)
  if toInt (i + 3 - y) ≤ outLen then
    let m ← m.storeAll out i (bufb.take (3 - y))
    return (← m.store out (i + (3 - y)) 0, i + (3 - y))
  else return (← m.store out i 0, i)

/-- `Base64Decode(in, out, out_len)`. -/
def base64Decode (m : Mem) (inp out : ℕ) (outLen : ℤ) : Option (Mem × ℕ) := do
  let m ← base64Filter m inp
  let m ← m.store out 0 0
  let len ← m.strlen inp
  if len < 4 then return (← m.store out 0 0, 0)
  else
    let (m, i, j) ← decodeGroups (outLen - 1) inp out ((len - 4) / 4) m 0 0
    decodeLast (outLen - 1) inp out len m i j

end CppExperiment.STD
