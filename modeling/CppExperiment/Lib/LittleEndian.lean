/-
  Sixteen bits in two bytes, the low byte first.

  * `word lo hi` is the value of two bytes; `wordBytes w` are the two bytes of
    a value (`word_bytes`).
  * `Mem.loadWord` reads two bytes of a block (`At.loadWord`).
-/
import CppExperiment.Lib.Memory

namespace CppExperiment

/-- The value of two bytes. -/
def word (lo hi : UInt8) : UInt16 := lo.toUInt16 + 256 * hi.toUInt16

/-- The low and the high byte of a value. -/
def wordBytes (w : UInt16) : List UInt8 := [w.toUInt8, (w / 256).toUInt8]

theorem toNat_word (lo hi : UInt8) : (word lo hi).toNat = lo.toNat + 256 * hi.toNat := by
  have hlo := lo.toNat_lt
  have hhi := hi.toNat_lt
  simp only [word, UInt16.toNat_add, UInt16.toNat_mul, UInt8.toNat_toUInt16, UInt16.reduceToNat]
  omega

/-- A value in its two bytes. -/
theorem word_bytes (w : UInt16) : word w.toUInt8 (w / 256).toUInt8 = w := by
  have hw := w.toNat_lt
  apply UInt16.toNat_inj.1
  rw [toNat_word, UInt16.toNat_toUInt8, UInt16.toNat_toUInt8, UInt16.toNat_div]
  simp only [UInt16.reduceToNat]
  omega

namespace Mem
variable {m : Mem} {b i : ℕ} {s : List UInt8} {lo hi : UInt8}

/-- Read the two bytes at index `i` of the block `b`. -/
def loadWord (m : Mem) (b i : ℕ) : Option UInt16 := do
  let lo ← m.load b i
  let hi ← m.load b (i + 1)
  some (word lo hi)

theorem At.loadWord (h : m.At b i (lo :: hi :: s)) : m.loadWord b i = some (word lo hi) := by
  rw [Mem.loadWord, h.load, Option.bind_eq_bind, Option.bind_some, h.tail.load]
  rfl

end Mem

end CppExperiment
