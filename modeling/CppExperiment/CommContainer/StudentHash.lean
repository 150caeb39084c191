/-
  Students as keys of an `unordered_map` (Standard/std_stl/CommContainer.hpp).

  `hash_val` combines the hashes of its arguments one after the other.
  `StudentHash` hashes all members of a student, while `StudentEqual` and
  `operator==` compare the name and the number.

  `studentHash_eq_iff`: equal students have one hash iff their scores have.
-/
import CppExperiment.Lib.StdString

namespace CppExperiment.CommContainer

open StdString (bytes)

/-! ## `hash_val` -/

/-- `hash_combine(seed, val)`, with the hash of `val` -/
def hashCombine (seed val : UInt64) : UInt64 :=
  seed ^^^ (val + 0x9e3779b9 + (seed <<< (6 : UInt64)) + (seed >>> (2 : UInt64)))

/-- `hash_val(seed, val, args...)`, with the hashes of the arguments -/
def hashValFrom (seed : UInt64) : List UInt64 → UInt64
  | [] => seed
  | val :: args => hashValFrom (hashCombine seed val) args

/-- `hash_val(args...)` -/
def hashVal (args : List UInt64) : UInt64 := hashValFrom 0 args

/-- `std::hash` of the types that are hashed here, doubles being the type `D`. -/
structure StdHash (D : Type) where
  string : List UInt8 → UInt64
  int : ℤ → UInt64
  double : D → UInt64

/-! ## Students -/

structure Student (D : Type) where
  number : ℤ
  name : List UInt8
  score : D

variable {D : Type}

/-- `operator==` -/
def Student.eq (s rhs : Student D) : Bool := s.name == rhs.name && s.number == rhs.number

/-- `StudentHash` -/
def studentHash (std : StdHash D) (s : Student D) : UInt64 :=
  hashVal [std.string s.name, std.int s.number, std.double s.score]

/-- `StudentEqual` -/
def studentEqual (lhs rhs : Student D) : Bool := lhs.name == rhs.name && lhs.number == rhs.number

/-! ## Equal students -/

/-- With one seed, different hashes stay different. -/
theorem hashCombine_inj {seed x y : UInt64} : hashCombine seed x = hashCombine seed y ↔ x = y := by
  unfold hashCombine
  rw [UInt64.xor_right_inj, UInt64.add_left_inj, UInt64.add_left_inj, UInt64.add_left_inj]

theorem hashValFrom_append (seed : UInt64) (xs ys : List UInt64) :
    hashValFrom seed (xs ++ ys) = hashValFrom (hashValFrom seed xs) ys := by
  induction xs generalizing seed with
  | nil => rfl
  | cons x xs ih => exact ih (hashCombine seed x)

/-- The last argument is not lost. -/
theorem hashVal_append_inj {xs : List UInt64} {x y : UInt64} :
    hashVal (xs ++ [x]) = hashVal (xs ++ [y]) ↔ x = y := by
  rw [hashVal, hashVal, hashValFrom_append, hashValFrom_append]
  exact hashCombine_inj

theorem eq_iff {a b : Student D} : a.eq b = true ↔ a.name = b.name ∧ a.number = b.number := by
  simp [Student.eq]

theorem studentEqual_eq (a b : Student D) : studentEqual a b = a.eq b := rfl

/-- With one name and one number, the hash is that of the score. -/
theorem studentHash_score (std : StdHash D) {a b : Student D} (hname : a.name = b.name)
    (hnumber : a.number = b.number) :
    studentHash std a = studentHash std b ↔ std.double a.score = std.double b.score := by
  unfold studentHash
  rw [hname, hnumber]
  exact @hashVal_append_inj [std.string b.name, std.int b.number] _ _

/-- **Equal students.**  Whatever `std::hash` is, students that `StudentEqual`
    or `operator==` declares equal have the same hash iff `std::hash` is the
    same for their scores, which neither compares. -/
theorem studentHash_eq_iff (std : StdHash D) (a b : Student D)
    (he : studentEqual a b = true ∨ a.eq b = true) :
    studentHash std a = studentHash std b ↔ std.double a.score = std.double b.score := by
  rw [studentEqual_eq, or_self, eq_iff] at he
  exact studentHash_score std he.1 he.2

/-! ## One student, two scores -/

/-- The hash of Fowler, Noll and Vo, that some libraries take for `std::hash`. -/
def fnv1a (bs : List UInt8) : UInt64 :=
  bs.foldl (fun h b => (h ^^^ b.toUInt64) * 1099511628211) 14695981039346656037

/-- The bytes of a value in memory, `n` of them. -/
def memory : (n : ℕ) → (value : ℕ) → List UInt8
  | 0, _ => []
  | n + 1, value => UInt8.ofNat value :: memory n (value / 256)

/-- `std::hash` of the bytes in memory, doubles being 64 bits. -/
def fnvHash : StdHash UInt64 where
  string := fnv1a
  int n := fnv1a (memory 4 (n % 2 ^ 32).toNat)
  double x := fnv1a (memory 8 x.toNat)

/-- `Student{11, "yubo"s, 100.0}` -/
def yubo : Student UInt64 := ⟨11, bytes "yubo", 0x4059000000000000⟩

/-- The same student with the score 99.9. -/
def yubo' : Student UInt64 := { yubo with score := 0x4058F9999999999A }

theorem studentHash_eq_yubo : studentHash fnvHash yubo = studentHash fnvHash yubo' ↔
    fnvHash.double yubo.score = fnvHash.double yubo'.score :=
  studentHash_eq_iff fnvHash yubo yubo' (.inl (by decide +kernel))

/-- Equal students with different hashes. -/
theorem equal_students_differ : ¬ ∀ (std : StdHash UInt64) (a b : Student UInt64),
    studentEqual a b = true ∨ a.eq b = true → studentHash std a = studentHash std b := by
  intro hall
  have heq := hall fnvHash yubo yubo' (.inl (by decide +kernel))
  rw [studentHash_score (a := yubo) (b := yubo') fnvHash rfl rfl] at heq
  have hne : fnvHash.double yubo.score ≠ fnvHash.double yubo'.score := by decide +kernel
  exact hne heq

end CppExperiment.CommContainer
