/-
  `DisplayDirTree` in Standard/std_attri/Feature_17.hpp: the files below a
  directory, printed with three spaces for each level.

  A name is printed as the stream prints a path, in quotes.  `displayDirTree_iff`:
  the entries can be read off the text, in the order in which the iterator finds
  them, whatever the names are; only a path that is no directory looks like an
  empty one.
-/
import CppExperiment.Lib.Escape
import CppExperiment.StringFunc.Split

namespace CppExperiment.StdAttri
open StringFunc (Str)

/-- The entries of a directory that can be read and has no links to what is above
    it, in the order of the iterator, which may be any. -/
inductive Dir
  | nil
  | directory (filename : Str) (entries rest : Dir)
  | regular (filename : Str) (rest : Dir)
  | other (filename : Str) (rest : Dir)

/-! ## What is printed -/

/-- A quote and a backslash are printed behind a backslash. -/
def quoting : EscapeCode UInt8 where
  esc := 92
  enc c := if c = 34 ∨ c = 92 then some c else none
  dec := some
  enc_esc := by decide
  dec_enc c l h := by
    split_ifs at h
    exact h.symm

/-- What `cout << filename` prints. -/
def quoted (filename : Str) : Str := 34 :: (quoting.escape filename ++ [34])

/-- `string(level * 3, ' ')` -/
def lead (level : ℕ) : Str := List.replicate (level * 3) 32

/-- A line: the spaces, the mark of the entry, and its name. -/
def entryLine (level : ℕ) (mark filename : Str) : Str :=
  lead level ++ (mark ++ (quoted filename ++ [10]))

/-- The mark of a directory, `[+] `. -/
def directoryMark : Str := [91, 43, 93, 32]

/-- The mark of a file, as `DisplayFileInfo` prints it. -/
def regularMark : Str := [32]

/-- The mark of anything else, ` [?]`. -/
def otherMark : Str := [32, 91, 63, 93]

/-- The loop of `DisplayDirTree` over the entries. -/
def displayEntries : (level : ℕ) → Dir → Str
  | _, .nil => []
  | level, .directory filename entries rest =>
    entryLine level directoryMark filename ++ (displayEntries (level + 1) entries ++
      10 :: displayEntries level rest)
  | level, .regular filename rest =>
    entryLine level regularMark filename ++ displayEntries level rest
  | level, .other filename rest =>
    entryLine level otherMark filename ++ displayEntries level rest

/-- `DisplayDirTree(pathToShow, level)` for a level that is not negative, with the
    entries if the path is a directory -/
def displayDirTree (pathToShow : Option Dir) (level : ℕ) : Str :=
  match pathToShow with
  | none => []
  | some entries => displayEntries level entries

variable {level : ℕ} {mark mark' f f' r r' : Str}

/-! ## Reading it -/

/-- One of the three marks. -/
def Mark (mark : Str) : Prop := mark = directoryMark ∨ mark = regularMark ∨ mark = otherMark

/-- **A line in front of a text** tells what it was printed for. -/
theorem entryLine_append_inj (hm : Mark mark) (hm' : Mark mark')
    (h : entryLine level mark f ++ r = entryLine level mark' f' ++ r') :
    mark = mark' ∧ f = f' ∧ r = r' := by
  simp only [entryLine, List.append_assoc, List.append_cancel_left_eq] at h
  obtain rfl : mark = mark' := by
    -- with the quote behind it, no mark is the start of another one
    rcases hm with rfl | rfl | rfl <;> rcases hm' with rfl | rfl | rfl <;>
      first
      | rfl
      | simp [directoryMark, regularMark, otherMark, quoted] at h
  have hquoted : quoting.escape f ++ 34 :: (10 :: r) = quoting.escape f' ++ 34 :: (10 :: r') := by
    simpa [quoted] using h
  obtain ⟨hf, hr⟩ := EscapeCode.escape_append_inj (by decide) (by decide) hquoted
  exact ⟨rfl, hf, List.tail_eq_of_cons_eq hr⟩

/-- What stands behind the entries of a directory: nothing, or the empty line. -/
def EntriesEnd (r : Str) : Prop := r = [] ∨ r.head? = some 10

/-- No line stands there. -/
theorem EntriesEnd.ne_entryLine (hr : EntriesEnd r) (hm : Mark mark) (s : Str) :
    r ≠ entryLine level mark f ++ s := by
  have hhead : (entryLine level mark f ++ s).head? = some 32 ∨
      (entryLine level mark f ++ s).head? = some 91 := by
    cases level with
    | zero =>
      rcases hm with rfl | rfl | rfl <;>
        simp [entryLine, lead, directoryMark, regularMark, otherMark]
    | succ level => simp [entryLine, lead, Nat.succ_mul, List.replicate_succ]
  rintro rfl
  rcases hr with hr | hr
  · rw [hr] at hhead
    simp at hhead
  · rw [hr] at hhead
    simp at hhead

theorem displayEntries_nil (r : Str) : displayEntries level .nil ++ r = r := by
  rw [displayEntries, List.nil_append]

theorem displayEntries_directory (f : Str) (entries rest : Dir) (r : Str) :
    displayEntries level (.directory f entries rest) ++ r =
      entryLine level directoryMark f ++ (displayEntries (level + 1) entries ++
        10 :: (displayEntries level rest ++ r)) := by
  rw [displayEntries, List.append_assoc, List.append_assoc, List.cons_append]

theorem displayEntries_regular (f : Str) (rest : Dir) (r : Str) :
    displayEntries level (.regular f rest) ++ r =
      entryLine level regularMark f ++ (displayEntries level rest ++ r) := by
  rw [displayEntries, List.append_assoc]

theorem displayEntries_other (f : Str) (rest : Dir) (r : Str) :
    displayEntries level (.other f rest) ++ r =
      entryLine level otherMark f ++ (displayEntries level rest ++ r) := by
  rw [displayEntries, List.append_assoc]

/-- **The entries at the start of a text**, one by one. -/
theorem displayEntries_append_inj {d d' : Dir} (hr : EntriesEnd r) (hr' : EntriesEnd r')
    (h : displayEntries level d ++ r = displayEntries level d' ++ r') : d = d' ∧ r = r' := by
  have hdir : Mark directoryMark := .inl rfl
  have hreg : Mark regularMark := .inr (.inl rfl)
  have hother : Mark otherMark := .inr (.inr rfl)
  induction d generalizing level d' r r' with
  | nil =>
    rw [displayEntries_nil] at h
    cases d' with
    | nil => exact ⟨rfl, h.trans (displayEntries_nil r')⟩
    | directory f' entries' rest' =>
      rw [displayEntries_directory] at h
      exact absurd h (hr.ne_entryLine hdir _)
    | regular f' rest' =>
      rw [displayEntries_regular] at h
      exact absurd h (hr.ne_entryLine hreg _)
    | other f' rest' =>
      rw [displayEntries_other] at h
      exact absurd h (hr.ne_entryLine hother _)
  | directory f entries rest ihe ihr =>
    rw [displayEntries_directory] at h
    cases d' with
    | nil => exact absurd (h.trans (displayEntries_nil r')).symm (hr'.ne_entryLine hdir _)
    | directory f' entries' rest' =>
      rw [displayEntries_directory] at h
      obtain ⟨-, hf, h⟩ := entryLine_append_inj hdir hdir h
      -- the empty line stands behind the entries of the directory
      obtain ⟨he, h⟩ := ihe (.inr rfl) (.inr rfl) h
      obtain ⟨hrest, h⟩ := ihr hr hr' (List.tail_eq_of_cons_eq h)
      exact ⟨by rw [hf, he, hrest], h⟩
    | regular f' rest' =>
      rw [displayEntries_regular] at h
      exact absurd (entryLine_append_inj hdir hreg h).1 (by decide)
    | other f' rest' =>
      rw [displayEntries_other] at h
      exact absurd (entryLine_append_inj hdir hother h).1 (by decide)
  | regular f rest ih =>
    rw [displayEntries_regular] at h
    cases d' with
    | nil => exact absurd (h.trans (displayEntries_nil r')).symm (hr'.ne_entryLine hreg _)
    | directory f' entries' rest' =>
      rw [displayEntries_directory] at h
      exact absurd (entryLine_append_inj hreg hdir h).1 (by decide)
    | regular f' rest' =>
      rw [displayEntries_regular] at h
      obtain ⟨-, hf, h⟩ := entryLine_append_inj hreg hreg h
      obtain ⟨hrest, h⟩ := ih hr hr' h
      exact ⟨by rw [hf, hrest], h⟩
    | other f' rest' =>
      rw [displayEntries_other] at h
      exact absurd (entryLine_append_inj hreg hother h).1 (by decide)
  | other f rest ih =>
    rw [displayEntries_other] at h
    cases d' with
    | nil => exact absurd (h.trans (displayEntries_nil r')).symm (hr'.ne_entryLine hother _)
    | directory f' entries' rest' =>
      rw [displayEntries_directory] at h
      exact absurd (entryLine_append_inj hother hdir h).1 (by decide)
    | regular f' rest' =>
      rw [displayEntries_regular] at h
      exact absurd (entryLine_append_inj hother hreg h).1 (by decide)
    | other f' rest' =>
      rw [displayEntries_other] at h
      obtain ⟨-, hf, h⟩ := entryLine_append_inj hother hother h
      obtain ⟨hrest, h⟩ := ih hr hr' h
      exact ⟨by rw [hf, hrest], h⟩

/-- **Two paths with one text.**  They have the same entries, one by one in the
    order of the iterator and at all levels, where a path that is no directory
    counts as an empty one. -/
theorem displayDirTree_iff (p p' : Option Dir) (level : ℕ) :
    displayDirTree p level = displayDirTree p' level ↔ p.getD .nil = p'.getD .nil := by
  have hentries (p : Option Dir) : displayDirTree p level = displayEntries level (p.getD .nil) := by
    cases p with
    | none => rfl
    | some d => rfl
  rw [hentries, hentries]
  constructor
  · intro h
    have happend := congrArg (· ++ []) h
    exact (displayEntries_append_inj (.inl rfl) (.inl rfl) happend).1
  · intro h
    rw [h]

end CppExperiment.StdAttri
