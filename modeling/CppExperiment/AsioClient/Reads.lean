/-
  The reads of `AsioClient`.

  A read is started when the connection is made, when a read completes and when
  the write queue has drained.  `single_read_iff`: at most one read into
  `read_buffer_` is outstanding throughout a run exactly if no connection is
  made and no write drains the queue while a read is outstanding;
  `drained_queue_reads_twice` is the failing run.
-/
import CppExperiment.AsioClient.Writes

namespace CppExperiment.AsioClient

variable {c : Client} {h : List (Client × Action)}

/-- At most one read into `read_buffer_` is outstanding. -/
def SingleRead (c : Client) : Prop := c.reads ≤ 1

/-- No read is outstanding when the connection is made or a write drains the
    queue. -/
def StartsAlone (c : Client) : Action → Prop
  | .connected ok => ok = true → c.reads = 0
  | .writeDone _ ok => ok = true → c.writeMsgs.length = 1 → c.reads = 0
  | _ => True

/-- **A single read.**  In a run, at most one read is outstanding in every
    state exactly if the connection is made, and the queue drained, only while no
    read is outstanding. -/
theorem single_read_iff (hr : Run step Client.init h c) :
    Always SingleRead h c ↔ Steps StartsAlone h := by
  refine hr.always_iff (I := Writing) writing_init (Nat.zero_le 1) ?_ ?_
  · intro c a d hw _ _ hs
    exact writing_step hw hs
  intro c a d hw hP hs
  have he := (step_effect hw hs).2
  unfold SingleRead at hP ⊢
  cases he with
  | connected ok _ h1 => cases ok <;> simp [StartsAlone, h1]; omega
  | readDone ok _ h1 => simp only [StartsAlone, iff_true]; omega
  | written m q hq _ _ h1 =>
    cases q with
    | nil => simp [StartsAlone, h1, hq]
    | cons m' q => simp [StartsAlone, h1, hq, hP]
  | failed m q _ _ _ h1 => simp [StartsAlone, h1, hP]
  | post _ _ _ h1 => simp [StartsAlone, h1, hP]
  | sendFirst _ _ _ _ h1 => simp [StartsAlone, h1, hP]
  | sendBehind _ _ _ _ h1 => simp [StartsAlone, h1, hP]
  | close _ _ _ h1 => simp [StartsAlone, h1, hP]
  | resolved _ _ h1 => simp [StartsAlone, h1, hP]

/-- The connection is made, a read completes, and a message is sent. -/
theorem single_read_connected : ∃ h c, Run step Client.init h c ∧ c.reads = 1 ∧
    (Always SingleRead h c ↔ Steps StartsAlone h) := by
  have hr : Run step Client.init _ _ := .snoc (a := .runPosted 0)
    (.snoc (a := .post (.send "a")) (.snoc (a := .readDone true) (.snoc (a := .connected true)
      (.snoc (a := .resolved true) .nil rfl) rfl) rfl) rfl) rfl
  exact ⟨_, _, hr, rfl, single_read_iff hr⟩

/-- The connection is made, which starts a read, and one message is sent: when
    it has been written, a second read is started. -/
theorem drained_queue_reads_twice : ∃ h c, Run step Client.init h c ∧ c.reads = 2 ∧
    ¬ SingleRead c := by
  have hr : Run step Client.init _ _ := .snoc (a := .writeDone 0 true)
    (.snoc (a := .runPosted 0) (.snoc (a := .post (.send "a")) (.snoc (a := .connected true)
      (.snoc (a := .resolved true) .nil rfl) rfl) rfl) rfl) rfl
  exact ⟨_, _, hr, rfl, (by decide : ¬ 2 ≤ 1)⟩

end CppExperiment.AsioClient
