/-
  The write queue of `AsioClient`.

  * `writes_in_order`: in every run, at most one `async_write` is outstanding,
    it writes the front of the queue, and the messages written are a prefix of
    the messages sent.
  * `queued_is_writing_iff`: a queued message has an outstanding write
    throughout a run exactly if no write fails; `failed_write_strands` is the
    failing run.
-/
import CppExperiment.AsioClient.Client

namespace CppExperiment.AsioClient

variable {c d : Client} {a : Action} {h : List (Client × Action)}

/-- No write is outstanding, or one, of the front of the queue. -/
structure Writing (c : Client) : Prop where
  ub : c.ub = false
  writes : c.writes = [] ∨ ∃ m q, c.writeMsgs = m :: q ∧ c.writes = [m]

theorem writing_init : Writing Client.init := ⟨rfl, .inl rfl⟩

/-! ## The handlers -/

/-- A write starts when nothing is queued, otherwise the message waits. -/
theorem onSend_cases (hw : Writing c) (m : String) :
    (c.writeMsgs = [] ∧ (c.onSend m).writeMsgs = [Client.line m] ∧
      (c.onSend m).writes = [Client.line m] ∨
     c.writeMsgs ≠ [] ∧ (c.onSend m).writeMsgs = c.writeMsgs ++ [Client.line m] ∧
      (c.onSend m).writes = c.writes) ∧
    (c.onSend m).ub = false ∧ (c.onSend m).reads = c.reads ∧ (c.onSend m).posted = c.posted := by
  obtain ⟨hub, hw⟩ := hw
  rcases hq : c.writeMsgs with _ | ⟨m', q⟩
  · have hnil : c.writes = [] := by
      rcases hw with hw | ⟨m', q, hq', -⟩
      · exact hw
      · rw [hq] at hq'; cases hq'
    simp [Client.onSend, hq, Client.doWrite, hnil, hub]
  · simp [Client.onSend, hq, hub]

/-- The completion of the write of `m`: the queue moves on, or stays. -/
theorem onWrite_cases {m : String} {q : List String} (hub : c.ub = false)
    (hq : c.writeMsgs = m :: q) (ok : Bool) :
    let d := Client.onWrite { c with writes := [] } ok
    d.ub = false ∧ d.posted = c.posted ∧
      ((ok = true ∧ d.writeMsgs = q ∧ d.writes = q.head?.toList ∧
        d.reads = c.reads + if q = [] then 1 else 0) ∨
      (ok = false ∧ d.writeMsgs = m :: q ∧ d.writes = [] ∧ d.reads = c.reads)) := by
  cases ok with
  | true =>
    cases q with
    | nil => simp [Client.onWrite, Client.popFront, hq, Client.doRead, hub]
    | cons m' q => simp [Client.onWrite, Client.popFront, hq, Client.doWrite, hub]
  | false => simp [Client.onWrite, Client.closeSocket, hq, hub]

/-- What a step changes, from a state in which at most the front of the queue
    is being written. -/
inductive Effect (c d : Client) : Action → Prop
  | post (f : Handler) : d.writeMsgs = c.writeMsgs → d.writes = c.writes → d.reads = c.reads →
      d.posted = c.posted ++ [f] → Effect c d (.post f)
  | sendFirst (i : ℕ) (m : String) : c.posted[i]? = some (.send m) →
      d.posted = c.posted.eraseIdx i → d.reads = c.reads → c.writeMsgs = [] →
      d.writeMsgs = [Client.line m] → d.writes = [Client.line m] → Effect c d (.runPosted i)
  | sendBehind (i : ℕ) (m : String) : c.posted[i]? = some (.send m) →
      d.posted = c.posted.eraseIdx i → d.reads = c.reads → c.writeMsgs ≠ [] →
      d.writeMsgs = c.writeMsgs ++ [Client.line m] → d.writes = c.writes →
      Effect c d (.runPosted i)
  | close (i : ℕ) : c.posted[i]? = some .close → d.posted = c.posted.eraseIdx i →
      d.reads = c.reads → d.writeMsgs = c.writeMsgs → d.writes = c.writes →
      Effect c d (.runPosted i)
  | resolved (ok : Bool) : d.posted = c.posted → d.reads = c.reads →
      d.writeMsgs = c.writeMsgs → d.writes = c.writes → Effect c d (.resolved ok)
  | connected (ok : Bool) : d.posted = c.posted → d.reads = c.reads + (if ok then 1 else 0) →
      d.writeMsgs = c.writeMsgs → d.writes = c.writes → Effect c d (.connected ok)
  | readDone (ok : Bool) : d.posted = c.posted → d.reads + (if ok then 0 else 1) = c.reads →
      d.writeMsgs = c.writeMsgs → d.writes = c.writes → Effect c d (.readDone ok)
  | written (m : String) (q : List String) : c.writeMsgs = m :: q → c.writes = [m] →
      d.posted = c.posted → d.reads = c.reads + (if q = [] then 1 else 0) →
      d.writeMsgs = q → d.writes = q.head?.toList → Effect c d (.writeDone 0 true)
  | failed (m : String) (q : List String) : c.writeMsgs = m :: q → c.writes = [m] →
      d.posted = c.posted → d.reads = c.reads → d.writeMsgs = m :: q → d.writes = [] →
      Effect c d (.writeDone 0 false)

theorem step_effect (hw : Writing c) (hs : step c a = some d) : d.ub = false ∧ Effect c d a := by
  cases a with
  | post f =>
    injection hs with hs; subst hs
    exact ⟨hw.ub, .post f rfl rfl rfl rfl⟩
  | runPosted i =>
    simp only [step] at hs
    rcases hf : c.posted[i]? with _ | f
    · rw [hf] at hs; cases hs
    rw [hf] at hs; injection hs with hs; subst hs
    cases f with
    | send m =>
      obtain ⟨hq, hub, hr, hp⟩ :=
        onSend_cases (c := { c with posted := c.posted.eraseIdx i }) ⟨hw.ub, hw.writes⟩ m
      rcases hq with ⟨h1, h2, h3⟩ | ⟨h1, h2, h3⟩
      · exact ⟨hub, .sendFirst i m hf hp hr h1 h2 h3⟩
      · exact ⟨hub, .sendBehind i m hf hp hr h1 h2 h3⟩
    | close => exact ⟨hw.ub, .close i hf rfl rfl rfl rfl⟩
  | resolved ok =>
    simp only [step] at hs
    split_ifs at hs
    injection hs with hs; subst hs
    cases ok <;> exact ⟨hw.ub, .resolved _ rfl rfl rfl rfl⟩
  | connected ok =>
    simp only [step] at hs
    split_ifs at hs
    injection hs with hs; subst hs
    cases ok <;> exact ⟨hw.ub, .connected _ rfl rfl rfl rfl⟩
  | readDone ok =>
    simp only [step] at hs
    split_ifs at hs with hr
    injection hs with hs; subst hs
    cases ok with
    | true => exact ⟨hw.ub, .readDone _ rfl (by simp [Client.onRead, Client.doRead]; omega) rfl rfl⟩
    | false =>
      exact ⟨hw.ub, .readDone _ rfl (by simp [Client.onRead, Client.closeSocket]; omega) rfl rfl⟩
  | writeDone i ok =>
    simp only [step] at hs
    split_ifs at hs with hi
    injection hs with hs; subst hs
    rcases hw.writes with hw' | ⟨m, q, hq, hw'⟩
    · rw [hw'] at hi; simp at hi
    obtain rfl : i = 0 := by rw [hw'] at hi; simpa using hi
    have he : c.writes.eraseIdx 0 = [] := by rw [hw']; rfl
    obtain ⟨hub, hp, hok⟩ := onWrite_cases hw.ub hq ok
    rw [he]
    rcases hok with ⟨rfl, h1, h2, h3⟩ | ⟨rfl, h1, h2, h3⟩
    · exact ⟨hub, .written m q hq hw' hp h3 h1 h2⟩
    · exact ⟨hub, .failed m q hq hw' hp h3 h1 h2⟩

theorem Effect.writing (hub : d.ub = false) (he : Effect c d a) (hw : Writing c) : Writing d := by
  refine ⟨hub, ?_⟩
  cases he with
  | sendFirst _ m _ _ _ _ h1 h2 => exact .inr ⟨_, [], h1, h2⟩
  | sendBehind _ m _ _ _ hne h1 h2 =>
    rcases hw.writes with hw | ⟨m', q, hq, hw⟩
    · exact .inl (h2.trans hw)
    · exact .inr ⟨m', q ++ [Client.line m], by rw [h1, hq]; rfl, h2.trans hw⟩
  | written m q _ _ _ _ h1 h2 =>
    cases q with
    | nil => exact .inl h2
    | cons m' q => exact .inr ⟨m', q, h1, h2⟩
  | failed m q _ _ _ _ _ h2 => exact .inl h2
  | post _ h1 h2 => rw [h1, h2]; exact hw.writes
  | close _ _ _ _ h1 h2 => rw [h1, h2]; exact hw.writes
  | resolved _ _ _ h1 h2 => rw [h1, h2]; exact hw.writes
  | connected _ _ _ h1 h2 => rw [h1, h2]; exact hw.writes
  | readDone _ _ _ h1 h2 => rw [h1, h2]; exact hw.writes

theorem writing_step (hw : Writing c) (hs : step c a = some d) : Writing d := by
  obtain ⟨hub, he⟩ := step_effect hw hs
  exact he.writing hub hw

/-! ## The order of the messages -/

/-- **No message is lost, duplicated or reordered**: what was sent is what was
    written, then the queue. -/
theorem sent_eq (hr : Run step Client.init h c) :
    sent h = written h ++ c.writeMsgs ∧ Writing c := by
  refine hr.inv_hist (G := fun _ _ => True) (I := fun h c => sent h = written h ++ c.writeMsgs ∧
    Writing c) ⟨rfl, writing_init⟩ ?_ fun _ _ => trivial
  rintro h c a d ⟨ih, hw⟩ - hs
  obtain ⟨hub, he⟩ := step_effect hw hs
  refine ⟨?_, he.writing hub hw⟩
  cases he with
  | post f h1 => simp only [sent, written, ih, h1]
  | sendFirst i m hf _ _ hq h1 => simp [sent, written, ih, hf, hq, h1, Handler.text]
  | sendBehind i m hf _ _ _ h1 => simp [sent, written, ih, hf, h1, Handler.text]
  | close i hf _ _ h1 => simp [sent, written, ih, hf, h1, Handler.text]
  | resolved ok _ _ h1 => simp only [sent, written, ih, h1]
  | connected ok _ _ h1 => simp only [sent, written, ih, h1]
  | readDone ok _ _ h1 => simp only [sent, written, ih, h1]
  | written m q hq hw' _ _ h1 => simp [sent, written, ih, hq, hw', h1]
  | failed m q hq _ _ _ h1 => simp only [sent, written, ih, hq, h1]

/-- If the posted handlers run in order, what was posted is what was sent, then
    the messages of the handlers still posted. -/
theorem posted_eq (hr : Run step Client.init h c) (hG : Steps Fifo h) :
    posted h = sent h ++ c.posted.flatMap Handler.text ∧ Writing c := by
  refine hr.inv_hist (G := Fifo) (I := fun h c => posted h = sent h ++
    c.posted.flatMap Handler.text ∧ Writing c) ⟨rfl, writing_init⟩ ?_ hG
  rintro h c a d ⟨ih, hw⟩ hfifo hs
  obtain ⟨hub, he⟩ := step_effect hw hs
  refine ⟨?_, he.writing hub hw⟩
  -- the first posted handler runs
  have hfirst : ∀ i f, Fifo c (.runPosted i) → c.posted[i]? = some f →
      d.posted = c.posted.eraseIdx i →
      posted h = (sent h ++ f.text) ++ d.posted.flatMap Handler.text := by
    rintro i f rfl hf hd
    rcases hp : c.posted with _ | ⟨f', fs⟩
    · rw [hp] at hf; cases hf
    · rw [hp] at hf hd
      cases hf
      rw [ih, hd, hp]; simp
  cases he with
  | post f _ _ _ hp => simp [posted, sent, ih, hp]
  | sendFirst i m hf hp => simpa [posted, sent, hf] using hfirst i _ hfifo hf hp
  | sendBehind i m hf hp => simpa [posted, sent, hf] using hfirst i _ hfifo hf hp
  | close i hf hp => simpa [posted, sent, hf] using hfirst i _ hfifo hf hp
  | resolved ok hp => simp only [posted, sent, ih, hp]
  | connected ok hp => simp only [posted, sent, ih, hp]
  | readDone ok hp => simp only [posted, sent, ih, hp]
  | written m q _ _ hp => simp only [posted, sent, ih, hp]
  | failed m q _ _ hp => simp only [posted, sent, ih, hp]

/-- **Ordered writes.**  In every run, at most one write is outstanding and it
    writes the front of the queue; the messages written successfully are a
    prefix of the messages whose `send` handler has run and, as posted handlers
    run in order, of the messages posted. -/
theorem writes_in_order (hr : Run step Client.init h c) :
    c.writes.length ≤ 1 ∧ (∀ m ∈ c.writes, c.writeMsgs.head? = some m) ∧ c.ub = false ∧
      written h <+: sent h ∧ (Steps Fifo h → written h <+: posted h) := by
  obtain ⟨hsent, hw⟩ := sent_eq hr
  have hpre : written h <+: sent h := ⟨c.writeMsgs, hsent.symm⟩
  refine ⟨?_, ?_, hw.ub, hpre, ?_⟩
  · rcases hw.writes with hw | ⟨m, q, -, hw⟩ <;> simp [hw]
  · rcases hw.writes with hw | ⟨m, q, hq, hw⟩
    · simp [hw]
    · intro m' hm'
      rw [hw, List.mem_singleton] at hm'
      rw [hq, hm', List.head?_cons]
  · intro hG
    exact hpre.trans ⟨_, (posted_eq hr hG).1.symm⟩

/-- Two messages, the second sent while the first is being written. -/
theorem writes_in_order_two : ∃ h c, Run step Client.init h c ∧
    c.writes = [Client.line "b"] ∧ written h = [Client.line "a"] ∧
    posted h = [Client.line "a", Client.line "b"] ∧ written h <+: sent h ∧
    (Steps Fifo h → written h <+: posted h) := by
  have hr : Run step Client.init _ _ := .snoc (a := .writeDone 0 true)
    (.snoc (a := .runPosted 0) (.snoc (a := .runPosted 0) (.snoc (a := .post (.send "b"))
      (.snoc (a := .post (.send "a")) .nil rfl) rfl) rfl) rfl) rfl
  exact ⟨_, _, hr, rfl, rfl, rfl, (writes_in_order hr).2.2.2⟩

/-! ## Stranded messages -/

/-- A message is queued only while a write is outstanding. -/
def QueuedIsWriting (c : Client) : Prop := c.writeMsgs ≠ [] → c.writes ≠ []

/-- The step is not a write that fails. -/
def NoFailedWrite (_ : Client) : Action → Prop
  | .writeDone _ ok => ok = true
  | _ => True

/-- **Queued messages.**  In a run, a queued message has an outstanding write in
    every state exactly if no write of the run fails. -/
theorem queued_is_writing_iff (hr : Run step Client.init h c) :
    Always QueuedIsWriting h c ↔ Steps NoFailedWrite h := by
  refine hr.always_iff (I := Writing) writing_init (fun h => absurd rfl h) ?_ ?_
  · intro c a d hw _ _ hs
    exact writing_step hw hs
  intro c a d hw hq hs
  have he := (step_effect hw hs).2
  unfold QueuedIsWriting at hq ⊢
  cases he with
  | sendFirst _ _ _ _ _ _ h1 h2 => simp [NoFailedWrite, h1, h2]
  | sendBehind _ _ _ _ _ hne h1 h2 => simp [NoFailedWrite, h2, hq hne]
  | written m q _ _ _ _ h1 h2 => cases q <;> simp [NoFailedWrite, h1, h2]
  | failed m q _ _ _ _ h1 h2 => simp [NoFailedWrite, h1, h2]
  | post _ h1 h2 => simpa [NoFailedWrite, h1, h2] using hq
  | close _ _ _ _ h1 h2 => simpa [NoFailedWrite, h1, h2] using hq
  | resolved _ _ _ h1 h2 => simpa [NoFailedWrite, h1, h2] using hq
  | connected _ _ _ h1 h2 => simpa [NoFailedWrite, h1, h2] using hq
  | readDone _ _ _ h1 h2 => simpa [NoFailedWrite, h1, h2] using hq

/-- A message is queued behind one that is being written. -/
theorem queued_is_writing_behind : ∃ h c, Run step Client.init h c ∧
    c.writeMsgs = [Client.line "a", Client.line "b"] ∧
    (Always QueuedIsWriting h c ↔ Steps NoFailedWrite h) := by
  have hr : Run step Client.init _ _ := .snoc (a := .runPosted 0) (.snoc (a := .runPosted 0)
    (.snoc (a := .post (.send "b")) (.snoc (a := .post (.send "a")) .nil rfl) rfl) rfl) rfl
  exact ⟨_, _, hr, rfl, queued_is_writing_iff hr⟩

/-- The write of the first message fails; the message sent afterwards is queued
    behind it and no write is outstanding. -/
theorem failed_write_strands : ∃ h c, Run step Client.init h c ∧
    c.writeMsgs = [Client.line "a", Client.line "b"] ∧ c.writes = [] ∧ ¬ QueuedIsWriting c := by
  have hr : Run step Client.init _ _ := .snoc (a := .runPosted 0)
    (.snoc (a := .post (.send "b")) (.snoc (a := .writeDone 0 false)
      (.snoc (a := .runPosted 0) (.snoc (a := .post (.send "a")) .nil rfl) rfl) rfl) rfl) rfl
  refine ⟨_, _, hr, rfl, rfl, ?_⟩
  intro hq
  exact hq (List.cons_ne_nil (Client.line "a") [Client.line "b"]) rfl

end CppExperiment.AsioClient
