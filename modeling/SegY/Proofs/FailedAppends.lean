import SegY.Proofs.WriterRuns

/-!
# Writing a file — failed appends are invisible

An append can fail for many reasons: its samples cannot be written in the format, or not exactly,
they have the wrong shape, a coordinate or a sample cannot be converted, the file is closed, or it
may not become that long.  Whatever the reason is, the session is the same afterwards, so nothing
that happens later can tell that the call was made.

* `Session.Logged.perform_of_fails`: a call that fails leaves the session as it is.
* `Session.run_of_failed_append`: a run with a call that fails, and the same run without it.
* `Session.Logged.run_succeeding`: a run, and what is left of it without all calls that fail.
-/

namespace SegY.Session

/-- What an action answers: an append gives the new trace or says why there is none. -/
def answer (σ : Session) : Action → Option (Except Error Trace)
  | .append t => some (σ.writer.append σ.directory t).2.2
  | .appendScaled new c x y => some (σ.writer.appendScaled σ.directory new c x y).2.2
  | .flush | .close | .limit _ | .elsewhere _ _ => none

/-- What actions answer, one after the other. -/
def answers (σ : Session) : List Action → List (Option (Except Error Trace))
  | [] => []
  | a :: rest => σ.answer a :: answers (σ.perform a).1 rest

/-- Whether an answer is an error. -/
def isFailure : Option (Except Error Trace) → Bool
  | some (.error _) => true
  | _ => false

theorem isFailure_iff {x : Option (Except Error Trace)} :
    isFailure x = true ↔ ∃ e, x = some (.error e) := by
  match x with
  | some (.error e) => exact ⟨fun _ => ⟨e, rfl⟩, fun _ => rfl⟩
  | some (.ok _) | none => simp [isFailure]

/-- Whether an action is an append that fails. -/
def Fails (σ : Session) (a : Action) : Prop := isFailure (σ.answer a) = true

instance (σ : Session) (a : Action) : Decidable (σ.Fails a) := inferInstanceAs (Decidable (_ = _))

/-- Some actions without the appends among them that fail. -/
def succeeding (σ : Session) : List Action → List Action
  | [] => []
  | a :: rest =>
    if σ.Fails a then succeeding (σ.perform a).1 rest
    else a :: succeeding (σ.perform a).1 rest

theorem run_append (σ : Session) (before after : List Action) :
    σ.run (before ++ after) = (σ.run before).run after := by
  induction before generalizing σ with
  | nil => rfl
  | cons a rest ih => exact ih _

theorem answers_append (σ : Session) (before after : List Action) :
    σ.answers (before ++ after) = σ.answers before ++ (σ.run before).answers after := by
  induction before generalizing σ with
  | nil => rfl
  | cons a rest ih => exact congrArg (σ.answer a :: ·) (ih _)

/-! ### A single call -/

variable {w : Writer} {begin : Bytes} {blocks : List Block} {σ : Session}

theorem Logged.perform_append_of_fails (h : σ.Logged w begin blocks) {t : NewTrace}
    (ht : σ.Fails (.append t)) : (σ.perform (.append t)).1 = σ := by
  have hcontent := h.content
  rw [← h.location] at hcontent
  rcases Writer.append_cases hcontent h.position h.whole t with ⟨e, ha⟩ | ⟨b, trace, -, ha⟩
  · simp only [Session.perform, ha]
  · simp only [Fails, answer, ha, isFailure, Bool.false_eq_true] at ht

/-- **A call that fails leaves the session as it is**, the file as well as the writer. -/
theorem Logged.perform_of_fails (h : σ.Logged w begin blocks) {a : Action} (ha : σ.Fails a) :
    (σ.perform a).1 = σ := by
  cases a with
  | append t => exact h.perform_append_of_fails ha
  | appendScaled new c x y =>
      cases hh : Writer.scaledHeader new.header c x y with
      | error e => simp only [Session.perform, Writer.appendScaled, hh]
      | ok header =>
          -- it is an append of the trace with the other header
          simp only [Fails, answer, Writer.appendScaled, hh] at ha
          simp only [Session.perform, Writer.appendScaled, hh]
          exact h.perform_append_of_fails ha
  | flush | close | limit _ | elsewhere _ _ => cases ha

/-! ### Whole runs -/

/-- **A failed append is invisible.**  Make a file, with whatever headers and settings, and let
anything happen to it except that someone else writes to it.  If an append fails then, the bytes of
the file, the number of traces and the two lists of them are as before, and whatever comes after
gives the same answers and the same file as if the call had not been made. -/
theorem run_of_failed_append {d d' : Directory} {name text : Bytes} {s : Settings}
    {binary : BinaryHeader} {label : Option TapeLabel} {w : Writer}
    (hw : Writer.create d name s text binary label = (d', .ok w)) (before : List Action)
    (hothers : ∀ l content, Action.elsewhere l content ∈ before → l ≠ w.location) {a : Action}
    {e : Error} (ha : (run ⟨d', w⟩ before).answer a = some (.error e)) (after : List Action) :
    let σ := run ⟨d', w⟩ before
    let σ' := (σ.perform a).1
    σ'.directory.get? w.location = σ.directory.get? w.location ∧ σ'.writer.size = σ.writer.size ∧
      σ'.writer.traces = σ.writer.traces ∧ σ'.writer.placements = σ.writer.placements ∧
      run ⟨d', w⟩ (before ++ a :: after) = run ⟨d', w⟩ (before ++ after) ∧
      answers ⟨d', w⟩ (before ++ a :: after) =
        answers ⟨d', w⟩ before ++ some (.error e) :: σ.answers after ∧
      answers ⟨d', w⟩ (before ++ after) = answers ⟨d', w⟩ before ++ σ.answers after := by
  intro σ σ'
  obtain ⟨_, -, hlogged⟩ := logged_of_create hw
  obtain ⟨_, -, hσ⟩ := hlogged.run before hothers
  have hsame : σ' = σ := hσ.perform_of_fails (by rw [Fails, ha]; rfl)
  refine ⟨by rw [hsame], by rw [hsame], by rw [hsame], by rw [hsame], ?_, ?_, answers_append ..⟩
  · rw [run_append, run_append]
    exact congrArg (run · after) hsame
  · rw [answers_append, answers, ha]
    exact congrArg (fun σ => _ ++ some (.error e) :: answers σ after) hsame

/-- A trace of one sample. -/
def oneSampleTrace : NewTrace where
  header := .blank
  extended := []
  type := .int16
  samples := [7]
  lossless := false

/-- Of a trace that is cut short nothing is left, and the next one is where it would have been. -/
theorem run_of_failed_append_cutShort :
    let binary : BinaryHeader := { BinaryHeader.blank.withSamples 1 with format := .int16 }
    let before : List Action := [.limit (some 3700)]
    let after : List Action := [.limit none, .append oneSampleTrace]
    ∃ d w e, Writer.create {} [0x61] {} [0x43] binary none = (d, .ok w) ∧
      (run ⟨d, w⟩ before).answer (.append oneSampleTrace) = some (.error e) ∧
      run ⟨d, w⟩ (before ++ .append oneSampleTrace :: after) = run ⟨d, w⟩ (before ++ after) ∧
      (run ⟨d, w⟩ (before ++ after)).writer.size = 1 := by
  intro binary before after
  have hrun : (match Writer.create {} [0x61] {} [0x43] binary none with
      | (d, .ok w) =>
        isFailure ((run ⟨d, w⟩ before).answer (.append oneSampleTrace)) &&
          (run ⟨d, w⟩ (before ++ after)).writer.size == 1
      | (_, .error _) => false) = true := by
    decide +kernel
  split at hrun
  · next d w hw =>
    simp only [Bool.and_eq_true, beq_iff_eq] at hrun
    obtain ⟨hfails, hsize⟩ := hrun
    have hothers : ∀ l content, Action.elsewhere l content ∈ before → l ≠ w.location := by
      intro l content h
      simp [before] at h
    obtain ⟨e, he⟩ := isFailure_iff.mp hfails
    obtain ⟨-, -, -, -, hsame, -⟩ := run_of_failed_append hw before hothers he after
    exact ⟨d, w, e, hw, he, hsame, hsize⟩
  · cases hrun

/-- All calls that fail can be left out of a run: the session at its end is the same, and so are
the answers of the calls that are left. -/
theorem Logged.run_succeeding (h : σ.Logged w begin blocks) (actions : List Action)
    (hothers : ∀ l content, Action.elsewhere l content ∈ actions → l ≠ w.location) :
    σ.run (σ.succeeding actions) = σ.run actions ∧
      σ.answers (σ.succeeding actions) = (σ.answers actions).filter (!isFailure ·) := by
  induction actions generalizing σ blocks with
  | nil => exact ⟨rfl, rfl⟩
  | cons a rest ih =>
      have hrest : ∀ l content, Action.elsewhere l content ∈ rest → l ≠ w.location :=
        fun l content hm => hothers l content (List.mem_cons_of_mem _ hm)
      by_cases hfails : σ.Fails a
      · have hsame := h.perform_of_fails hfails
        obtain ⟨hrun, hanswers⟩ := ih h hrest
        rw [succeeding, if_pos hfails, Session.run, answers, hsame]
        rw [Fails] at hfails
        exact ⟨hrun, by rw [hanswers, List.filter_cons_of_neg (by simp [hfails])]⟩
      · obtain ⟨_, -, h'⟩ :=
          h.perform a fun l content e => hothers l content (e ▸ List.mem_cons_self)
        obtain ⟨hrun, hanswers⟩ := ih h' hrest
        rw [succeeding, if_neg hfails]
        rw [Fails] at hfails
        refine ⟨hrun, ?_⟩
        rw [answers, answers, hanswers, List.filter_cons_of_pos (by simp [hfails])]

end SegY.Session
