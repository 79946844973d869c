import Lisplet.Proofs.EvaluationRules
import Lisplet.Proofs.WritingLimit
import Lisplet.Proofs.Transcript

/-! What a session answers. All that keeps an answer from being a text is the limit on digits: the
evaluation meets it, or there are too many digits in what is written, which is the value, with a log
also the form, or what the report of a fault shows. A log that is kept changes an answer only where
the form cannot be written. -/
namespace Lisplet

def Fault.shown : Fault → List Datum
  | .arity expected found => .int expected :: found
  | .wrongType _ found => [found]
  | .badForm form => [form]
  | .notFunction name => [.string name]
  | .unreadable _ | .divisionByZero | .outOfBound | .noClause | .tooDeep => []

open Datum

theorem Fault.report_text_eq_error_iff {room : Room} {f : Fault} {why : Failure} :
    f.report.text room = .error why ↔ writeAll room f.shown = .error why := by
  cases f with
  | arity expected found =>
    rw [shown, writeAll_cons_eq_error_iff, report, Report.text, bind_eq_error_iff]
    simp only [bind_ok_eq_error_iff, textOfAll, map_eq_error_iff, write]
  | wrongType expected found =>
    rw [shown, writeAll_singleton_eq_error_iff, report, Report.text, map_eq_error_iff]
  | badForm form =>
    rw [shown, writeAll_singleton_eq_error_iff, report, Report.text, map_eq_error_iff]
  | notFunction name =>
    rw [shown, writeAll_singleton_eq_error_iff, report, Report.text, map_eq_error_iff]
  | _ => simp [shown, writeAll, report, Report.text]

namespace Reply

def settle : Outcome String → Outcome String
  | .error .exhausted => .ok tooDeepMessage
  | written => written

theorem settle_of_ne {written : Outcome String} (h : written ≠ .error .exhausted) :
    settle written = written := by
  unfold settle
  split
  · contradiction
  · rfl

theorem settle_eq_error_iff {written : Outcome String} {why : Failure} :
    settle written = .error why ↔ written = .error why ∧ why ≠ .exhausted := by
  by_cases h : written = .error .exhausted
  · rw [h]
    simp [settle, eq_comm]
  · rw [settle_of_ne h]
    exact ⟨fun hwhy => ⟨hwhy, fun heq => h (heq ▸ hwhy)⟩, And.left⟩

theorem settle_eq_tooDeep_iff {written : Outcome String} :
    settle written = .ok tooDeepMessage ↔
      written = .error .exhausted ∨ written = .ok tooDeepMessage := by
  by_cases h : written = .error .exhausted
  · rw [h]
    simp [settle]
  · rw [settle_of_ne h, or_iff_right h]

theorem conclude_text (debug : Bool) (log : List LogRecord) (written : Outcome String) :
    (conclude debug log written).text = settle written := by
  unfold conclude
  split
  · rfl
  · next h => exact (settle_of_ne h).symm

end Reply

namespace Session

def written (debug : Bool) : Outcome (Datum × Datum) → List Datum
  | .ok (form, value) => if debug then [form, value] else [value]
  | .error (.fault f) => f.shown
  | .error _ => []

section
variable {room : Room} {debug : Bool} {cs : List Char} {form value : Datum} {f : Fault}
  {why : Failure}

theorem answer_text_of_ok (debug : Bool) (h : readEval room cs = .ok (form, value)) :
    (answer room debug cs).text = Reply.settle
      (if debug then form.text room >>= fun _ => value.text room else value.text room) := by
  unfold answer
  rw [h]
  cases debug with
  | false => exact Reply.conclude_text _ _ _
  | true =>
    simp only [evaluationLog, LogRecord.evaluated, if_true]
    cases form.text room with
    | error why => exact Reply.conclude_text _ _ _
    | ok source =>
      cases value.text room with
      | error why => exact Reply.conclude_text _ _ _
      | ok result => exact Reply.conclude_text _ _ _

theorem answer_text_of_fault (debug : Bool) (h : readEval room cs = .error (.fault f)) :
    (answer room debug cs).text = Reply.settle (f.report.text room) := by
  unfold answer
  rw [h]
  exact Reply.conclude_text _ _ _

theorem answer_text_of_digitLimit (debug : Bool) (h : readEval room cs = .error why)
    (hwhy : why.DigitLimit) : (answer room debug cs).text = .error why := by
  unfold answer
  rw [h]
  cases hwhy <;> rfl

theorem evaluate_ordinary (h : form.evaluate room = .error why) : why.Ordinary := by
  by_cases hroom : form.eval room = .error .exhausted
  · rw [evaluate_of_exhausted hroom] at h
    cases h
    exact .fault _
  · rw [evaluate_of_ne_exhausted hroom] at h
    rcases eval_failsOnly room form why h with hwhy | ⟨rfl, -⟩
    · exact hwhy.ordinary
    · contradiction

theorem readEval_ordinary (h : readEval room cs = .error why) : why.Ordinary := by
  rw [readEval] at h
  rcases bind_eq_error_iff.mp h with hread | ⟨form, -, h⟩
  · rcases read_ok_or_unreadable room cs with ⟨d, hd⟩ | ⟨e, hunreadable⟩
    · cases hread.symm.trans hd
    · cases hread.symm.trans hunreadable
      exact .fault _
  · rcases bind_eq_error_iff.mp h with hvalue | ⟨value, -, h⟩
    · exact evaluate_ordinary hvalue
    · cases h

theorem written_of_digitLimit (debug : Bool) (hwhy : why.DigitLimit) :
    written debug (.error why) = [] := by
  cases hwhy <;> rfl

/-- An answer is no text where the evaluation meets the limit on digits, or where what is written
cannot be written though there is room. -/
theorem answer_text_eq_error_iff : (answer room debug cs).text = .error why ↔
    why.DigitLimit ∧ readEval room cs = .error why ∨
      why ≠ .exhausted ∧ writeAll room (written debug (readEval room cs)) = .error why := by
  cases h : readEval room cs with
  | ok result =>
    obtain ⟨form, value⟩ := result
    rw [answer_text_of_ok debug h, Reply.settle_eq_error_iff]
    cases debug with
    | false => simp [written, writeAll_singleton_eq_error_iff, and_comm]
    | true => simp [written, writeAll_pair_eq_error_iff, and_comm]
  | error cause =>
    rcases readEval_ordinary h with f | hdigits
    · rw [answer_text_of_fault debug h, Reply.settle_eq_error_iff, Fault.report_text_eq_error_iff]
      -- A fault is not the limit itself, so only its report can meet it.
      have hfault : ¬ (why.DigitLimit ∧
          (.error (.fault f) : Outcome (Datum × Datum)) = .error why) := by
        rintro ⟨hwhy, heq⟩
        cases heq
        cases hwhy
      rw [or_iff_right hfault, and_comm, written]
    · rw [answer_text_of_digitLimit debug h hdigits, written_of_digitLimit debug hdigits]
      constructor
      · intro heq
        cases heq
        exact .inl ⟨hdigits, rfl⟩
      · rintro (⟨-, heq⟩ | ⟨-, heq⟩)
        · cases heq
          rfl
        · cases heq

/-- No integer with more digits than the limit is met, neither in the evaluation of a source nor in
what is written for it. -/
structure KeepsDigitLimit (room : Room) (debug : Bool) (cs : List Char) : Prop where
  evaluation : ∀ why, readEval room cs = .error why → ¬ why.DigitLimit
  writing : ∀ d ∈ written debug (readEval room cs), d.Throughout IsWritable

theorem answer_text_digitLimit (h : (answer room debug cs).text = .error why) :
    why.DigitLimit := by
  rcases answer_text_eq_error_iff.mp h with ⟨hwhy, -⟩ | ⟨hne, hwrite⟩
  · exact hwhy
  · rcases writeAll_failsOnly _ _ why hwrite with hdigits | hroom
    · rw [hdigits.1]
      exact .written
    · exact absurd hroom.1 hne

theorem KeepsDigitLimit.exists_text (h : KeepsDigitLimit room debug cs) :
    ∃ s, (answer room debug cs).text = .ok s := by
  cases htext : (answer room debug cs).text with
  | ok s => exact ⟨s, rfl⟩
  | error why =>
    rcases answer_text_eq_error_iff.mp htext with ⟨hwhy, heval⟩ | ⟨hne, hwrite⟩
    · exact absurd hwhy (h.evaluation why heval)
    · rcases writeAll_failsOnly _ _ why hwrite with hdigits | hroom
      · exact absurd (allThroughout_iff.mpr h.writing) hdigits.2
      · exact absurd hroom.1 hne

theorem keepsDigitLimit_of_text {s : String}
    (hroom : room.admits (writingDepthAll (written debug (readEval room cs))) = true)
    (h : (answer room debug cs).text = .ok s) : KeepsDigitLimit room debug cs where
  evaluation why heval hwhy := by
    rw [answer_text_of_digitLimit debug heval hwhy] at h
    cases h
  writing := by
    refine allThroughout_iff.mp ?_
    cases hwrite : writeAll room (written debug (readEval room cs)) with
    | ok parts => exact allThroughout_of_writeAll (fun d _ text => throughout_of_write) hwrite
    | error why =>
      have hne : why ≠ .exhausted := by
        rintro rfl
        rcases writeAll_failsOnly _ _ _ hwrite with hdigits | ⟨-, hnone⟩
        · cases hdigits.1
        · rw [hroom] at hnone
          cases hnone
      rw [answer_text_eq_error_iff.mpr (.inr ⟨hne, hwrite⟩)] at h
      cases h

end
end Session

namespace Dialogue

theorem exists_transcript {room : Room} {debug : Bool} (prompt quit : String) {lines : List String}
    (h : ∀ line ∈ lines, Session.KeepsDigitLimit room debug line.toList) :
    ∃ t, run room debug prompt quit lines = .ok t := by
  choose! said hsaid using fun line hline => (h line hline).exists_text
  exact ⟨_, run_eq_transcript fun line hline => hsaid line ((List.takeWhile_sublist _).mem hline)⟩

end Dialogue

namespace Session

/-- The answer is no text only for the limit on digits, and then the source does not keep it; where
there is room to write, it keeps the limit exactly if the answer is a text. Lines that keep it never
end a dialogue. -/
theorem answer_text_within_digitLimit (room : Room) (debug : Bool) (cs : List Char) :
    (∀ why, (answer room debug cs).text = .error why → why.DigitLimit) ∧
    (KeepsDigitLimit room debug cs → ∃ s, (answer room debug cs).text = .ok s) ∧
    (room.admits (writingDepthAll (written debug (readEval room cs))) = true →
      ∀ s, (answer room debug cs).text = .ok s → KeepsDigitLimit room debug cs) ∧
    ∀ prompt quit lines, (∀ line ∈ lines, KeepsDigitLimit room debug line.toList) →
      ∃ t, Dialogue.run room debug prompt quit lines = .ok t :=
  ⟨fun _ => answer_text_digitLimit, KeepsDigitLimit.exists_text,
    fun hroom _ => keepsDigitLimit_of_text hroom, fun _ _ _ => Dialogue.exists_transcript _ _⟩

theorem answer_text_within_digitLimit_pair :
    KeepsDigitLimit .standard true "(cons 1 2)".toList ∧
      ∃ s, (answer .standard true "(cons 1 2)".toList).text = .ok s := by
  have heval : readEval .standard "(cons 1 2)".toList =
      .ok (.list [.symbol "cons", .int 1, .int 2], .dotted [.int 1] (.int 2)) := by
    rw [readEval, read_eq]
    rfl
  have hkeeps : KeepsDigitLimit .standard true "(cons 1 2)".toList := by
    constructor
    · intro why hwhy
      rw [heval] at hwhy
      cases hwhy
    · have hone : isWritable 1 = true := by decide
      have htwo : isWritable 2 = true := by decide
      rw [heval]
      simp [written, Throughout, AllThroughout, IsWritable, hone, htwo]
  exact ⟨hkeeps, (answer_text_within_digitLimit _ _ _).2.1 hkeeps⟩

section
variable {room : Room} {debug : Bool} {cs : List Char} {form value : Datum} {n : Nat}

theorem readEval_of_read (hread : read room cs = .ok form)
    (hvalue : form.evaluate room = .ok value) : readEval room cs = .ok (form, value) :=
  bind_eq_ok_iff.mpr ⟨form, hread, bind_eq_ok_iff.mpr ⟨value, hvalue, rfl⟩⟩

theorem text_power (hn : 4000 ≤ n) :
    (Datum.int (sixteenPower n)).text room = .error .longInteger := by
  rw [Datum.text, write, writeInteger_of_not_isWritable (not_isWritable_power hn)]
  rfl

/-- An integer that is read in base sixteen may be too long to be answered in base ten. -/
theorem answer_text_power (hn : 4000 ≤ n) :
    (answer room false (powerNumeral n)).text = .error .longInteger := by
  have hread := (readsBack_powerNumeral n).read_eq room.admits_zero
  rw [answer_text_of_ok false (readEval_of_read hread rfl)]
  simp only [Bool.false_eq_true, if_false, text_power hn, Reply.settle]

theorem answer_text_power_four_thousand :
    (answer .standard false (powerNumeral 4000)).text = .error .longInteger :=
  answer_text_power (le_refl 4000)

/-- With a log a form that cannot be written takes the place of the value. -/
theorem answer_text_log_iff (h : readEval room cs = .ok (form, value)) :
    (answer room true cs).text = (answer room false cs).text ↔
      ∀ why, form.text room = .error why →
        value.text room = .error why ∨ why = .exhausted ∧ value.text room = .ok tooDeepMessage := by
  rw [answer_text_of_ok true h, answer_text_of_ok false h]
  simp only [if_true, Bool.false_eq_true, if_false]
  cases hform : form.text room with
  | ok source => simp [bind, Except.bind]
  | error why =>
    simp only [bind, Except.bind, Except.error.injEq, forall_eq']
    by_cases hwhy : why = .exhausted
    · subst hwhy
      rw [eq_comm, Reply.settle, Reply.settle_eq_tooDeep_iff]
      simp
    · have hne : (.error why : Outcome String) ≠ .error .exhausted := by simpa using hwhy
      rw [Reply.settle_of_ne hne, eq_comm, Reply.settle_eq_error_iff]
      simp [hwhy]

theorem answer_text_log_of_error {why : Failure} (h : readEval room cs = .error why) :
    (answer room true cs).text = (answer room false cs).text := by
  rcases readEval_ordinary h with f | hdigits
  · rw [answer_text_of_fault true h, answer_text_of_fault false h]
  · rw [answer_text_of_digitLimit true h hdigits, answer_text_of_digitLimit false h hdigits]

/-- The log changes no answer, unless a form has a value and cannot itself be written, and then not
unless the answer without the log says something else. -/
theorem answer_text_with_log (room : Room) (cs : List Char) :
    ((answer room true cs).text = (answer room false cs).text ↔
      ∀ form value why, readEval room cs = .ok (form, value) → form.text room = .error why →
        value.text room = .error why ∨
          why = .exhausted ∧ value.text room = .ok tooDeepMessage) ∧
    ((∀ form value, readEval room cs = .ok (form, value) →
        form.Throughout IsWritable ∧ room.admits form.writingDepth = true) →
      (answer room true cs).text = (answer room false cs).text) := by
  have hiff : (answer room true cs).text = (answer room false cs).text ↔
      ∀ form value why, readEval room cs = .ok (form, value) → form.text room = .error why →
        value.text room = .error why ∨
          why = .exhausted ∧ value.text room = .ok tooDeepMessage := by
    cases h : readEval room cs with
    | ok result =>
      obtain ⟨form, value⟩ := result
      rw [answer_text_log_iff h]
      constructor
      · rintro hwhy form' value' why heq
        cases heq
        exact hwhy why
      · exact fun hwhy why => hwhy form value why rfl
    | error why => simp [answer_text_log_of_error h]
  refine ⟨hiff, fun hform => hiff.mpr fun form value why heval hwhy => ?_⟩
  obtain ⟨hwritable, hroom⟩ := hform form value heval
  rw [Datum.text, map_eq_error_iff] at hwhy
  rcases write_failsOnly room form why hwhy with hdigits | ⟨-, hnone⟩
  · exact absurd hwritable hdigits.2
  · rw [hroom] at hnone
    cases hnone

theorem answer_text_with_log_branch :
    (∀ form value, readEval .standard "(if #t 1 2)".toList = .ok (form, value) →
      form.Throughout IsWritable ∧ Room.standard.admits form.writingDepth = true) ∧
    (answer .standard true "(if #t 1 2)".toList).text =
      (answer .standard false "(if #t 1 2)".toList).text := by
  have heval : readEval .standard "(if #t 1 2)".toList =
      .ok (.list [.symbol "if", .bool true, .int 1, .int 2], .int 1) := by
    rw [readEval, read_eq]
    rfl
  have hone : isWritable 1 = true := by decide
  have htwo : isWritable 2 = true := by decide
  have hform : ∀ form value, readEval .standard "(if #t 1 2)".toList = .ok (form, value) →
      form.Throughout IsWritable ∧ Room.standard.admits form.writingDepth = true := by
    intro form value h
    cases heval.symm.trans h
    refine ⟨?_, by decide⟩
    simp [Throughout, AllThroughout, IsWritable, hone, htwo]
  exact ⟨hform, (answer_text_with_log .standard _).2 hform⟩

def choiceForm (n : Nat) : Datum := .list [.symbol "if", .bool true, .int 1, .int (sixteenPower n)]

def choiceSource (n : Nat) : List Char := "(if #t 1 ".toList ++ (powerNumeral n ++ [')'])

theorem readsBack_choiceSource (n : Nat) : ReadsBack (choiceForm n) (choiceSource n) := by
  have hletter : ∀ c ∈ ['f'], Scan.continuesSymbol c = true :=
    List.forall_mem_singleton.mpr (by decide)
  have hname : "if".toList ∈ Kind.symbol.language :=
    mem_symbol.mpr ⟨'i', ['f'], by decide, hletter, rfl⟩
  have hone : ReadsBack (.int 1) ['1'] := readsBack_int (by decide) (by decide)
  have hparts : List.Forall₂ ReadsBack [.symbol "if", .bool true, .int 1, .int (sixteenPower n)]
      ["if".toList, ['#', 't'], ['1'], powerNumeral n] :=
    .cons (readsBack_symbol hname) (.cons (readsBack_bool true)
      (.cons hone (.cons (readsBack_powerNumeral n) .nil)))
  exact readsBack_sequence .list hparts

theorem readEval_choiceSource (n : Nat) :
    readEval .standard (choiceSource n) = .ok (choiceForm n, .int 1) :=
  readEval_of_read ((readsBack_choiceSource n).read_eq rfl) rfl

theorem text_choiceForm (hn : 4000 ≤ n) :
    (choiceForm n).text .standard = .error .longInteger := by
  cases h : (choiceForm n).write .standard with
  | ok text =>
    -- Of the four items the last one has too many digits.
    have hall : Throughout IsWritable (choiceForm n) := throughout_of_write h
    exact absurd hall.2.2.2.1 (not_isWritable_power hn)
  | error why =>
    rw [Datum.text, h]
    rcases write_failsOnly .standard (choiceForm n) why h with ⟨rfl, -⟩ | ⟨-, hroom⟩
    · rfl
    · cases hroom

/-- What is not evaluated is written for the log all the same. -/
theorem answer_text_choiceSource (hn : 4000 ≤ n) :
    (answer .standard true (choiceSource n)).text = .error .longInteger ∧
      (answer .standard false (choiceSource n)).text = .ok "1" := by
  have hvalue : (Datum.int 1).text .standard = .ok "1" := rfl
  constructor
  · rw [answer_text_of_ok true (readEval_choiceSource n), if_pos rfl, text_choiceForm hn]
    rfl
  · rw [answer_text_of_ok false (readEval_choiceSource n), if_neg (by decide), hvalue]
    rfl

theorem answer_text_choiceSource_four_thousand :
    (answer .standard true (choiceSource 4000)).text = .error .longInteger ∧
      (answer .standard false (choiceSource 4000)).text = .ok "1" :=
  answer_text_choiceSource (le_refl 4000)

end

end Session
end Lisplet
