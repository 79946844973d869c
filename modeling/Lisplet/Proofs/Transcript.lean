import Lisplet.Session
import Lisplet.Proofs.Outcome
import Lisplet.Proofs.ReadingRun
import Mathlib.Data.List.DropRight

/-! The transcript of a dialogue: the prompt and the answer for each line up to the first one that
ends it, then the prompt alone. A line ends it if it is the quit word with white space around. -/
namespace Lisplet
open Scan

section
variable {cs word before after : List Char}

theorem stops_trim (cs : List Char) : Stops isBlank (trim cs) := by
  intro c hc
  obtain ⟨rest, hrest⟩ : trim cs <+: cs.dropWhile isBlank := List.rdropWhile_prefix isBlank _
  refine stops_dropWhile isBlank cs c ?_
  rw [← hrest, Option.mem_def, List.head?_append, Option.mem_def.mp hc, Option.some_or]

theorem stops_reverse_trim (cs : List Char) : Stops isBlank (trim cs).reverse := by
  rw [trim, List.reverse_reverse]
  exact stops_dropWhile isBlank _

theorem trim_of_stops (hcs : Stops isBlank cs) (hreverse : Stops isBlank cs.reverse) :
    trim cs = cs := by
  rw [trim, dropWhile_of_stops hcs, dropWhile_of_stops hreverse, List.reverse_reverse]

theorem trim_blank_append (h : ∀ c ∈ before, isBlank c = true) : trim (before ++ cs) = trim cs := by
  rw [trim, trim, List.dropWhile_append_of_pos h]

theorem trim_append_blank (h : ∀ c ∈ after, isBlank c = true) : trim (cs ++ after) = trim cs := by
  rw [trim, trim, List.dropWhile_append]
  split
  · rename_i hcs
    rw [List.isEmpty_iff.mp hcs, List.dropWhile_eq_nil_iff.mpr h]
  · rw [List.reverse_append,
      List.dropWhile_append_of_pos fun c hc => h c (List.mem_reverse.mp hc)]

theorem exists_eq_trim (cs : List Char) :
    ∃ before after, (∀ c ∈ before, isBlank c = true) ∧ (∀ c ∈ after, isBlank c = true) ∧
      cs = before ++ trim cs ++ after := by
  refine ⟨cs.takeWhile isBlank, (cs.dropWhile isBlank).rtakeWhile isBlank,
    fun c => List.mem_takeWhile_imp, fun c => List.mem_rtakeWhile_imp, ?_⟩
  have hright : trim cs ++ (cs.dropWhile isBlank).rtakeWhile isBlank = cs.dropWhile isBlank :=
    List.rdropWhile_append_rtakeWhile ..
  rw [List.append_assoc, hright, List.takeWhile_append_dropWhile]

theorem trim_eq_iff (hword : trim word = word) :
    trim cs = word ↔ ∃ before after, (∀ c ∈ before, isBlank c = true) ∧
      (∀ c ∈ after, isBlank c = true) ∧ cs = before ++ word ++ after := by
  constructor
  · rintro rfl
    exact exists_eq_trim cs
  · rintro ⟨before, after, hbefore, hafter, rfl⟩
    rw [trim_append_blank hafter, trim_blank_append hbefore, hword]

end

structure IsWord (w : String) : Prop where
  ne_empty : w ≠ ""
  head : ∀ c ∈ w.toList.head?, isBlank c = false
  last : ∀ c ∈ w.toList.getLast?, isBlank c = false

theorem IsWord.trim_eq {w : String} (h : IsWord w) : trim w.toList = w.toList := by
  refine trim_of_stops h.head ?_
  rw [Stops, ← List.getLast?_eq_head?_reverse]
  exact h.last

namespace Settings
variable {env : Environment} {name standard : String}

theorem trim_setting_ne_nil (h : trim standard.toList ≠ []) :
    trim (setting env name standard).toList ≠ [] := by
  rw [setting]
  split
  · split
    · exact h
    · rename_i hvalue
      rwa [List.isEmpty_iff] at hvalue
  · exact h

theorem isWord_quitWord (env : Environment) : IsWord (quitWord env) := by
  have hlist : (quitWord env).toList = trim (setting env quitVariable "quit").toList :=
    String.toList_ofList
  constructor
  · intro hempty
    rw [hempty] at hlist
    exact trim_setting_ne_nil (by decide) hlist.symm
  · rw [hlist]
    exact stops_trim _
  · rw [hlist, List.getLast?_eq_head?_reverse]
    exact stops_reverse_trim _

end Settings

namespace Dialogue
variable {room : Room} {debug : Bool} {prompt quit line text : String} {lines : List String}
  {said : String → String}

theorem quits_iff (hquit : IsWord quit) :
    quits quit line = true ↔ ∃ before after, (∀ c ∈ before, isBlank c = true) ∧
      (∀ c ∈ after, isBlank c = true) ∧ line.toList = before ++ quit.toList ++ after := by
  rw [← trim_eq_iff hquit.trim_eq, quits, beq_iff_eq, strip, ← String.toList_inj,
    String.toList_ofList]

theorem not_quits_of_blank (hquit : IsWord quit) (h : ∀ c ∈ line.toList, isBlank c = true) :
    quits quit line = false := by
  rw [quits, strip, trim_of_all_blank h]
  exact beq_eq_false_iff_ne.mpr hquit.ne_empty.symm

/-- The lines that are answered: those before the first one that ends the dialogue. -/
def answered (quit : String) (lines : List String) : List String :=
  lines.takeWhile fun line => !quits quit line

theorem run_of_quits (h : quits quit line = true) (lines : List String) :
    run room debug prompt quit (line :: lines) =
      .ok ⟨prompt, 1, LogRecord.finished.noted debug⟩ := by
  rw [run, if_pos h]

theorem run_of_answer {later : Transcript} (h : quits quit line = false)
    (htext : (Session.answer room debug line.toList).text = .ok text)
    (hlater : run room debug prompt quit lines = .ok later) :
    run room debug prompt quit (line :: lines) = .ok ⟨prompt ++ text ++ "\n" ++ later.output,
      later.linesRead + 1, (Session.answer room debug line.toList).log ++ later.log⟩ := by
  rw [run, if_neg (by simp [h])]
  exact bind_eq_ok_iff.mpr ⟨text, htext, bind_eq_ok_iff.mpr ⟨later, hlater, rfl⟩⟩

def transcript (room : Room) (debug : Bool) (prompt quit : String) (said : String → String)
    (lines : List String) : Transcript where
  output := String.join ((answered quit lines).map fun line => prompt ++ said line ++ "\n") ++
    prompt ++ if lines.any (quits quit) then "" else "\n"
  linesRead := (answered quit lines).length + if lines.any (quits quit) then 1 else 0
  log := (answered quit lines).flatMap (fun line => (Session.answer room debug line.toList).log) ++
    LogRecord.finished.noted debug

theorem run_eq_transcript (h : ∀ line ∈ answered quit lines,
      (Session.answer room debug line.toList).text = .ok (said line)) :
    run room debug prompt quit lines = .ok (transcript room debug prompt quit said lines) := by
  induction lines with
  | nil => simp [run, transcript, answered]
  | cons line lines ih =>
    cases hquits : quits quit line with
    | true => simp [run_of_quits hquits, transcript, answered, hquits]
    | false =>
      have hsplit : answered quit (line :: lines) = line :: answered quit lines := by
        simp [answered, hquits]
      rw [hsplit] at h
      obtain ⟨hline, hlines⟩ := List.forall_mem_cons.mp h
      rw [run_of_answer hquits hline (ih hlines)]
      simp [transcript, hsplit, hquits, String.append_assoc, List.append_assoc, Nat.add_right_comm]

theorem run_append (h : lines.any (quits quit) = true) (more : List String) :
    run room debug prompt quit (lines ++ more) = run room debug prompt quit lines := by
  induction lines with
  | nil => cases h
  | cons line lines ih =>
    rw [List.cons_append, run, run]
    split
    · rfl
    · rename_i hquits
      have hlines : lines.any (quits quit) = true := by simpa [hquits] using h
      rw [ih hlines]

/-- The transcript is put together from the answers to the lines before the first that ends the
dialogue, each by itself; nothing behind that line is read. The quit word of any environment ends a
dialogue with whatever white space around it, and white space alone never does. -/
theorem run_writes_answers (room : Room) (debug : Bool) :
    (∀ prompt quit lines said,
      (∀ line ∈ answered quit lines,
        (Session.answer room debug line.toList).text = .ok (said line)) →
      run room debug prompt quit lines = .ok (transcript room debug prompt quit said lines) ∧
      (lines.any (quits quit) = true → ∀ more, run room debug prompt quit (lines ++ more) =
        .ok (transcript room debug prompt quit said lines))) ∧
    ∀ env, IsWord (Settings.quitWord env) ∧
      (∀ line, quits (Settings.quitWord env) line = true ↔
        ∃ before after, (∀ c ∈ before, isBlank c = true) ∧ (∀ c ∈ after, isBlank c = true) ∧
          line.toList = before ++ (Settings.quitWord env).toList ++ after) ∧
      (∀ line, quits (Settings.quitWord env) line = true → ∀ prompt lines,
        run room debug prompt (Settings.quitWord env) (line :: lines) =
          .ok ⟨prompt, 1, LogRecord.finished.noted debug⟩) ∧
      ∀ line, (∀ c ∈ line.toList, isBlank c = true) →
        quits (Settings.quitWord env) line = false := by
  refine ⟨fun prompt quit lines said h => ⟨run_eq_transcript h, fun hends more => ?_⟩,
    fun env => ?_⟩
  · rw [run_append hends, run_eq_transcript h]
  · have hword := Settings.isWord_quitWord env
    exact ⟨hword, fun _ => quits_iff hword, fun _ hquits _ lines => run_of_quits hquits lines,
      fun _ => not_quits_of_blank hword⟩

/-- The answers of a dialogue in which the environment sets the quit word. -/
theorem run_writes_answers_until_bye :
    let quit := Settings.quitWord [("MINISCHEME_QUIT", " bye")]
    let lines := ["(+ 1 2)", " ", "(car 'a)", "\tbye ", "(+ 3 4)"]
    run .standard false "> " quit lines =
      .ok ⟨"> 3\n> Parse error at \"lisp\" (line 1, column 1): unexpected ' '\n" ++
        "> Invalid type: expected pair, found a\n> ", 4, []⟩ ∧
    quits quit "\tbye " = true ∧ quits quit " " = false := by
  intro quit lines
  obtain ⟨hruns, hword⟩ := run_writes_answers .standard false
  have htab : ∀ c ∈ ['\t'], isBlank c = true := List.forall_mem_singleton.mpr (by decide)
  have hspace : ∀ c ∈ [' '], isBlank c = true := List.forall_mem_singleton.mpr (by decide)
  have hends : quits quit "\tbye " = true :=
    ((hword _).2.1 _).mpr ⟨['\t'], [' '], htab, hspace, by decide⟩
  have hblank : quits quit " " = false := (hword _).2.2.2 _ hspace
  let said (line : String) : String :=
    if line = "(+ 1 2)" then "3"
    else if line = " " then "Parse error at \"lisp\" (line 1, column 1): unexpected ' '"
    else "Invalid type: expected pair, found a"
  have hanswered : answered quit lines = ["(+ 1 2)", " ", "(car 'a)"] := by decide
  have hanswers : ∀ line ∈ answered quit lines,
      Session.answer .standard false line.toList = ⟨.ok (said line), []⟩ := by
    rw [hanswered]
    simp only [List.forall_mem_cons, List.not_mem_nil, false_imp_iff, implies_true, and_true]
    refine ⟨?_, ?_, ?_⟩ <;>
    · rw [Session.answer, Session.readEval, read_eq]
      rfl
  have hlog : (answered quit lines).flatMap
      (fun line => (Session.answer .standard false line.toList).log) = [] :=
    List.flatMap_eq_nil_iff.mpr fun line hline => by rw [hanswers line hline]
  obtain ⟨hrun, -⟩ := hruns "> " quit lines said fun line hline => by rw [hanswers line hline]
  refine ⟨hrun.trans ?_, hends, hblank⟩
  rw [transcript, hlog, hanswered]
  rfl

end Dialogue
end Lisplet
