import Lisplet.Proofs.EvaluationRules
import Lisplet.Proofs.SourceReading
import Lisplet.Proofs.ReadingRoom

/-! Which failures there are. A source is unreadable or has a datum. The evaluation of a form has a
value, or reports something of one of five classes, or meets the limit on digits. It meets none
where no text or name has too long a run of digits and no primitive of the form writes integers.
Running out of room is never taken for an answer. It is a failure of its own, or becomes one that
nothing else causes, and a computation that does not fail so does what it does without a limit. -/
namespace Lisplet

def Report.evaluationClasses : List String :=
  ["SchemeArityError", "SchemeTypeError", "SchemeBadFormError", "SchemeNotFunctionError",
    "SchemeRuntimeError"]

theorem Fault.OfProgram.className_mem {f : Fault} (h : f.OfProgram) :
    f.report.className ∈ Report.evaluationClasses := by
  cases f with
  | unreadable | tooDeep => cases h
  | _ => simp [report, Report.className, Report.evaluationClasses]

namespace Datum

variable {room : Room} {form : Datum} {why : Failure}

/-- What evaluation fails with: a report of one of the five classes or, if that is not excluded, the
limit on digits. -/
theorem evaluate_error {digits : Prop} (h : ¬ digits → form.Throughout MeetsNoLimit)
    (hwhy : form.evaluate room = .error why) :
    (∃ f, why = .fault f ∧ f.report.className ∈ Report.evaluationClasses) ∨
      digits ∧ why.DigitLimit := by
  by_cases hroom : form.eval room = .error .exhausted
  · rw [evaluate_of_exhausted hroom] at hwhy
    cases hwhy
    have hclass : Fault.tooDeep.report.className ∈ Report.evaluationClasses := by decide
    exact .inl ⟨.tooDeep, rfl, hclass⟩
  · rw [evaluate_of_ne_exhausted hroom] at hwhy
    rcases eval_failsOnly_ofProgram room form h why hwhy with hkind | ⟨rfl, -⟩
    · cases hkind with
      | fault hf => exact .inl ⟨_, rfl, hf.className_mem⟩
      | digitLimit hdigits hlimit => exact .inr ⟨hdigits, hlimit⟩
    · contradiction

end Datum

open Datum

/-- Reading a source gives a datum or reports that the source is unreadable, and nothing else
happens. Evaluating a form gives a value, reports something of one of the five classes, or meets the
limit on digits. That limit is not met where no text and no name in the form has too long a run of
digits and the form does not name a primitive that writes integers. -/
theorem failure_kinds (room : Room) :
    (∀ cs, (∃ d, read room cs = .ok d) ∨
      ∃ f, read room cs = .error (.fault f) ∧ f.report.className = "SchemeSyntaxError") ∧
    (∀ form : Datum, (∃ v, form.evaluate room = .ok v) ∨
      (∃ f, form.evaluate room = .error (.fault f) ∧
        f.report.className ∈ Report.evaluationClasses) ∨
      ∃ why, form.evaluate room = .error why ∧ why.DigitLimit) ∧
    ∀ form : Datum, form.Throughout MeetsNoLimit →
      ∀ why, form.evaluate room = .error why → ¬ why.DigitLimit := by
  refine ⟨fun cs => ?_, fun form => ?_, fun form hform why hwhy hlimit => ?_⟩
  · rcases read_ok_or_unreadable room cs with hread | ⟨e, herror⟩
    · exact .inl hread
    · exact .inr ⟨.unreadable e, herror, rfl⟩
  · cases hwhy : form.evaluate room with
    | ok v => exact .inl ⟨v, rfl⟩
    | error why =>
      have hany : ¬ True → form.Throughout MeetsNoLimit := fun hnot => absurd trivial hnot
      rcases evaluate_error hany hwhy with ⟨f, rfl, hclass⟩ | ⟨-, hlimit⟩
      · exact .inr (.inl ⟨f, rfl, hclass⟩)
      · exact .inr (.inr ⟨why, rfl, hlimit⟩)
  · rcases evaluate_error (fun _ => hform) hwhy with ⟨f, rfl, -⟩ | ⟨hdigits, -⟩
    · cases hlimit
    · exact hdigits

theorem failure_kinds_sum :
    ∃ why, (Datum.list [.symbol "+", .string "12x", .bool true]).evaluate .standard = .error why ∧
      ¬ why.DigitLimit := by
  have hname : (Datum.symbol "+").MeetsNoLimit := ⟨shortRuns_of_length (by decide), by decide⟩
  have htext : (Datum.string "12x").MeetsNoLimit := shortRuns_of_length (by decide)
  have hform : (Datum.list [.symbol "+", .string "12x", .bool true]).Throughout MeetsNoLimit :=
    ⟨hname, htext, trivial, trivial⟩
  obtain ⟨-, -, hno⟩ := failure_kinds .standard
  exact ⟨.fault (.wrongType .number (.bool true)), rfl, hno _ hform _ rfl⟩

/-- Running out of room makes the computation fail for one cause, which nothing else has, and changes
nothing where it does not make it fail. -/
structure RunsOut {α : Type} (cause : Failure) (f : Room → Outcome α) : Prop where
  unlimited : f .unlimited ≠ .error cause
  outcome : ∀ room, f room = .error cause ∨ f room = f .unlimited
  larger : ∀ room room', room ≤ room' → f room = f .unlimited → f room' = f .unlimited
  enough : ∃ n, ∀ room : Room, room.admits n = true → f room = f .unlimited

namespace RunsOut

section
variable {α : Type} {f g : Room → Outcome α} {n : Nat} {cause : Failure}

theorem of_approximates
    (happrox : ∀ room room' : Room, room ≤ room' → Approximates (f room) (f room'))
    (hroom : ∀ room : Room, room.admits n = true → f room ≠ .error .exhausted) :
    RunsOut .exhausted f where
  unlimited := hroom .unlimited rfl
  outcome room := happrox room .unlimited .unlimited
  larger room room' hle heq := by
    have hne : f room ≠ .error .exhausted := heq ▸ hroom .unlimited rfl
    exact ((happrox room room' hle).eq hne).symm.trans heq
  enough := ⟨n, fun room hadmits =>
    (happrox room .unlimited .unlimited).eq (hroom room hadmits)⟩

theorem of_failsOnly
    (happrox : ∀ room room' : Room, room ≤ room' → Approximates (f room) (f room'))
    (hfails : ∀ room : Room, FailsOnly (Failure.OfProgram True) room n (f room)) :
    RunsOut .exhausted f :=
  of_approximates happrox fun room hroom => (hfails room).ne_exhausted hroom

/-- A failure of its own that is put in place of running out keeps the rest as it was. -/
theorem replace (h : RunsOut .exhausted f) (hcause : f .unlimited ≠ .error cause)
    (hout : ∀ room, f room = .error .exhausted → g room = .error cause)
    (hother : ∀ room, f room ≠ .error .exhausted → g room = f room) : RunsOut cause g := by
  have hunlimited : g .unlimited = f .unlimited := hother .unlimited h.unlimited
  have hcauseless : g .unlimited ≠ .error cause := hunlimited ▸ hcause
  have heq_of : ∀ room, f room = f .unlimited → g room = g .unlimited := by
    intro room heq
    have hne : f room ≠ .error .exhausted := heq ▸ h.unlimited
    rw [hother room hne, heq, hunlimited]
  have heq_to : ∀ room, g room = g .unlimited → f room = f .unlimited := by
    intro room heq
    refine (h.outcome room).resolve_left fun hexhausted => hcauseless ?_
    rw [← heq, hout room hexhausted]
  refine ⟨hcauseless, fun room => ?_, fun room room' hle heq => ?_, ?_⟩
  · exact (h.outcome room).imp (hout room) (heq_of room)
  · exact heq_of room' (h.larger room room' hle (heq_to room heq))
  · obtain ⟨n, hn⟩ := h.enough
    exact ⟨n, fun room hroom => heq_of room (hn room hroom)⟩

end

theorem toInteger (d : Datum) : RunsOut .exhausted fun room => d.toInteger room :=
  of_failsOnly (fun _ _ hle => toInteger_approximates hle d)
    fun _ => toInteger_failsOnly d fun hnot => absurd trivial hnot

theorem strictlyEqual (a b : Datum) :
    RunsOut .exhausted fun room => Datum.strictlyEqual room a b :=
  of_failsOnly (fun _ _ hle => strictlyEqual_approximates hle a b)
    fun _ => strictlyEqual_failsOnly a b

theorem weaklyEqual (a b : Datum) : RunsOut .exhausted fun room => Datum.weaklyEqual room a b :=
  of_failsOnly (fun _ _ hle => weaklyEqual_approximates hle a b)
    fun _ => (weaklyEqual_failsOnly a b).imp fun _ => .digitLimit trivial

theorem applyNamed (name : String) (args : List Datum) :
    RunsOut .exhausted fun room => Primitive.applyNamed room name args :=
  of_failsOnly (fun _ _ hle => Primitive.applyNamed_approximates hle name args)
    fun _ => Primitive.applyNamed_failsOnly name args fun hnot => absurd trivial hnot

theorem eval (form : Datum) : RunsOut .exhausted fun room => form.eval room :=
  of_failsOnly (fun _ _ hle => eval_approximates hle form)
    fun room => eval_failsOnly room form

theorem evaluate (form : Datum) :
    RunsOut (.fault .tooDeep) fun room => form.evaluate room := by
  refine (eval form).replace (fun hdeep => ?_) (fun _ => evaluate_of_exhausted)
    fun _ => evaluate_of_ne_exhausted
  rcases eval_failsOnly .unlimited form _ hdeep with hkind | ⟨hwhy, -⟩
  · rcases hkind with hf | ⟨-, hdigits⟩
    · exact hf
    · cases hdigits
  · cases hwhy

theorem parse {s : Stream} (hs : s.Sound) (hgenuine : ∀ t ∈ s.ahead, t.Genuine) :
    RunsOut .exhausted fun room => (s.parse room).1 := by
  refine of_approximates (n := 2 * s.ahead.length)
    (fun room room' hle => Stream.parse_approximates hle hs) fun room hroom hdeep => ?_
  rw [Stream.parse_of_admits hs hroom] at hdeep
  have hfails := Stream.parse_fails hs (Prod.ext hdeep rfl)
  rcases hfails.complains hgenuine with ⟨-, hlimit, -⟩ | ⟨what, hwhy, -⟩
  · exact hlimit rfl
  · cases hwhy

theorem read (cs : List Char) :
    RunsOut (.fault (.unreadable .tooDeep)) fun room => Lisplet.read room cs := by
  have hsound := Stream.ofText_sound defaultSource cs
  have hgenuine : ∀ t ∈ (Stream.ofText defaultSource cs).ahead, t.Genuine :=
    fun t ht => genuine_of_mem_lex ht
  refine (parse hsound hgenuine).replace (fun hdeep => ?_) (fun room hexhausted => ?_)
    fun room hne => ?_
  · have hfails := Stream.parse_fails hsound (Prod.ext hdeep rfl)
    rcases hfails.complains hgenuine with ⟨hwhy, -⟩ | ⟨what, hwhy, -⟩
    · cases hwhy
    · cases hwhy
  · simp only [Lisplet.read, hexhausted]
    rfl
  · unfold Lisplet.read
    split
    · contradiction
    · rfl

end RunsOut

/-- In each room the evaluation of a form says that the nesting of calls is too deep, or has the
outcome that it has without a limit. Where it has this outcome, it has it in all larger rooms, and
some room is large enough. So it is with the equalities, with the coercion to integers and with all
primitives, which run out and then neither tell data apart nor find a fault, and with the reader. -/
theorem running_out_is_no_answer :
    (∀ form : Datum, RunsOut (.fault .tooDeep) fun room => form.evaluate room) ∧
    (∀ a b, RunsOut .exhausted fun room => Datum.strictlyEqual room a b) ∧
    (∀ a b, RunsOut .exhausted fun room => Datum.weaklyEqual room a b) ∧
    (∀ d : Datum, RunsOut .exhausted fun room => d.toInteger room) ∧
    (∀ name args, RunsOut .exhausted fun room => Primitive.applyNamed room name args) ∧
    ∀ cs, RunsOut (.fault (.unreadable .tooDeep)) fun room => read room cs :=
  ⟨RunsOut.evaluate, RunsOut.strictlyEqual, RunsOut.weaklyEqual, RunsOut.toInteger,
    RunsOut.applyNamed, RunsOut.read⟩

/-- `(eqv? '(1) '(1))` where the comparison of the lists has room for one call too few. -/
example : (Datum.list [.symbol "eqv?", .list [.symbol "quote", .list [.int 1]],
    .list [.symbol "quote", .list [.int 1]]]).evaluate (.frames 3) = Fault.tooDeep.raise := rfl

end Lisplet
