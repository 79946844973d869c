import Lisplet.Proofs.EvaluationRoom
import Lisplet.Proofs.MoreRoom

/-! The rules of evaluation, without room: which outcome a form has, from the outcomes of its parts.
The evaluator gives the outcome of the rules, or says that the room does not suffice. -/
namespace Lisplet
namespace Datum

inductive Evaluates : Datum → Outcome Datum → Prop
  | string (s : String) : Evaluates (.string s) (.ok (.string s))
  | int (n : Int) : Evaluates (.int n) (.ok (.int n))
  | bool (b : Bool) : Evaluates (.bool b) (.ok (.bool b))
  | quote (d : Datum) : Evaluates (.list [.symbol "quote", d]) (.ok d)
  | branchTrue {test yes no : Datum} {o : Outcome Datum} :
      Evaluates test (.ok (.bool true)) → Evaluates yes o →
      Evaluates (.list [.symbol "if", test, yes, no]) o
  | branchFalse {test yes no : Datum} {o : Outcome Datum} :
      Evaluates test (.ok (.bool false)) → Evaluates no o →
      Evaluates (.list [.symbol "if", test, yes, no]) o
  /-- The report shows the test as it is written, not its value. -/
  | branchOther {test yes no v : Datum} :
      Evaluates test (.ok v) → (∀ b, v ≠ .bool b) →
      Evaluates (.list [.symbol "if", test, yes, no]) (Fault.wrongType .bool test).raise
  | branchFails {test yes no : Datum} {why : Failure} :
      Evaluates test (.error why) → Evaluates (.list [.symbol "if", test, yes, no]) (.error why)
  | condNone : Evaluates (.list [.symbol "cond"]) Fault.noClause.raise
  | condNoList {clause : Datum} {clauses : List Datum} :
      (∀ items, clause ≠ .list items) →
      Evaluates (.list (.symbol "cond" :: clause :: clauses)) (Fault.arity 2 [clause]).raise
  | condLength {items clauses : List Datum} :
      items.length ≠ 2 →
      Evaluates (.list (.symbol "cond" :: .list items :: clauses)) (Fault.arity 2 items).raise
  | condElse {body : Datum} {o : Outcome Datum} :
      Evaluates body o →
      Evaluates (.list [.symbol "cond", .list [.symbol "else", body]]) o
  | condTrue {test body : Datum} {clauses : List Datum} {o : Outcome Datum} :
      ¬ (test = .symbol "else" ∧ clauses = []) → Evaluates test (.ok (.bool true)) →
      Evaluates body o → Evaluates (.list (.symbol "cond" :: .list [test, body] :: clauses)) o
  | condFalse {test body : Datum} {clauses : List Datum} {o : Outcome Datum} :
      ¬ (test = .symbol "else" ∧ clauses = []) → Evaluates test (.ok (.bool false)) →
      Evaluates (.list (.symbol "cond" :: clauses)) o →
      Evaluates (.list (.symbol "cond" :: .list [test, body] :: clauses)) o
  | condOther {test body v : Datum} {clauses : List Datum} :
      ¬ (test = .symbol "else" ∧ clauses = []) → Evaluates test (.ok v) → (∀ b, v ≠ .bool b) →
      Evaluates (.list (.symbol "cond" :: .list [test, body] :: clauses))
        (Fault.wrongType .boolean v).raise
  | condFails {test body : Datum} {clauses : List Datum} {why : Failure} :
      ¬ (test = .symbol "else" ∧ clauses = []) → Evaluates test (.error why) →
      Evaluates (.list (.symbol "cond" :: .list [test, body] :: clauses)) (.error why)
  | operandFails {name : String} {before after values : List Datum} {d : Datum} {why : Failure} :
      IsApplication name (before ++ d :: after).length → before.length = values.length →
      (∀ x v, (x, v) ∈ before.zip values → Evaluates x (.ok v)) → Evaluates d (.error why) →
      Evaluates (.list (.symbol name :: (before ++ d :: after))) (.error why)
  | unknown {name : String} {operands values : List Datum} :
      IsApplication name operands.length → operands.length = values.length →
      (∀ x v, (x, v) ∈ operands.zip values → Evaluates x (.ok v)) →
      Primitive.ofName? name = none →
      Evaluates (.list (.symbol name :: operands)) (Fault.notFunction name).raise
  | application {name : String} {operands values : List Datum} {p : Primitive} :
      IsApplication name operands.length → operands.length = values.length →
      (∀ x v, (x, v) ∈ operands.zip values → Evaluates x (.ok v)) →
      Primitive.ofName? name = some p →
      Evaluates (.list (.symbol name :: operands)) (p.apply .unlimited values)
  | noForm {d : Datum} : IsNoForm d → Evaluates d (Fault.badForm d).raise

section
variable {name : String} {test yes no body : Datum} {operands clauses values : List Datum}

theorem eval_cond_unlimited (clauses : List Datum) :
    eval .unlimited (.list (.symbol "cond" :: clauses)) = evalClauses .unlimited clauses :=
  eval_cond .unlimited clauses

theorem eval_branch_unlimited (test yes no : Datum) :
    eval .unlimited (.list [.symbol "if", test, yes, no]) = (do
      match ← test.eval .unlimited with
      | .bool true => yes.eval .unlimited
      | .bool false => no.eval .unlimited
      | _ => (Fault.wrongType .bool test).raise) :=
  eval_branch .unlimited test yes no

theorem eval_application_unlimited (happ : IsApplication name operands.length) :
    eval .unlimited (.list (.symbol name :: operands)) = (do
      let values ← evalAll .unlimited operands
      Primitive.applyNamed .unlimited name values) :=
  eval_of_isApplication .unlimited happ

theorem evaluates_branch (htest : Evaluates test (test.eval .unlimited))
    (hyes : Evaluates yes (yes.eval .unlimited)) (hno : Evaluates no (no.eval .unlimited)) :
    Evaluates (.list [.symbol "if", test, yes, no])
      (eval .unlimited (.list [.symbol "if", test, yes, no])) := by
  rw [eval_branch_unlimited]
  cases h : test.eval .unlimited with
  | error why =>
    rw [h] at htest
    exact .branchFails htest
  | ok v =>
    rw [h] at htest
    simp only [bind, Except.bind]
    split
    · exact .branchTrue htest hyes
    · exact .branchFalse htest hno
    · next htrue hfalse => exact .branchOther htest (Bool.rec hfalse htrue)

/-- The operands have their values, or the first without one gives its failure. -/
theorem evaluates_application (happ : IsApplication name operands.length)
    (h : ∀ d ∈ operands, Evaluates d (d.eval .unlimited)) :
    Evaluates (.list (.symbol name :: operands))
      (eval .unlimited (.list (.symbol name :: operands))) := by
  have hvalue : ∀ d ∈ operands, ∀ v, d.eval .unlimited = .ok v → Evaluates d (.ok v) :=
    fun d hd v hv => hv ▸ h d hd
  rw [eval_application_unlimited happ]
  cases hall : evalAll .unlimited operands with
  | error why =>
    -- The first operand without a value ends the evaluation before the name is looked up.
    obtain ⟨before, d, after, values, rfl, hbefore, hd⟩ := evalAll_eq_error_iff.mp hall
    obtain ⟨hlength, hzip⟩ := List.forall₂_iff_zip.mp hbefore
    refine .operandFails happ hlength (fun x v hxv => ?_) (hd ▸ h d (by simp))
    exact hvalue x (List.mem_append_left _ (List.of_mem_zip hxv).1) v (hzip hxv)
  | ok values =>
    obtain ⟨hlength, hzip⟩ := List.forall₂_iff_zip.mp (evalAll_eq_ok_iff.mp hall)
    have hvalues : ∀ x v, (x, v) ∈ operands.zip values → Evaluates x (.ok v) :=
      fun x v hxv => hvalue x (List.of_mem_zip hxv).1 v (hzip hxv)
    simp only [bind, Except.bind, Primitive.applyNamed]
    cases hname : Primitive.ofName? name with
    | none => exact .unknown happ hlength hvalues hname
    | some p => exact .application happ hlength hvalues hname

theorem evaluates_clause (htest : Evaluates test (test.eval .unlimited))
    (hbody : Evaluates body (body.eval .unlimited))
    (hclauses : Evaluates (.list (.symbol "cond" :: clauses)) (evalClauses .unlimited clauses)) :
    Evaluates (.list (.symbol "cond" :: .list [test, body] :: clauses))
      (evalClauses .unlimited (.list [test, body] :: clauses)) := by
  rw [evalClauses]
  split_ifs with helse
  · obtain ⟨hsymbol, hlast⟩ := Bool.and_eq_true_iff.mp helse
    obtain rfl := isElse_iff.mp hsymbol
    obtain rfl := List.isEmpty_iff.mp hlast
    exact .condElse hbody
  · rw [Bool.and_eq_true_iff, isElse_iff, List.isEmpty_iff] at helse
    cases h : test.eval .unlimited with
    | error why => exact .condFails helse (h ▸ htest)
    | ok v =>
      rw [h] at htest
      simp only [bind, Except.bind]
      split
      · exact .condTrue helse htest hbody
      · exact .condFalse helse htest hclauses
      · next htrue hfalse => exact .condOther helse htest (Bool.rec hfalse htrue)

theorem evaluates_eval (d : Datum) : Evaluates d (d.eval .unlimited) := by
  induction d using form_induction
    (Q := fun clauses =>
      Evaluates (.list (.symbol "cond" :: clauses)) (evalClauses .unlimited clauses)) with
  | string s => exact .string s
  | int n => exact .int n
  | bool b => exact .bool b
  | quote d => exact .quote d
  | branch test yes no htest hyes hno => exact evaluates_branch htest hyes hno
  | cond clauses hclauses => exact eval_cond_unlimited clauses ▸ hclauses
  | application name operands happ h => exact evaluates_application happ h
  | noForm d hd => exact eval_of_isNoForm .unlimited hd ▸ .noForm hd
  | noClause => exact .condNone
  | clause test body clauses htest hbody hclauses => exact evaluates_clause htest hbody hclauses
  | listClause items clauses hitems =>
    exact evalClauses_list .unlimited hitems ▸ .condLength hitems
  | otherClause d clauses hd => exact evalClauses_other .unlimited hd ▸ .condNoList hd

theorem evalAll_of_zip (hlength : operands.length = values.length)
    (h : ∀ x v, (x, v) ∈ operands.zip values → x.eval .unlimited = .ok v) :
    evalAll .unlimited operands = .ok values :=
  evalAll_eq_ok_iff.mpr (List.forall₂_iff_zip.mpr ⟨hlength, h _ _⟩)

theorem evalClauses_test {room : Room} (helse : ¬ (test = .symbol "else" ∧ clauses = [])) :
    evalClauses room (.list [test, body] :: clauses) = (do
      match ← test.eval room with
      | .bool true => body.eval room
      | .bool false => evalClauses room clauses
      | value => (Fault.wrongType .boolean value).raise) := by
  rw [← isElse_iff, ← List.isEmpty_iff, ← Bool.and_eq_true_iff] at helse
  rw [evalClauses]
  exact if_neg helse

theorem eval_of_evaluates {d : Datum} {o : Outcome Datum} (h : Evaluates d o) :
    d.eval .unlimited = o := by
  induction h with
  | string | int | bool | quote => rfl
  | branchTrue _ _ htest hyes =>
    rw [eval_branch_unlimited, htest]
    exact hyes
  | branchFalse _ _ htest hno =>
    rw [eval_branch_unlimited, htest]
    exact hno
  | @branchOther test yes no v _ hv htest =>
    rw [eval_branch_unlimited, htest]
    cases v with
    | bool b => exact absurd rfl (hv b)
    | _ => rfl
  | branchFails _ htest => rw [eval_branch_unlimited, htest]; rfl
  | condNone => rfl
  | condNoList hclause => exact evalClauses_other .unlimited hclause
  | condLength hitems => exact evalClauses_list .unlimited hitems
  | condElse _ hbody => exact hbody
  | condTrue helse _ _ htest hbody =>
    rw [eval_cond_unlimited, evalClauses_test helse, htest]
    exact hbody
  | condFalse helse _ _ htest hclauses =>
    rw [eval_cond_unlimited, evalClauses_test helse, htest]
    exact hclauses
  | @condOther test body v clauses helse _ hv htest =>
    rw [eval_cond_unlimited, evalClauses_test helse, htest]
    cases v with
    | bool b => exact absurd rfl (hv b)
    | _ => rfl
  | condFails helse _ htest => rw [eval_cond_unlimited, evalClauses_test helse, htest]; rfl
  | operandFails happ hlength _ _ hbefore hd =>
    have hall := List.forall₂_iff_zip.mpr ⟨hlength, hbefore _ _⟩
    rw [eval_application_unlimited happ,
      evalAll_eq_error_iff.mpr ⟨_, _, _, _, rfl, hall, hd⟩]
    rfl
  | unknown happ hlength _ hname hoperands =>
    rw [eval_application_unlimited happ, evalAll_of_zip hlength hoperands]
    simp only [bind, Except.bind, Primitive.applyNamed, hname]
  | application happ hlength _ hname hoperands =>
    rw [eval_application_unlimited happ, evalAll_of_zip hlength hoperands]
    simp only [bind, Except.bind, Primitive.applyNamed, hname]
  | noForm hd => exact eval_of_isNoForm .unlimited hd

end

theorem evaluates_iff {d : Datum} {o : Outcome Datum} : Evaluates d o ↔ d.eval .unlimited = o :=
  ⟨eval_of_evaluates, fun h => h ▸ evaluates_eval d⟩

section
variable {room : Room} {d d' v : Datum}

theorem evaluate_of_exhausted (h : d.eval room = .error .exhausted) :
    d.evaluate room = Fault.tooDeep.raise := by
  rw [evaluate, h]

theorem evaluate_of_ne_exhausted (h : d.eval room ≠ .error .exhausted) :
    d.evaluate room = d.eval room := by
  unfold evaluate
  split
  · contradiction
  · rfl

theorem evaluate_eq_ok_iff : d.evaluate room = .ok v ↔ d.eval room = .ok v := by
  by_cases h : d.eval room = .error .exhausted
  · rw [evaluate_of_exhausted h, h]
    exact ⟨nofun, nofun⟩
  · rw [evaluate_of_ne_exhausted h]

theorem evaluate_of_approximates (h : Approximates (d.eval room) (d'.eval room)) :
    d.evaluate room = Fault.tooDeep.raise ∨ d.evaluate room = d'.evaluate room := by
  rcases h with hdeep | heq
  · exact .inl (evaluate_of_exhausted hdeep)
  · exact .inr (by rw [evaluate, evaluate, heq])

theorem evaluate_eq_iff_of_ne_exhausted (h : d.eval room ≠ .error .exhausted)
    (o : Outcome Datum) : d.evaluate room = o ↔ Evaluates d o := by
  have hroom : d.eval room = d.eval .unlimited := (eval_approximates .unlimited d).eq h
  rw [evaluate_of_ne_exhausted h, evaluates_iff, hroom]

theorem eval_ne_exhausted (h : room.admits d.evaluationDepth = true) :
    d.eval room ≠ .error .exhausted :=
  (eval_failsOnly room d).ne_exhausted h

/-- The evaluator says that the nesting is too deep, or gives the outcome that the rules give and no
other. It does the latter where three calls for each level of the form fit. -/
theorem evaluate_eq_iff_evaluates (room : Room) (form : Datum) :
    (form.evaluate room = Fault.tooDeep.raise ∨
      ∀ o, form.evaluate room = o ↔ Evaluates form o) ∧
    (room.admits form.evaluationDepth = true →
      ∀ o, form.evaluate room = o ↔ Evaluates form o) := by
  refine ⟨?_, fun h => evaluate_eq_iff_of_ne_exhausted (eval_ne_exhausted h)⟩
  by_cases h : form.eval room = .error .exhausted
  · exact .inl (evaluate_of_exhausted h)
  · exact .inr (evaluate_eq_iff_of_ne_exhausted h)

/-- `(if (eqv? 1 1) (cond (#f 1) (else (cons 1 2))) 3)`. -/
theorem evaluate_eq_iff_evaluates_nested :
    Room.standard.admits (evaluationDepth (.list [.symbol "if",
      .list [.symbol "eqv?", .int 1, .int 1],
      .list [.symbol "cond", .list [.bool false, .int 1],
        .list [.symbol "else", .list [.symbol "cons", .int 1, .int 2]]],
      .int 3])) = true ∧
    Evaluates (.list [.symbol "if",
      .list [.symbol "eqv?", .int 1, .int 1],
      .list [.symbol "cond", .list [.bool false, .int 1],
        .list [.symbol "else", .list [.symbol "cons", .int 1, .int 2]]],
      .int 3]) (.ok (.dotted [.int 1] (.int 2))) := by
  have hroom : Room.standard.admits (evaluationDepth (.list [.symbol "if",
      .list [.symbol "eqv?", .int 1, .int 1],
      .list [.symbol "cond", .list [.bool false, .int 1],
        .list [.symbol "else", .list [.symbol "cons", .int 1, .int 2]]],
      .int 3])) = true := by decide +kernel
  exact ⟨hroom, ((evaluate_eq_iff_evaluates _ _).2 hroom _).mp rfl⟩

end

end Datum
end Lisplet
