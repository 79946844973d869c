import Lisplet.Evaluation
import Lisplet.Proofs.Outcome
import Mathlib.Data.List.Forall2

/-! The shapes of forms. A list that begins with a symbol is a special form when the symbol names
one and the operands are as many as that takes, else it is an application. What neither stands for
itself nor is such a list is no form. -/
namespace Lisplet

def IsApplication (name : String) (count : Nat) : Prop :=
  ¬ (name = "quote" ∧ count = 1) ∧ ¬ (name = "if" ∧ count = 3) ∧ name ≠ "cond"

namespace SpecialForm

variable {name : String} {count : Nat}

theorem ofName?_eq_some_iff {f : SpecialForm} : ofName? name = some f ↔ name = f.name := by
  constructor
  · intro h
    have hname := List.find?_some h
    exact (beq_iff_eq.mp hname).symm
  · rintro rfl
    cases f <;> rfl

theorem recognise?_eq_some_iff {f : SpecialForm} :
    recognise? name count = some f ↔ name = f.name ∧ f.accepts count = true := by
  rw [recognise?, Option.filter_eq_some_iff, ofName?_eq_some_iff]

theorem recognise?_eq_none_iff : recognise? name count = none ↔ IsApplication name count := by
  rw [Option.eq_none_iff_forall_ne_some]
  simp only [ne_eq, recognise?_eq_some_iff]
  constructor
  · intro h
    refine ⟨fun hquote => h .quote ?_, fun hbranch => h .branch ?_, fun hcond => h .cond ?_⟩
    · simpa [SpecialForm.name, accepts, operands?] using hquote
    · simpa [SpecialForm.name, accepts, operands?] using hbranch
    · simpa [SpecialForm.name, accepts, operands?] using hcond
  · rintro ⟨hquote, hbranch, hcond⟩ f hf
    cases f with
    | quote => exact hquote (by simpa [SpecialForm.name, accepts, operands?] using hf)
    | branch => exact hbranch (by simpa [SpecialForm.name, accepts, operands?] using hf)
    | cond => exact hcond (by simpa [SpecialForm.name, accepts, operands?] using hf)

end SpecialForm

namespace Datum

/-- Neither a datum that stands for itself nor a list that begins with a symbol. -/
structure IsNoForm (d : Datum) : Prop where
  ne_string : ∀ s, d ≠ .string s
  ne_int : ∀ n, d ≠ .int n
  ne_bool : ∀ b, d ≠ .bool b
  ne_list : ∀ name operands, d ≠ .list (.symbol name :: operands)

section
variable {room : Room} {name : String} {d : Datum} {ds : List Datum}

theorem eval_of_isApplication (room : Room) (h : IsApplication name ds.length) :
    eval room (.list (.symbol name :: ds)) = (do
      let inner ← room.enter evaluationWeight
      let args ← evalAll inner ds
      Primitive.applyNamed inner name args) :=
  eval_application room name ds (SpecialForm.recognise?_eq_none_iff.mpr h)

theorem isNoForm_symbol (name : String) : IsNoForm (.symbol name) :=
  ⟨by simp, by simp, by simp, by simp⟩

theorem isElse_iff : d.isElse = true ↔ d = .symbol "else" := by
  cases d <;> simp [isElse, elseName]

theorem eval_of_isNoForm (room : Room) (h : d.IsNoForm) :
    eval room d = (Fault.badForm d).raise :=
  eval.eq_8 room d h.ne_string h.ne_int h.ne_bool h.ne_list

theorem isElse_of_eval {v : Datum} (h : d.eval room = .ok v) : d.isElse = false := by
  refine Bool.eq_false_iff.mpr fun helse => ?_
  have hsymbol : d = .symbol "else" := isElse_iff.mp helse
  rw [hsymbol, eval_of_isNoForm room (isNoForm_symbol "else")] at h
  cases h

/-- A clause with any other test has its test evaluated also where it is the last one. -/
theorem not_last_else (h : d.isElse = false) : ¬ (d = .symbol "else" ∧ ds = []) := by
  rintro ⟨rfl, -⟩
  cases h

theorem evalClauses_list (room : Room) {items : List Datum} (h : items.length ≠ 2) :
    evalClauses room (.list items :: ds) = (Fault.arity 2 items).raise := by
  refine evalClauses.eq_3 room items ds fun test body hitems => h ?_
  rw [hitems]
  rfl

theorem evalClauses_other (room : Room) (h : ∀ items, d ≠ .list items) :
    evalClauses room (d :: ds) = (Fault.arity 2 [d]).raise :=
  evalClauses.eq_4 room d ds (fun _ _ => h _) h

/-- Induction over forms and over the clauses of a `cond`, along their evaluation. -/
theorem form_induction {P : Datum → Prop} {Q : List Datum → Prop}
    (string : ∀ s, P (.string s)) (int : ∀ n, P (.int n)) (bool : ∀ b, P (.bool b))
    (quote : ∀ d, P (.list [.symbol "quote", d]))
    (branch : ∀ test yes no, P test → P yes → P no → P (.list [.symbol "if", test, yes, no]))
    (cond : ∀ clauses, Q clauses → P (.list (.symbol "cond" :: clauses)))
    (application : ∀ name operands, IsApplication name operands.length → (∀ d ∈ operands, P d) →
      P (.list (.symbol name :: operands)))
    (noForm : ∀ d, IsNoForm d → P d)
    (noClause : Q [])
    (clause : ∀ test body clauses, P test → P body → Q clauses → Q (.list [test, body] :: clauses))
    (listClause : ∀ items clauses, items.length ≠ 2 → Q (.list items :: clauses))
    (otherClause : ∀ d clauses, (∀ items, d ≠ .list items) → Q (d :: clauses)) (d : Datum) :
    P d := by
  refine eval.induct (fun _ d => P d) (fun _ ds => ∀ d ∈ ds, P d) (fun _ clauses => Q clauses)
    (fun _ => string) (fun _ => int) (fun _ => bool) ?_ ?_ ?_ ?_ ?_ ?_ ?_ ?_ ?_ ?_ ?_ ?_
    .unlimited d
  · intro _ name d h
    obtain ⟨rfl, -⟩ := SpecialForm.recognise?_eq_some_iff.mp h
    exact quote d
  · intro _ name test yes no h htest hyes hno
    obtain ⟨rfl, -⟩ := SpecialForm.recognise?_eq_some_iff.mp h
    exact branch test yes no (htest .unlimited) (hyes .unlimited) (hno .unlimited)
  · intro _ name clauses h hclauses
    obtain ⟨rfl, -⟩ := SpecialForm.recognise?_eq_some_iff.mp h
    exact cond clauses (hclauses .unlimited)
  · intro _ name operands hquote hbranch hcond hoperands
    refine application name operands (SpecialForm.recognise?_eq_none_iff.mp ?_)
      (hoperands .unlimited)
    refine Option.eq_none_iff_forall_ne_some.mpr fun f hf => ?_
    obtain ⟨-, hcount⟩ := SpecialForm.recognise?_eq_some_iff.mp hf
    cases f with
    | quote =>
      obtain ⟨d, hd⟩ := List.length_eq_one_iff.mp (beq_iff_eq.mp hcount)
      exact hquote d hf hd
    | branch =>
      obtain ⟨test, yes, no, hall⟩ := List.length_eq_three.mp (beq_iff_eq.mp hcount)
      exact hbranch test yes no hf hall
    | cond => exact hcond hf
  · intro _ d hstring hint hbool hlist
    exact noForm d ⟨hstring, hint, hbool, hlist⟩
  · intro _ d hd
    cases hd
  · intro _ d ds hd hds
    exact List.forall_mem_cons.mpr ⟨hd, hds⟩
  · exact fun _ => noClause
  · intro _ test body clauses helse hbody
    obtain ⟨htest, hclauses⟩ := Bool.and_eq_true_iff.mp helse
    obtain rfl := isElse_iff.mp htest
    obtain rfl := List.isEmpty_iff.mp hclauses
    exact clause _ body [] (noForm _ (isNoForm_symbol _)) hbody noClause
  · intro _ test body clauses _ htest hbody hclauses
    exact clause test body clauses htest hbody hclauses
  · intro _ items clauses h
    refine listClause items clauses fun hlength => ?_
    obtain ⟨test, body, rfl⟩ := List.length_eq_two.mp hlength
    exact h test body rfl
  · exact fun _ d clauses _ h => otherClause d clauses h

theorem evalAll_eq_ok_iff {values : List Datum} :
    evalAll room ds = .ok values ↔ List.Forall₂ (fun d v => eval room d = .ok v) ds values := by
  induction ds generalizing values with
  | nil => simp [evalAll, eq_comm]
  | cons d ds ih =>
    rw [evalAll, bind_eq_ok_iff]
    constructor
    · rintro ⟨v, hv, hrest⟩
      obtain ⟨vs, hvs, hall⟩ := bind_eq_ok_iff.mp hrest
      cases hall
      exact .cons hv (ih.mp hvs)
    · intro h
      cases h with
      | cons hv hvs => exact ⟨_, hv, bind_eq_ok_iff.mpr ⟨_, ih.mpr hvs, rfl⟩⟩

theorem evalAll_eq_error_iff {why : Failure} :
    evalAll room ds = .error why ↔ ∃ before d after values, ds = before ++ d :: after ∧
      List.Forall₂ (fun d v => eval room d = .ok v) before values ∧ eval room d = .error why := by
  induction ds with
  | nil => simp [evalAll]
  | cons x ds ih =>
    rw [evalAll, bind_eq_error_iff]
    constructor
    · rintro (hx | ⟨v, hv, hrest⟩)
      · exact ⟨[], x, ds, [], rfl, .nil, hx⟩
      · have hfail : evalAll room ds = .error why := by
          rcases bind_eq_error_iff.mp hrest with h | ⟨vs, -, h⟩
          · exact h
          · cases h
        obtain ⟨before, d, after, values, rfl, hbefore, hd⟩ := ih.mp hfail
        exact ⟨x :: before, d, after, v :: values, rfl, .cons hv hbefore, hd⟩
    · rintro ⟨before, d, after, values, hds, hbefore, hd⟩
      cases hbefore with
      | nil =>
        obtain ⟨rfl, -⟩ := List.cons_eq_cons.mp hds
        exact .inl hd
      | cons hv hbefore =>
        obtain ⟨rfl, rfl⟩ := List.cons_eq_cons.mp hds
        exact .inr ⟨_, hv, bind_eq_error_iff.mpr (.inl (ih.mpr ⟨_, d, after, _, rfl, hbefore, hd⟩))⟩

end
end Datum
end Lisplet
