import Lisplet.Proofs.EvaluationRules

/-! Evaluation sees only the value of a form. A form within another one, wherever it is evaluated as
an operand, as a test or as what is chosen, can be replaced by its quoted value. What is then shown
of a test that is no truth value may differ, for that is the test itself. -/
namespace Lisplet
namespace Datum

/-- A form with a hole for one of the parts that are evaluated. -/
inductive Frame
  | operand (name : String) (before after : List Datum)
      (application : IsApplication name (before.length + 1 + after.length))
  | branchTest (yes no : Datum)
  | branchYes (test no : Datum)
  | branchNo (test yes : Datum)
  | clauseTest (before : List Datum) (body : Datum) (after : List Datum)
  | clauseBody (before : List Datum) (test : Datum) (after : List Datum)

def Frame.fill (d : Datum) : Frame → Datum
  | .operand name before after _ => .list (.symbol name :: (before ++ d :: after))
  | .branchTest yes no => .list [.symbol "if", d, yes, no]
  | .branchYes test no => .list [.symbol "if", test, d, no]
  | .branchNo test yes => .list [.symbol "if", test, yes, d]
  | .clauseTest before body after =>
    .list (.symbol "cond" :: (before ++ .list [d, body] :: after))
  | .clauseBody before test after =>
    .list (.symbol "cond" :: (before ++ .list [test, d] :: after))

def plug (frames : List Frame) (d : Datum) : Datum := frames.foldr (fun f d => f.fill d) d

def quoted (d : Datum) : Datum := .list [.symbol "quote", d]

/-- The outcome of a form with `e` in it and that of the same form with the quoted `v` instead: they
are the same, or a test is reported that has `e` in the one and the quoted `v` in the other. -/
inductive Alike {α : Type} (e v : Datum) : Outcome α → Outcome α → Prop
  | same (o : Outcome α) : Alike e v o o
  | test (frames : List Frame) : Alike e v (Fault.wrongType .bool (plug frames e)).raise
      (Fault.wrongType .bool (plug frames (quoted v))).raise

/-- The same, but where the first form is evaluated there may not be enough room. -/
def AlikeInRoom {α : Type} (e v : Datum) (o o' : Outcome α) : Prop :=
  o = .error .exhausted ∨ Alike e v o o'

section
variable {α β : Type} {e v d d' : Datum} {o o' : Outcome α} {f f' : α → Outcome β} {room : Room}
  {frames : List Frame} {clauses clauses' : List Datum}

namespace AlikeInRoom

theorem same (o : Outcome α) : AlikeInRoom e v o o := .inr (.same o)

theorem bind (h : AlikeInRoom e v o o') (hf : ∀ a, AlikeInRoom e v (f a) (f' a)) :
    AlikeInRoom e v (o >>= f) (o' >>= f') := by
  rcases h with rfl | h
  · exact .inl rfl
  · cases h with
    | same o =>
      cases o with
      | ok a => exact hf a
      | error why => exact same _
    | test frames => exact .inr (.test frames)

theorem bind_right (o : Outcome α) (hf : ∀ a, AlikeInRoom e v (f a) (f' a)) :
    AlikeInRoom e v (o >>= f) (o >>= f') :=
  (same o).bind hf

end AlikeInRoom

theorem isElse_fill (f : Frame) (d : Datum) : (f.fill d).isElse = false := by
  cases f <;> rfl

theorem isElse_plug (frames : List Frame) (h : e.eval room = .ok v) :
    (plug frames e).isElse = false := by
  cases frames with
  | nil => exact isElse_of_eval h
  | cons f frames => exact isElse_fill f _

theorem evalAll_alike (h : AlikeInRoom e v (d.eval room) (d'.eval room))
    (before after : List Datum) :
    AlikeInRoom e v (evalAll room (before ++ d :: after)) (evalAll room (before ++ d' :: after)) := by
  induction before with
  | nil => exact h.bind fun value => .same _
  | cons x before ih => exact .bind_right _ fun value => ih.bind fun values => .same _

theorem evalClauses_alike
    (h : AlikeInRoom e v (evalClauses room (d :: clauses)) (evalClauses room (d' :: clauses)))
    (before : List Datum) :
    AlikeInRoom e v (evalClauses room (before ++ d :: clauses))
      (evalClauses room (before ++ d' :: clauses)) := by
  induction before with
  | nil => exact h
  | cons x before ih =>
    by_cases hclause : ∃ test body, x = .list [test, body]
    · obtain ⟨test, body, rfl⟩ := hclause
      have hnotLast : ∀ d, ¬ (test = .symbol "else" ∧ before ++ d :: clauses = []) := by simp
      rw [List.cons_append, List.cons_append, evalClauses_test (hnotLast d),
        evalClauses_test (hnotLast d')]
      refine .bind_right _ fun value => ?_
      split
      · exact .same _
      · exact ih
      · exact .same _
    · have hfails : ∀ rest rest', evalClauses room (x :: rest) = evalClauses room (x :: rest') := by
        intro rest rest'
        by_cases hlist : ∃ items, x = .list items
        · obtain ⟨items, rfl⟩ := hlist
          have hlength : items.length ≠ 2 := fun hlength => by
            obtain ⟨test, body, rfl⟩ := List.length_eq_two.mp hlength
            exact hclause ⟨test, body, rfl⟩
          rw [evalClauses_list room hlength, evalClauses_list room hlength]
        · have hother : ∀ items, x ≠ .list items := fun items heq => hlist ⟨items, heq⟩
          rw [evalClauses_other room hother, evalClauses_other room hother]
      rw [List.cons_append, List.cons_append, hfails _ (before ++ d' :: clauses)]
      exact .same _

theorem evalClauses_alike_test (helse : d.isElse = false) (helse' : d'.isElse = false)
    (h : AlikeInRoom e v (d.eval room) (d'.eval room)) (body : Datum) :
    AlikeInRoom e v (evalClauses room (.list [d, body] :: clauses))
      (evalClauses room (.list [d', body] :: clauses)) := by
  rw [evalClauses_test (not_last_else helse), evalClauses_test (not_last_else helse')]
  refine h.bind fun value => ?_
  split
  · exact .same _
  · exact .same _
  · exact .same _

theorem evalClauses_alike_body (h : AlikeInRoom e v (d.eval room) (d'.eval room)) (test : Datum) :
    AlikeInRoom e v (evalClauses room (.list [test, d] :: clauses))
      (evalClauses room (.list [test, d'] :: clauses)) := by
  rw [evalClauses, evalClauses]
  split_ifs
  · exact h
  · refine .bind_right _ fun value => ?_
    split
    · exact h
    · exact .same _
    · exact .same _

theorem fill_alike (f : Frame) (helse : (plug frames e).isElse = false)
    (helse' : (plug frames (quoted v)).isElse = false)
    (h : ∀ room, AlikeInRoom e v ((plug frames e).eval room) ((plug frames (quoted v)).eval room))
    (room : Room) :
    AlikeInRoom e v ((f.fill (plug frames e)).eval room)
      ((f.fill (plug frames (quoted v))).eval room) := by
  cases f with
  | operand name before after happ =>
    have hcount : ∀ d, IsApplication name (before ++ d :: after).length := fun d => by
      rwa [List.length_append, List.length_cons, Nat.add_comm after.length, ← Nat.add_assoc]
    rw [Frame.fill, Frame.fill, eval_of_isApplication room (hcount _),
      eval_of_isApplication room (hcount _)]
    refine .bind_right _ fun inner => ?_
    exact (evalAll_alike (h inner) before after).bind fun args => .same _
  | branchTest yes no =>
    rw [Frame.fill, Frame.fill, eval_branch, eval_branch]
    refine .bind_right _ fun inner => (h inner).bind fun value => ?_
    split
    · exact .same _
    · exact .same _
    · exact .inr (.test frames)
  | branchYes test no =>
    rw [Frame.fill, Frame.fill, eval_branch, eval_branch]
    refine .bind_right _ fun inner => .bind_right _ fun value => ?_
    split
    · exact h inner
    · exact .same _
    · exact .same _
  | branchNo test yes =>
    rw [Frame.fill, Frame.fill, eval_branch, eval_branch]
    refine .bind_right _ fun inner => .bind_right _ fun value => ?_
    split
    · exact .same _
    · exact h inner
    · exact .same _
  | clauseTest before body after =>
    rw [Frame.fill, Frame.fill, eval_cond, eval_cond]
    refine .bind_right _ fun inner => evalClauses_alike ?_ before
    exact evalClauses_alike_test helse helse' (h inner) body
  | clauseBody before test after =>
    rw [Frame.fill, Frame.fill, eval_cond, eval_cond]
    refine .bind_right _ fun inner => evalClauses_alike ?_ before
    exact evalClauses_alike_body (h inner) test

theorem plug_alike (h : e.eval room = .ok v) (frames : List Frame) (room' : Room) :
    AlikeInRoom e v ((plug frames e).eval room') ((plug frames (quoted v)).eval room') := by
  have hquoted : (quoted v).eval room = .ok v := eval_quote room v
  induction frames generalizing room' with
  | nil =>
    -- In another room the form has the same value, or there is not enough room for it.
    have hvalue : e.eval .unlimited = .ok v := by
      rw [← h]
      refine ((eval_approximates .unlimited e).eq ?_).symm
      rw [h]
      simp
    rcases eval_approximates .unlimited e with hdeep | heq
    · exact .inl hdeep
    · have hboth : e.eval room' = (quoted v).eval room' := heq.trans hvalue
      rw [plug, List.foldr_nil, hboth]
      exact .same _
  | cons f frames ih => exact fill_alike f (isElse_plug frames h) (isElse_plug frames hquoted) ih room'

theorem Alike.ne_exhausted (h : Alike e v o o') (hne : o ≠ .error .exhausted) :
    o' ≠ .error .exhausted := by
  cases h with
  | same => exact hne
  | test => simp [Fault.raise]

theorem Alike.evaluate (h : Alike e v (d.eval room) (d'.eval room))
    (hne : d.eval room ≠ .error .exhausted) :
    Alike e v (d.evaluate room) (d'.evaluate room) := by
  rw [evaluate_of_ne_exhausted hne, evaluate_of_ne_exhausted (h.ne_exhausted hne)]
  exact h

/-- A form that has a value can be replaced by the quoted value wherever it is evaluated within
another form. Both forms have the same value or fail the same way, but for the test that is reported
if it is no truth value, unless the nesting of the first is too deep for the room. It is not where
three calls for each of its levels fit. -/
theorem evaluate_plug_alike (h : e.evaluate room = .ok v) (frames : List Frame) (room' : Room) :
    ((plug frames e).evaluate room' = Fault.tooDeep.raise ∨
      Alike e v ((plug frames e).evaluate room') ((plug frames (quoted v)).evaluate room')) ∧
    (room'.admits (plug frames e).evaluationDepth = true →
      Alike e v ((plug frames e).evaluate room') ((plug frames (quoted v)).evaluate room')) := by
  have halike := plug_alike (evaluate_eq_ok_iff.mp h) frames room'
  refine ⟨?_, fun hroom => ?_⟩
  · by_cases hdeep : (plug frames e).eval room' = .error .exhausted
    · exact .inl (evaluate_of_exhausted hdeep)
    · exact .inr ((halike.resolve_left hdeep).evaluate hdeep)
  · have hne := eval_ne_exhausted hroom
    exact (halike.resolve_left hne).evaluate hne

/-- In `(cons 0 (cond (#f 1) ((eqv? (+ 1 2) 3) 4)))` the sum is replaced by its value. -/
theorem evaluate_plug_alike_sum :
    (list [.symbol "+", .int 1, .int 2]).evaluate .standard = .ok (.int 3) ∧
    Alike (list [.symbol "+", .int 1, .int 2]) (.int 3)
      ((list [.symbol "cons", .int 0, list [.symbol "cond", list [.bool false, .int 1],
        list [list [.symbol "eqv?", list [.symbol "+", .int 1, .int 2], .int 3],
          .int 4]]]).evaluate .standard)
      ((list [.symbol "cons", .int 0, list [.symbol "cond", list [.bool false, .int 1],
        list [list [.symbol "eqv?", quoted (.int 3), .int 3], .int 4]]]).evaluate .standard) := by
  have hvalue : (list [.symbol "+", .int 1, .int 2]).evaluate .standard = .ok (.int 3) := rfl
  have hcons : IsApplication "cons" 2 := by simp [IsApplication]
  have heqv : IsApplication "eqv?" 2 := by simp [IsApplication]
  have halike := evaluate_plug_alike hvalue [.operand "cons" [.int 0] [] hcons,
    .clauseTest [list [.bool false, .int 1]] (.int 4) [], .operand "eqv?" [] [.int 3] heqv] .standard
  exact ⟨hvalue, halike.2 rfl⟩

end
end Datum
end Lisplet
