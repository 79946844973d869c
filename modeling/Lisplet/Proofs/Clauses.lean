import Lisplet.Proofs.EvaluationRules

/-! The clauses of a `cond`. The first clause whose test is true is evaluated as if it stood alone,
whatever follows it. Where every test is a truth value or fails, clauses with an unconditional one
behind them do what branches nested in each other do. -/
namespace Lisplet

namespace Datum

def cond (clauses : List Datum) : Datum := list (.symbol "cond" :: clauses)

def clauses (pairs : List (Datum × Datum)) : List Datum := pairs.map fun p => list [p.1, p.2]

/-- Branches, each in place of the second choice of the one before, and a last form within. -/
def branches : List (Datum × Datum) → Datum → Datum
  | [], last => last
  | (test, body) :: pairs, last => list [.symbol "if", test, body, branches pairs last]

section
variable {room inner : Room} {d d' test body last v : Datum} {before pairs : List (Datum × Datum)}

/-- Up to the first true test there is room for each test, or for none behind one that takes too
much. What follows is not looked at. -/
theorem evalClauses_selects (hle : inner ≤ room)
    (hbefore : ∀ p ∈ before, p.1.eval room = .ok (.bool false))
    (htest : test.eval room = .ok (.bool true)) (rest : List Datum) :
    evalClauses inner (clauses before ++ .list [test, body] :: rest) = body.eval inner ∨
      evalClauses inner (clauses before ++ .list [test, body] :: rest) = .error .exhausted ∧
        ∃ d ∈ test :: before.map Prod.fst, d.eval inner = .error .exhausted := by
  induction before with
  | nil =>
    rw [clauses, List.map_nil, List.nil_append, evalClauses_test (not_last_else (isElse_of_eval htest))]
    rcases eval_approximates hle test with hdeep | heq
    · rw [hdeep]
      exact .inr ⟨rfl, test, List.mem_cons_self, hdeep⟩
    · rw [heq, htest]
      exact .inl rfl
  | cons p before ih =>
    obtain ⟨hp, hbefore⟩ := List.forall_mem_cons.mp hbefore
    rw [clauses, List.map_cons, List.cons_append, ← clauses,
      evalClauses_test (not_last_else (isElse_of_eval hp))]
    rcases eval_approximates hle p.1 with hdeep | heq
    · rw [hdeep]
      exact .inr ⟨rfl, p.1, by simp, hdeep⟩
    · rw [heq, hp]
      refine (ih hbefore).imp_right fun ⟨hexhausted, d, hd, hdeep⟩ => ⟨hexhausted, d, ?_, hdeep⟩
      simp only [List.map_cons, List.mem_cons] at hd ⊢
      exact hd.imp_right .inr

/-- Where a branch is evaluated, a clause with the same test and body is, in no less room, if
another clause stands for what the branch does else. -/
theorem clause_of_branch {no : Datum} {rest : List Datum} (hle : inner ≤ room)
    (htest : ∀ v, test.eval room = .ok v → ∃ b, v = .bool b) (hne : rest ≠ [])
    (hno : Approximates (no.eval inner) (evalClauses room rest)) :
    Approximates (do
      match ← test.eval inner with
      | .bool true => body.eval inner
      | .bool false => no.eval inner
      | _ => (Fault.wrongType .bool test).raise)
      (evalClauses room (.list [test, body] :: rest)) := by
  rw [evalClauses_test fun h => hne h.2]
  rcases eval_approximates hle test with hdeep | heq
  · rw [hdeep]
    exact .inl rfl
  · rw [heq]
    cases hvalue : test.eval room with
    | error why => exact .rfl
    | ok v =>
      obtain ⟨b, rfl⟩ := htest v hvalue
      cases b with
      | true => exact eval_approximates hle body
      | false => exact hno

theorem branches_approximates (last : Datum)
    (htests : ∀ p ∈ pairs, ∀ v, p.1.eval room = .ok v → ∃ b, v = .bool b) :
    Approximates ((branches pairs last).eval room)
      (evalClauses room (clauses pairs ++ [.list [.symbol "else", last]])) := by
  induction pairs with
  | nil => exact .rfl
  | cons p pairs ih =>
    obtain ⟨hp, hpairs⟩ := List.forall_mem_cons.mp htests
    rw [branches, eval_branch]
    refine .of_enter fun inner henter => ?_
    have hle := Room.le_of_enter henter
    exact clause_of_branch hle hp (by simp) ((eval_approximates hle _).trans (ih hpairs))

theorem branches_approximates_cond (last : Datum)
    (htests : ∀ p ∈ pairs, ∀ v, p.1.eval room = .ok v → ∃ b, v = .bool b) (hne : pairs ≠ []) :
    Approximates ((branches pairs last).eval room)
      ((cond (clauses pairs ++ [.list [.symbol "else", last]])).eval room) := by
  obtain ⟨⟨test, body⟩, pairs, rfl⟩ := List.exists_cons_of_ne_nil hne
  rw [branches, eval_branch, cond, eval_cond]
  cases henter : room.enter evaluationWeight with
  | error why => exact .rfl
  | ok inner =>
    -- A test that has a value in the room within has it in the whole room too.
    have hinner : ∀ p ∈ (test, body) :: pairs, ∀ v, p.1.eval inner = .ok v → ∃ b, v = .bool b := by
      intro p hp v hv
      refine htests p hp v ?_
      rw [← (eval_approximates (Room.le_of_enter henter) p.1).eq (by simp [hv]), hv]
    obtain ⟨htest, hpairs⟩ := List.forall_mem_cons.mp hinner
    exact clause_of_branch (Room.le_refl inner) htest (by simp) (branches_approximates last hpairs)

theorem else_approximates (last : Datum) :
    Approximates ((cond [.list [.symbol "else", last]]).eval room) (last.eval room) := by
  rw [cond, eval_cond]
  exact .of_enter fun inner henter => eval_approximates (Room.le_of_enter henter) last

theorem evaluationDepth_le_clauses {p : Datum × Datum} (h : p ∈ pairs) :
    p.1.evaluationDepth ≤ evaluationDepthAll (clauses pairs) ∧
      p.2.evaluationDepth ≤ evaluationDepthAll (clauses pairs) := by
  have hclause : list [p.1, p.2] ∈ clauses pairs := List.mem_map_of_mem h
  have hle := evaluationDepth_le_all hclause
  simp only [evaluationDepth_list, evaluationDepthAll_cons] at hle
  omega

theorem cond_approximates_selected (hbefore : ∀ p ∈ before, p.1.eval room = .ok (.bool false))
    (htest : test.eval room = .ok (.bool true)) (rest : List Datum) :
    Approximates ((cond (clauses before ++ .list [test, body] :: rest)).eval room)
      (body.eval room) := by
  rw [cond, eval_cond]
  refine .of_enter fun inner henter => ?_
  have hle := Room.le_of_enter henter
  rcases evalClauses_selects hle hbefore htest rest with heq | ⟨hdeep, -⟩
  · rw [heq]
    exact eval_approximates hle body
  · exact .inl hdeep

theorem eval_cond_of_admits (hbefore : ∀ p ∈ before, p.1.eval room = .ok (.bool false))
    (htest : test.eval room = .ok (.bool true)) (rest : List Datum)
    (hroom : room.admits (cond (clauses (before ++ [(test, body)]))).evaluationDepth = true) :
    (cond (clauses before ++ .list [test, body] :: rest)).eval room = body.eval room := by
  have hfits : room.admits (evaluationWeight +
      evaluationDepthAll (clauses (before ++ [(test, body)]))) = true := by
    refine Room.admits_mono hroom ?_
    rw [cond, evaluationDepth_list, evaluationDepthAll_cons]
    exact Nat.add_le_add (by decide) (Nat.le_max_right _ _)
  obtain ⟨inner, henter, hinner⟩ := Room.enter_of_admits hfits
  have hle := Room.le_of_enter henter
  have hpart : ∀ p ∈ before ++ [(test, body)],
      p.1.eval inner ≠ .error .exhausted ∧ p.2.eval inner ≠ .error .exhausted := fun p hp =>
    ⟨eval_ne_exhausted (Room.admits_mono hinner (evaluationDepth_le_clauses hp).1),
      eval_ne_exhausted (Room.admits_mono hinner (evaluationDepth_le_clauses hp).2)⟩
  have hlast := hpart (test, body) (by simp)
  rw [cond, eval_cond, henter]
  rcases evalClauses_selects hle hbefore htest rest with heq | ⟨-, d, hd, hdeep⟩
  · exact heq.trans ((eval_approximates hle body).eq hlast.2)
  · rcases List.mem_cons.mp hd with rfl | hd
    · exact absurd hdeep hlast.1
    · obtain ⟨p, hp, rfl⟩ := List.mem_map.mp hd
      exact absurd hdeep (hpart p (List.mem_append_left _ hp)).1

end

/-- The first clause whose test is true, all tests before it being false, gives the outcome of its
body, and nothing that follows it is looked at. Where each test is a truth value or fails, also for
want of a meaning, clauses with an unconditional one behind them have the outcome of branches nested
in each other. Either is so unless the nesting is too deep, which it is not where three calls for
each level fit. -/
theorem cond_selects_like_branches (room : Room) :
    (∀ (before : List (Datum × Datum)) (test body : Datum) (rest : List Datum),
      (∀ p ∈ before, p.1.evaluate room = .ok (.bool false)) →
      test.evaluate room = .ok (.bool true) →
      ((cond (clauses before ++ .list [test, body] :: rest)).evaluate room =
          Fault.tooDeep.raise ∨
        (cond (clauses before ++ .list [test, body] :: rest)).evaluate room =
          body.evaluate room) ∧
      (room.admits (cond (clauses (before ++ [(test, body)]))).evaluationDepth = true →
        (cond (clauses before ++ .list [test, body] :: rest)).evaluate room =
          body.evaluate room)) ∧
    ∀ (pairs : List (Datum × Datum)) (last : Datum),
      (∀ p ∈ pairs, ∀ v, p.1.evaluate room = .ok v → ∃ b, v = .bool b) →
      ((branches pairs last).evaluate room = Fault.tooDeep.raise ∨
        (pairs = [] ∧ (cond (clauses pairs ++ [.list [.symbol "else", last]])).evaluate room =
          Fault.tooDeep.raise) ∨
        (cond (clauses pairs ++ [.list [.symbol "else", last]])).evaluate room =
          (branches pairs last).evaluate room) ∧
      (room.admits (cond (clauses pairs ++ [.list [.symbol "else", last]])).evaluationDepth =
          true →
        room.admits (branches pairs last).evaluationDepth = true →
        (cond (clauses pairs ++ [.list [.symbol "else", last]])).evaluate room =
          (branches pairs last).evaluate room) := by
  simp only [evaluate_eq_ok_iff]
  refine ⟨fun before test body rest hbefore htest => ⟨?_, fun hroom => ?_⟩,
    fun pairs last htests => ⟨?_, fun hcond hbranches => ?_⟩⟩
  · exact evaluate_of_approximates (cond_approximates_selected hbefore htest rest)
  · rw [evaluate, evaluate, eval_cond_of_admits hbefore htest rest hroom]
  · by_cases hnone : pairs = []
    · subst hnone
      exact .inr ((evaluate_of_approximates (else_approximates last)).imp_left fun h => ⟨rfl, h⟩)
    · rcases evaluate_of_approximates (branches_approximates_cond last htests hnone) with h | h
      · exact .inl h
      · exact .inr (.inr h.symm)
  · have heq : (cond (clauses pairs ++ [.list [.symbol "else", last]])).eval room =
        (branches pairs last).eval room := by
      by_cases hnone : pairs = []
      · subst hnone
        exact (else_approximates last).eq (eval_ne_exhausted hcond)
      · exact ((branches_approximates_cond last htests hnone).eq
          (eval_ne_exhausted hbranches)).symm
    rw [evaluate, evaluate, heq]

/-- A number in place of a clause is not looked at, and a mark of an unconditional clause that stands
before other clauses is a test without a value. -/
theorem cond_selects_like_branches_mark :
    (cond [.list [.bool false, .int 1], .list [.bool true, .int 2], .int 3]).evaluate .standard =
        .ok (.int 2) ∧
      (cond [.list [.symbol "else", .int 1], .list [.symbol "else", .int 2]]).evaluate .standard =
        (list [.symbol "if", .symbol "else", .int 1, .int 2]).evaluate .standard := by
  obtain ⟨hselects, hbranches⟩ := cond_selects_like_branches .standard
  have hfalse : ∀ p ∈ [(Datum.bool false, Datum.int 1)],
      p.1.evaluate .standard = .ok (.bool false) := by simp [evaluate, eval]
  have hmark : ∀ p ∈ [(Datum.symbol "else", Datum.int 1)], ∀ v,
      p.1.evaluate .standard = .ok v → ∃ b, v = .bool b := by simp [evaluate, eval, Fault.raise]
  exact ⟨(hselects [(.bool false, .int 1)] (.bool true) (.int 2) [.int 3] hfalse rfl).2 (by decide),
    (hbranches [(.symbol "else", .int 1)] (.int 2) hmark).2 (by decide) (by decide)⟩

end Datum
end Lisplet
