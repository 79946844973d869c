import Lisplet.Proofs.Form
import Lisplet.Proofs.WeakEquality

/-! More room never changes an answer. In less room a computation gives the same outcome or ends for
want of room; no comparison takes that for a difference. -/
namespace Lisplet
namespace Datum

variable {room room' : Room}

theorem toInteger_approximates (h : room ≤ room') (d : Datum) :
    Approximates (d.toInteger room) (d.toInteger room') := by
  induction d using induction_on generalizing room room' with
  | list items ih =>
    match items with
    | [] => exact .rfl
    | [d] => exact .enter h fun inner inner' hinner => ih d (by simp) hinner
    | _ :: _ :: _ => exact .rfl
  | _ => exact .rfl

theorem apartOnFault_approximates {o o' : Outcome Bool} (h : Approximates o o') :
    Approximates (apartOnFault o) (apartOnFault o') := by
  rcases h with rfl | rfl
  · exact .inl rfl
  · exact .rfl

theorem agreeUnder_approximates {α : Type} [BEq α] {coerce coerce' : Datum → Outcome α}
    (h : ∀ d, Approximates (coerce d) (coerce' d)) (a b : Datum) :
    Approximates (agreeUnder coerce a b) (agreeUnder coerce' a b) := by
  refine apartOnFault_approximates (.bind (h a) fun x => .bind (h b) fun y => .rfl)

theorem andThen_approximates {o o' p p' : Outcome Bool} (h : Approximates o o')
    (hp : Approximates p p') : Approximates (andThen o p) (andThen o' p') := by
  rcases h with rfl | rfl
  · exact .inl rfl
  · cases o with
    | error why => exact .rfl
    | ok x =>
      cases x with
      | false => exact .rfl
      | true => exact hp

theorem pairwise_approximates {compare compare' : Datum → Datum → Outcome Bool} {xs : List Datum}
    (h : ∀ x ∈ xs, ∀ y, Approximates (compare x y) (compare' x y)) (ys : List Datum) :
    Approximates (pairwise compare xs ys) (pairwise compare' xs ys) := by
  induction xs generalizing ys with
  | nil => cases ys <;> exact .rfl
  | cons x xs ih =>
    cases ys with
    | nil => exact .rfl
    | cons y ys =>
      obtain ⟨hx, hxs⟩ := List.forall_mem_cons.mp h
      exact andThen_approximates (apartOnFault_approximates (hx y)) (ih hxs ys)

theorem ofLength_approximates {xs ys : List Datum} {cost : Nat} {f : Room → Outcome Bool}
    (h : room ≤ room')
    (hf : ∀ inner inner', inner ≤ inner' → Approximates (f inner) (f inner')) :
    Approximates (if xs.length = ys.length then (room.enter cost).bind f else .ok false)
      (if xs.length = ys.length then (room'.enter cost).bind f else .ok false) := by
  split_ifs
  · exact .enter h hf
  · exact .rfl

theorem strictlyEqual_approximates (h : room ≤ room') (a b : Datum) :
    Approximates (strictlyEqual room a b) (strictlyEqual room' a b) := by
  induction a using induction_on generalizing b room room' with
  | list xs ih =>
    cases b with
    | list ys =>
      simp only [strictlyEqual, strictlyEqualAll_eq]
      exact ofLength_approximates h fun _ _ hinner =>
        pairwise_approximates (fun x hx y => ih x hx hinner y) ys
    | _ => exact .rfl
  | vector xs ih =>
    cases b with
    | vector ys =>
      simp only [strictlyEqual, strictlyEqualAll_eq]
      exact ofLength_approximates h fun _ _ hinner =>
        pairwise_approximates (fun x hx y => ih x hx hinner y) ys
    | _ => exact .rfl
  | dotted xs x ihhead ihtail =>
    cases b with
    | dotted ys y =>
      simp only [strictlyEqual, strictlyEqualAll_eq]
      exact ofLength_approximates h fun _ _ hinner => andThen_approximates
        (pairwise_approximates (fun x hx y => ihhead x hx hinner y) ys)
        (apartOnFault_approximates (ihtail hinner y))
    | _ => exact .rfl
  | _ => cases b <;> exact .rfl

theorem weaklyEqualWhole_approximates (h : room ≤ room') (a b : Datum) :
    Approximates (weaklyEqualWhole room a b) (weaklyEqualWhole room' a b) := by
  unfold weaklyEqualWhole
  refine .bind (agreeUnder_approximates (toInteger_approximates h) a b) fun integers => ?_
  refine .bind .rfl fun texts => .bind .rfl fun truths => ?_
  split_ifs
  · exact .rfl
  · exact strictlyEqual_approximates h a b

theorem weaklyEqual_approximates (h : room ≤ room') (a b : Datum) :
    Approximates (weaklyEqual room a b) (weaklyEqual room' a b) := by
  induction a using induction_on generalizing b room room' with
  | list xs ih =>
    cases b with
    | list ys =>
      simp only [weaklyEqual, weaklyEqualAll_eq]
      exact ofLength_approximates h fun _ _ hinner =>
        pairwise_approximates (fun x hx y => ih x hx hinner y) ys
    | _ => exact weaklyEqualWhole_approximates h _ _
  | dotted xs x ihhead ihtail =>
    cases b with
    | dotted ys y =>
      simp only [weaklyEqual, weaklyEqualAll_eq]
      exact ofLength_approximates h fun _ _ hinner => andThen_approximates
        (pairwise_approximates (fun x hx y => ihhead x hx hinner y) ys)
        (apartOnFault_approximates (ihtail hinner y))
    | _ => exact weaklyEqualWhole_approximates h _ _
  | _ => exact weaklyEqualWhole_approximates h _ _

end Datum

namespace Primitive

variable {room room' : Room}

theorem foldIntegers_approximates (h : room ≤ room') (op : Arithmetic) (d : Datum)
    (ds : List Datum) :
    Approximates (foldIntegers room op d ds) (foldIntegers room' op d ds) := by
  unfold foldIntegers
  refine .bind (Datum.toInteger_approximates h d) fun n => .bind ?_ fun _ => .rfl
  exact .mapM fun d _ => Datum.toInteger_approximates h d

theorem both_approximates {α : Type} {coerce coerce' : Datum → Outcome α}
    (h : ∀ d, Approximates (coerce d) (coerce' d)) (a b : Datum) :
    Approximates (both coerce a b) (both coerce' a b) :=
  .bind (h a) fun _ => .bind (h b) fun _ => .rfl

theorem apply_approximates (h : room ≤ room') (p : Primitive) (args : List Datum) :
    Approximates (p.apply room args) (p.apply room' args) := by
  induction p, args using arity_induction with
  | refused p args hp =>
    rw [apply_of_not_accepts room hp, apply_of_not_accepts room' hp]
    exact .rfl
  | fold op a b more => exact foldIntegers_approximates h op a (b :: more)
  | unary p a hp =>
    cases p with
    | fold | compareIntegers | compareTexts | conj | disj | textItem | cons | strict | weak =>
      cases hp
    | _ => exact .rfl
  | binary p a b hp =>
    cases p with
    | compareIntegers r => exact (both_approximates (Datum.toInteger_approximates h) a b).map _
    | strict => exact (Datum.strictlyEqual_approximates h a b).map _
    | weak => exact (Datum.weaklyEqual_approximates h a b).map _
    | compareTexts | conj | disj | textItem | cons => exact .rfl
    | _ => cases hp

theorem applyNamed_approximates (h : room ≤ room') (name : String) (args : List Datum) :
    Approximates (applyNamed room name args) (applyNamed room' name args) := by
  unfold applyNamed
  cases ofName? name with
  | none => exact .rfl
  | some p => exact apply_approximates h p args

end Primitive

namespace Datum

variable {room room' : Room}

theorem evalAll_approximates {ds : List Datum}
    (h : ∀ d ∈ ds, Approximates (d.eval room) (d.eval room')) :
    Approximates (evalAll room ds) (evalAll room' ds) := by
  induction ds with
  | nil => exact .rfl
  | cons d ds ih =>
    obtain ⟨hd, hds⟩ := List.forall_mem_cons.mp h
    exact .bind hd fun _ => .bind (ih hds) fun _ => .rfl

/-- More room changes no clause's outcome if it changes that of no form. -/
theorem eval_approximates (h : room ≤ room') (d : Datum) :
    Approximates (d.eval room) (d.eval room') := by
  induction d using form_induction
    (Q := fun clauses => ∀ room room' : Room, room ≤ room' →
      Approximates (evalClauses room clauses) (evalClauses room' clauses))
    generalizing room room' with
  | string | int | bool | quote => exact .rfl
  | branch test yes no ihtest ihyes ihno =>
    rw [eval_branch, eval_branch]
    refine .enter h fun inner inner' hinner => .bind (ihtest hinner) fun value => ?_
    split
    · exact ihyes hinner
    · exact ihno hinner
    · exact .rfl
  | cond clauses ih =>
    rw [eval_cond, eval_cond]
    exact .enter h (ih · ·)
  | application name operands happ ih =>
    rw [eval_of_isApplication room happ, eval_of_isApplication room' happ]
    refine .enter h fun inner inner' hinner => .bind ?_ fun args =>
      Primitive.applyNamed_approximates hinner name args
    exact evalAll_approximates fun d hd => ih d hd hinner
  | noForm d hd =>
    rw [eval_of_isNoForm room hd, eval_of_isNoForm room' hd]
    exact .rfl
  | noClause => exact .rfl
  | clause test body clauses ihtest ihbody ih room room' h =>
    rw [evalClauses, evalClauses]
    split_ifs
    · exact ihbody h
    · refine .bind (ihtest h) fun value => ?_
      split
      · exact ihbody h
      · exact ih room room' h
      · exact .rfl
  | listClause items clauses hitems room room' =>
    rw [evalClauses_list room hitems, evalClauses_list room' hitems]
    exact .rfl
  | otherClause d clauses hd room room' =>
    rw [evalClauses_other room hd, evalClauses_other room' hd]
    exact .rfl

end Datum
end Lisplet
