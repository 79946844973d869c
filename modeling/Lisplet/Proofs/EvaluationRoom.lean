import Lisplet.Proofs.EvaluationValue
import Lisplet.Proofs.WeakEquality

/-! How evaluation can fail, and how much room it takes. It fails by a fault or by the limit on
digits, and for want of room only where three nested calls for each level of the form do not fit:
the value of a form is nested no deeper than the form, so primitives need no more room for it. The
limit on digits is met only by texts with a long run of digits and by primitives that write
integers. -/
namespace Lisplet

inductive Failure.DigitLimit : Failure → Prop
  | read (digits : Nat) : DigitLimit (.longNumeral digits)
  | written : DigitLimit .longInteger

inductive Failure.Ordinary : Failure → Prop
  | fault (f : Fault) : Ordinary (.fault f)
  | digitLimit {why : Failure} : why.DigitLimit → Ordinary why

def Fault.OfProgram : Fault → Prop
  | .unreadable _ | .tooDeep => False
  | _ => True

/-- The failures of evaluating a form where there is room. Whether the limit on digits is among them
is left open. -/
inductive Failure.OfProgram (digits : Prop) : Failure → Prop
  | fault {f : Fault} : f.OfProgram → OfProgram digits (.fault f)
  | digitLimit {why : Failure} : digits → why.DigitLimit → OfProgram digits why

theorem Failure.OfProgram.ordinary {digits : Prop} {why : Failure} (h : why.OfProgram digits) :
    why.Ordinary := by
  cases h with
  | fault => exact .fault _
  | digitLimit _ hwhy => exact .digitLimit hwhy

theorem FailsOnly.ne_exhausted {α : Type} {digits : Prop} {room : Room} {n : Nat} {o : Outcome α}
    (h : FailsOnly (Failure.OfProgram digits) room n o) (hroom : room.admits n = true) :
    o ≠ .error .exhausted := by
  intro ho
  rcases h .exhausted ho with hkind | ⟨-, hnot⟩
  · rcases hkind with _ | ⟨-, hlimit⟩
    cases hlimit
  · rw [hroom] at hnot
    cases hnot

namespace Datum

/-- A text or name that has no run of digits which is too long for an integer. -/
def HasShortRuns : Datum → Prop
  | .string s | .symbol s => ShortRuns s
  | _ => True

def levelWeight : Nat := 3

/-- The room that evaluating a form takes at most, and that primitives take for an argument. -/
def evaluationDepth (d : Datum) : Nat := d.depth levelWeight levelWeight levelWeight

def evaluationDepthAll (ds : List Datum) : Nat := depthAll levelWeight levelWeight levelWeight ds

theorem evaluationDepth_list (items : List Datum) :
    evaluationDepth (.list items) = levelWeight + evaluationDepthAll items := by
  rw [evaluationDepth, depth, evaluationDepthAll]

theorem evaluationDepth_vector (items : List Datum) :
    evaluationDepth (.vector items) = levelWeight + evaluationDepthAll items := by
  rw [evaluationDepth, depth, evaluationDepthAll]

theorem evaluationDepth_dotted (head : List Datum) (tail : Datum) :
    evaluationDepth (.dotted head tail) =
      levelWeight + max (evaluationDepthAll head) tail.evaluationDepth := by
  rw [evaluationDepth, depth, evaluationDepthAll, evaluationDepth, Nat.add_max_add_left]

@[simp] theorem evaluationDepthAll_nil : evaluationDepthAll [] = 0 := rfl

@[simp] theorem evaluationDepthAll_cons (d : Datum) (ds : List Datum) :
    evaluationDepthAll (d :: ds) = max d.evaluationDepth (evaluationDepthAll ds) := by
  rw [evaluationDepthAll, depthAll, evaluationDepth, evaluationDepthAll]

theorem evaluationDepth_le_all {d : Datum} {ds : List Datum} (h : d ∈ ds) :
    d.evaluationDepth ≤ evaluationDepthAll ds :=
  depth_le_depthAll h

section
variable {room : Room} {P : Failure → Prop} {digits : Prop} {a b d v : Datum}
  {ds xs ys : List Datum} {n : Nat}

theorem integerOfText_failsOnly {s : String} (h : ¬ digits → ShortRuns s) :
    FailsOnly (Failure.OfProgram digits) room n (integerOfText s) := by
  have hsplits := LeadingInteger.splits_of s.toList
  rcases integerOfText_cases hsplits with ⟨-, hfault⟩ | ⟨-, -, hlong, hwhy⟩ | ⟨-, -, -, hok⟩
  · rw [hfault]
    exact .of_error (.fault trivial)
  · have hdigits : digits := by
      by_contra hnot
      have hlength := h hnot _ (LeadingInteger.digits_isInfix s.toList) hsplits.digits_all
      exact Nat.not_lt.mpr hlength hlong
    rw [hwhy]
    exact .of_error (.digitLimit hdigits (.read _))
  · rw [hok]
    exact .of_ok _

theorem toInteger_failsOnly (d : Datum) (h : ¬ digits → d.Throughout HasShortRuns) :
    FailsOnly (Failure.OfProgram digits) room d.evaluationDepth (d.toInteger room) := by
  induction d using induction_on generalizing room with
  | int n => exact .of_ok n
  | string s => exact integerOfText_failsOnly h
  | list items ih =>
    match items with
    | [] | _ :: _ :: _ => exact .of_error (.fault trivial)
    | [d] =>
      have hitem : ¬ digits → d.Throughout HasShortRuns := fun hnot => (h hnot).1
      refine .enter (fun inner _ => ih d (by simp) hitem) ?_
      rw [evaluationDepth_list, evaluationDepthAll_cons]
      exact Nat.add_le_add (by decide) (Nat.le_max_left _ _)
  | _ => exact .of_error (.fault trivial)

theorem toText_failsOnly (d : Datum) (hdigits : digits) :
    FailsOnly (Failure.OfProgram digits) room n d.toText := by
  cases d with
  | string s => exact .of_ok _
  | bool b => exact .of_ok _
  | int i =>
    rw [toText, writeInteger]
    split_ifs
    · exact .of_ok _
    · exact .of_error (.digitLimit hdigits .written)
  | _ => exact .of_error (.fault trivial)

theorem toTruth_failsOnly (d : Datum) :
    FailsOnly (Failure.OfProgram digits) room n d.toTruth := by
  cases d with
  | bool b => exact .of_ok b
  | _ => exact .of_error (.fault trivial)

theorem apartOnFault_failsOnly {o : Outcome Bool} (h : FailsOnly P room n o) :
    FailsOnly P room n (apartOnFault o) := by
  unfold apartOnFault
  split
  · exact .of_ok false
  · exact h

/-- What a coercion finds at fault agrees with nothing, so only the limit on digits is left. -/
theorem agreeUnder_failsOnly {α : Type} [BEq α] {coerce : Datum → Outcome α}
    (ha : FailsOnly (Failure.OfProgram digits) room n (coerce a))
    (hb : FailsOnly (Failure.OfProgram digits) room n (coerce b)) :
    FailsOnly Failure.DigitLimit room n (agreeUnder coerce a b) := by
  have hboth : FailsOnly (Failure.OfProgram digits) room n (do
      let x ← coerce a
      let y ← coerce b
      .ok (x == y)) := .bind ha fun _ _ => .bind hb fun _ _ => .of_ok _
  unfold agreeUnder apartOnFault
  split
  · exact .of_ok false
  · next hfault =>
    intro why hwhy
    refine (hboth why hwhy).imp_left fun hkind => ?_
    cases hkind with
    | fault => exact absurd hwhy (hfault _)
    | digitLimit _ hlimit => exact hlimit

theorem andThen_failsOnly {o o' : Outcome Bool} (h : FailsOnly P room n o)
    (h' : FailsOnly P room n o') : FailsOnly P room n (andThen o o') := by
  unfold andThen
  split
  · exact h'
  · exact h

theorem pairwise_failsOnly {compare : Datum → Datum → Outcome Bool}
    (h : ∀ x ∈ xs, ∀ y ∈ ys, FailsOnly P room n (compare x y)) :
    FailsOnly P room n (pairwise compare xs ys) := by
  induction xs generalizing ys with
  | nil => cases ys <;> exact .of_ok true
  | cons x xs ih =>
    cases ys with
    | nil => exact .of_ok true
    | cons y ys =>
      refine andThen_failsOnly (apartOnFault_failsOnly (h x (by simp) y (by simp)))
        (ih fun x' hx y' hy => ?_)
      exact h x' (List.mem_cons_of_mem x hx) y' (List.mem_cons_of_mem y hy)

theorem ofLength_failsOnly {cost : Nat} {f : Room → Outcome Bool} (hcost : cost ≤ levelWeight)
    (h : ∀ inner : Room, FailsOnly P inner n (f inner)) :
    FailsOnly P room (levelWeight + n)
      (if xs.length = ys.length then (room.enter cost).bind f else .ok false) := by
  split_ifs
  · exact .enter (fun inner _ => h inner) (Nat.add_le_add_right hcost n)
  · exact .of_ok false

theorem strictlyEqual_failsOnly (a b : Datum) :
    FailsOnly P room a.evaluationDepth (strictlyEqual room a b) := by
  induction a using induction_on generalizing b room with
  | list xs ih =>
    cases b with
    | list ys =>
      simp only [strictlyEqual, strictlyEqualAll_eq, evaluationDepth_list]
      refine ofLength_failsOnly (by decide) fun inner => pairwise_failsOnly fun x hx y _ => ?_
      exact (ih x hx y).mono (evaluationDepth_le_all hx)
    | _ => exact .of_ok false
  | vector xs ih =>
    cases b with
    | vector ys =>
      simp only [strictlyEqual, strictlyEqualAll_eq, evaluationDepth_vector]
      refine ofLength_failsOnly (by decide) fun inner => pairwise_failsOnly fun x hx y _ => ?_
      exact (ih x hx y).mono (evaluationDepth_le_all hx)
    | _ => exact .of_ok false
  | dotted xs x ihhead ihtail =>
    cases b with
    | dotted ys y =>
      simp only [strictlyEqual, strictlyEqualAll_eq, evaluationDepth_dotted]
      refine ofLength_failsOnly (by decide) fun inner => andThen_failsOnly
        (pairwise_failsOnly fun x' hx y' _ => ?_)
        (apartOnFault_failsOnly ((ihtail y).mono (Nat.le_max_right _ _)))
      exact (ihhead x' hx y').mono ((evaluationDepth_le_all hx).trans (Nat.le_max_left _ _))
    | _ => exact .of_ok false
  | _ => cases b <;> exact .of_ok _

theorem weaklyEqualWhole_failsOnly (a b : Datum) :
    FailsOnly Failure.DigitLimit room (max a.evaluationDepth b.evaluationDepth)
      (weaklyEqualWhole room a b) := by
  have ha : FailsOnly (Failure.OfProgram True) room a.evaluationDepth (a.toInteger room) :=
    toInteger_failsOnly a fun hnot => absurd trivial hnot
  have hb : FailsOnly (Failure.OfProgram True) room b.evaluationDepth (b.toInteger room) :=
    toInteger_failsOnly b fun hnot => absurd trivial hnot
  have htruth (n : Nat) (d : Datum) : FailsOnly (Failure.OfProgram True) room n d.toTruth :=
    toTruth_failsOnly d
  unfold weaklyEqualWhole
  refine .bind (agreeUnder_failsOnly (ha.mono (Nat.le_max_left _ _))
    (hb.mono (Nat.le_max_right _ _))) fun _ _ => ?_
  refine .bind (agreeUnder_failsOnly (toText_failsOnly a trivial) (toText_failsOnly b trivial))
    fun _ _ => ?_
  refine .bind (agreeUnder_failsOnly (htruth _ a) (htruth _ b)) fun _ _ => ?_
  split_ifs
  · exact .of_ok true
  · exact (strictlyEqual_failsOnly a b).mono (Nat.le_max_left _ _)

theorem weaklyEqual_failsOnly (a b : Datum) :
    FailsOnly Failure.DigitLimit room (max a.evaluationDepth b.evaluationDepth)
      (weaklyEqual room a b) := by
  induction a using induction_on generalizing b room with
  | list xs ih =>
    cases b with
    | list ys =>
      simp only [weaklyEqual, weaklyEqualAll_eq, evaluationDepth_list, Nat.add_max_add_left]
      refine ofLength_failsOnly (by decide) fun inner => pairwise_failsOnly fun x hx y hy => ?_
      exact (ih x hx y).mono (max_le_max (evaluationDepth_le_all hx) (evaluationDepth_le_all hy))
    | _ => exact weaklyEqualWhole_failsOnly _ _
  | dotted xs x ihhead ihtail =>
    cases b with
    | dotted ys y =>
      simp only [weaklyEqual, weaklyEqualAll_eq, evaluationDepth_dotted, Nat.add_max_add_left]
      refine ofLength_failsOnly (by decide) fun inner => andThen_failsOnly
        (pairwise_failsOnly fun x' hx y' hy => ?_) (apartOnFault_failsOnly ((ihtail y).mono ?_))
      · have hxs := evaluationDepth_le_all hx
        have hys := evaluationDepth_le_all hy
        exact (ihhead x' hx y').mono (by omega)
      · omega
    | _ => exact weaklyEqualWhole_failsOnly _ _
  | _ => exact weaklyEqualWhole_failsOnly _ _

end
end Datum

namespace Primitive
open Datum

def writes : Primitive → Bool
  | .compareTexts _ | .weak => true
  | _ => false

def writingNames : List String :=
  ["string=?", "string<?", "string>?", "string<=?", "string>=?", "equal?"]

section
variable {room : Room} {digits : Prop} {a b v : Datum} {args : List Datum} {n : Nat}

theorem mem_table {name : String} {p : Primitive} (h : ofName? name = some p) :
    (name, p) ∈ table := by
  obtain ⟨before, after, hsplit, -⟩ := List.lookup_eq_some_iff.mp h
  rw [hsplit]
  exact List.mem_append_right before List.mem_cons_self

theorem mem_writingNames {name : String} {p : Primitive} (h : ofName? name = some p)
    (hp : p.writes = true) : name ∈ writingNames := by
  have htable : ∀ entry ∈ table, entry.2.writes = true → entry.1 ∈ writingNames := by decide
  exact htable (name, p) (mem_table h) hp

theorem arithmetic_failsOnly (op : Arithmetic) (i j : Int) :
    FailsOnly (Failure.OfProgram digits) room n (op.apply i j) := by
  cases op with
  | add | sub | mul => exact .of_ok _
  | divDown | modDown | divToZero | modToZero =>
    rw [Arithmetic.apply]
    split_ifs
    · exact .of_error (.fault trivial)
    · exact .of_ok _

theorem foldIntegers_failsOnly (op : Arithmetic) (d : Datum) (ds : List Datum)
    (h : ¬ digits → ∀ x ∈ d :: ds, x.Throughout HasShortRuns) :
    FailsOnly (Failure.OfProgram digits) room (evaluationDepthAll (d :: ds))
      (foldIntegers room op d ds) := by
  have hitem : ∀ x ∈ d :: ds, FailsOnly (Failure.OfProgram digits) room
      (evaluationDepthAll (d :: ds)) (x.toInteger room) := fun x hx =>
    (toInteger_failsOnly x fun hnot => h hnot x hx).mono (evaluationDepth_le_all hx)
  obtain ⟨hd, hds⟩ := List.forall_mem_cons.mp hitem
  unfold foldIntegers
  refine .bind hd fun i _ => .bind (.mapM hds) fun is _ => .bind ?_ fun _ _ => .of_ok _
  exact .foldlM (fun i j _ => arithmetic_failsOnly op i j) i

theorem both_failsOnly {α : Type} {coerce : Datum → Outcome α} {P : Failure → Prop}
    (ha : FailsOnly P room n (coerce a)) (hb : FailsOnly P room n (coerce b)) :
    FailsOnly P room n (both coerce a b) :=
  .bind ha fun _ _ => .bind hb fun _ _ => .of_ok _

theorem textAt_failsOnly (s : String) (i : Int) :
    FailsOnly (Failure.OfProgram digits) room n (textAt s i) := by
  unfold textAt
  split_ifs
  · exact .of_error (.fault trivial)
  · split
    · exact .of_ok _
    · exact .of_error (.fault trivial)

theorem first_failsOnly (d : Datum) :
    FailsOnly (Failure.OfProgram digits) room n (first d) := by
  unfold first
  split
  · exact .of_ok _
  · exact .of_ok _
  · exact .of_error (.fault trivial)

theorem rest_failsOnly (d : Datum) :
    FailsOnly (Failure.OfProgram digits) room n (rest d) := by
  unfold rest
  split
  · exact .of_ok _
  · exact .of_ok _
  · exact .of_ok _
  · exact .of_error (.fault trivial)

/-- Primitives need no more room than their arguments are nested, and those that write nothing meet
no limit on digits among short runs. -/
theorem apply_failsOnly (p : Primitive) (args : List Datum)
    (h : ¬ digits → p.writes = false ∧ ∀ a ∈ args, a.Throughout HasShortRuns) :
    FailsOnly (Failure.OfProgram digits) room (evaluationDepthAll args) (p.apply room args) := by
  have hwrites : p.writes = true → digits := by
    intro hp
    by_contra hnot
    rw [(h hnot).1] at hp
    cases hp
  have hshort : ¬ digits → ∀ a ∈ args, a.Throughout HasShortRuns := fun hnot => (h hnot).2
  clear h
  induction p, args using arity_induction with
  | refused p args hp =>
    rw [apply_of_not_accepts room hp]
    exact .of_error (.fault trivial)
  | fold op a b more => exact foldIntegers_failsOnly op a (b :: more) hshort
  | unary p a hp =>
    cases p with
    | textLength =>
      cases a with
      | string s => exact .of_ok _
      | _ => exact .of_error (.fault trivial)
    | symbolToText | textToSymbol => cases a <;> exact .of_ok _
    | car => exact first_failsOnly a
    | cdr => exact rest_failsOnly a
    | isSymbol | isText | isNumber | isTruth | isList => exact .of_ok _
    | _ => cases hp
  | binary p a b hp =>
    have ha : a.evaluationDepth ≤ evaluationDepthAll [a, b] := evaluationDepth_le_all (by simp)
    have hb : b.evaluationDepth ≤ evaluationDepthAll [a, b] := evaluationDepth_le_all (by simp)
    cases p with
    | compareIntegers r =>
      have hfirst : ¬ digits → a.Throughout HasShortRuns := fun hnot => hshort hnot a (by simp)
      have hsecond : ¬ digits → b.Throughout HasShortRuns := fun hnot => hshort hnot b (by simp)
      exact (both_failsOnly ((toInteger_failsOnly a hfirst).mono ha)
        ((toInteger_failsOnly b hsecond).mono hb)).map
    | compareTexts r =>
      have hdigits : digits := hwrites rfl
      exact (both_failsOnly (toText_failsOnly a hdigits) (toText_failsOnly b hdigits)).map
    | conj | disj => exact (both_failsOnly (toTruth_failsOnly a) (toTruth_failsOnly b)).map
    | textItem =>
      cases a with
      | string s =>
        cases b with
        | int i => exact textAt_failsOnly s i
        | _ => exact .of_error (.fault trivial)
      | _ => exact .of_error (.fault trivial)
    | cons => exact .of_ok _
    | strict => exact ((strictlyEqual_failsOnly a b).mono ha).map
    | weak =>
      have hdigits : digits := hwrites rfl
      exact (((weaklyEqual_failsOnly a b).imp fun _ => .digitLimit hdigits).mono
        (max_le ha hb)).map
    | _ => cases hp

theorem applyNamed_failsOnly (name : String) (args : List Datum)
    (h : ¬ digits → name ∉ writingNames ∧ ∀ a ∈ args, a.Throughout HasShortRuns) :
    FailsOnly (Failure.OfProgram digits) room (evaluationDepthAll args)
      (applyNamed room name args) := by
  unfold applyNamed
  cases hname : ofName? name with
  | none => exact .of_error (.fault trivial)
  | some p =>
    refine apply_failsOnly p args fun hnot => ⟨?_, (h hnot).2⟩
    rw [← Bool.not_eq_true]
    exact fun hp => (h hnot).1 (mem_writingNames hname hp)

theorem Makes.evaluationDepth_eq (h : Makes args v) : v.evaluationDepth = 0 := by
  cases h <;> rfl

theorem first_depth_le (h : first a = .ok v) : v.evaluationDepth ≤ a.evaluationDepth := by
  unfold first at h
  split at h
  · obtain rfl := Except.ok.inj h
    rw [evaluationDepth_list, evaluationDepthAll_cons]
    omega
  · obtain rfl := Except.ok.inj h
    rw [evaluationDepth_dotted, evaluationDepthAll_cons]
    omega
  · cases h

theorem rest_depth_le (h : rest a = .ok v) : v.evaluationDepth ≤ a.evaluationDepth := by
  unfold rest at h
  split at h
  · obtain rfl := Except.ok.inj h
    rw [evaluationDepth_list, evaluationDepth_list, evaluationDepthAll_cons]
    omega
  · obtain rfl := Except.ok.inj h
    rw [evaluationDepth_dotted]
    omega
  · obtain rfl := Except.ok.inj h
    rw [evaluationDepth_dotted, evaluationDepth_dotted, evaluationDepthAll_cons]
    omega
  · cases h

theorem join_depth_le (a b : Datum) :
    (join a b).evaluationDepth ≤ levelWeight + max a.evaluationDepth b.evaluationDepth := by
  cases b with
  | list items =>
    rw [join, evaluationDepth_list, evaluationDepth_list, evaluationDepthAll_cons]
    omega
  | dotted head tail =>
    rw [join, evaluationDepth_dotted, evaluationDepth_dotted, evaluationDepthAll_cons]
    omega
  | _ =>
    rw [join, evaluationDepth_dotted, evaluationDepthAll_cons, evaluationDepthAll_nil]
    · omega
    · simp
    · simp

theorem applyNamed_depth_le {name : String} (h : applyNamed room name args = .ok v) :
    v.evaluationDepth ≤ levelWeight + evaluationDepthAll args := by
  obtain ⟨p, -, h⟩ := exists_of_applyNamed h
  rcases apply_eq_ok h with hmade | ⟨a, rfl, hpart⟩ | ⟨a, b, rfl, rfl⟩
  · rw [hmade.evaluationDepth_eq]
    exact Nat.zero_le _
  · have hle : v.evaluationDepth ≤ a.evaluationDepth :=
      hpart.elim first_depth_le rest_depth_le
    rw [evaluationDepthAll_cons]
    omega
  · have hle := join_depth_le a b
    rw [evaluationDepthAll_cons, evaluationDepthAll_cons]
    omega

end
end Primitive

namespace Datum

variable {room : Room} {d v : Datum} {ds : List Datum}

theorem evaluationDepthAll_le_of_forall₂ {values : List Datum}
    (h : List.Forall₂ (fun d v => v.evaluationDepth ≤ d.evaluationDepth) ds values) :
    evaluationDepthAll values ≤ evaluationDepthAll ds := by
  induction h with
  | nil => exact le_rfl
  | cons hd _ ih =>
    rw [evaluationDepthAll_cons, evaluationDepthAll_cons]
    exact max_le_max hd ih

theorem evalAll_failsOnly {P : Failure → Prop} {n : Nat}
    (h : ∀ d ∈ ds, FailsOnly P room n (d.eval room)) : FailsOnly P room n (evalAll room ds) := by
  induction ds with
  | nil => exact .of_ok []
  | cons d ds ih =>
    obtain ⟨hd, hds⟩ := List.forall_mem_cons.mp h
    exact .bind hd fun _ _ => .bind (ih hds) fun _ _ => .of_ok _

theorem eval_depth_le (h : d.eval room = .ok v) : v.evaluationDepth ≤ d.evaluationDepth := by
  refine eval_related (R := fun d v => v.evaluationDepth ≤ d.evaluationDepth) (fun _ => le_rfl)
    (fun items d v hd hle => ?_) (fun room name operands values v hall happly => ?_) h
  · have hitems := evaluationDepth_le_all hd
    rw [evaluationDepth_list]
    omega
  · have hle := Primitive.applyNamed_depth_le happly
    have hvalues := evaluationDepthAll_le_of_forall₂ hall
    rw [evaluationDepth_list, evaluationDepthAll_cons]
    omega

/-- A text or name without a run of digits that is too long for an integer, and no name of a
primitive that writes integers. -/
def MeetsNoLimit : Datum → Prop
  | .string s => ShortRuns s
  | .symbol s => ShortRuns s ∧ s ∉ Primitive.writingNames
  | _ => True

theorem MeetsNoLimit.hasShortRuns (h : d.MeetsNoLimit) : d.HasShortRuns := by
  cases d with
  | symbol s => exact h.1
  | _ => exact h

theorem shortRuns_letter (c : Char) : ShortRuns (String.ofList [c]) :=
  shortRuns_of_length (by rw [String.toList_ofList, List.length_singleton]; decide)

theorem hasShortRuns_heldByMade : Primitive.HeldByMade HasShortRuns where
  int _ := trivial
  bool _ := trivial
  letter := shortRuns_letter
  noText := shortRuns_of_length (by decide)
  name_iff _ := Iff.rfl

/-- Where three calls for each level of a form fit, its evaluation does not end for want of room; nor
does it meet the limit on digits where nothing in the form can. -/
theorem eval_failsOnly_ofProgram {digits : Prop} (room : Room) (d : Datum)
    (h : ¬ digits → d.Throughout MeetsNoLimit) :
    FailsOnly (Failure.OfProgram digits) room d.evaluationDepth (d.eval room) := by
  induction d using form_induction
    (Q := fun clauses => (¬ digits → AllThroughout MeetsNoLimit clauses) → ∀ room : Room,
      FailsOnly (Failure.OfProgram digits) room (evaluationDepthAll clauses)
        (evalClauses room clauses))
    generalizing room with
  | string | int | bool | quote => exact .of_ok _
  | branch test yes no ihtest ihyes ihno =>
    have htest : ¬ digits → test.Throughout MeetsNoLimit := fun hnot => (h hnot).2.1
    have hyes : ¬ digits → yes.Throughout MeetsNoLimit := fun hnot => (h hnot).2.2.1
    have hno : ¬ digits → no.Throughout MeetsNoLimit := fun hnot => (h hnot).2.2.2.1
    simp only [evaluationDepth_list, evaluationDepthAll_cons, evaluationDepthAll_nil]
    rw [eval_branch]
    refine .enter (n := max test.evaluationDepth (max yes.evaluationDepth no.evaluationDepth))
      (fun inner _ => .bind ((ihtest inner htest).mono (by omega)) fun value _ => ?_) ?_
    · split
      · exact (ihyes inner hyes).mono (by omega)
      · exact (ihno inner hno).mono (by omega)
      · exact .of_error (.fault trivial)
    · have hweight : evaluationWeight ≤ levelWeight := by decide
      omega
  | cond clauses ih =>
    have hclauses : ¬ digits → AllThroughout MeetsNoLimit clauses := fun hnot => (h hnot).2
    rw [eval_cond, evaluationDepth_list, evaluationDepthAll_cons]
    refine .enter (fun inner _ => ih hclauses inner) ?_
    have hweight : evaluationWeight ≤ levelWeight := by decide
    omega
  | application name operands happ ih =>
    have hoperands : ¬ digits → ∀ d ∈ operands, d.Throughout MeetsNoLimit := fun hnot =>
      allThroughout_iff.mp (h hnot).2
    rw [eval_of_isApplication room happ, evaluationDepth_list, evaluationDepthAll_cons]
    refine .enter (n := evaluationDepthAll operands)
      (fun inner _ => .bind ?_ fun values hvalues => ?_) ?_
    · refine evalAll_failsOnly fun d hd => ?_
      exact (ih d hd inner fun hnot => hoperands hnot d hd).mono (evaluationDepth_le_all hd)
    · -- The room that suffices for the operands suffices for their values too.
      have hall := evalAll_eq_ok_iff.mp hvalues
      have hvalues_le := evaluationDepthAll_le_of_forall₂
        (forall₂_of_eval hall fun d _ v hv => eval_depth_le hv)
      have hshort : ¬ digits → AllThroughout HasShortRuns values := fun hnot => by
        refine allThroughout_of_forall₂ (forall₂_of_eval hall fun d _ v hv =>
          eval_throughout hasShortRuns_heldByMade hv) (allThroughout_iff.mpr fun d hd => ?_)
        exact (hoperands hnot d hd).mono fun _ => MeetsNoLimit.hasShortRuns
      exact (Primitive.applyNamed_failsOnly name values fun hnot =>
        ⟨(h hnot).1.2, allThroughout_iff.mp (hshort hnot)⟩).mono hvalues_le
    · have hweight : evaluationWeight ≤ levelWeight := by decide
      omega
  | noForm d hd =>
    rw [eval_of_isNoForm room hd]
    exact .of_error (.fault trivial)
  | noClause => exact .of_error (.fault trivial)
  | clause test body clauses ihtest ihbody ih hclauses room =>
    have htest : ¬ digits → test.Throughout MeetsNoLimit := fun hnot => (hclauses hnot).1.1
    have hbody : ¬ digits → body.Throughout MeetsNoLimit := fun hnot => (hclauses hnot).1.2.1
    have hrest : ¬ digits → AllThroughout MeetsNoLimit clauses := fun hnot => (hclauses hnot).2
    simp only [evaluationDepthAll_cons, evaluationDepth_list, evaluationDepthAll_nil]
    rw [evalClauses]
    split_ifs
    · exact (ihbody room hbody).mono (by omega)
    · refine .bind ((ihtest room htest).mono (by omega)) fun value _ => ?_
      split
      · exact (ihbody room hbody).mono (by omega)
      · exact (ih hrest room).mono (by omega)
      · exact .of_error (.fault trivial)
  | listClause items clauses hitems _ room =>
    rw [evalClauses_list room hitems]
    exact .of_error (.fault trivial)
  | otherClause d clauses hd _ room =>
    rw [evalClauses_other room hd]
    exact .of_error (.fault trivial)

theorem eval_failsOnly (room : Room) (d : Datum) :
    FailsOnly (Failure.OfProgram True) room d.evaluationDepth (d.eval room) :=
  eval_failsOnly_ofProgram room d fun hnot => absurd trivial hnot

end Datum
end Lisplet
