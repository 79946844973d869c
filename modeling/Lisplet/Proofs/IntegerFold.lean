import Lisplet.Proofs.EvaluationRules
import Mathlib.Algebra.Order.Ring.Int

/-! Folding an operation over integers. All arguments are taken as integers before any of them is
computed with, so what is no number is reported also behind a divisor that is zero. Dividing by one
number after the other is dividing by their product, where the rounding allows it, and taking away
one after the other is taking away their sum. -/
namespace Lisplet

namespace Arithmetic

def divides : Arithmetic → Bool
  | .add | .sub | .mul => false
  | .divDown | .modDown | .divToZero | .modToZero => true

def value : Arithmetic → Int → Int → Int
  | .add, n, d => n + d
  | .sub, n, d => n - d
  | .mul, n, d => n * d
  | .divDown, n, d => n.fdiv d
  | .modDown, n, d => n.fmod d
  | .divToZero, n, d => quotientToZero n d
  | .modToZero, n, d => remainderToZero n d

theorem apply_eq (op : Arithmetic) (n d : Int) :
    op.apply n d =
      if op.divides = true ∧ d = 0 then Fault.divisionByZero.raise else .ok (op.value n d) := by
  cases op <;> simp [apply, divides, value]

theorem foldlM_apply (op : Arithmetic) (n : Int) (ds : List Int) :
    ds.foldlM op.apply n =
      if op.divides = true ∧ 0 ∈ ds then Fault.divisionByZero.raise
      else .ok (ds.foldl op.value n) := by
  induction ds generalizing n with
  | nil => simp [pure, Except.pure]
  | cons d ds ih =>
    rw [List.foldlM_cons, apply_eq]
    by_cases hd : op.divides = true ∧ d = 0
    · rw [if_pos hd, if_pos ⟨hd.1, by simp [hd.2]⟩]
      rfl
    · have hmem : (op.divides = true ∧ 0 ∈ d :: ds) ↔ op.divides = true ∧ 0 ∈ ds := by
        rw [List.mem_cons, and_or_left, eq_comm (a := 0), or_iff_right hd]
      rw [if_neg hd, List.foldl_cons, if_congr hmem rfl rfl]
      exact ih (op.value n d)

end Arithmetic

section
variable {n d e : Int} {ds : List Int}

/-- Where each further number goes into the second one, all of them do. -/
theorem foldl_into {f g : Int → Int → Int}
    (h : ∀ e ∈ ds, ∀ n d, f (f n d) e = f n (g d e)) (n d : Int) :
    ds.foldl f (f n d) = f n (ds.foldl g d) := by
  induction ds generalizing d with
  | nil => rfl
  | cons e ds ih =>
    obtain ⟨he, hds⟩ := List.forall_mem_cons.mp h
    rw [List.foldl_cons, List.foldl_cons, he, ih hds]

theorem quotientToZero_eq_ite (n d : Int) :
    quotientToZero n d =
      if (n < 0 ↔ d < 0) then ((n.natAbs / d.natAbs : Nat) : Int)
      else -((n.natAbs / d.natAbs : Nat) : Int) := rfl

theorem natAbs_quotientToZero (n d : Int) :
    (quotientToZero n d).natAbs = n.natAbs / d.natAbs := by
  rw [quotientToZero_eq_ite]
  split_ifs
  · exact Int.natAbs_natCast _
  · rw [Int.natAbs_neg, Int.natAbs_natCast]

theorem quotientToZero_neg_iff :
    quotientToZero n d < 0 ↔ n.natAbs / d.natAbs ≠ 0 ∧ ¬ (n < 0 ↔ d < 0) := by
  rw [quotientToZero_eq_ite]
  generalize n.natAbs / d.natAbs = q
  split_ifs with hsign
  · simp [hsign]
  · omega

theorem quotientToZero_quotientToZero (n d e : Int) :
    quotientToZero (quotientToZero n d) e = quotientToZero n (d * e) := by
  have hsize : (quotientToZero n d).natAbs / e.natAbs = n.natAbs / (d * e).natAbs := by
    rw [natAbs_quotientToZero, Int.natAbs_mul, Nat.div_div_eq_div_mul]
  rw [quotientToZero_eq_ite _ e, quotientToZero_eq_ite n (d * e), hsize]
  by_cases hzero : n.natAbs / (d * e).natAbs = 0
  · simp [hzero]
  · have hnonzero : n.natAbs / d.natAbs ≠ 0 ∧ d ≠ 0 ∧ e ≠ 0 := by
      rw [Int.natAbs_mul] at hzero
      refine ⟨fun h => hzero ?_, fun h => hzero ?_, fun h => hzero ?_⟩
      · rw [← Nat.div_div_eq_div_mul, h, Nat.zero_div]
      · simp [h]
      · simp [h]
    have hproduct : d * e < 0 ↔ ¬ (d < 0 ↔ e < 0) := by
      rw [mul_neg_iff]
      omega
    refine if_congr ?_ rfl rfl
    rw [quotientToZero_neg_iff, and_iff_right hnonzero.1, hproduct]
    omega

theorem fdiv_fdiv_of_pos (he : 0 < e) (n d : Int) : (n.fdiv d).fdiv e = n.fdiv (d * e) := by
  rcases Int.le_total 0 d with hd | hd
  · exact Int.fdiv_fdiv_eq_fdiv_mul n hd he.le
  · have hd' : 0 ≤ -d := Int.neg_nonneg_of_nonpos hd
    rw [← Int.neg_fdiv_neg n d, Int.fdiv_fdiv_eq_fdiv_mul (-n) hd' he.le, Int.neg_mul,
      Int.neg_fdiv_neg]

theorem foldl_mul_eq_zero_iff : ds.foldl (· * ·) d = 0 ↔ 0 ∈ d :: ds := by
  induction ds generalizing d with
  | nil => simp [eq_comm]
  | cons e ds ih =>
    rw [List.foldl_cons, ih]
    simp only [List.mem_cons, eq_comm (a := (0 : Int)), mul_eq_zero, or_assoc]

end

section
variable {γ α : Type} {g : γ → Outcome α} {c : γ} {before after l : List γ} {as : List α}
  {why : Failure}

theorem mapM_eq_ok_of_forall₂ (h : List.Forall₂ (fun c a => g c = .ok a) l as) :
    l.mapM g = .ok as := by
  induction h with
  | nil => rfl
  | cons hc _ ih =>
    rw [List.mapM_cons, hc, ih]
    rfl

/-- The first item that fails decides, whatever stands behind it. -/
theorem mapM_eq_error_of_first (hbefore : ∀ b ∈ before, ∃ a, g b = .ok a) (hc : g c = .error why)
    (after : List γ) : (before ++ c :: after).mapM g = .error why := by
  induction before with
  | nil =>
    rw [List.nil_append, List.mapM_cons, hc]
    rfl
  | cons b before ih =>
    obtain ⟨⟨a, ha⟩, hbefore⟩ := List.forall_mem_cons.mp hbefore
    rw [List.cons_append, List.mapM_cons, ha, ih hbefore]
    rfl

end

namespace Primitive

def foldNames : List String := ["+", "-", "*", "/", "mod", "quotient", "remainder"]

def divisionNames : List String := ["/", "mod", "quotient", "remainder"]

section
variable {room : Room} {name : String} {op : Arithmetic} {a b d : Datum} {args more : List Datum}
  {n m : Int} {ns : List Int} {why : Failure}

theorem exists_fold (h : name ∈ foldNames) :
    ∃ op, ofName? name = some (.fold op) ∧ (op.divides = true ↔ name ∈ divisionNames) := by
  simp only [foldNames, List.mem_cons, List.not_mem_nil, or_false] at h
  rcases h with rfl | rfl | rfl | rfl | rfl | rfl | rfl
  all_goals exact ⟨_, rfl, by decide⟩

theorem apply_fold :
    (Primitive.fold op).apply room (a :: b :: more) = foldIntegers room op a (b :: more) := rfl

theorem apply_fold_of_integers
    (h : List.Forall₂ (fun a n => a.toInteger room = .ok n) args (n :: m :: ns)) :
    (Primitive.fold op).apply room args = ((m :: ns).foldlM op.apply n).map .int := by
  cases h with
  | cons ha hrest =>
    cases hrest with
    | cons hb hmore =>
      rw [apply_fold, foldIntegers, ha, mapM_eq_ok_of_forall₂ (.cons hb hmore)]
      rfl

theorem apply_fold_of_no_integer {before after : List Datum}
    (hcount : 2 ≤ (before ++ d :: after).length)
    (hbefore : ∀ a ∈ before, ∃ n, a.toInteger room = .ok n) (hd : d.toInteger room = .error why) :
    (Primitive.fold op).apply room (before ++ d :: after) = .error why := by
  have hall := mapM_eq_error_of_first hbefore hd after
  generalize before ++ d :: after = args at hcount hall
  obtain _ | ⟨a, _ | ⟨b, more⟩⟩ := args
  · cases hcount
  · simp at hcount
  · rw [apply_fold, foldIntegers]
    rw [List.mapM_cons] at hall
    rcases bind_eq_error_iff.mp hall with ha | ⟨n, ha, hrest⟩
    · rw [ha]
      rfl
    · rw [ha, bind_ok_eq_error_iff.mp hrest]
      rfl

end

end Primitive

namespace Datum
open Primitive

def call (name : String) (operands : List Datum) : Datum := list (.symbol name :: operands)

section
variable {room inner : Room} {name name' : String} {op op' : Arithmetic} {operands : List Datum}
  {n m d : Int} {ns ds : List Int}

theorem isApplication_of_ofName? {p : Primitive} (h : ofName? name = some p) (count : Nat) :
    IsApplication name count := by
  have hspecial : ofName? "quote" = none ∧ ofName? "if" = none ∧ ofName? "cond" = none := by decide
  refine ⟨?_, ?_, ?_⟩
  · rintro ⟨rfl, -⟩
    cases hspecial.1.symm.trans h
  · rintro ⟨rfl, -⟩
    cases hspecial.2.1.symm.trans h
  · rintro rfl
    cases hspecial.2.2.symm.trans h

theorem evalAll_integers (room : Room) (ns : List Int) :
    evalAll room (ns.map .int) = .ok (ns.map .int) := by
  rw [evalAll_eq_ok_iff, List.forall₂_map_left_iff, List.forall₂_map_right_iff]
  exact List.forall₂_same.mpr fun _ _ => by rw [eval]

theorem forall₂_toInteger (room : Room) (ns : List Int) :
    List.Forall₂ (fun a n => toInteger room a = .ok n) (ns.map .int) ns := by
  rw [List.forall₂_map_left_iff]
  exact List.forall₂_same.mpr fun _ _ => rfl

theorem eval_call (hname : ofName? name = some (.fold op))
    (henter : room.enter evaluationWeight = .ok inner)
    (hoperands : evalAll inner operands = .ok ((n :: m :: ns).map .int)) :
    (call name operands).eval room = ((m :: ns).foldlM op.apply n).map .int := by
  rw [call, eval_of_isApplication room (isApplication_of_ofName? hname _), henter]
  change (evalAll inner operands >>= applyNamed inner name) = _
  rw [hoperands]
  exact (applyNamed_eq hname inner _).trans
    (apply_fold_of_integers (forall₂_toInteger inner (n :: m :: ns)))

theorem eval_call_integers (hname : ofName? name = some (.fold op))
    (hroom : room.admits evaluationWeight = true) (n m : Int) (ns : List Int) :
    (call name ((n :: m :: ns).map .int)).eval room = ((m :: ns).foldlM op.apply n).map .int := by
  obtain ⟨inner, henter⟩ := Room.enter_eq_ok_iff.mpr hroom
  exact eval_call hname henter (evalAll_integers inner _)

theorem eval_call_of_call (hname : ofName? name = some (.fold op))
    (hname' : ofName? name' = some (.fold op')) (hop' : op'.divides = false)
    (hroom : room.admits (2 * evaluationWeight) = true) (n m d : Int) (ds : List Int) :
    (call name [.int n, call name' ((m :: d :: ds).map .int)]).eval room =
      ([(d :: ds).foldl op'.value m].foldlM op.apply n).map .int := by
  have hboth : room.admits (evaluationWeight + evaluationWeight) = true := hroom
  obtain ⟨inner, henter, hinner⟩ := Room.enter_of_admits hboth
  have hvalue : (call name' ((m :: d :: ds).map .int)).eval inner =
      .ok (.int ((d :: ds).foldl op'.value m)) := by
    rw [eval_call_integers hname' hinner, Arithmetic.foldlM_apply, hop', if_neg (by simp)]
    rfl
  have hoperands : evalAll inner [.int n, call name' ((m :: d :: ds).map .int)] =
      .ok ([n, (d :: ds).foldl op'.value m].map .int) := by
    rw [evalAll_eq_ok_iff]
    exact .cons (by rw [eval]) (.cons hvalue .nil)
  exact eval_call hname henter hoperands

/-- Folding an operation is computing once with what folding another one gives, if each further
number goes into that, and a zero among them makes a zero. -/
theorem foldlM_apply_into
    (hinto : ∀ e ∈ ds, ∀ n d, op.value (op.value n d) e = op.value n (op'.value d e))
    (hzero : op.divides = true → (ds.foldl op'.value d = 0 ↔ 0 ∈ d :: ds)) (n : Int) :
    (d :: ds).foldlM op.apply n = [ds.foldl op'.value d].foldlM op.apply n := by
  have hfails : (op.divides = true ∧ 0 ∈ d :: ds) ↔
      op.divides = true ∧ 0 ∈ [ds.foldl op'.value d] := by
    refine and_congr_right fun hdivides => ?_
    rw [← hzero hdivides, List.mem_singleton, eq_comm]
  rw [Arithmetic.foldlM_apply, Arithmetic.foldlM_apply, if_congr hfails rfl rfl, List.foldl_cons,
    foldl_into hinto, List.foldl_cons, List.foldl_nil]

theorem evaluate_call_into (hname : ofName? name = some (.fold op))
    (hname' : ofName? name' = some (.fold op')) (hop' : op'.divides = false)
    (hroom : room.admits (2 * evaluationWeight) = true) (hcount : 2 ≤ ds.length)
    (hinto : ∀ e ∈ ds.tail, ∀ n d, op.value (op.value n d) e = op.value n (op'.value d e))
    (hzero : op.divides = true → ∀ d ds, ds.foldl op'.value d = 0 ↔ 0 ∈ d :: ds) (n : Int) :
    (call name (.int n :: ds.map .int)).evaluate room =
      (call name [.int n, call name' (ds.map .int)]).evaluate room := by
  obtain _ | ⟨d, _ | ⟨e, ds⟩⟩ := ds
  · cases hcount
  · simp at hcount
  · have hflat := eval_call_integers hname (Room.admits_mono hroom (by decide)) n d (e :: ds)
    have hnested := eval_call_of_call hname hname' hop' hroom n d e ds
    have hsame : (d :: e :: ds).foldlM op.apply n =
        [(e :: ds).foldl op'.value d].foldlM op.apply n :=
      foldlM_apply_into hinto (fun hdivides => hzero hdivides d (e :: ds)) n
    rw [hsame, ← hnested] at hflat
    rw [evaluate, evaluate, ← hflat]
    rfl

end

end Datum

open Primitive Datum in
/-- A fold takes two arguments at least. It takes all of them as integers before it computes: the
first that is none decides, and then, for a division, a zero behind the first argument; else there
is a result. Among integers, a quotient toward zero by several divisors is the quotient by their
product, also where it fails. So is one downward if the divisors after the first are positive,
and taking away several numbers is taking away their sum. -/
theorem folds_take_integers_first (room : Room) :
    (∀ name ∈ foldNames, ∀ args : List Datum,
      (args.length < 2 → applyNamed room name args = (Fault.arity 2 args).raise) ∧
      (∀ before d after why, args = before ++ d :: after → 2 ≤ args.length →
        (∀ a ∈ before, ∃ n, a.toInteger room = .ok n) → d.toInteger room = .error why →
        applyNamed room name args = .error why) ∧
      ∀ n m ns, List.Forall₂ (fun a n => a.toInteger room = .ok n) args (n :: m :: ns) →
        (applyNamed room name args = Fault.divisionByZero.raise ↔
          name ∈ divisionNames ∧ 0 ∈ m :: ns) ∧
        (¬ (name ∈ divisionNames ∧ 0 ∈ m :: ns) →
          ∃ result, applyNamed room name args = .ok (.int result))) ∧
    (room.admits (2 * evaluationWeight) = true → ∀ (n : Int) (ds : List Int), 2 ≤ ds.length →
      (call "quotient" (.int n :: ds.map .int)).evaluate room =
        (call "quotient" [.int n, call "*" (ds.map .int)]).evaluate room ∧
      ((∀ d ∈ ds.tail, 0 < d) →
        (call "/" (.int n :: ds.map .int)).evaluate room =
          (call "/" [.int n, call "*" (ds.map .int)]).evaluate room) ∧
      (call "-" (.int n :: ds.map .int)).evaluate room =
        (call "-" [.int n, call "+" (ds.map .int)]).evaluate room) := by
  have hquotient : ofName? "quotient" = some (.fold .divToZero) := rfl
  have hdown : ofName? "/" = some (.fold .divDown) := rfl
  have hproduct : ofName? "*" = some (.fold .mul) := rfl
  have hdifference : ofName? "-" = some (.fold .sub) := rfl
  have hsum : ofName? "+" = some (.fold .add) := rfl
  refine ⟨fun name hname args => ?_, fun hroom n ds hcount => ⟨?_, fun hpos => ?_, ?_⟩⟩
  · obtain ⟨op, hop, hdivides⟩ := exists_fold hname
    rw [applyNamed_eq hop, ← hdivides]
    refine ⟨fun hcount => ?_, ?_, fun n m ns hargs => ?_⟩
    · refine apply_of_not_accepts room (decide_eq_false ?_)
      exact Nat.not_le.mpr hcount
    · rintro before d after why rfl hcount hbefore hd
      exact apply_fold_of_no_integer hcount hbefore hd
    · rw [apply_fold_of_integers hargs, Arithmetic.foldlM_apply]
      split_ifs with hzero
      · exact ⟨iff_of_true rfl hzero, fun hnot => absurd hzero hnot⟩
      · exact ⟨iff_of_false nofun hzero, fun _ => ⟨_, rfl⟩⟩
  · exact evaluate_call_into hquotient hproduct rfl hroom hcount
      (fun e _ n d => quotientToZero_quotientToZero n d e) (fun _ _ _ => foldl_mul_eq_zero_iff) n
  · exact evaluate_call_into hdown hproduct rfl hroom hcount
      (fun e he n d => fdiv_fdiv_of_pos (hpos e he) n d) (fun _ _ _ => foldl_mul_eq_zero_iff) n
  · exact evaluate_call_into hdifference hsum rfl hroom hcount
      (fun e _ n d => Int.sub_sub n d e) nofun n

open Primitive Datum in
/-- A text that is no number is reported behind a zero. A text and a list stand for integers. -/
theorem folds_take_integers_first_zero :
    applyNamed .standard "/" [.int 1, .int 0, .string "x"] =
        (Fault.wrongType .number (.string "x")).raise ∧
      applyNamed .standard "mod" [.string "7", .list [.int 2], .int 0] =
        Fault.divisionByZero.raise ∧
      (call "/" (.int 100 :: [-7, 2, 3].map .int)).evaluate .standard =
        (call "/" [.int 100, call "*" ([-7, 2, 3].map .int)]).evaluate .standard := by
  obtain ⟨hfolds, hlaws⟩ := folds_take_integers_first .standard
  obtain ⟨-, hfirst, -⟩ := hfolds "/" (by decide) [.int 1, .int 0, .string "x"]
  obtain ⟨-, -, hintegers⟩ := hfolds "mod" (by decide) [.string "7", .list [.int 2], .int 0]
  obtain ⟨-, hdown, -⟩ := hlaws (by decide) 100 [-7, 2, 3] (by decide)
  have hbefore : ∀ a ∈ [Datum.int 1, .int 0], ∃ n, a.toInteger .standard = .ok n := by
    simp [toInteger]
  refine ⟨hfirst [.int 1, .int 0] (.string "x") [] _ rfl (by decide) hbefore rfl, ?_,
    hdown (by decide)⟩
  exact (hintegers 7 2 [0] (.cons rfl (.cons rfl (.cons rfl .nil)))).1.mpr (by decide)

end Lisplet
