import Lisplet.Proofs.IntegerText
import Lisplet.Proofs.Outcome
import Mathlib.Order.Compare

/-! The comparisons. Those of one family take their two arguments in the same way, so all of them
fail alike, or all of them say how the arguments stand in one linear order: that of the integers, or
that of texts, which their first difference settles. -/
namespace Lisplet

section
variable {as bs : List Char}

theorem compareTexts_eq_compareLex (as bs : List Char) :
    compareTexts as bs = List.compareLex (compareOn Char.toNat) as bs := by
  induction as generalizing bs with
  | nil => cases bs <;> rfl
  | cons a as ih =>
    cases bs with
    | nil => rfl
    | cons b bs =>
      rw [compareTexts, List.compareLex_cons_cons, ih, compareOn]
      rcases lt_trichotomy a.toNat b.toNat with h | h | h
      · rw [if_pos h, compare_lt_iff_lt.mpr h, Ordering.lt_then]
      · rw [if_neg h.not_lt, if_neg h.not_gt, compare_eq_iff_eq.mpr h, Ordering.eq_then]
      · rw [if_neg h.not_gt, if_pos h, compare_gt_iff_gt.mpr h, Ordering.gt_then]

instance : Std.TransCmp compareTexts := by
  have hlex : compareTexts = List.compareLex (compareOn Char.toNat) :=
    funext₂ compareTexts_eq_compareLex
  rw [hlex]
  infer_instance

/-- A text is less than another one if it is a beginning of it, or has the smaller character where
they first differ. -/
theorem compareTexts_eq_lt_iff :
    compareTexts as bs = .lt ↔ List.Lex (fun c d => c.toNat < d.toNat) as bs := by
  rw [compareTexts_eq_compareLex]
  induction as generalizing bs with
  | nil => cases bs <;> simp [List.compareLex]
  | cons a as ih =>
    cases bs with
    | nil => simp [List.compareLex]
    | cons b bs =>
      rw [List.compareLex_cons_cons, Ordering.then_eq_lt, List.cons_lex_cons_iff, ih, compareOn,
        compare_lt_iff_lt, compare_eq_iff_eq, Char.toNat_inj]

end

namespace Relation

def converse : Relation → Relation
  | .lt => .gt
  | .gt => .lt
  | .le => .ge
  | .ge => .le
  | .eq => .eq
  | .ne => .ne

theorem converse_holds_swap (r : Relation) (o : Ordering) : r.converse.holds o.swap = r.holds o := by
  cases r <;> cases o <;> rfl

/-- Just one of less, equal and greater holds, and each other relation denies one of them. -/
structure Trichotomy (holds : Relation → Bool) : Prop where
  one : [Relation.lt, .eq, .gt].countP holds = 1
  ne : holds .ne = !holds .eq
  le : holds .le = !holds .gt
  ge : holds .ge = !holds .lt

theorem trichotomy_holds (o : Ordering) : Trichotomy (holds · o) := by
  cases o <;> exact ⟨rfl, rfl, rfl, rfl⟩

end Relation

namespace Primitive
open Datum

def integerComparisons : List (Relation × String) :=
  [(.eq, "="), (.lt, "<"), (.gt, ">"), (.ne, "/="), (.ge, ">="), (.le, "<=")]

def textComparisons : List (Relation × String) :=
  [(.eq, "string=?"), (.lt, "string<?"), (.gt, "string>?"), (.le, "string<=?"), (.ge, "string>=?")]

/-- The comparisons of these names fail with the coercion of their arguments, and all alike. Where
both arguments are taken they say how these stand in the linear order of `less`. -/
structure Orders {α : Type} (room : Room) (names : List (Relation × String))
    (coerce : Datum → Outcome α) (less : α → α → Prop) : Prop where
  alike : ∀ a b,
    (∃ why, both coerce a b = .error why ∧
      ∀ q ∈ names, applyNamed room q.2 [a, b] = .error why) ∨
    ∃ x y holds, coerce a = .ok x ∧ coerce b = .ok y ∧ Relation.Trichotomy holds ∧
      (holds .eq = true ↔ x = y) ∧ (holds .lt = true ↔ less x y) ∧
      ∀ q ∈ names, applyNamed room q.2 [a, b] = .ok (.bool (holds q.1)) ∧
        ∀ q' ∈ names, q'.1 = q.1.converse →
          applyNamed room q'.2 [b, a] = applyNamed room q.2 [a, b]
  transitive : ∀ a b c, ∀ q ∈ names, q.1 = .lt →
    applyNamed room q.2 [a, b] = .ok (.bool true) →
    applyNamed room q.2 [b, c] = .ok (.bool true) → applyNamed room q.2 [a, c] = .ok (.bool true)

section
variable {α : Type} {coerce : Datum → Outcome α} {order : α → α → Ordering} {less : α → α → Prop}
  {r : Relation} {a b : Datum} {x y : α}

def comparison (coerce : Datum → Outcome α) (order : α → α → Ordering) (r : Relation)
    (a b : Datum) : Outcome Datum :=
  (both coerce a b).map fun p => .bool (r.holds (order p.1 p.2))

theorem comparison_of_ok (order : α → α → Ordering) (r : Relation) (ha : coerce a = .ok x)
    (hb : coerce b = .ok y) :
    comparison coerce order r a b = .ok (.bool (r.holds (order x y))) := by
  rw [comparison, both_of_ok ha hb]
  rfl

theorem comparison_of_error (order : α → α → Ordering) (r : Relation) {why : Failure}
    (h : both coerce a b = .error why) : comparison coerce order r a b = .error why := by
  rw [comparison, h]
  rfl

theorem both_cases (coerce : Datum → Outcome α) (a b : Datum) :
    (∃ why, both coerce a b = .error why) ∨ ∃ x y, coerce a = .ok x ∧ coerce b = .ok y := by
  cases h : both coerce a b with
  | error why => exact .inl ⟨why, rfl⟩
  | ok p =>
    obtain ⟨x, ha, hrest⟩ := bind_eq_ok_iff.mp h
    obtain ⟨y, hb, -⟩ := bind_eq_ok_iff.mp hrest
    exact .inr ⟨x, y, ha, hb⟩

theorem comparison_eq_true_iff : comparison coerce order r a b = .ok (.bool true) ↔
    ∃ x y, coerce a = .ok x ∧ coerce b = .ok y ∧ r.holds (order x y) = true := by
  constructor
  · intro h
    rcases both_cases coerce a b with ⟨why, hwhy⟩ | ⟨x, y, ha, hb⟩
    · rw [comparison_of_error order r hwhy] at h
      cases h
    · rw [comparison_of_ok order r ha hb] at h
      exact ⟨x, y, ha, hb, Datum.bool.inj (Except.ok.inj h)⟩
  · rintro ⟨x, y, ha, hb, h⟩
    rw [comparison_of_ok order r ha hb, h]

theorem orders_of_comparison [Std.TransCmp order] {room : Room} {names : List (Relation × String)}
    (heq : ∀ x y, order x y = .eq ↔ x = y) (hlt : ∀ x y, order x y = .lt ↔ less x y)
    (h : ∀ q ∈ names, ∀ a b, applyNamed room q.2 [a, b] = comparison coerce order q.1 a b) :
    Orders room names coerce less where
  alike a b := by
    rcases both_cases coerce a b with ⟨why, hwhy⟩ | ⟨x, y, ha, hb⟩
    · exact .inl ⟨why, hwhy, fun q hq => (h q hq a b).trans (comparison_of_error order q.1 hwhy)⟩
    · have hsaid : ∀ q ∈ names,
          applyNamed room q.2 [a, b] = .ok (.bool (q.1.holds (order x y))) := fun q hq =>
        (h q hq a b).trans (comparison_of_ok order q.1 ha hb)
      refine .inr ⟨x, y, (Relation.holds · (order x y)), ha, hb,
        Relation.trichotomy_holds (order x y), beq_iff_eq.trans (heq x y),
        beq_iff_eq.trans (hlt x y), fun q hq => ⟨hsaid q hq, fun q' hq' hconverse => ?_⟩⟩
      have hswap : order y x = (order x y).swap := Std.OrientedCmp.eq_swap
      rw [h q' hq' b a, comparison_of_ok order q'.1 hb ha, hsaid q hq, hconverse, hswap,
        Relation.converse_holds_swap]
  transitive a b c q hq hless hab hbc := by
    rw [h q hq, hless, comparison_eq_true_iff] at hab hbc ⊢
    obtain ⟨x, y, ha, hb, hxy⟩ := hab
    obtain ⟨y', z, hb', hc, hyz⟩ := hbc
    obtain rfl := Except.ok.inj (hb.symm.trans hb')
    have hxz := Std.TransCmp.lt_trans (beq_iff_eq.mp hxy) (beq_iff_eq.mp hyz)
    exact ⟨x, z, ha, hc, beq_iff_eq.mpr hxz⟩

end

theorem applyNamed_integerComparison (room : Room) {q : Relation × String}
    (hq : q ∈ integerComparisons) (a b : Datum) :
    applyNamed room q.2 [a, b] = comparison (toInteger room) compare q.1 a b := by
  have hnames : ∀ q ∈ integerComparisons, ofName? q.2 = some (.compareIntegers q.1) := by decide
  simp only [applyNamed, hnames q hq]
  rfl

theorem applyNamed_textComparison (room : Room) {q : Relation × String}
    (hq : q ∈ textComparisons) (a b : Datum) :
    applyNamed room q.2 [a, b] = comparison toText Lisplet.compareTexts q.1 a b := by
  have hnames : ∀ q ∈ textComparisons, ofName? q.2 = some (.compareTexts q.1) := by decide
  simp only [applyNamed, hnames q hq]
  rfl

/-- The comparisons of integers are those of a linear order, and so are those of texts. There the
first character that differs decides by its code point, and a beginning is less than the whole. -/
theorem comparisons_are_linear_orders (room : Room) :
    Orders room integerComparisons (toInteger room) (· < ·) ∧
    Orders room textComparisons toText (List.Lex fun c d => c.toNat < d.toNat) :=
  ⟨orders_of_comparison (fun _ _ => compare_eq_iff_eq) (fun _ _ => compare_lt_iff_lt)
      fun _ hq => applyNamed_integerComparison room hq,
    orders_of_comparison (fun _ _ => compareTexts_eq_iff) (fun _ _ => compareTexts_eq_lt_iff)
      fun _ hq => applyNamed_textComparison room hq⟩

/-- A truth value counts as its name, which is a beginning of the other text. -/
example : applyNamed .standard "string<?" [.bool true, .string "True!"] = .ok (.bool true) := rfl

end Primitive
end Lisplet
