import Lisplet.Primitive
import Lisplet.Proofs.LeadingNumeral

/-! Which texts count as an integer, and as which one. White space in front and nearly any rest
behind the digits are passed over, so the text of an integer can be found again among others, and
integers with the same text are the same. -/
namespace Lisplet

namespace Primitive

variable {room : Room} {a b : Datum}

theorem both_of_ok {α : Type} {coerce : Datum → Outcome α} {x y : α} (ha : coerce a = .ok x)
    (hb : coerce b = .ok y) : both coerce a b = .ok (x, y) := by
  rw [both, ha, hb]
  rfl

theorem applyNamed_integers_equal {m n : Int} (ha : a.toInteger room = .ok m)
    (hb : b.toInteger room = .ok n) :
    applyNamed room "=" [a, b] = .ok (.bool (decide (m = n))) := by
  have happly : applyNamed room "=" [a, b] = (both (Datum.toInteger room) a b).map fun p =>
      .bool (Relation.eq.holds (compare p.1 p.2)) := rfl
  rw [happly, both_of_ok ha hb, Except.map, Except.ok.injEq, Datum.bool.injEq, Relation.holds,
    Bool.eq_iff_iff, beq_iff_eq, compare_eq_iff_eq, decide_eq_true_iff]

theorem applyNamed_texts_equal {as bs : List Char} (ha : a.toText = .ok as)
    (hb : b.toText = .ok bs) :
    applyNamed room "string=?" [a, b] = .ok (.bool (decide (as = bs))) := by
  have happly : applyNamed room "string=?" [a, b] = (both Datum.toText a b).map fun p =>
      .bool (Relation.eq.holds (Lisplet.compareTexts p.1 p.2)) := rfl
  rw [happly, both_of_ok ha hb, Except.map, Except.ok.injEq, Datum.bool.injEq, Relation.holds,
    Bool.eq_iff_iff, beq_iff_eq, compareTexts_eq_iff, decide_eq_true_iff]

end Primitive

namespace Datum
open LeadingInteger Scan

section
variable {s : String} {blank : List Char} {i : LeadingInteger} {n : Int}

theorem integerOfText_eq_ok_iff (h : Splits s.toList blank i) :
    integerOfText s = .ok n ↔
      i.digits ≠ [] ∧ i.digits.length ≤ digitLimit ∧ ¬ Continuation i.rest ∧ n = i.value := by
  rcases integerOfText_cases h with ⟨hnone, heq⟩ | ⟨-, -, hlong, heq⟩ | ⟨hdigits, hend, hshort, heq⟩
  · rw [heq]
    refine ⟨nofun, fun ⟨hdigits, _, hend, _⟩ => ?_⟩
    exact absurd hnone (not_or.mpr ⟨hdigits, hend⟩)
  · rw [heq]
    exact ⟨nofun, fun ⟨_, hshort, _⟩ => absurd hlong (Nat.not_lt.mpr hshort)⟩
  · rw [heq]
    refine ⟨fun hn => ⟨hdigits, hshort, hend, (Except.ok.inj hn).symm⟩, ?_⟩
    rintro ⟨-, -, -, rfl⟩
    rfl

theorem integerOfText_eq_longNumeral_iff (h : Splits s.toList blank i) :
    integerOfText s = .error (.longNumeral i.digits.length) ↔
      i.digits ≠ [] ∧ digitLimit < i.digits.length ∧ ¬ Continuation i.rest := by
  rcases integerOfText_cases h with ⟨hnone, heq⟩ | ⟨hdigits, hend, hlong, heq⟩ | ⟨-, -, hshort, heq⟩
  · rw [heq]
    exact ⟨nofun, fun ⟨hdigits, _, hend⟩ => absurd hnone (not_or.mpr ⟨hdigits, hend⟩)⟩
  · exact ⟨fun _ => ⟨hdigits, hlong, hend⟩, fun _ => heq⟩
  · rw [heq]
    exact ⟨nofun, fun ⟨_, hlong, _⟩ => absurd hlong (Nat.not_lt.mpr hshort)⟩

theorem integerOfText_eq_fault_iff (h : Splits s.toList blank i) :
    integerOfText s = (Fault.wrongType .number (.string s)).raise ↔
      i.digits = [] ∨ Continuation i.rest := by
  rcases integerOfText_cases h with ⟨hnone, heq⟩ | ⟨hdigits, hend, -, heq⟩ | ⟨hdigits, hend, -, heq⟩
  · exact ⟨fun _ => hnone, fun _ => heq⟩
  · rw [heq]
    exact ⟨nofun, fun hnone => absurd hnone (not_or.mpr ⟨hdigits, hend⟩)⟩
  · rw [heq]
    exact ⟨nofun, fun hnone => absurd hnone (not_or.mpr ⟨hdigits, hend⟩)⟩

theorem decimal_injective {m n : Int} (hm : isWritable m = true) (hn : isWritable n = true)
    (h : decimal m = decimal n) : m = n := by
  have hvalue := integerOfText_decimal hm
  rw [h, integerOfText_decimal hn] at hvalue
  exact (Except.ok.inj hvalue).symm

end

open Primitive in
/-- A text is split in one way into white space, a sign, digits and a rest. It counts as the integer
that its digits spell if there are any, not too many, and the rest is neither a fraction nor an
exponent; too many digits meet their limit, and all else is no number. So the text of an integer
counts as it within other text too, and texts of integers are the same where the integers are. -/
theorem text_counts_as_integer (room : Room) :
    (∀ s : String, ∃ blank i, Splits s.toList blank i ∧
      (∀ blank' i', Splits s.toList blank' i' → blank' = blank ∧ i' = i) ∧
      (∀ n, toInteger room (.string s) = .ok n ↔
        i.digits ≠ [] ∧ i.digits.length ≤ digitLimit ∧ ¬ Continuation i.rest ∧
          n = if i.negative then -(Nat.ofDigitChars 10 i.digits 0 : Int)
            else (Nat.ofDigitChars 10 i.digits 0 : Int)) ∧
      (toInteger room (.string s) = .error (.longNumeral i.digits.length) ↔
        i.digits ≠ [] ∧ digitLimit < i.digits.length ∧ ¬ Continuation i.rest) ∧
      (toInteger room (.string s) = (Fault.wrongType .number (.string s)).raise ↔
        i.digits = [] ∨ Continuation i.rest)) ∧
    (∀ n : Int, (Nat.toDigits 10 n.natAbs).length ≤ digitLimit → ∀ blank tail : List Char,
      (∀ c ∈ blank, isBlank c = true) → Stops Char.isDigit tail → ¬ Continuation tail →
      ∃ text, toText (.int n) = .ok text ∧
        toInteger room (.string (String.ofList (blank ++ (text ++ tail)))) = .ok n) ∧
    ∀ m n : Int, (Nat.toDigits 10 m.natAbs).length ≤ digitLimit →
      (Nat.toDigits 10 n.natAbs).length ≤ digitLimit →
      applyNamed room "string=?" [.int m, .int n] = .ok (.bool (decide (m = n))) ∧
        applyNamed room "=" [.int m, .int n] = .ok (.bool (decide (m = n))) := by
  refine ⟨fun s => ?_, fun n hn blank tail hblank htail hend => ?_, fun m n hm hn => ?_⟩
  · have hsplits := splits_of s.toList
    refine ⟨_, _, hsplits, fun blank' i' h => h.unique, fun n => ?_,
      integerOfText_eq_longNumeral_iff hsplits, integerOfText_eq_fault_iff hsplits⟩
    rw [← hsplits.value_eq]
    exact integerOfText_eq_ok_iff hsplits
  · have hwritable : isWritable n = true := isWritable_iff.mpr hn
    exact ⟨decimal n, toText_int hwritable,
      integerOfText_around_decimal hwritable hblank htail hend⟩
  · have hm' : isWritable m = true := isWritable_iff.mpr hm
    have hn' : isWritable n = true := isWritable_iff.mpr hn
    have hsame : decimal m = decimal n ↔ m = n := ⟨decimal_injective hm' hn', congrArg decimal⟩
    refine ⟨?_, applyNamed_integers_equal rfl rfl⟩
    rw [applyNamed_texts_equal (toText_int hm') (toText_int hn'), decide_eq_decide.mpr hsame]

open Primitive in
/-- An exponent without digits is no exponent. -/
theorem text_counts_as_integer_padded :
    (∃ text, toText (.int (-12)) = .ok text ∧
      toInteger .standard (.string (String.ofList ([' ', '\n'] ++ (text ++ ['e', 'x'])))) =
        .ok (-12)) ∧
      applyNamed .standard "string=?" [.int 7, .int 12] = .ok (.bool false) := by
  have hend : ¬ Continuation ['e', 'x'] := by
    rw [← continues_iff]
    decide
  obtain ⟨-, haround, hequal⟩ := text_counts_as_integer .standard
  have hblank : ∀ c ∈ [' ', '\n'], isBlank c = true := List.all_eq_true.mp rfl
  exact ⟨haround (-12) (by decide) [' ', '\n'] ['e', 'x'] hblank (stops_cons.mpr (by decide)) hend,
    (hequal 7 12 (by decide) (by decide)).1⟩

end Datum
end Lisplet
