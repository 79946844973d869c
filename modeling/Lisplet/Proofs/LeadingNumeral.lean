import Lisplet.Equality
import Lisplet.Proofs.DecimalNumeral
import Mathlib.Data.List.TakeWhile

/-! Texts as integers: how a text is split for the number at its front, and which texts count as an
integer. The text of an integer counts as that integer, and where no run of digits is too long a
text counts as an integer or is at fault. -/
namespace Lisplet
open Lexeme Scan

namespace LeadingInteger

def signText (negative : Bool) : List Char := if negative then ['-'] else []

/-- The text is white space, a minus sign if there is one, digits and a rest, and neither the white
space nor the digits go on. -/
structure Splits (cs blank : List Char) (i : LeadingInteger) : Prop where
  text : cs = blank ++ (signText i.negative ++ (i.digits ++ i.rest))
  blank_all : ∀ c ∈ blank, isBlank c = true
  blank_stops : Stops isBlank (signText i.negative ++ (i.digits ++ i.rest))
  sign_taken : i.negative = false → (i.digits ++ i.rest).head? ≠ some '-'
  digits_all : ∀ c ∈ i.digits, c.isDigit = true
  digits_stop : Stops Char.isDigit i.rest

/-- What makes the digits before it no integer: a fraction or an exponent. -/
inductive Continuation : List Char → Prop
  | fraction {c : Char} {rest : List Char} : c.isDigit = true → Continuation ('.' :: c :: rest)
  | exponent {mark c : Char} {sign rest : List Char} : mark = 'e' ∨ mark = 'E' →
      sign = [] ∨ sign = ['-'] ∨ sign = ['+'] → c.isDigit = true →
      Continuation (mark :: (sign ++ c :: rest))

section
variable {cs blank rest : List Char} {i : LeadingInteger}

theorem splits_of (cs : List Char) : Splits cs (cs.takeWhile isBlank) (LeadingInteger.of cs) := by
  have hblank : ∀ c ∈ cs.takeWhile isBlank, isBlank c = true :=
    List.all_eq_true.mp List.all_takeWhile
  have hstops := stops_dropWhile isBlank cs
  have htext : cs = cs.takeWhile isBlank ++ cs.dropWhile isBlank :=
    List.takeWhile_append_dropWhile.symm
  simp only [LeadingInteger.of]
  split
  · next unsigned hunsigned =>
    rw [hunsigned] at hstops htext
    refine ⟨?_, hblank, ?_, by simp, List.all_eq_true.mp List.all_takeWhile, stops_dropWhile _ _⟩
    · simpa [signText] using htext
    · simpa [signText] using hstops
  · next hunsigned =>
    refine ⟨?_, hblank, ?_, fun _ => ?_, List.all_eq_true.mp List.all_takeWhile,
      stops_dropWhile _ _⟩
    · simp [signText]
    · simpa [signText] using hstops
    · rw [List.takeWhile_append_dropWhile]
      intro hhead
      obtain ⟨unsigned, heq⟩ := List.head?_eq_some_iff.mp hhead
      exact hunsigned unsigned heq

theorem Splits.unique (h : Splits cs blank i) :
    blank = cs.takeWhile isBlank ∧ i = LeadingInteger.of cs := by
  have hbody : cs.dropWhile isBlank = signText i.negative ++ (i.digits ++ i.rest) := by
    rw [h.text, List.dropWhile_append_of_pos h.blank_all, dropWhile_of_stops h.blank_stops]
  have htake : (i.digits ++ i.rest).takeWhile Char.isDigit = i.digits := by
    rw [List.takeWhile_append_of_pos h.digits_all, takeWhile_of_stops h.digits_stop, List.append_nil]
  have hdrop : (i.digits ++ i.rest).dropWhile Char.isDigit = i.rest := by
    rw [List.dropWhile_append_of_pos h.digits_all, dropWhile_of_stops h.digits_stop]
  constructor
  · rw [h.text, List.takeWhile_append_of_pos h.blank_all, takeWhile_of_stops h.blank_stops,
      List.append_nil]
  · obtain ⟨negative, digits, rest⟩ := i
    simp only [LeadingInteger.of, hbody]
    cases negative with
    | true => simp only [signText, if_true, List.singleton_append, htake, hdrop]
    | false =>
      simp only [signText, Bool.false_eq_true, if_false, List.nil_append]
      split
      · next unsigned heq =>
        have hsign := h.sign_taken rfl
        rw [heq] at hsign
        exact absurd rfl hsign
      · rw [htake, hdrop]

theorem startsWithDigit_iff :
    startsWithDigit cs = true ↔ ∃ c rest, cs = c :: rest ∧ c.isDigit = true := by
  cases cs <;> simp [startsWithDigit]

theorem exists_sign (cs : List Char) :
    ∃ sign, (sign = [] ∨ sign = ['-'] ∨ sign = ['+']) ∧ cs = sign ++ (splitSign cs).2 := by
  unfold splitSign
  split
  · exact ⟨['-'], by simp, rfl⟩
  · exact ⟨['+'], by simp, rfl⟩
  · exact ⟨[], by simp, rfl⟩

theorem splitSign_digits {c : Char} {sign : List Char} (hc : c.isDigit = true)
    (hsign : sign = [] ∨ sign = ['-'] ∨ sign = ['+']) :
    (splitSign (sign ++ c :: rest)).2 = c :: rest := by
  rcases hsign with rfl | rfl | rfl
  · rw [List.nil_append, splitSign_of_isDigit hc]
  · rfl
  · rfl

theorem continues_iff : continues rest = true ↔ Continuation rest := by
  constructor
  · intro h
    unfold continues at h
    split at h
    · obtain ⟨c, tail, rfl, hc⟩ := startsWithDigit_iff.mp h
      exact .fraction hc
    · next mark tail _ =>
      obtain ⟨hmark, hdigit⟩ := Bool.and_eq_true_iff.mp h
      obtain ⟨sign, hsign, htail⟩ := exists_sign tail
      obtain ⟨c, rest, hrest, hc⟩ := startsWithDigit_iff.mp hdigit
      rw [htail, hrest]
      exact .exponent (by simpa using hmark) hsign hc
    · cases h
  · intro h
    cases h with
    | fraction hc => exact hc
    | @exponent mark c sign rest hmark hsign hc =>
      have hdigit : (splitSign (sign ++ c :: rest)).2 = c :: rest := splitSign_digits hc hsign
      rcases hmark with rfl | rfl
      · simp [continues, hdigit, startsWithDigit, hc]
      · simp [continues, hdigit, startsWithDigit, hc]

theorem digits_isInfix (cs : List Char) : (LeadingInteger.of cs).digits <:+: cs := by
  have htext := (splits_of cs).text
  rw [← List.append_assoc] at htext
  exact ⟨_, _, by rw [List.append_assoc]; exact htext.symm⟩

theorem Splits.value_eq (h : Splits cs blank i) :
    i.value = if i.negative then -(Nat.ofDigitChars 10 i.digits 0 : Int)
      else (Nat.ofDigitChars 10 i.digits 0 : Int) := by
  have hdigits := decimalValue_eq_ofDigitChars h.digits_all
  rw [decimalValue] at hdigits
  simp only [value, hdigits]

theorem splits_decimal {tail : List Char} (n : Int) (hblank : ∀ c ∈ blank, isBlank c = true)
    (htail : Stops Char.isDigit tail) :
    Splits (blank ++ (decimal n ++ tail)) blank
      ⟨decide (n < 0), Nat.toDigits 10 n.natAbs, tail⟩ := by
  obtain ⟨c, ds, hds⟩ := List.exists_cons_of_ne_nil (Nat.toDigits_ne_nil (b := 10) (n := n.natAbs))
  have hc : c.isDigit = true := isDigit_of_mem_toDigits (hds ▸ List.mem_cons_self)
  have hminus : c ≠ '-' := by
    rintro rfl
    cases hc
  refine ⟨?_, hblank, ?_, ?_, fun _ => isDigit_of_mem_toDigits, htail⟩
  · by_cases hn : n < 0
    · simp [decimal, signText, hn]
    · simp [decimal, signText, hn]
  · by_cases hn : n < 0
    · simp [signText, hn, show isBlank '-' = false by decide]
    · simp [signText, hn, hds, isBlank_of_isDigit hc]
  · simp [hds, hminus]

end
end LeadingInteger

namespace Datum
open LeadingInteger

variable {s : String} {blank tail : List Char} {i : LeadingInteger} {n : Int}

/-- A text counts as the integer at its front if that has digits, and nothing behind them makes it
another number. -/
theorem integerOfText_cases (h : Splits s.toList blank i) :
    ((i.digits = [] ∨ Continuation i.rest) ∧
      integerOfText s = (Fault.wrongType .number (.string s)).raise) ∨
    (i.digits ≠ [] ∧ ¬ Continuation i.rest ∧ digitLimit < i.digits.length ∧
      integerOfText s = .error (.longNumeral i.digits.length)) ∨
    (i.digits ≠ [] ∧ ¬ Continuation i.rest ∧ i.digits.length ≤ digitLimit ∧
      integerOfText s = .ok i.value) := by
  obtain ⟨-, rfl⟩ := h.unique
  simp only [integerOfText, ← continues_iff]
  split_ifs with hnone hlong
  · exact .inl ⟨hnone, rfl⟩
  · rw [not_or] at hnone
    exact .inr (.inl ⟨hnone.1, hnone.2, hlong, rfl⟩)
  · rw [not_or] at hnone
    exact .inr (.inr ⟨hnone.1, hnone.2, Nat.le_of_not_lt hlong, rfl⟩)

/-- No run of digits in a text is longer than an integer may be. -/
def ShortRuns (s : String) : Prop :=
  ∀ run, run <:+: s.toList → (∀ c ∈ run, c.isDigit = true) → run.length ≤ digitLimit

theorem integerOfText_ok_or_fault (h : ShortRuns s) :
    (∃ n, integerOfText s = .ok n) ∨ ∃ f, integerOfText s = .error (.fault f) := by
  have hsplits := splits_of s.toList
  rcases integerOfText_cases hsplits with ⟨-, hfault⟩ | ⟨-, -, hlong, -⟩ | ⟨-, -, -, hok⟩
  · exact .inr ⟨_, hfault⟩
  · have hlength := h _ (digits_isInfix s.toList) hsplits.digits_all
    omega
  · exact .inl ⟨_, hok⟩

/-- The text of an integer counts as the integer, also behind white space and before anything that
does not go on with digits, a fraction or an exponent. -/
theorem integerOfText_around_decimal (h : isWritable n = true)
    (hblank : ∀ c ∈ blank, isBlank c = true) (htail : Stops Char.isDigit tail)
    (hend : ¬ Continuation tail) :
    integerOfText (String.ofList (blank ++ (decimal n ++ tail))) = .ok n := by
  have hsplits := splits_decimal n hblank htail
  rw [← String.toList_ofList (l := blank ++ (decimal n ++ tail))] at hsplits
  have hlength := isWritable_iff.mp h
  rcases integerOfText_cases hsplits with ⟨hnone | hmore, -⟩ | ⟨-, -, hlong, -⟩ | ⟨-, -, -, hok⟩
  · exact absurd hnone Nat.toDigits_ne_nil
  · exact absurd hmore hend
  · exact absurd hlong (Nat.not_lt.mpr hlength)
  · rw [hok, hsplits.value_eq, Nat.ofDigitChars_ten_toDigits]
    by_cases hn : n < 0
    · simp only [hn, decide_true, if_true]
      exact congrArg _ (by omega)
    · simp only [hn, decide_false, Bool.false_eq_true, if_false]
      exact congrArg _ (by omega)

theorem integerOfText_decimal (h : isWritable n = true) :
    integerOfText (String.ofList (decimal n)) = .ok n := by
  have hend : ¬ Continuation [] := nofun
  have hblank : ∀ c ∈ [], isBlank c = true := by simp
  simpa using integerOfText_around_decimal h hblank stops_nil hend

theorem integerOfText_truth (b : Bool) :
    ∃ f, integerOfText (if b then "True" else "False") = .error (.fault f) := by
  cases b <;> exact ⟨_, rfl⟩

end Datum
end Lisplet
