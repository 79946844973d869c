import Lisplet.Token
import Mathlib.Computability.Language

/-! The classes of tokens as regular languages. A language says which texts belong to a class and
nothing about how a scanner looks for them or in which order it tries the classes. The characters
that words are made of do not overlap with those that stand between words; within ASCII this is a
finite check, beyond it a check of the bounds of the ranges. -/
namespace Lisplet

theorem ascii_induction {P : Char → Prop} (h : ∀ n < 128, P (Char.ofNat n)) {c : Char}
    (hc : c.toNat < 128) : P c := by
  have hn := h c.toNat hc
  rwa [Char.ofNat_toNat] at hn

theorem inRanges_eq_false_of_disjoint {xs ys : List (Nat × Nat)} {c : Char}
    (hdisjoint : ∀ x ∈ xs, ∀ y ∈ ys, x.2 < y.1 ∨ y.2 < x.1) (hc : inRanges xs c = true) :
    inRanges ys c = false := by
  obtain ⟨x, hx, hlow, hhigh⟩ := inRanges_iff.mp hc
  rw [← Bool.not_eq_true, inRanges_iff]
  rintro ⟨y, hy, hlow', hhigh'⟩
  rcases hdisjoint x hx y hy with h | h
  · omega
  · omega

theorem letterRanges_disjoint_blankRanges :
    ∀ x ∈ letterRanges, ∀ y ∈ blankRanges, x.2 < y.1 ∨ y.2 < x.1 := by
  -- No blank stands beyond U+3000, so only the letters up to there are compared with the blanks.
  have hlast : ∀ y ∈ blankRanges, y.2 ≤ 0x3000 := by decide
  have hcheck : (letterRanges.all fun x => Nat.blt 0x3000 x.1 ||
      blankRanges.all fun y => Nat.blt x.2 y.1 || Nat.blt y.2 x.1) = true := by decide +kernel
  intro x hx y hy
  have hxy := List.all_eq_true.mp hcheck x hx
  simp only [Bool.or_eq_true, Nat.blt_eq, List.all_eq_true] at hxy
  rcases hxy with hbeyond | hxy
  · exact .inr (Nat.lt_of_le_of_lt (hlast y hy) hbeyond)
  · exact hxy y hy

theorem toNat_lt_of_isDigit {c : Char} (h : c.isDigit = true) : c.toNat < 128 := by
  have hbound : c.toNat ≤ '9'.toNat := (Char.isDigit_iff_toNat.mp h).2
  have hnine : '9'.toNat = 57 := rfl
  omega

theorem toNat_lt_of_isAlphanum {c : Char} (h : c.isAlphanum = true) : c.toNat < 128 := by
  rcases Bool.or_eq_true_iff.mp h with h | h
  · rcases Bool.or_eq_true_iff.mp h with h | h
    · have hbound : c.toNat ≤ 90 := (of_decide_eq_true h).2
      omega
    · have hbound : c.toNat ≤ 122 := of_decide_eq_true (Bool.and_eq_true_iff.mp h).2
      omega
  · exact toNat_lt_of_isDigit h

theorem isBlank_of_isDigit {c : Char} (h : c.isDigit = true) : isBlank c = false :=
  ascii_induction (P := fun c => c.isDigit = true → isBlank c = false) (by decide)
    (toNat_lt_of_isDigit h) h

theorem isBlank_of_isAlphanum {c : Char} (h : c.isAlphanum = true) : isBlank c = false :=
  ascii_induction (P := fun c => c.isAlphanum = true → isBlank c = false) (by decide)
    (toNat_lt_of_isAlphanum h) h

theorem isBlank_of_isLetter {c : Char} (h : isLetter c = true) : isBlank c = false := by
  by_cases hc : c.toNat < 128
  · exact ascii_induction (P := fun c => isLetter c = true → isBlank c = false) (by decide) hc h
  · have hrange : inRanges letterRanges c = true := by simpa [isLetter, hc] using h
    exact inRanges_eq_false_of_disjoint letterRanges_disjoint_blankRanges hrange

theorem isDigit_of_isLetter {c : Char} (h : isLetter c = true) : c.isDigit = false := by
  by_cases hc : c.toNat < 128
  · exact ascii_induction (P := fun c => isLetter c = true → c.isDigit = false) (by decide) hc h
  · rw [← Bool.not_eq_true]
    exact fun hdigit => hc (toNat_lt_of_isDigit hdigit)

namespace Scan

theorem isBlank_of_startsSymbol {c : Char} (h : startsSymbol c = true) : isBlank c = false := by
  rcases Bool.or_eq_true_iff.mp h with h | h
  · exact isBlank_of_isLetter h
  · have hsigns : ∀ d ∈ signs, isBlank d = false := by
      simp [signs]
      decide
    exact hsigns c (List.contains_iff_mem.mp h)

theorem isDigit_of_startsSymbol {c : Char} (h : startsSymbol c = true) : c.isDigit = false := by
  rcases Bool.or_eq_true_iff.mp h with h | h
  · exact isDigit_of_isLetter h
  · have hsigns : ∀ d ∈ signs, d.isDigit = false := by simp [signs]
    exact hsigns c (List.contains_iff_mem.mp h)

theorem isBlank_of_continuesSymbol {c : Char} (h : continuesSymbol c = true) :
    isBlank c = false := by
  simp only [continuesSymbol, Bool.or_eq_true] at h
  rcases h with (h | h) | h
  · exact isBlank_of_isLetter h
  · exact isBlank_of_isDigit h
  · exact isBlank_of_startsSymbol (by simp [startsSymbol, h])

end Scan

open Computability

namespace Lexeme

def oneOf (p : Char → Bool) : Language Char := {w | ∃ c, p c = true ∧ w = [c]}

def word (cs : List Char) : Language Char := {cs}

def many (p : Char → Bool) : Language Char := oneOf p * (oneOf p)∗

def digits : Language Char := many Char.isDigit

def digitsAround (mark : Char) : Language Char := digits * word [mark] * digits

def real : Language Char := digits * (1 + word ['.'] * digits)

/-- What may stand between double quotes: escaped pairs, and characters that neither close the text
nor escape another. -/
def quotedPart : Language Char :=
  word ['\\'] * oneOf (fun _ => true) + oneOf fun c => c != '\\' && c != '\x22'

section
variable {p : Char → Bool} {L M : Language Char} {w cs : List Char}

@[simp] theorem mem_oneOf : w ∈ oneOf p ↔ ∃ c, p c = true ∧ w = [c] := Iff.rfl

@[simp] theorem mem_word : w ∈ word cs ↔ w = cs := Iff.rfl

theorem mem_word_mul : w ∈ word cs * M ↔ ∃ v ∈ M, w = cs ++ v := by
  simp [Language.mem_mul, eq_comm]

theorem mem_mul_word : w ∈ L * word cs ↔ ∃ u ∈ L, w = u ++ cs := by
  simp [Language.mem_mul, eq_comm]

theorem mem_mul_word_mul : w ∈ L * (word cs * M) ↔ ∃ u ∈ L, ∃ v ∈ M, w = u ++ (cs ++ v) := by
  rw [Language.mem_mul]
  simp only [mem_word_mul]
  constructor
  · rintro ⟨u, hu, _, ⟨v, hv, rfl⟩, rfl⟩
    exact ⟨u, hu, v, hv, rfl⟩
  · rintro ⟨u, hu, v, hv, rfl⟩
    exact ⟨u, hu, cs ++ v, ⟨v, hv, rfl⟩, rfl⟩

theorem mem_oneOf_mul : w ∈ oneOf p * M ↔ ∃ c v, p c = true ∧ v ∈ M ∧ w = c :: v := by
  rw [Language.mem_mul]
  constructor
  · rintro ⟨_, ⟨c, hc, rfl⟩, v, hv, rfl⟩
    exact ⟨c, v, hc, hv, rfl⟩
  · rintro ⟨c, v, hc, hv, rfl⟩
    exact ⟨[c], ⟨c, hc, rfl⟩, v, hv, rfl⟩

@[simp] theorem mem_star_oneOf : w ∈ (oneOf p)∗ ↔ ∀ c ∈ w, p c = true := by
  rw [Language.mem_kstar]
  constructor
  · rintro ⟨ws, rfl, h⟩ c hc
    obtain ⟨v, hv, hcv⟩ := List.mem_flatten.mp hc
    obtain ⟨d, hd, rfl⟩ := h v hv
    obtain rfl := List.mem_singleton.mp hcv
    exact hd
  · intro h
    refine ⟨w.map fun c => [c], by rw [← List.flatMap_def, List.flatMap_singleton'], ?_⟩
    intro v hv
    obtain ⟨c, hc, rfl⟩ := List.mem_map.mp hv
    exact ⟨c, h c hc, rfl⟩

@[simp] theorem mem_many : w ∈ many p ↔ w ≠ [] ∧ ∀ c ∈ w, p c = true := by
  rw [many, mem_oneOf_mul]
  cases w with
  | nil => simp
  | cons c v => simp

theorem mem_digits : w ∈ digits ↔ w ≠ [] ∧ ∀ c ∈ w, c.isDigit = true := mem_many

theorem mem_digitsAround {mark : Char} :
    w ∈ digitsAround mark ↔ ∃ u ∈ digits, ∃ v ∈ digits, w = u ++ mark :: v := by
  rw [digitsAround, mul_assoc, mem_mul_word_mul]
  rfl

theorem mem_real : w ∈ real ↔ w ∈ digits ∨ w ∈ digitsAround '.' := by
  rw [real, mul_add, mul_one, ← mul_assoc, Language.mem_add, digitsAround]

theorem mem_quotedPart :
    w ∈ quotedPart ↔ (∃ c, w = ['\\', c]) ∨ ∃ c, c ≠ '\\' ∧ c ≠ '\x22' ∧ w = [c] := by
  rw [quotedPart, Language.mem_add, mem_word_mul]
  simp [and_assoc]

theorem escaped_mem_star (c : Char) (hw : w ∈ quotedPart∗) : '\\' :: c :: w ∈ quotedPart∗ := by
  rw [← Language.one_add_self_mul_kstar_eq_kstar]
  exact .inr (Language.append_mem_mul (mem_quotedPart.mpr (.inl ⟨c, rfl⟩)) hw)

theorem plain_mem_star {c : Char} (hback : c ≠ '\\') (hquote : c ≠ '\x22')
    (hw : w ∈ quotedPart∗) : c :: w ∈ quotedPart∗ := by
  rw [← Language.one_add_self_mul_kstar_eq_kstar]
  exact .inr (Language.append_mem_mul (mem_quotedPart.mpr (.inr ⟨c, hback, hquote, rfl⟩)) hw)

/-- Induction on what may stand between double quotes, along its pairs and its other characters. -/
theorem quoted_induction {P : (w : List Char) → w ∈ quotedPart∗ → Prop}
    (nil : P [] (Language.nil_mem_kstar _))
    (escaped : ∀ c w hw, P w hw → P ('\\' :: c :: w) (escaped_mem_star c hw))
    (plain : ∀ c w hw (hback : c ≠ '\\') (hquote : c ≠ '\x22'), P w hw →
      P (c :: w) (plain_mem_star hback hquote hw)) (w : List Char) (hw : w ∈ quotedPart∗) :
    P w hw := by
  obtain ⟨parts, rfl, hparts⟩ := Language.mem_kstar.mp hw
  induction parts with
  | nil => exact nil
  | cons part parts ih =>
    have htail : parts.flatten ∈ quotedPart∗ :=
      Language.join_mem_kstar fun y hy => hparts y (List.mem_cons_of_mem part hy)
    have hrest := ih (fun y hy => hparts y (List.mem_cons_of_mem part hy)) htail
    rcases mem_quotedPart.mp (hparts part (by simp)) with ⟨c, rfl⟩ | ⟨c, hback, hquote, rfl⟩
    · exact escaped c _ htail hrest
    · exact plain c _ htail hback hquote hrest

end

end Lexeme

open Lexeme

/-- The texts of a class. Nothing belongs to the classes that are not part of the language. -/
def Kind.language : Kind → Language Char
  | .space => many isBlank
  | .lparen => word ['(']
  | .rparen => word [')']
  | .vector => word ['#', '(']
  | .quote => oneOf fun c => c == '\x27' || c == '\x60' || c == ','
  | .string => word ['\x22'] * quotedPart∗ * word ['\x22']
  | .char => word ['#', '\\'] * (oneOf isLetter)∗
  | .bool => word ['#'] * oneOf fun c => c == 't' || c == 'f'
  | .radix =>
    word ['#'] * oneOf (fun c => c == 'd' || c == 'b' || c == 'o' || c == 'x') *
      (oneOf Char.isAlphanum)∗
  | .complex => real * word ['+'] * real * word ['i']
  | .float => digitsAround '.'
  | .ratio => digitsAround '/'
  | .integer => digits
  | .symbol => oneOf Scan.startsSymbol * (oneOf Scan.continuesSymbol)∗
  | .dot => word ['.']
  | .error | .other _ => 0

section
variable {w : List Char}

theorem mem_quote :
    w ∈ Kind.quote.language ↔ w = ['\x27'] ∨ w = ['\x60'] ∨ w = [','] := by
  simp [Kind.language, or_and_right, exists_or, or_assoc]

theorem mem_string :
    w ∈ Kind.string.language ↔ ∃ v ∈ quotedPart∗, w = '\x22' :: (v ++ ['\x22']) := by
  change w ∈ word ['\x22'] * quotedPart∗ * word ['\x22'] ↔ _
  rw [mul_assoc, mem_word_mul]
  simp only [mem_mul_word]
  constructor
  · rintro ⟨_, ⟨v, hv, rfl⟩, rfl⟩
    exact ⟨v, hv, rfl⟩
  · rintro ⟨v, hv, rfl⟩
    exact ⟨v ++ ['\x22'], ⟨v, hv, rfl⟩, rfl⟩

theorem mem_char :
    w ∈ Kind.char.language ↔ ∃ v, (∀ c ∈ v, isLetter c = true) ∧ w = '#' :: '\\' :: v := by
  change w ∈ word ['#', '\\'] * (oneOf isLetter)∗ ↔ _
  rw [mem_word_mul]
  simp

theorem mem_bool : w ∈ Kind.bool.language ↔ w = ['#', 't'] ∨ w = ['#', 'f'] := by
  change w ∈ word ['#'] * oneOf (fun c => c == 't' || c == 'f') ↔ _
  rw [mem_word_mul]
  simp [or_and_right, exists_or]

theorem mem_radix :
    w ∈ Kind.radix.language ↔ ∃ c v, (c = 'd' ∨ c = 'b' ∨ c = 'o' ∨ c = 'x') ∧
      (∀ d ∈ v, d.isAlphanum = true) ∧ w = '#' :: c :: v := by
  change w ∈ word ['#'] * oneOf (fun c => c == 'd' || c == 'b' || c == 'o' || c == 'x') *
    (oneOf Char.isAlphanum)∗ ↔ _
  rw [mul_assoc, mem_word_mul]
  simp only [mem_oneOf_mul, mem_star_oneOf, Bool.or_eq_true, beq_iff_eq, or_assoc]
  constructor
  · rintro ⟨_, ⟨c, v, hc, hv, rfl⟩, rfl⟩
    exact ⟨c, v, hc, hv, rfl⟩
  · rintro ⟨c, v, hc, hv, rfl⟩
    exact ⟨c :: v, ⟨c, v, hc, hv, rfl⟩, rfl⟩

theorem mem_symbol :
    w ∈ Kind.symbol.language ↔ ∃ c v, Scan.startsSymbol c = true ∧
      (∀ d ∈ v, Scan.continuesSymbol d = true) ∧ w = c :: v := by
  change w ∈ oneOf Scan.startsSymbol * (oneOf Scan.continuesSymbol)∗ ↔ _
  rw [mem_oneOf_mul]
  simp only [mem_star_oneOf]

theorem mem_complex :
    w ∈ Kind.complex.language ↔ ∃ u ∈ real, ∃ v ∈ real, w = u ++ '+' :: (v ++ ['i']) := by
  change w ∈ real * word ['+'] * real * word ['i'] ↔ _
  simp only [mul_assoc, mem_mul_word_mul, mem_mul_word]
  constructor
  · rintro ⟨u, hu, _, ⟨v, hv, rfl⟩, rfl⟩
    exact ⟨u, hu, v, hv, rfl⟩
  · rintro ⟨u, hu, v, hv, rfl⟩
    exact ⟨u, hu, v ++ ['i'], ⟨v, hv, rfl⟩, rfl⟩

end

end Lisplet
