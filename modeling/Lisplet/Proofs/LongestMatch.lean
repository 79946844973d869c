import Lisplet.Proofs.Lexeme

/-! The scanner tries the classes in a fixed order and takes the first that has a text. That text is
the longest of any class: classes that begin alike are ordered so that the earlier one is longer. -/
namespace Lisplet
open Lexeme

/-- Classes whose texts begin with the same characters: those that begin with a digit are one. -/
def Kind.family : Kind → Kind
  | .complex | .float | .ratio => .integer
  | k => k

namespace Scan

def frontFamily : List Char → Kind
  | [] => .error
  | c :: rest =>
    if isBlank c then .space
    else if c.isDigit then .integer
    else if startsSymbol c then .symbol
    else if c = '#' then
      match rest with
      | '(' :: _ => .vector
      | '\\' :: _ => .char
      | 't' :: _ | 'f' :: _ => .bool
      | _ => .radix
    else if c = '(' then .lparen
    else if c = ')' then .rparen
    else if c = '.' then .dot
    else if c = '\x22' then .string
    else .quote

section
variable {k k' : Kind} {v w w' cs rest : List Char}

theorem frontFamily_of_mem_digits (hv : v ∈ digits) (rest : List Char) :
    frontFamily (v ++ rest) = .integer := by
  obtain ⟨hne, hdigit⟩ := mem_digits.mp hv
  cases v with
  | nil => exact absurd rfl hne
  | cons c v =>
    have hc := hdigit c (by simp)
    simp [frontFamily, isBlank_of_isDigit hc, hc]

theorem frontFamily_of_mem_real (hv : v ∈ real) (rest : List Char) :
    frontFamily (v ++ rest) = .integer := by
  rcases mem_real.mp hv with hv | hv
  · exact frontFamily_of_mem_digits hv rest
  · obtain ⟨u, hu, v, -, rfl⟩ := mem_digitsAround.mp hv
    rw [List.append_assoc]
    exact frontFamily_of_mem_digits hu _

theorem frontFamily_of_mem (hv : v ∈ k.language) (rest : List Char) :
    frontFamily (v ++ rest) = k.family := by
  cases k with
  | space =>
    obtain ⟨hne, hblank⟩ := mem_many.mp hv
    cases v with
    | nil => exact absurd rfl hne
    | cons c v => simp [frontFamily, hblank c (by simp), Kind.family]
  | integer => exact frontFamily_of_mem_digits hv rest
  | float | ratio =>
    obtain ⟨u, hu, v, -, rfl⟩ := mem_digitsAround.mp hv
    rw [List.append_assoc]
    exact frontFamily_of_mem_digits hu _
  | complex =>
    obtain ⟨u, hu, v, -, rfl⟩ := mem_complex.mp hv
    rw [List.append_assoc]
    exact frontFamily_of_mem_real hu _
  | symbol =>
    obtain ⟨c, v, hc, -, rfl⟩ := mem_symbol.mp hv
    simp [frontFamily, isBlank_of_startsSymbol hc, isDigit_of_startsSymbol hc, hc, Kind.family]
  | radix =>
    obtain ⟨c, v, hc, -, rfl⟩ := mem_radix.mp hv
    rcases hc with rfl | rfl | rfl | rfl <;> rfl
  | char =>
    obtain ⟨v, -, rfl⟩ := mem_char.mp hv
    rfl
  | string =>
    obtain ⟨v, -, rfl⟩ := mem_string.mp hv
    rfl
  | bool => rcases mem_bool.mp hv with rfl | rfl <;> rfl
  | quote => rcases mem_quote.mp hv with rfl | rfl | rfl <;> rfl
  | lparen | rparen | vector | dot =>
    obtain rfl := mem_word.mp hv
    rfl
  | error | other => exact absurd hv (Language.notMem_zero v)

theorem frontFamily_of_lexeme? (hk : k ≠ .error) (h : lexeme? k cs = some w) :
    frontFamily cs = k.family := by
  obtain ⟨hw, rest, rfl⟩ := lexeme?_sound hk h
  exact frontFamily_of_mem hw rest

/-- Digits around a mark begin with the digits that would be found without it. -/
theorem digits?_of_digitsAround? {mark : Char} (hm : mark.isDigit = false)
    (h : digitsAround? mark cs = some w) :
    ∃ u v rest, digits? cs = some u ∧ w = u ++ mark :: v ∧ cs = u ++ mark :: rest := by
  obtain ⟨u, hu, v, -, rest, rfl, rfl, -⟩ := split_of_digitsAround? h
  exact ⟨u, v, v ++ rest, run?_append_of_stops hu (by simp [hm]), rfl, rfl⟩

theorem digits?_lt_digitsAround? {mark : Char} (hm : mark.isDigit = false)
    (h : digitsAround? mark cs = some w) (h' : digits? cs = some w') : w'.length < w.length := by
  obtain ⟨u, v, rest, hu, rfl, -⟩ := digits?_of_digitsAround? hm h
  obtain rfl := Option.some.inj (hu.symm.trans h')
  simp

theorem fraction_excludes_ratio (h : digitsAround? '.' cs = some w) :
    digitsAround? '/' cs ≠ some w' := by
  intro h'
  obtain ⟨u, -, rest, hu, -, hcs⟩ := digits?_of_digitsAround? (by decide) h
  obtain ⟨u', -, rest', hu', -, hcs'⟩ := digits?_of_digitsAround? (by decide) h'
  obtain rfl := Option.some.inj (hu.symm.trans hu')
  have hmarks := List.append_cancel_left (hcs.symm.trans hcs')
  simp at hmarks

theorem complex_excludes_ratio (h : complex? cs = some w) : digitsAround? '/' cs ≠ some w' := by
  intro h'
  obtain ⟨u, v, rest, hu, -, -, hcs⟩ := split_of_complex? h
  obtain ⟨u', -, rest', hu', -, hcs'⟩ := digits?_of_digitsAround? (by decide) h'
  have hpoint : digitsAround? '.' cs = none :=
    Option.eq_none_iff_forall_ne_some.mpr fun v hv => fraction_excludes_ratio hv h'
  rw [real?_eq_or, hpoint, Option.none_or] at hu
  obtain rfl := Option.some.inj (hu.symm.trans hu')
  have hmarks := List.append_cancel_left (hcs.symm.trans hcs')
  simp at hmarks

theorem digits?_le_real? (h : real? cs = some w) (h' : digits? cs = some w') :
    w'.length ≤ w.length := by
  rw [real?_eq_or, Option.or_eq_some_iff] at h
  rcases h with h | ⟨-, h⟩
  · exact (digits?_lt_digitsAround? (by decide) h h').le
  · rw [Option.some.inj (h'.symm.trans h)]

theorem real?_lt_complex? (h : complex? cs = some w) (h' : real? cs = some w') :
    w'.length < w.length := by
  obtain ⟨u, v, rest, hu, -, rfl, -⟩ := split_of_complex? h
  obtain rfl := Option.some.inj (hu.symm.trans h')
  simp

def rivals : List (Kind × Kind) :=
  [(.complex, .float), (.complex, .ratio), (.complex, .integer), (.float, .ratio),
    (.float, .integer), (.ratio, .integer)]

theorem lt_of_rivals (hk : (k, k') ∈ rivals) (h : lexeme? k cs = some w)
    (h' : lexeme? k' cs = some w') : w'.length < w.length := by
  simp only [rivals, List.mem_cons, Prod.mk.injEq, List.not_mem_nil, or_false] at hk
  rcases hk with ⟨rfl, rfl⟩ | ⟨rfl, rfl⟩ | ⟨rfl, rfl⟩ | ⟨rfl, rfl⟩ | ⟨rfl, rfl⟩ | ⟨rfl, rfl⟩
  · have hfloat : digitsAround? '.' cs = some w' := h'
    exact real?_lt_complex? h (by rw [real?_eq_or, hfloat, Option.some_or])
  · exact absurd h' (complex_excludes_ratio h)
  · obtain ⟨u, v, rest, hu, -⟩ := split_of_complex? h
    exact (digits?_le_real? hu h').trans_lt (real?_lt_complex? h hu)
  · exact absurd h' (fraction_excludes_ratio h)
  · exact digits?_lt_digitsAround? (by decide) h h'
  · exact digits?_lt_digitsAround? (by decide) h h'

/-- Of two classes that both find a text, the one that is tried first finds the longer. -/
theorem pairwise_longer (cs : List Char) :
    Kind.all.Pairwise fun k k' => ∀ w w', k' ≠ .error → lexeme? k cs = some w →
      lexeme? k' cs = some w' → w'.length < w.length := by
  have horder : Kind.all.Pairwise fun k k' =>
      k ≠ .error ∧ (k.family ≠ k'.family ∨ (k, k') ∈ rivals) := by decide
  refine horder.imp ?_
  rintro k k' ⟨hk, hfamily | hrivals⟩ w w' hk' h h'
  · have hsame := (frontFamily_of_lexeme? hk h).symm.trans (frontFamily_of_lexeme? hk' h')
    exact absurd hsame hfamily
  · exact lt_of_rivals hrivals h h'

end

end Scan
end Lisplet
