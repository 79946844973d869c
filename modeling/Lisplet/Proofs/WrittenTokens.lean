import Lisplet.Proofs.MaximalMunch

/-! Where one token ends and the next begins. A text of a class that is followed by what no text of
its family can go on with is a token by itself. -/
namespace Lisplet
open Lexeme Computability

/-- Nothing follows, or white space, or a closing bracket: what follows an item of a sequence. -/
def Ends (rest : List Char) : Prop := ∀ c ∈ rest.head?, isBlank c = true ∨ c = ')'

@[simp] theorem ends_nil : Ends [] := by simp [Ends]

@[simp] theorem ends_cons {c : Char} {rest : List Char} :
    Ends (c :: rest) ↔ isBlank c = true ∨ c = ')' := by
  simp [Ends]

namespace Scan

/-- The letters that the texts of a family can go on with; no bound is given for texts that end with
a mark of their own. -/
def goesOn : Kind → Char → Bool
  | .space => isBlank
  | .integer => fun c => c.isDigit || ['.', '/', '+', 'i'].contains c
  | .symbol => continuesSymbol
  | .char => fun c => isLetter c || ['#', '\\'].contains c
  | .radix => fun c => c.isAlphanum || c == '#'
  | _ => fun _ => true

section
variable {k : Kind} {v w cs rest : List Char}

theorem goesOn_of_mem_digits (h : v ∈ digits) : ∀ c ∈ v, goesOn .integer c = true := by
  intro c hc
  simp [goesOn, (mem_digits.mp h).2 c hc]

theorem goesOn_of_mem_digitsAround {mark : Char} (h : v ∈ digitsAround mark)
    (hmark : goesOn .integer mark = true) : ∀ c ∈ v, goesOn .integer c = true := by
  obtain ⟨u, hu, u', hu', rfl⟩ := mem_digitsAround.mp h
  intro c hc
  rcases List.mem_append.mp hc with hc | hc
  · exact goesOn_of_mem_digits hu c hc
  · rcases List.mem_cons.mp hc with rfl | hc
    · exact hmark
    · exact goesOn_of_mem_digits hu' c hc

theorem goesOn_of_mem_real (h : v ∈ real) : ∀ c ∈ v, goesOn .integer c = true := by
  rcases mem_real.mp h with h | h
  · exact goesOn_of_mem_digits h
  · exact goesOn_of_mem_digitsAround h (by decide)

theorem goesOn_of_mem (h : v ∈ k.language) : ∀ c ∈ v, goesOn k.family c = true := by
  cases k with
  | space => exact (mem_many.mp h).2
  | integer => exact goesOn_of_mem_digits h
  | float => exact goesOn_of_mem_digitsAround h (by decide)
  | ratio => exact goesOn_of_mem_digitsAround h (by decide)
  | complex =>
    obtain ⟨u, hu, u', hu', rfl⟩ := mem_complex.mp h
    intro c hc
    simp only [List.mem_append, List.mem_cons, List.not_mem_nil, or_false] at hc
    rcases hc with hc | rfl | hc | rfl
    · exact goesOn_of_mem_real hu c hc
    · decide
    · exact goesOn_of_mem_real hu' c hc
    · decide
  | symbol =>
    obtain ⟨c, v, hc, hv, rfl⟩ := mem_symbol.mp h
    intro d hd
    rcases List.mem_cons.mp hd with rfl | hd
    · simp only [startsSymbol, Bool.or_eq_true] at hc
      rcases hc with hc | hc
      · simp [goesOn, Kind.family, continuesSymbol, hc]
      · simp [goesOn, Kind.family, continuesSymbol, hc]
    · exact hv d hd
  | char =>
    obtain ⟨v, hv, rfl⟩ := mem_char.mp h
    intro c hc
    rcases List.mem_cons.mp hc with rfl | hc
    · decide
    · rcases List.mem_cons.mp hc with rfl | hc
      · decide
      · simp [goesOn, Kind.family, hv c hc]
  | radix =>
    obtain ⟨c, v, hc, hv, rfl⟩ := mem_radix.mp h
    intro d hd
    rcases List.mem_cons.mp hd with rfl | hd
    · decide
    · rcases List.mem_cons.mp hd with rfl | hd
      · rcases hc with rfl | rfl | rfl | rfl <;> decide
      · simp [goesOn, Kind.family, hv d hd]
  | _ => exact fun c _ => rfl

theorem lex_append_of_longest (hw : w ∈ k.language)
    (hmax : ∀ k' : Kind, k'.family = k.family → ∀ v ∈ k'.language, v <+: w ++ rest →
      v.length ≤ w.length) :
    lex (w ++ rest) = ⟨k, w⟩ :: lex rest := by
  have hne := ne_nil_of_mem hw
  have hcs : w ++ rest ≠ [] := by simp [hne]
  have hlexes : Lexes (w ++ rest) := ⟨k, w, hw, hne, List.prefix_append w rest⟩
  obtain ⟨rest', hsplit, hlex⟩ := lex_eq_cons hcs
  have hcut := first_cut hcs
  generalize first (w ++ rest) = t at hsplit hlex hcut
  obtain ⟨hmem, hlongest⟩ := hcut.longest hlexes
  have hfamily : t.kind.family = k.family := by
    rw [← frontFamily_of_mem hmem rest', ← hsplit, frontFamily_of_mem hw rest]
  have hlength : t.text.length = w.length :=
    le_antisymm (hmax _ hfamily _ hmem hcut.front) (hlongest k w hw (List.prefix_append w rest))
  obtain ⟨htext, hrest⟩ := List.append_inj hsplit.symm hlength
  have hkind : k = t.kind := (hcut.only hlexes k).mp (htext ▸ hw)
  rw [hlex, hrest, hkind, ← htext]

theorem lex_append_of_stops (hw : w ∈ k.language) (hrest : Stops (goesOn k.family) rest) :
    lex (w ++ rest) = ⟨k, w⟩ :: lex rest := by
  refine lex_append_of_longest hw fun k' hk' v hv hfront => ?_
  exact length_le_of_stops (hk' ▸ goesOn_of_mem hv) hrest hfront

theorem family_eq_self (h : k.family ≠ .integer) : k.family = k := by
  cases k with
  | complex | float | ratio => exact absurd rfl h
  | _ => rfl

theorem eq_of_family_eq {k' : Kind} (h : k'.family = k.family) (hk : k.family ≠ .integer) :
    k' = k := by
  rw [← family_eq_self hk, ← h, family_eq_self (h ▸ hk)]

theorem lex_append_of_fixed (hw : w ∈ k.language) (hk : k.family ≠ .integer)
    (hlength : ∀ v ∈ k.language, v.length = w.length) (rest : List Char) :
    lex (w ++ rest) = ⟨k, w⟩ :: lex rest := by
  refine lex_append_of_longest hw fun k' hk' v hv _ => ?_
  obtain rfl := eq_of_family_eq hk' hk
  exact (hlength v hv).le

/-- A text between quotes ends with the first quote that is not escaped, whatever follows it. -/
theorem lex_append_of_string (hw : w ∈ Kind.string.language) (rest : List Char) :
    lex (w ++ rest) = ⟨.string, w⟩ :: lex rest := by
  refine lex_append_of_longest hw fun k' hk' v hv hfront => ?_
  obtain rfl := eq_of_family_eq hk' (by decide)
  obtain ⟨tail, htail⟩ := hfront
  obtain ⟨u, hu, rfl⟩ := mem_string.mp hw
  obtain ⟨u', hu', rfl⟩ := mem_string.mp hv
  have hbodies : u' ++ '\x22' :: tail = u ++ '\x22' :: rest := by simpa using htail
  rw [eq_of_append_quote hu' hu hbodies]

/-- Neither white space nor a closing bracket is part of a numeral in any base, a symbol or the name
of a character. -/
theorem not_ends_of_goesOn {c : Char} (hk : k ∈ [Kind.integer, .symbol, .char, .radix])
    (h : goesOn k c = true) : isBlank c = false ∧ c ≠ ')' := by
  simp only [List.mem_cons, List.not_mem_nil, or_false] at hk
  have hbracket : goesOn k ')' = false := by rcases hk with rfl | rfl | rfl | rfl <;> decide
  refine ⟨?_, fun hc => by rw [hc, hbracket] at h; cases h⟩
  rcases hk with rfl | rfl | rfl | rfl
  · simp only [goesOn, Bool.or_eq_true, List.contains_iff_mem] at h
    rcases h with h | h
    · exact isBlank_of_isDigit h
    · have hmarks : ∀ d ∈ ['.', '/', '+', 'i'], isBlank d = false := by
        simp
        decide
      exact hmarks c h
  · exact isBlank_of_continuesSymbol h
  · simp only [goesOn, Bool.or_eq_true, List.contains_iff_mem] at h
    rcases h with h | h
    · exact isBlank_of_isLetter h
    · have hmarks : ∀ d ∈ ['#', '\\'], isBlank d = false := by
        simp
        decide
      exact hmarks c h
  · rcases Bool.or_eq_true_iff.mp h with h | h
    · exact isBlank_of_isAlphanum h
    · rw [beq_iff_eq.mp h]
      decide

theorem lex_append_of_ends (hw : w ∈ k.language)
    (hk : k.family ∈ [Kind.integer, .symbol, .char, .radix]) (h : Ends rest) :
    lex (w ++ rest) = ⟨k, w⟩ :: lex rest := by
  refine lex_append_of_stops hw fun c hc => ?_
  rw [← Bool.not_eq_true]
  intro hon
  obtain ⟨hblank, hbracket⟩ := not_ends_of_goesOn hk hon
  rcases h c hc with hc | hc
  · rw [hblank] at hc
    cases hc
  · exact hbracket hc

theorem stops_isBlank_of_lex {t : Token} {ts : List Token} (h : lex cs = t :: ts)
    (ht : t.kind ≠ .space) : Stops isBlank cs := by
  intro c hc
  obtain ⟨rest, rfl⟩ := List.head?_eq_some_iff.mp hc
  rw [← Bool.not_eq_true]
  intro hblank
  have hspace : [c] ∈ Kind.space.language := mem_many.mpr (by simp [hblank])
  obtain ⟨hmem, rest', hrest'⟩ := first_mem_of_lexes ⟨.space, [c], hspace, by simp, rest, rfl⟩
  have hfamily := frontFamily_of_mem hmem rest'
  rw [hrest', frontFamily_of_mem hspace rest] at hfamily
  have hkind := eq_of_family_eq (k := .space) hfamily.symm (by decide)
  rw [lex_cons] at h
  exact ht ((List.cons.inj h).1 ▸ hkind)

end

end Scan
end Lisplet
