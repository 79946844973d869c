import Lisplet.Proofs.LongestMatch

/-! A source is cut into tokens without loss, and each token is the longest text of any class at
its place. Where no class has a text there, the token is a single character. -/
namespace Lisplet
open Lexeme Computability

def Token.source (ts : List Token) : List Char := ts.flatMap Token.text

@[simp] theorem Token.source_nil : Token.source [] = [] := rfl

@[simp] theorem Token.source_cons (t : Token) (ts : List Token) :
    Token.source (t :: ts) = t.text ++ Token.source ts := rfl

@[simp] theorem Token.source_append (ts us : List Token) :
    source (ts ++ us) = source ts ++ source us := List.flatMap_append

def Lexes (cs : List Char) : Prop := ∃ k : Kind, ∃ v ∈ k.language, v ≠ [] ∧ v <+: cs

/-- A token is cut from the front of an input by the rule of the longest text. -/
structure Token.Cut (t : Token) (cs : List Char) : Prop where
  ne_nil : t.text ≠ []
  front : t.text <+: cs
  longest : Lexes cs → t.text ∈ t.kind.language ∧
    ∀ k : Kind, ∀ v ∈ k.language, v <+: cs → v.length ≤ t.text.length
  only : Lexes cs → ∀ k : Kind, t.text ∈ k.language ↔ k = t.kind
  single : ¬ Lexes cs → t.kind = .error ∧ t.text.length = 1

namespace Scan

section
variable {k : Kind} {v w cs : List Char}

theorem ne_error_of_mem (hv : v ∈ k.language) : k ≠ .error := by
  rintro rfl
  exact Language.notMem_zero v hv

theorem mem_all_of_mem (hv : v ∈ k.language) : k ∈ Kind.all := by
  cases k with
  | other => exact absurd hv (Language.notMem_zero v)
  | _ => decide

theorem ne_nil_of_mem (hv : v ∈ k.language) : v ≠ [] := by
  rintro rfl
  cases k with
  | space => exact (mem_many.mp hv).1 rfl
  | integer => exact (mem_digits.mp hv).1 rfl
  | float | ratio =>
    obtain ⟨u, -, v, -, h⟩ := mem_digitsAround.mp hv
    simp at h
  | complex =>
    obtain ⟨u, -, v, -, h⟩ := mem_complex.mp hv
    simp at h
  | symbol =>
    obtain ⟨c, v, -, -, h⟩ := mem_symbol.mp hv
    cases h
  | radix =>
    obtain ⟨c, v, -, -, h⟩ := mem_radix.mp hv
    cases h
  | char =>
    obtain ⟨v, -, h⟩ := mem_char.mp hv
    cases h
  | string =>
    obtain ⟨v, -, h⟩ := mem_string.mp hv
    cases h
  | bool => rcases mem_bool.mp hv with h | h <;> cases h
  | quote => rcases mem_quote.mp hv with h | h | h <;> cases h
  | lparen | rparen | vector | dot => cases mem_word.mp hv
  | error | other => exact Language.notMem_zero _ hv

theorem first_eq (hcs : cs ≠ []) :
    ∃ earlier k later w, Kind.all = earlier ++ k :: later ∧ lexeme? k cs = some w ∧
      (∀ k' ∈ earlier, lexeme? k' cs = none) ∧ first cs = ⟨k, w⟩ := by
  cases h : Kind.all.findSome? fun k => (lexeme? k cs).map (Token.mk k) with
  | none =>
    obtain ⟨c, rest, rfl⟩ := List.exists_cons_of_ne_nil hcs
    have herror := List.findSome?_eq_none_iff.mp h .error (by decide)
    simp [lexeme?] at herror
  | some t =>
    obtain ⟨earlier, k, later, hall, hk, hbefore⟩ := List.findSome?_eq_some_iff.mp h
    obtain ⟨w, hw, rfl⟩ := Option.map_eq_some_iff.mp hk
    simp only [Option.map_eq_none_iff] at hbefore
    exact ⟨earlier, k, later, w, hall, hw, hbefore, by rw [first, h]; rfl⟩

/-- Every other class finds less than the class that makes the token. -/
theorem first_longest (hcs : cs ≠ []) (hv : v ∈ k.language) (hfront : v <+: cs) :
    v.length ≤ (first cs).text.length ∧
      (k ≠ (first cs).kind → v.length < (first cs).text.length) := by
  obtain ⟨rest, rfl⟩ := hfront
  obtain ⟨w', hw', hle⟩ := lexeme?_complete hv rest
  obtain ⟨earlier, k₀, later, w, hall, hw, hbefore, hfirst⟩ := first_eq hcs
  have hpairs := pairwise_longer (v ++ rest)
  have hk := mem_all_of_mem hv
  rw [hall, List.pairwise_append, List.pairwise_cons] at hpairs
  rw [hall, List.mem_append, List.mem_cons] at hk
  rw [hfirst]
  rcases hk with hk | rfl | hk
  · rw [hbefore k hk] at hw'
    cases hw'
  · obtain rfl := Option.some.inj (hw.symm.trans hw')
    exact ⟨hle, fun hne => absurd rfl hne⟩
  · have hlt := hpairs.2.1.1 k hk w w' (ne_error_of_mem hv) hw hw'
    exact ⟨by simpa using (hle.trans_lt hlt).le, fun _ => hle.trans_lt hlt⟩

theorem first_of_not_lexes (hcs : cs ≠ []) (h : ¬ Lexes cs) : first cs = ⟨.error, cs.take 1⟩ := by
  obtain ⟨earlier, k, later, w, -, hw, -, hfirst⟩ := first_eq hcs
  obtain ⟨c, rest, rfl⟩ := List.exists_cons_of_ne_nil hcs
  by_cases hk : k = .error
  · subst hk
    rw [hfirst, ← Option.some.inj hw]
    rfl
  · obtain ⟨hmem, hfront⟩ := lexeme?_sound hk hw
    exact absurd ⟨k, w, hmem, ne_nil_of_mem hmem, hfront⟩ h

theorem first_mem_of_lexes (h : Lexes cs) :
    (first cs).text ∈ (first cs).kind.language ∧ (first cs).text <+: cs := by
  obtain ⟨k', v, hv, hne, hfront⟩ := h
  have hcs : cs ≠ [] := by
    rintro rfl
    exact hne (List.prefix_nil.mp hfront)
  obtain ⟨earlier, k, later, w, hall, hw, hbefore, hfirst⟩ := first_eq hcs
  have hk : k ≠ .error := by
    rintro rfl
    obtain ⟨c, rest, rfl⟩ := List.exists_cons_of_ne_nil hcs
    have hlt := (first_longest hcs hv hfront).2
    rw [hfirst, ← Option.some.inj hw] at hlt
    have hone : v.length < 1 := hlt (ne_error_of_mem hv)
    exact hne (List.length_eq_zero_iff.mp (Nat.lt_one_iff.mp hone))
  rw [hfirst]
  exact lexeme?_sound hk hw

theorem first_cut (hcs : cs ≠ []) : (first cs).Cut cs := by
  by_cases h : Lexes cs
  · obtain ⟨hmem, hfront⟩ := first_mem_of_lexes h
    refine ⟨ne_nil_of_mem hmem, hfront, fun _ => ⟨hmem, ?_⟩, fun _ k => ⟨?_, ?_⟩,
      fun hnot => absurd h hnot⟩
    · intro k v hv hv'
      exact (first_longest hcs hv hv').1
    · intro hk
      by_contra hne
      exact lt_irrefl _ ((first_longest hcs hk hfront).2 hne)
    · rintro rfl
      exact hmem
  · obtain ⟨c, rest, rfl⟩ := List.exists_cons_of_ne_nil hcs
    rw [first_of_not_lexes hcs h]
    exact ⟨by simp, by simp, fun hyes => absurd hyes h, fun hyes => absurd hyes h,
      fun _ => ⟨rfl, rfl⟩⟩

theorem first_append_drop (c : Char) (cs : List Char) :
    (first (c :: cs)).text ++ cs.drop ((first (c :: cs)).text.length - 1) = c :: cs := by
  have hcut := first_cut (List.cons_ne_nil c cs)
  obtain ⟨rest, hrest⟩ := hcut.front
  obtain ⟨d, text, htext⟩ := List.exists_cons_of_ne_nil hcut.ne_nil
  rw [htext] at hrest ⊢
  obtain ⟨rfl, rfl⟩ := List.cons.inj hrest
  simp

theorem lex_eq_cons (hcs : cs ≠ []) :
    ∃ rest, cs = (first cs).text ++ rest ∧ lex cs = first cs :: lex rest := by
  obtain ⟨c, tail, rfl⟩ := List.exists_cons_of_ne_nil hcs
  exact ⟨_, (first_append_drop c tail).symm, lex_cons c tail⟩

end

end Scan

/-- What holds of the empty source, and of a source if it holds of what follows the first token,
holds of every source. -/
theorem source_induction {P : List Char → Prop} (nil : P [])
    (cut : ∀ cs rest, cs ≠ [] → cs = (Scan.first cs).text ++ rest →
      lex cs = Scan.first cs :: lex rest → P rest → P cs) (cs : List Char) : P cs := by
  induction hn : cs.length using Nat.strong_induction_on generalizing cs with
  | _ n ih =>
    by_cases hne : cs = []
    · exact hne ▸ nil
    · obtain ⟨rest, hcs, hlex⟩ := Scan.lex_eq_cons hne
      have hpos := List.length_pos_iff.mpr (Scan.first_cut hne).ne_nil
      have hlen := congrArg List.length hcs
      rw [List.length_append] at hlen
      exact cut cs rest hne hcs hlex (ih rest.length (by omega) rest rfl)

theorem source_lex (cs : List Char) : Token.source (lex cs) = cs := by
  induction cs using source_induction with
  | nil => rfl
  | cut cs rest hne hcs hlex ih =>
    rw [hlex, Token.source_cons, ih]
    exact hcs.symm

theorem eq_first_of_lex {before after : List Token} {t : Token} {cs rest : List Char}
    (h : lex cs = before ++ t :: after) (hcs : cs = Token.source before ++ rest) :
    rest ≠ [] ∧ t = Scan.first rest := by
  induction before generalizing cs with
  | nil =>
    obtain rfl : cs = rest := hcs
    have hne : cs ≠ [] := by
      rintro rfl
      simp at h
    obtain ⟨tail, -, hlex⟩ := Scan.lex_eq_cons hne
    exact ⟨hne, (List.cons.inj (h.symm.trans hlex)).1⟩
  | cons b before ih =>
    have hne : cs ≠ [] := by
      rintro rfl
      simp at h
    obtain ⟨tail, htail, hlex⟩ := Scan.lex_eq_cons hne
    obtain ⟨rfl, hrest⟩ := List.cons.inj (h.symm.trans hlex)
    rw [Token.source_cons, List.append_assoc] at hcs
    exact ih hrest.symm (List.append_cancel_left (htail.symm.trans hcs))

/-- An odd number of backslashes at the end of a text hides the character after it. -/
def hidesNext (cs : List Char) : Bool := (cs.reverse.takeWhile (· == '\\')).length % 2 == 1

theorem hidesNext_cons {c : Char} (hc : c ≠ '\\') (cs : List Char) :
    hidesNext (c :: cs) = hidesNext cs := by
  have hstop : List.takeWhile (· == '\\') [c] = [] := by simp [hc]
  rw [hidesNext, List.reverse_cons, List.takeWhile_append, hstop]
  split
  · rename_i hall
    rw [List.append_nil, ← hall, hidesNext]
  · rfl

theorem hidesNext_escaped (c : Char) (cs : List Char) :
    hidesNext ('\\' :: c :: cs) = hidesNext cs := by
  rw [hidesNext, List.reverse_cons, List.reverse_cons, List.append_assoc, List.takeWhile_append]
  split
  · rename_i hall
    by_cases hc : c = '\\'
    · simp [hidesNext, hc, ← hall]
    · simp [hidesNext, hc, ← hall]
  · rfl

section
variable {cs : List Char}

theorem hidesNext_of_mem_star {v : List Char} (hv : v ∈ quotedPart∗) : hidesNext v = false := by
  induction v, hv using quoted_induction with
  | nil => rfl
  | escaped c v hv ih => rw [hidesNext_escaped, ih]
  | plain c v hv hback hquote ih => rw [hidesNext_cons hback, ih]

/-- A closing quote is found exactly when some quote is not hidden by backslashes. -/
theorem closing?_isSome_iff :
    (Scan.closing? cs).isSome = true ↔
      ∃ body rest, cs = body ++ '\x22' :: rest ∧ hidesNext body = false := by
  constructor
  · intro h
    obtain ⟨w, hw⟩ := Option.isSome_iff_exists.mp h
    obtain ⟨v, hv, rest, -, rfl⟩ := Scan.split_of_closing? hw
    exact ⟨v, rest, rfl, hidesNext_of_mem_star hv⟩
  · rintro ⟨body, rest, hcs, hbody⟩
    fun_induction Scan.closing? cs generalizing body with
    | case1 => simp at hcs
    | case2 => cases body <;> simp at hcs
    | case3 c tail ih =>
      cases body with
      | nil => simp at hcs
      | cons d body =>
        obtain ⟨rfl, htail⟩ := List.cons.inj hcs
        cases body with
        | nil => exact absurd hbody (by decide)
        | cons e body =>
          obtain ⟨rfl, rfl⟩ := List.cons.inj htail
          rw [hidesNext_escaped] at hbody
          simpa using ih body rfl hbody
    | case4 => rfl
    | case5 c tail _ hpair hquote ih =>
      cases body with
      | nil => exact absurd (List.cons.inj hcs).1 hquote
      | cons d body =>
        obtain ⟨rfl, rfl⟩ := List.cons.inj hcs
        rw [hidesNext_cons (Scan.ne_backslash (by simp) hpair)] at hbody
        simpa using ih body rfl hbody

theorem lexes_of_lexeme? {k : Kind} {w : List Char} (hk : k ≠ .error)
    (h : Scan.lexeme? k cs = some w) : Lexes cs := by
  obtain ⟨hw, hfront⟩ := Scan.lexeme?_sound hk h
  exact ⟨k, w, hw, Scan.ne_nil_of_mem hw, hfront⟩

theorem lexes_quote_iff : Lexes ('\x22' :: cs) ↔ (Scan.closing? cs).isSome = true := by
  constructor
  · rintro ⟨k, v, hv, -, rest, hrest⟩
    have hfamily : Scan.frontFamily ('\x22' :: cs) = k.family :=
      hrest ▸ Scan.frontFamily_of_mem hv rest
    have hk : k = .string := by
      cases k with
      | string => rfl
      | _ => cases hfamily
    obtain ⟨w, hw, -⟩ := Scan.lexeme?_complete (hk ▸ hv) rest
    rw [hrest] at hw
    obtain ⟨t, ht, -⟩ := Option.map_eq_some_iff.mp hw
    exact Option.isSome_iff_exists.mpr ⟨t, ht⟩
  · intro h
    obtain ⟨t, ht⟩ := Option.isSome_iff_exists.mp h
    refine lexes_of_lexeme? (k := .string) (w := '\x22' :: t) (by decide) ?_
    simp [Scan.lexeme?, Scan.string?, ht]

end

def numeralKinds : List Kind := [.complex, .float, .ratio, .integer]

theorem mem_numeralKinds {k : Kind} : k ∈ numeralKinds ↔ k.family = .integer := by
  cases k <;> simp [numeralKinds, Kind.family]

namespace Token.Cut

variable {t : Token} {cs : List Char}

theorem kind_eq_error_iff (h : t.Cut cs) : t.kind = .error ↔ ¬ Lexes cs := by
  constructor
  · intro hkind hlexes
    exact Scan.ne_error_of_mem (h.longest hlexes).1 hkind
  · intro hnot
    exact (h.single hnot).1

/-- A source that begins with a digit begins with a numeral of the longest shape there is. -/
theorem kind_mem_numeralKinds (h : t.Cut cs) {c : Char} (hc : c.isDigit = true)
    (hcs : cs.head? = some c) :
    t.kind ∈ numeralKinds ∧ t.text ∈ t.kind.language ∧
      ∀ k ∈ numeralKinds, ∀ v ∈ k.language, v <+: cs → v.length ≤ t.text.length := by
  obtain ⟨tail, rfl⟩ := List.head?_eq_some_iff.mp hcs
  have hdigit : [c] ∈ Kind.integer.language := mem_digits.mpr (by simp [hc])
  have hlexes : Lexes (c :: tail) := ⟨.integer, [c], hdigit, by simp, by simp⟩
  obtain ⟨hmem, hlongest⟩ := h.longest hlexes
  obtain ⟨rest, hrest⟩ := h.front
  have hfamily := Scan.frontFamily_of_mem hmem rest
  rw [hrest] at hfamily
  have hinteger := hfamily.symm.trans (Scan.frontFamily_of_mem hdigit tail)
  exact ⟨mem_numeralKinds.mpr hinteger, hmem, fun k _ => hlongest k⟩

end Token.Cut

/-- The tokens of a source make it up again. Each is cut from what the ones before it leave over by
the rule of the longest text; so is a numeral, and a quote is cut as an error exactly when every
later quote is hidden by backslashes. -/
theorem lex_longest_match (cs : List Char) :
    Token.source (lex cs) = cs ∧
      ∀ before t after rest, lex cs = before ++ t :: after → cs = Token.source before ++ rest →
        t.Cut rest ∧
        (∀ c ∈ rest.head?, c.isDigit = true →
          t.kind ∈ numeralKinds ∧ t.text ∈ t.kind.language ∧
            ∀ k ∈ numeralKinds, ∀ v ∈ k.language, v <+: rest → v.length ≤ t.text.length) ∧
        ∀ tail, rest = '\x22' :: tail →
          (t.kind = .error ↔
            ¬ ∃ body after, tail = body ++ '\x22' :: after ∧ hidesNext body = false) := by
  refine ⟨source_lex cs, fun before t after rest hlex hcs => ?_⟩
  obtain ⟨hne, rfl⟩ := eq_first_of_lex hlex hcs
  have hcut := Scan.first_cut hne
  refine ⟨hcut, fun c hc hdigit => hcut.kind_mem_numeralKinds hdigit hc, ?_⟩
  rintro tail rfl
  rw [hcut.kind_eq_error_iff, lexes_quote_iff, closing?_isSome_iff]

/-- A complex number is not cut at its point or its plus sign, and the quote behind it, which is
never closed, stands alone. -/
theorem lex_longest_match_complex :
    lex "1.5+2i\"a".toList =
        [⟨.complex, "1.5+2i".toList⟩, ⟨.error, ['\x22']⟩, ⟨.symbol, ['a']⟩] ∧
      Token.Cut ⟨.complex, "1.5+2i".toList⟩ "1.5+2i\"a".toList ∧
      Kind.complex ∈ numeralKinds ∧
      ¬ ∃ body after, ['a'] = body ++ '\x22' :: after ∧ hidesNext body = false := by
  have hlex : lex "1.5+2i\"a".toList =
      [⟨.complex, "1.5+2i".toList⟩, ⟨.error, ['\x22']⟩, ⟨.symbol, ['a']⟩] := by decide
  obtain ⟨-, h⟩ := lex_longest_match "1.5+2i\"a".toList
  obtain ⟨hcut, hnumeral, -⟩ := h [] _ _ _ hlex rfl
  obtain ⟨-, -, hquote⟩ := h [⟨.complex, "1.5+2i".toList⟩] _ _ ['\x22', 'a'] hlex rfl
  exact ⟨hlex, hcut, (hnumeral '1' rfl (by decide)).1, (hquote ['a'] rfl).mp rfl⟩

end Lisplet
