import Lisplet.Proofs.SourceReading
import Lisplet.Proofs.WrittenTokens

/-! Texts between double quotes. The scanner and the reader pair each backslash with the character
behind it, and they pair alike: a text is read just from its spellings, whatever follows them, and
where a quote is not closed or an escape means nothing there is a defect at the quote. -/
namespace Lisplet
open Lexeme Scan Literal Computability

def spellings : Char → List (List Char)
  | '\\' => [['\\', '\\']]
  | '\x22' => [['\\', '\x22']]
  | '\n' => [['\n'], ['\\', 'n']]
  | '\r' => [['\r'], ['\\', 'r']]
  | '\t' => [['\t'], ['\\', 't']]
  | c => [[c]]

/-- What may stand between double quotes. A quote stands there only behind a backslash that hides
it, no backslash hides the closing quote, and each that is not hidden itself begins an escape. -/
structure IsQuotedBody (body : List Char) : Prop where
  closed : hidesNext body = false
  quotes : ∀ before after, body = before ++ '\x22' :: after → hidesNext before = true
  escapes : ∀ before c after, body = before ++ '\\' :: c :: after → hidesNext before = false →
    c ∈ ['\\', '\x22', 'n', 'r', 't']

section
variable {c : Char} {cs body text piece rest : List Char} {room : Room}

theorem mem_spellings : piece ∈ spellings c ↔
    (c ≠ '\\' ∧ c ≠ '\x22' ∧ piece = [c]) ∨ ∃ e, (e, c) ∈ escapes ∧ piece = ['\\', e] := by
  unfold spellings
  split <;> simp_all [escapes]

theorem unescapes_iff_spelt : Unescapes body text ↔
    ∃ pieces, List.Forall₂ (fun c piece => piece ∈ spellings c) text pieces ∧
      body = pieces.flatten := by
  constructor
  · intro h
    induction h with
    | nil => exact ⟨[], .nil, rfl⟩
    | @plain c body cs hback hquote _ ih =>
      obtain ⟨pieces, hpieces, rfl⟩ := ih
      exact ⟨[c] :: pieces, .cons (mem_spellings.mpr (.inl ⟨hback, hquote, rfl⟩)) hpieces, rfl⟩
    | @escaped e c body cs he _ ih =>
      obtain ⟨pieces, hpieces, rfl⟩ := ih
      exact ⟨['\\', e] :: pieces, .cons (mem_spellings.mpr (.inr ⟨e, he, rfl⟩)) hpieces, rfl⟩
  · rintro ⟨pieces, hpieces, rfl⟩
    induction hpieces with
    | nil => exact .nil
    | cons hpiece _ ih =>
      rcases mem_spellings.mp hpiece with ⟨hback, hquote, rfl⟩ | ⟨e, he, rfl⟩
      · exact .plain hback hquote ih
      · exact .escaped he ih

/-- Induction along the pairs of a backslash and the character behind it. -/
theorem pairs_induction {P : List Char → Prop} (nil : P []) (lone : P ['\\'])
    (escaped : ∀ c cs, P cs → P ('\\' :: c :: cs))
    (plain : ∀ c cs, c ≠ '\\' → P cs → P (c :: cs)) : ∀ cs, P cs
  | [] => nil
  | [c] => by
    by_cases hc : c = '\\'
    · exact hc ▸ lone
    · exact plain c [] hc nil
  | c :: d :: cs => by
    by_cases hc : c = '\\'
    · exact hc ▸ escaped d cs (pairs_induction nil lone escaped plain cs)
    · exact plain c _ hc (pairs_induction nil lone escaped plain (d :: cs))

theorem isQuotedBody_nil : IsQuotedBody [] := ⟨rfl, by simp, by simp⟩

theorem IsQuotedBody.of_append (front : List Char)
    (hfront : ∀ cs, hidesNext (front ++ cs) = hidesNext cs) (h : IsQuotedBody (front ++ cs)) :
    IsQuotedBody cs where
  closed := (hfront cs).symm.trans h.closed
  quotes before after hcs := by
    rw [← hfront before]
    exact h.quotes (front ++ before) after (by rw [hcs, List.append_assoc])
  escapes before c after hcs hshown := by
    rw [← hfront before] at hshown
    exact h.escapes (front ++ before) c after (by rw [hcs, List.append_assoc]) hshown

theorem isQuotedBody_cons_iff (hc : c ≠ '\\') :
    IsQuotedBody (c :: cs) ↔ c ≠ '\x22' ∧ IsQuotedBody cs := by
  constructor
  · intro h
    refine ⟨?_, h.of_append [c] (hidesNext_cons hc)⟩
    rintro rfl
    cases h.quotes [] cs rfl
  · rintro ⟨hquote, h⟩
    refine ⟨(hidesNext_cons hc cs).trans h.closed, fun before after hcs => ?_,
      fun before d after hcs hshown => ?_⟩
    · cases before with
      | nil => exact absurd (List.cons.inj hcs).1 hquote
      | cons b before =>
        obtain ⟨rfl, rfl⟩ := List.cons.inj hcs
        rw [hidesNext_cons hc]
        exact h.quotes before after rfl
    · cases before with
      | nil => exact absurd (List.cons.inj hcs).1 hc
      | cons b before =>
        obtain ⟨rfl, rfl⟩ := List.cons.inj hcs
        rw [hidesNext_cons hc] at hshown
        exact h.escapes before d after rfl hshown

theorem isQuotedBody_escaped_iff :
    IsQuotedBody ('\\' :: c :: cs) ↔ c ∈ ['\\', '\x22', 'n', 'r', 't'] ∧ IsQuotedBody cs := by
  constructor
  · intro h
    exact ⟨h.escapes [] c cs rfl rfl, h.of_append ['\\', c] (hidesNext_escaped c)⟩
  · rintro ⟨hc, h⟩
    refine ⟨(hidesNext_escaped c cs).trans h.closed, fun before after hcs => ?_,
      fun before d after hcs hshown => ?_⟩
    -- The place is before the pair, within it, where it is hidden, or behind it.
    · match before with
      | [] => cases (List.cons.inj hcs).1
      | [b] =>
        obtain ⟨rfl, -⟩ := List.cons.inj hcs
        rfl
      | b :: b' :: before =>
        obtain ⟨rfl, htail⟩ := List.cons.inj hcs
        obtain ⟨rfl, rfl⟩ := List.cons.inj htail
        rw [hidesNext_escaped]
        exact h.quotes before after rfl
    · match before with
      | [] =>
        obtain ⟨-, htail⟩ := List.cons.inj hcs
        exact (List.cons.inj htail).1 ▸ hc
      | [b] =>
        obtain ⟨rfl, -⟩ := List.cons.inj hcs
        cases hshown
      | b :: b' :: before =>
        obtain ⟨rfl, htail⟩ := List.cons.inj hcs
        obtain ⟨rfl, rfl⟩ := List.cons.inj htail
        rw [hidesNext_escaped] at hshown
        exact h.escapes before d after rfl hshown

theorem exists_unescapes_iff : (∃ text, Unescapes body text) ↔ IsQuotedBody body := by
  induction body using pairs_induction with
  | nil => exact ⟨fun _ => isQuotedBody_nil, fun _ => ⟨[], .nil⟩⟩
  | lone =>
    constructor
    · rintro ⟨text, h⟩
      cases h with
      | plain hback => exact absurd rfl hback
    · intro h
      cases h.closed
  | escaped c cs ih =>
    have hletters : (∃ d, (c, d) ∈ escapes) ↔ c ∈ ['\\', '\x22', 'n', 'r', 't'] := by
      simp [escapes, exists_or]
    rw [isQuotedBody_escaped_iff, ← ih, ← hletters]
    simp only [unescapes_escaped_iff]
    constructor
    · rintro ⟨_, d, hd, text, htext, rfl⟩
      exact ⟨⟨d, hd⟩, text, htext⟩
    · rintro ⟨⟨d, hd⟩, text, htext⟩
      exact ⟨_, d, hd, text, htext, rfl⟩
  | plain c cs hback ih =>
    rw [isQuotedBody_cons_iff hback, ← ih]
    constructor
    · rintro ⟨_, h⟩
      cases h with
      | plain _ hquote hcs => exact ⟨hquote, _, hcs⟩
      | escaped => exact absurd rfl hback
    · rintro ⟨hquote, text, htext⟩
      exact ⟨_, .plain hback hquote htext⟩

theorem defectAtStart_of_closing?_eq_none (h : closing? cs = none) :
    DefectAtStart room ('\x22' :: cs) := by
  have hnot : ¬ Lexes ('\x22' :: cs) := by simp [lexes_quote_iff, h]
  have hfirst : first ('\x22' :: cs) = ⟨.error, ['\x22']⟩ := first_of_not_lexes (by simp) hnot
  have hlex := lex_cons '\x22' cs
  rw [hfirst] at hlex
  have hrefused : Reading.begin [] ⟨.error, ['\x22']⟩ =
      .refuse (.defect (.unexpected (some ⟨.error, ['\x22']⟩))) false := by
    simp [Reading.begin, Reading.beginLiteral, Token.literal?]
  exact defectAtStart_of_refused hlex hrefused

theorem readsJust_string (room : Room) (cs : List Char) :
    ReadsJust room ('\x22' :: cs) fun d =>
      ∃ body rest text, cs = body ++ '\x22' :: rest ∧ Unescapes body text ∧
        d = .string (String.ofList text) := by
  cases hclosing : closing? cs with
  | none =>
    refine readsJust_of_defect (defectAtStart_of_closing?_eq_none hclosing) ?_
    rintro d ⟨body, rest, text, hcs, htext, -⟩
    have hsome := closing?_isSome_iff.mpr
      ⟨body, rest, hcs, hidesNext_of_mem_star (Token.mem_star_of_unescapes htext)⟩
    simp [hclosing] at hsome
  | some w =>
    -- The scanner stops at the same quote as every spelling of the text.
    obtain ⟨body, hbody, rest, -, rfl⟩ := split_of_closing? hclosing
    have hmem : '\x22' :: (body ++ ['\x22']) ∈ Kind.string.language :=
      mem_string.mpr ⟨body, hbody, rfl⟩
    have hlex := lex_append_of_string hmem rest
    rw [List.cons_append, List.append_assoc, List.singleton_append] at hlex
    refine (readsJust_of_converts hlex hmem rfl (string_converts hbody)).congr fun d => ?_
    constructor
    · rintro ⟨text, htext, rfl⟩
      exact ⟨body, rest, text, rfl, htext, rfl⟩
    · rintro ⟨body', rest', text, hcs, htext, rfl⟩
      obtain rfl := eq_of_append_quote hbody (Token.mem_star_of_unescapes htext) hcs
      exact ⟨text, htext, rfl⟩

theorem hidesNext_append_backslash (h : hidesNext cs = false) :
    hidesNext (cs ++ ['\\']) = true := by
  simp only [hidesNext, beq_eq_false_iff_ne, beq_iff_eq] at h ⊢
  rw [List.reverse_append, List.reverse_singleton, List.singleton_append,
    List.takeWhile_cons_of_pos (by decide), List.length_cons]
  omega

/-- In a text that the scanner takes for a string, a backslash that is not hidden is followed by a
character before the closing quote, and conversion does not look behind it. -/
theorem look_ahead_inside (h : text ∈ Kind.string.language) :
    ∃ body, text = '\x22' :: (body ++ ['\x22']) ∧
      (∀ before after, body = before ++ '\\' :: after → hidesNext before = false → after ≠ []) ∧
      ∀ why, Literal.string text ≠ .error (.malformed why) := by
  obtain ⟨body, hbody, rfl⟩ := mem_string.mp h
  refine ⟨body, rfl, ?_, fun why hwhy => ?_⟩
  · rintro before after rfl hshown rfl
    cases (hidesNext_append_backslash hshown).symm.trans (hidesNext_of_mem_star hbody)
  · obtain ⟨what, hwhat⟩ := (string_converts hbody).defect hwhy
    cases hwhat

end

/-- A source that begins with a double quote is read as a string just if this is spelt up to the
closing quote, whatever stands behind it. There is a string to be read if quotes and backslashes
stand as they may before some quote, and if there is none a defect is reported at the first
character. In no string that the scanner cuts does a backslash look beyond the closing quote. -/
theorem strings_are_spelt (room : Room) :
    (∀ (s : String) (cs : List Char), read room ('\x22' :: cs) = .ok (.string s) ↔
      ∃ pieces rest, List.Forall₂ (fun c piece => piece ∈ spellings c) s.toList pieces ∧
        cs = pieces.flatten ++ '\x22' :: rest) ∧
    (∀ cs : List Char,
      ((∃ s, read room ('\x22' :: cs) = .ok (.string s)) ↔
        ∃ body rest, cs = body ++ '\x22' :: rest ∧ IsQuotedBody body) ∧
      ((¬ ∃ body rest, cs = body ++ '\x22' :: rest ∧ IsQuotedBody body) →
        DefectAtStart room ('\x22' :: cs))) ∧
    ∀ (cs : List Char) (t : Token), t ∈ lex cs → t.kind = .string →
      ∃ body, t.text = '\x22' :: (body ++ ['\x22']) ∧
        (∀ before after, body = before ++ '\\' :: after → hidesNext before = false →
          after ≠ []) ∧
        ∀ why, Literal.string t.text ≠ .error (.malformed why) := by
  refine ⟨fun s cs => ?_, fun cs => ⟨?_, fun hnot => ?_⟩, fun cs t ht hkind => ?_⟩
  · rw [(readsJust_string room cs).ok_iff]
    constructor
    · rintro ⟨body, rest, text, rfl, htext, hs⟩
      obtain ⟨pieces, hpieces, rfl⟩ := unescapes_iff_spelt.mp htext
      cases hs
      exact ⟨pieces, rest, by rwa [String.toList_ofList], rfl⟩
    · rintro ⟨pieces, rest, hpieces, rfl⟩
      exact ⟨_, rest, s.toList, rfl, unescapes_iff_spelt.mpr ⟨pieces, hpieces, rfl⟩,
        by rw [String.ofList_toList]⟩
  · simp only [(readsJust_string room cs).ok_iff, ← exists_unescapes_iff]
    constructor
    · rintro ⟨s, body, rest, text, hcs, htext, -⟩
      exact ⟨body, rest, hcs, text, htext⟩
    · rintro ⟨body, rest, hcs, text, htext⟩
      exact ⟨_, body, rest, text, hcs, htext, rfl⟩
  · refine (readsJust_string room cs).defect ?_
    rintro d ⟨body, rest, text, hcs, htext, -⟩
    exact hnot ⟨body, rest, hcs, exists_unescapes_iff.mp ⟨text, htext⟩⟩
  · have hmem := (genuine_of_mem_lex ht).mem (by simp [hkind])
    rw [hkind] at hmem
    exact look_ahead_inside hmem

/-- One line feed is escaped and one is not, and the quote behind the pair of backslashes closes the
string. An escape that means nothing is a defect. -/
theorem strings_are_spelt_escaped :
    read .standard "\"a\\n\n\\\\\" \"".toList = .ok (.string "a\n\n\\") ∧
      DefectAtStart .standard "\"a\\q\"".toList ∧
      Literal.string "\"\\\\\"".toList ≠ .error (.malformed .cutShort) := by
  obtain ⟨hspelt, hdefect, htokens⟩ := strings_are_spelt .standard
  refine ⟨?_, ?_, ?_⟩
  · refine (hspelt _ _).mpr ⟨[['a'], ['\\', 'n'], ['\n'], ['\\', '\\']], " \"".toList, ?_, rfl⟩
    simp [spellings]
  · refine (hdefect "a\\q\"".toList).2 fun hbody => ?_
    obtain ⟨s, hread⟩ := (hdefect _).1.mpr hbody
    rw [read_eq] at hread
    cases hread
  · obtain ⟨body, -, -, hwhy⟩ := htokens "\"\\\\\"".toList ⟨.string, "\"\\\\\"".toList⟩
      (by decide) rfl
    exact hwhy _

end Lisplet
