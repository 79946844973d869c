import Lisplet.Proofs.WholeText

/-! Other white space between the same words. A text in which white space is replaced by other white
space is cut into the same tokens, also behind characters that begin none, and it is read alike. -/
namespace Lisplet
open Lexeme Scan

/-- Two texts that differ at most in what their white space consists of. -/
inductive SameWords : List Char → List Char → Prop
  | nil : SameWords [] []
  | char (c : Char) {cs ds : List Char} : SameWords cs ds → SameWords (c :: cs) (c :: ds)
  | gap {s s' cs ds : List Char} : IsGap s → IsGap s' → SameWords cs ds →
      SameWords (s ++ cs) (s' ++ ds)

theorem IsGap.exists_cons {s : List Char} (h : IsGap s) :
    ∃ c tail, s = c :: tail ∧ isBlank c = true ∧ ∀ c ∈ tail, isBlank c = true := by
  obtain ⟨c, tail, rfl⟩ := List.exists_cons_of_ne_nil h.1
  exact ⟨c, tail, rfl, List.forall_mem_cons.mp h.2⟩

theorem IsGap.not_stops {s : List Char} (h : IsGap s) (rest : List Char) :
    ¬ Stops isBlank (s ++ rest) := by
  obtain ⟨c, tail, rfl, hc, -⟩ := h.exists_cons
  rw [List.cons_append, stops_cons, hc]
  exact Bool.noConfusion

section
variable {s cs ds v : List Char} {k : Kind}

theorem closing?_isSome_of_blank (hs : ∀ c ∈ s, isBlank c = true) (cs : List Char) :
    (closing? (s ++ cs)).isSome = (closing? cs).isSome := by
  induction s with
  | nil => rfl
  | cons c s ih =>
    obtain ⟨hc, hs⟩ := List.forall_mem_cons.mp hs
    have hback : c ≠ '\\' := by
      rintro rfl
      cases hc
    have hquote : c ≠ '\x22' := by
      rintro rfl
      cases hc
    rw [← ih hs, List.cons_append]
    simp [closing?, hback, hquote]

theorem not_blank_of_mem (hv : v ∈ k.language) (hspace : k ≠ .space) (hstring : k ≠ .string) :
    ∀ c ∈ v, isBlank c = false := by
  cases k with
  | space => exact absurd rfl hspace
  | string => exact absurd rfl hstring
  | complex | float | ratio | integer | symbol | char | radix =>
    exact fun c hc => (not_ends_of_goesOn (by decide) (goesOn_of_mem hv c hc)).1
  | quote => rcases mem_quote.mp hv with rfl | rfl | rfl <;> simp <;> decide
  | bool => rcases mem_bool.mp hv with rfl | rfl <;> simp <;> decide
  | lparen | rparen | vector | dot =>
    obtain rfl := mem_word.mp hv
    simp
    decide
  | error | other => exact absurd hv (Language.notMem_zero v)

theorem lexes_of_not_stops (h : ¬ Stops isBlank cs) : Lexes cs := by
  cases cs with
  | nil => exact absurd stops_nil h
  | cons c cs =>
    have hc : isBlank c = true := by simpa using h
    exact ⟨.space, [c], mem_many.mpr (by simpa using hc), by simp, by simp⟩

namespace SameWords

theorem symm (h : SameWords cs ds) : SameWords ds cs := by
  induction h with
  | nil => exact .nil
  | char c _ ih => exact .char c ih
  | gap hs hs' _ ih => exact .gap hs' hs ih

theorem append (v : List Char) (h : SameWords cs ds) : SameWords (v ++ cs) (v ++ ds) := by
  induction v with
  | nil => exact h
  | cons c v ih => exact .char c ih

theorem of_cons {c : Char} (h : SameWords (c :: cs) ds) (hc : isBlank c = false) :
    ∃ rest, ds = c :: rest ∧ SameWords cs rest := by
  generalize hcs : c :: cs = text at h
  cases h with
  | nil => cases hcs
  | char d h =>
    obtain ⟨rfl, rfl⟩ := List.cons.inj hcs
    exact ⟨_, rfl, h⟩
  | gap hs =>
    have hstops : Stops isBlank (c :: cs) := stops_cons.mpr hc
    exact absurd (hcs ▸ hstops) (hs.not_stops _)

theorem stops (h : SameWords cs ds) (hcs : Stops isBlank cs) : Stops isBlank ds := by
  cases h with
  | nil => exact hcs
  | char c h => exact hcs
  | gap hs => exact absurd hcs (hs.not_stops _)

theorem front (h : SameWords cs ds) (hv : ∀ c ∈ v, isBlank c = false) (hfront : v <+: cs) :
    v <+: ds := by
  induction v generalizing cs ds with
  | nil => exact List.nil_prefix
  | cons c v ih =>
    obtain ⟨hc, hv⟩ := List.forall_mem_cons.mp hv
    obtain ⟨rest, rfl⟩ := hfront
    obtain ⟨rest', rfl, hrest⟩ := h.of_cons hc
    exact (List.prefix_cons_inj c).mpr (ih hrest hv (List.prefix_append v rest))

theorem closing (h : SameWords cs ds) : (closing? cs).isSome = (closing? ds).isSome ∧
    (closing? ('\\' :: cs)).isSome = (closing? ('\\' :: ds)).isSome := by
  induction h with
  | nil => exact ⟨rfl, rfl⟩
  | char c _ ih =>
    refine ⟨?_, by simpa [closing?] using ih.1⟩
    by_cases hback : c = '\\'
    · rw [hback]
      exact ih.2
    · by_cases hquote : c = '\x22'
      · simp [closing?, hquote]
      · simpa [closing?, hback, hquote] using ih.1
  | gap hs hs' _ ih =>
    refine ⟨?_, ?_⟩
    · rw [closing?_isSome_of_blank hs.2, closing?_isSome_of_blank hs'.2, ih.1]
    · -- the backslash hides the first character of the white space
      obtain ⟨c, tail, rfl, -, htail⟩ := hs.exists_cons
      obtain ⟨c', tail', rfl, -, htail'⟩ := hs'.exists_cons
      simp only [List.cons_append, closing?, Option.isSome_map]
      rw [closing?_isSome_of_blank htail, closing?_isSome_of_blank htail', ih.1]

theorem lexes (h : SameWords cs ds) (hcs : Lexes cs) : Lexes ds := by
  obtain ⟨k, v, hv, hne, hfront⟩ := id hcs
  by_cases hspace : k = .space
  · subst hspace
    refine lexes_of_not_stops fun hds => ?_
    obtain ⟨rest, rfl⟩ := hfront
    exact IsGap.not_stops (mem_many.mp hv) rest (h.symm.stops hds)
  · by_cases hstring : k = .string
    · subst hstring
      obtain ⟨rest, rfl⟩ := hfront
      obtain ⟨u, -, rfl⟩ := mem_string.mp hv
      obtain ⟨rest', rfl, hrest⟩ := h.of_cons (by decide)
      rw [lexes_quote_iff, ← hrest.closing.1]
      exact lexes_quote_iff.mp hcs
    · exact ⟨k, v, hv, hne, h.front (not_blank_of_mem hv hspace hstring) hfront⟩

end SameWords

end

/-- The token, or other white space if it is white space. -/
inductive Token.Respaced : Token → Token → Prop
  | gap (s : List Char) {s' : List Char} : IsGap s' → Respaced ⟨.space, s⟩ ⟨.space, s'⟩
  | same {t : Token} : t.kind ≠ .space → Respaced t t

section
variable {t u : Token} {ts us : List Token} {cs ds rest rest' : List Char}

theorem sameWords_source (hts : ∀ t ∈ ts, t.Genuine) (h : List.Forall₂ Token.Respaced ts us) :
    SameWords (Token.source ts) (Token.source us) := by
  induction h with
  | nil => exact .nil
  | cons ht _ ih =>
    obtain ⟨hgenuine, htail⟩ := List.forall_mem_cons.mp hts
    cases ht with
    | gap s hs' => exact .gap (mem_many.mp (hgenuine.mem (by simp))) hs' (ih htail)
    | same => exact (ih htail).append _

theorem Token.Cut.stops (hcut : t.Cut (t.text ++ rest)) (ht : t.kind = .space) :
    Stops isBlank rest := by
  intro c hc
  obtain ⟨tail, rfl⟩ := List.head?_eq_some_iff.mp hc
  by_contra hblank
  rw [Bool.not_eq_false] at hblank
  have hlexes : Lexes (t.text ++ c :: tail) := by
    by_contra hnot
    have herror := (hcut.single hnot).1
    rw [ht] at herror
    cases herror
  obtain ⟨hmem, hlongest⟩ := hcut.longest hlexes
  rw [ht] at hmem
  have hmore : t.text ++ [c] ∈ Kind.space.language :=
    mem_many.mpr ⟨by simp, List.forall_mem_append.mpr ⟨(mem_many.mp hmem).2, by simpa using hblank⟩⟩
  have hle : t.text.length + 1 ≤ t.text.length := by
    simpa using hlongest .space _ hmore ⟨tail, by simp⟩
  exact Nat.not_succ_le_self _ hle

/-- A token that is no white space is cut off in front of other white space too. -/
theorem Token.Cut.lex_append (hcut : t.Cut (t.text ++ rest)) (ht : t.kind ≠ .space)
    (h : SameWords rest rest') : lex (t.text ++ rest') = t :: lex rest' := by
  have hall : SameWords (t.text ++ rest) (t.text ++ rest') := h.append _
  by_cases hlexes : Lexes (t.text ++ rest)
  · obtain ⟨hmem, hlongest⟩ := hcut.longest hlexes
    obtain ⟨kind, text⟩ := t
    by_cases hstring : kind = .string
    · subst hstring
      exact lex_append_of_string hmem rest'
    · -- What else could be cut off here has no white space in it, so it stood there before.
      refine lex_append_of_longest hmem fun k hk v hv hfront => ?_
      have hspace : k ≠ .space := fun h => ht (eq_of_family_eq (h ▸ hk.symm) (by decide))
      have hstring' : k ≠ .string := fun h => hstring (eq_of_family_eq (h ▸ hk.symm) (by decide))
      exact hlongest k v hv (hall.symm.front (not_blank_of_mem hv hspace hstring') hfront)
  · have hnot : ¬ Lexes (t.text ++ rest') := fun hyes => hlexes (hall.symm.lexes hyes)
    obtain ⟨hkind, hlength⟩ := hcut.single hlexes
    obtain ⟨kind, text⟩ := t
    obtain ⟨c, rfl⟩ := List.length_eq_one_iff.mp hlength
    obtain rfl : kind = .error := hkind
    have hfirst := first_of_not_lexes (by simp) hnot
    rw [List.cons_append, List.nil_append] at hfirst ⊢
    rw [lex_cons, hfirst]
    rfl

theorem lex_source_respaced (h : List.Forall₂ Token.Respaced (lex cs) us) :
    lex (Token.source us) = us := by
  induction cs using source_induction generalizing us with
  | nil =>
    cases h
    rfl
  | cut cs rest hne hcs hlex ih =>
    have hcut := first_cut hne
    rw [hlex] at h
    generalize first cs = t at hcs hcut h
    subst hcs
    cases h with
    | cons ht hrest =>
      -- Behind the token are the same words, for the tokens there are respaced too.
      have hsame := sameWords_source (fun t => genuine_of_mem_lex) hrest
      rw [source_lex] at hsame
      cases ht with
      | @gap s s' hs' =>
        have hstops := hsame.stops (hcut.stops rfl)
        have hspace : s' ∈ Kind.space.language := mem_many.mpr hs'
        rw [Token.source_cons, lex_append_of_stops hspace hstops, ih hrest]
      | same ht => rw [Token.source_cons, hcut.lex_append ht hsame, ih hrest]

end

section
variable {room : Room} {r : Reading} {s : Step} {t u : Token} {ts us : List Token} {d : Datum}
  {cs : List Char}

theorem Reading.step_respaced (h : t.Respaced u) :
    r.step u = r.step t ∨ ∃ why taken, r.step t = .refuse why taken := by
  cases h with
  | same => exact .inl rfl
  | gap s hs' =>
    cases r.does ⟨.space, s⟩ with
    | closes _ hkind => cases hkind
    | moves hmoves hstep =>
      cases hmoves with
      | first _ hdot => cases hdot
      | dot _ _ hdot => cases hdot
      | space => exact .inl (by simp [step])
      | tail => exact .inl (by simp [step])
    | begins _ hstep =>
      exact .inr ⟨_, _, hstep.trans (begin_of_space rfl _)⟩
    | refuses hstep => exact .inr ⟨_, _, hstep⟩

theorem Leads.respaced (h : Leads room s ts (.done d)) (hus : List.Forall₂ Token.Respaced ts us) :
    Leads room s us (.done d) := by
  induction hus generalizing s with
  | nil => exact h
  | cons ht _ ih =>
    cases h with
    | take hroom h =>
      rcases Reading.step_respaced ht with hstep | ⟨why, taken, hstep⟩
      · exact .take hroom (hstep ▸ ih h)
      · rw [hstep] at h
        cases h

theorem read_respaced (h : List.Forall₂ Token.Respaced (lex cs) us)
    (hread : read room cs = .ok d) : read room (Token.source us) = .ok d := by
  obtain ⟨ts, hts, hrun⟩ := exists_leads_of_read hread
  have htake := List.forall₂_take ts.length h
  rw [← List.prefix_iff_eq_take.mp hts] at htake
  refine read_of_leads ?_ (hrun.respaced htake)
  rw [lex_source_respaced h]
  exact List.take_prefix _ _

theorem respaced_symm (hts : ∀ t ∈ ts, t.Genuine) (h : List.Forall₂ Token.Respaced ts us) :
    List.Forall₂ Token.Respaced us ts := by
  induction h with
  | nil => exact .nil
  | cons ht _ ih =>
    obtain ⟨hgenuine, htail⟩ := List.forall_mem_cons.mp hts
    refine .cons ?_ (ih htail)
    cases ht with
    | gap s hs' => exact .gap _ (mem_many.mp (hgenuine.mem (by simp)))
    | same ht => exact .same ht

/-- A source with other white space in the places of its white space has the same tokens otherwise,
and either both are read as the same datum, or both are unreadable. -/
theorem respaced_source_reads_alike (cs : List Char) (us : List Token)
    (h : List.Forall₂ Token.Respaced (lex cs) us) :
    lex (Token.source us) = us ∧ ∀ room,
      (∃ d, read room cs = .ok d ∧ read room (Token.source us) = .ok d) ∨
      (∃ e, read room cs = .error (.fault (.unreadable e))) ∧
        ∃ e, read room (Token.source us) = .error (.fault (.unreadable e)) := by
  have hlex := lex_source_respaced h
  refine ⟨hlex, fun room => ?_⟩
  have hback : ∀ d, read room (Token.source us) = .ok d → read room cs = .ok d := by
    intro d hread
    have hsymm := respaced_symm (fun t => genuine_of_mem_lex) h
    rw [← hlex] at hsymm
    rw [← source_lex cs]
    exact read_respaced hsymm hread
  rcases read_ok_or_unreadable room cs with ⟨d, hread⟩ | herror
  · exact .inl ⟨d, hread, read_respaced h hread⟩
  · rcases read_ok_or_unreadable room (Token.source us) with ⟨d, hread⟩ | herror'
    · exact .inl ⟨d, hback d hread, hread⟩
    · exact .inr ⟨herror, herror'⟩

/-- A line end in the place of the space behind a backslash and a quote that is never closed. -/
theorem respaced_source_reads_alike_backslash :
    lex "'a\t \"\\\nb".toList = [⟨.quote, ['\x27']⟩, ⟨.symbol, ['a']⟩, ⟨.space, ['\t', ' ']⟩,
        ⟨.error, ['\x22']⟩, ⟨.error, ['\\']⟩, ⟨.space, ['\n']⟩, ⟨.symbol, ['b']⟩] ∧
      read .standard "'a\t \"\\\nb".toList = .ok (.list [.symbol "quote", .symbol "a"]) := by
  have hlex : lex "'a \"\\ b".toList = [⟨.quote, ['\x27']⟩, ⟨.symbol, ['a']⟩, ⟨.space, [' ']⟩,
      ⟨.error, ['\x22']⟩, ⟨.error, ['\\']⟩, ⟨.space, [' ']⟩, ⟨.symbol, ['b']⟩] := by decide
  have hread : read .standard "'a \"\\ b".toList = .ok (.list [.symbol "quote", .symbol "a"]) := by
    rw [read_eq]
    rfl
  have htab : IsGap ['\t', ' '] := by
    simp [IsGap]
    decide
  have hline : IsGap ['\n'] := isGap_singleton (by decide)
  have hrespaced : List.Forall₂ Token.Respaced (lex "'a \"\\ b".toList)
      [⟨.quote, ['\x27']⟩, ⟨.symbol, ['a']⟩, ⟨.space, ['\t', ' ']⟩, ⟨.error, ['\x22']⟩,
        ⟨.error, ['\\']⟩, ⟨.space, ['\n']⟩, ⟨.symbol, ['b']⟩] := by
    rw [hlex]
    exact .cons (.same (by decide)) <| .cons (.same (by decide)) <| .cons (.gap _ htab) <|
      .cons (.same (by decide)) <| .cons (.same (by decide)) <| .cons (.gap _ hline) <|
      .cons (.same (by decide)) .nil
  obtain ⟨htokens, hreads⟩ := respaced_source_reads_alike "'a \"\\ b".toList _ hrespaced
  refine ⟨htokens, ?_⟩
  rcases hreads .standard with ⟨d, hd, hd'⟩ | ⟨⟨e, he⟩, -⟩
  · obtain rfl := Except.ok.inj (hread.symm.trans hd)
    exact hd'
  · cases hread.symm.trans he

end
end Lisplet
