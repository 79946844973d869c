import Lisplet.Proofs.Relexing

/-! The grammar over characters. The texts of the parts of a phrase make up its text, whatever white
space stands between them. -/
namespace Lisplet
open Lexeme Scan

/-- White space, one character at least. -/
def IsGap (s : List Char) : Prop := s ≠ [] ∧ ∀ c ∈ s, isBlank c = true

theorem isGap_singleton {c : Char} (hc : isBlank c = true) : IsGap [c] := ⟨by simp, by simpa using hc⟩

theorem isGap_space : IsGap [' '] := isGap_singleton (by decide)

def Bracket.text : Bracket → List Char
  | .list => ['(']
  | .vector => ['#', '(']

def DerivesText (n : Nat) (w : List Char) (p : Phrase) : Prop :=
  ∃ ts, Derives n ts p ∧ (∀ t ∈ ts, t.Genuine) ∧ Token.source ts = w

namespace Token

def opening (bracket : Bracket) : Token := ⟨bracket.opening, bracket.text⟩

def close : Token := ⟨.rparen, [')']⟩

def point : Token := ⟨.dot, ['.']⟩

theorem opening_genuine (bracket : Bracket) : (opening bracket).Genuine := by
  cases bracket <;> exact .inl (mem_word.mpr rfl)

theorem close_genuine : close.Genuine := .inl (mem_word.mpr rfl)

theorem point_genuine : point.Genuine := .inl (mem_word.mpr rfl)

theorem gap_genuine {s : List Char} (hs : IsGap s) : (⟨.space, s⟩ : Token).Genuine :=
  .inl (mem_many.mpr hs)

theorem quote_genuine {mark : Char} {name : String} (h : (mark, name) ∈ quoteNames) :
    (⟨.quote, [mark]⟩ : Token).Genuine := by
  have hall : ∀ q ∈ quoteNames, [q.1] ∈ Kind.quote.language := by
    simp [quoteNames, mem_quote]
  exact .inl (hall _ h)

theorem quoteName_genuine {mark : Char} {name : String} (h : (mark, name) ∈ quoteNames) :
    (⟨.symbol, name.toList⟩ : Token).Genuine := by
  have hall : ∀ q ∈ quoteNames, ∃ c cs, startsSymbol c = true ∧
      (∀ c ∈ cs, continuesSymbol c = true) ∧ q.2.toList = c :: cs := by
    simp only [quoteNames, List.forall_mem_cons]
    refine ⟨⟨'q', "uote".toList, by decide, ?_, rfl⟩, ⟨'q', "uasiquote".toList, by decide, ?_, rfl⟩,
      ⟨'u', "nquote".toList, by decide, ?_, rfl⟩, by simp⟩
    all_goals
      simp
      decide
  exact .inl (mem_symbol.mpr (hall _ h))

end Token

namespace DerivesText

section
variable {n m : Nat} {v w s : List Char} {d : Datum} {ds : List Datum} {bracket : Bracket}

/-- A text spells a datum when its own tokens do. -/
theorem iff_derives_lex : DerivesText n w (.datum d) ↔ Derives n (lex w) (.datum d) := by
  constructor
  · rintro ⟨ts, hd, hts, rfl⟩
    have hrun : Leads .unlimited _ ts (.done d) := hd.leads rfl
    rwa [hrun.lex_source hts]
  · exact fun h => ⟨lex w, h, fun _ => genuine_of_mem_lex, source_lex w⟩

theorem literal {t : Token} (ht : t.Genuine) (h : t.Denotes d) :
    DerivesText 0 t.text (.datum d) :=
  ⟨[t], .literal h, by simpa using ht, by simp⟩

theorem quotation {mark : Char} {name : String} (hmark : (mark, name) ∈ quoteNames)
    (h : DerivesText n w (.datum d)) :
    DerivesText (n + 1) (mark :: w) (.datum (.list [.symbol name, d])) := by
  obtain ⟨ts, hd, hts, rfl⟩ := h
  exact ⟨_, .quotation hmark hd, List.forall_mem_cons.mpr ⟨Token.quote_genuine hmark, hts⟩, rfl⟩

theorem empty (bracket : Bracket) :
    DerivesText 1 (bracket.text ++ [')']) (.datum (bracket.close [])) :=
  ⟨[.opening bracket, .close], .empty rfl rfl,
    by simp [Token.opening_genuine, Token.close_genuine], rfl⟩

theorem sequence (bracket : Bracket) (h : DerivesText n w (.items bracket ds)) :
    DerivesText n (bracket.text ++ (w ++ [')'])) (.datum (bracket.close ds)) := by
  obtain ⟨ts, hds, hts, rfl⟩ := h
  refine ⟨.opening bracket :: (ts ++ [.close]), .sequence rfl hds rfl, ?_, by
    simp [Token.opening, Token.close]⟩
  simp only [List.mem_cons, List.mem_append, List.not_mem_nil, or_false]
  rintro t (rfl | ht | rfl)
  · exact Token.opening_genuine bracket
  · exact hts t ht
  · exact Token.close_genuine

theorem dotted (h : DerivesText n v (.heads .list ds)) (hs : IsGap s)
    (hd : DerivesText m w (.datum d)) :
    DerivesText (max n (m + 3)) ('(' :: (v ++ '.' :: (s ++ (w ++ [')']))))
      (.datum (.dotted ds d)) := by
  obtain ⟨ts, hds, hts, rfl⟩ := h
  obtain ⟨us, hd, hus, rfl⟩ := hd
  refine ⟨.opening .list :: (ts ++ .point :: ⟨.space, s⟩ :: (us ++ [.close])),
    .dotted rfl hds rfl rfl hd rfl, ?_, by
    simp [Token.opening, Token.close, Token.point, Bracket.text]⟩
  simp only [List.mem_cons, List.mem_append, List.not_mem_nil, or_false]
  rintro t (rfl | ht | rfl | rfl | ht | rfl)
  · exact Token.opening_genuine .list
  · exact hts t ht
  · exact Token.point_genuine
  · exact Token.gap_genuine hs
  · exact hus t ht
  · exact Token.close_genuine

theorem one (h : DerivesText n w (.datum d)) :
    DerivesText (itemCalls 1 n) w (.items bracket [d]) := by
  obtain ⟨ts, hd, hts, hw⟩ := h
  exact ⟨ts, .one hd, hts, hw⟩

theorem none : DerivesText 0 [] (.heads bracket []) := ⟨[], .none, by simp, rfl⟩

theorem genuine_of_gap {ts us : List Token} (hts : ∀ t ∈ ts, t.Genuine) (hs : IsGap s)
    (hus : ∀ t ∈ us, t.Genuine) : ∀ t ∈ ts ++ ⟨.space, s⟩ :: us, t.Genuine := by
  simp only [List.mem_append, List.mem_cons]
  rintro t (ht | rfl | ht)
  · exact hts t ht
  · exact Token.gap_genuine hs
  · exact hus t ht

theorem items_cons (hd : DerivesText m v (.datum d)) (hs : IsGap s)
    (h : DerivesText n w (.items bracket ds)) :
    DerivesText (max (itemCalls 1 m) (max (bracket.gap [d]) n)) (v ++ (s ++ w))
      (.items bracket (d :: ds)) := by
  obtain ⟨us, hd, hus, rfl⟩ := hd
  obtain ⟨ts, hds, hts, rfl⟩ := h
  exact ⟨_, hd.items_cons rfl hds, genuine_of_gap hus hs hts, by simp⟩

theorem heads_cons (hd : DerivesText m v (.datum d)) (hs : IsGap s)
    (h : DerivesText n w (.heads .list ds)) :
    DerivesText (max (itemCalls 1 m) n) (v ++ (s ++ w)) (.heads .list (d :: ds)) := by
  obtain ⟨us, hd, hus, rfl⟩ := hd
  obtain ⟨ts, hds, hts, rfl⟩ := h
  exact ⟨_, hd.heads_cons rfl hds, genuine_of_gap hus hs hts, by simp⟩

theorem quoted {mark : Char} {name : String} (hmark : (mark, name) ∈ quoteNames)
    (h : DerivesText n w (.datum d)) :
    DerivesText (itemCalls 1 n) ('(' :: (name.toList ++ ' ' :: (w ++ [')'])))
      (.datum (.list [.symbol name, d])) := by
  have hname : DerivesText 0 name.toList (.datum (.symbol name)) := by
    have hdenotes : Token.Denotes ⟨.symbol, name.toList⟩ (.symbol (String.ofList name.toList)) :=
      .symbol
    rw [String.ofList_toList] at hdenotes
    exact literal (Token.quoteName_genuine hmark) hdenotes
  have hlist := (hname.items_cons isGap_space h.one).sequence .list
  rw [gap_list, itemCalls, max_eq_right (itemCalls_pos le_rfl n),
    max_eq_right (itemCalls_pos le_rfl n)] at hlist
  simpa [Bracket.text, Bracket.close] using hlist

end

end DerivesText
end Lisplet
