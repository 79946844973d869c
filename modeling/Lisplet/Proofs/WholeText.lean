import Lisplet.Proofs.ViablePrefix

/-! Texts that are read to their end. The grammar derives the datum of such a text from all its
tokens, so texts between brackets with white space between them spell the sequence of their data. -/
namespace Lisplet
open Lexeme Scan Reading

section
variable {room : Room} {s : Step} {t : Token} {ts us : List Token} {d : Datum} {w : List Char}

theorem Leads.exists_last {s' : Step} (h : Leads room s (us ++ [t]) s') :
    ∃ r, Leads room s us (.next r) ∧ r.step t = s' := by
  induction us generalizing s with
  | nil =>
    cases h with
    | @take r _ _ _ _ h =>
      generalize hnext : r.step t = s'' at h
      cases h
      exact ⟨r, .refl _, hnext⟩
  | cons u us ih =>
    cases h with
    | take hroom h =>
      obtain ⟨r, hrun, hstep⟩ := ih h
      exact ⟨r, .take hroom hrun, hstep⟩

/-- The text is read as the datum, and nothing of it is left. -/
structure Spells (room : Room) (w : List Char) (d : Datum) : Prop where
  read_eq : read room w = .ok d
  ahead_eq : ((Stream.ofText defaultSource w).parse room).2.ahead = []

theorem Spells.leads (h : Spells room w d) :
    Leads room (.next (.expression [])) (lex w) (.done d) := by
  obtain ⟨s', hparse⟩ := exists_parse_of_read h.read_eq
  obtain ⟨front, hrun, hpass, -⟩ := Stream.parse_ok (Stream.ofText_sound _ _) hparse
  have hall : lex w = front ++ s'.ahead := hpass.ahead_eq
  have hahead := h.ahead_eq
  rw [hparse] at hahead
  rwa [hall, show s'.ahead = [] from hahead, List.append_nil]

theorem spells_of_leads (h : Leads room (.next (.expression [])) (lex w) (.done d)) :
    Spells room w d := by
  have hahead : (Stream.ofText defaultSource w).ahead = lex w ++ [] := (List.append_nil _).symm
  obtain ⟨s', hparse, hpass, -⟩ := Stream.parse_of_leads (Stream.ofText_sound _ _) hahead h
  have hrest : lex w ++ s'.ahead = lex w ++ [] := hpass.ahead_eq.symm.trans hahead
  exact ⟨by simp only [read, hparse], by rw [hparse]; exact List.append_cancel_left hrest⟩

theorem spells_iff : Spells room w d ↔
    ∃ n, DerivesText n w (.datum d) ∧ room.admits n = true := by
  simp only [DerivesText.iff_derives_lex]
  constructor
  · exact fun h => h.leads.exists_derives fun _ => genuine_of_mem_lex
  · rintro ⟨n, hd, hroom⟩
    exact spells_of_leads (hd.leads hroom)

theorem spells_of_datum (h : Reading.datum room (lex w) = ⟨.ok d, (lex w).length⟩) :
    Spells room w d := by
  obtain ⟨s', hparse, hbehind⟩ :=
    Stream.parse_of_datum (Stream.ofText_sound defaultSource w) List.prefix_rfl h
  obtain ⟨front, hrun, hpass, -⟩ := Stream.parse_ok (Stream.ofText_sound _ _) hparse
  have hlen : front.length = (lex w).length := by
    have htaken := hpass.taken_eq.symm.trans hbehind.taken_eq
    exact Nat.add_left_cancel htaken
  obtain rfl : front = lex w := hpass.behind.front_le.eq_of_length hlen
  exact spells_of_leads hrun

end

def row (parts : List (List Char × List Char)) : List Char :=
  parts.flatMap fun p => p.1 ++ p.2

/-- Texts with white space between them; the white space behind the last is left out. -/
def joined : List (List Char × List Char) → List Char
  | [] => []
  | [p] => p.1
  | p :: parts => p.1 ++ (p.2 ++ joined parts)

def Room.plus (k : Nat) : Room → Room
  | .unlimited => .unlimited
  | .frames n => .frames (n + k)

theorem Room.admits_plus {k m n : Nat} {room : Room} (h : room.admits n = true) (hm : m ≤ n + k) :
    (room.plus k).admits m = true := by
  cases room with
  | unlimited => rfl
  | frames m =>
    simp only [plus, admits, decide_eq_true_eq] at h ⊢
    omega

section
variable {room : Room} {parts : List (List Char × List Char)} {ds : List Datum} {bracket : Bracket}

theorem exists_heads (h : List.Forall₂ (fun p d => Spells room p.1 d ∧ IsGap p.2) parts ds) :
    ∃ n, DerivesText n (row parts) (.heads .list ds) ∧ (room.plus 3).admits n = true := by
  induction h with
  | nil => exact ⟨0, .none, Room.admits_zero _⟩
  | @cons p d parts ds hp _ ih =>
    obtain ⟨n, hds, hn⟩ := ih
    obtain ⟨m, hd, hm⟩ := spells_iff.mp hp.1
    have hitem : (room.plus 3).admits (itemCalls 1 m) = true :=
      Room.admits_plus hm ((itemCalls_le (by decide) m).trans (Nat.le_succ _))
    refine ⟨max (itemCalls 1 m) n, ?_, Room.admits_max.mpr ⟨hitem, hn⟩⟩
    rw [row, List.flatMap_cons, List.append_assoc]
    exact hd.heads_cons hp.2 hds

theorem exists_items (bracket : Bracket) (hne : parts ≠ [])
    (h : List.Forall₂ (fun p d => Spells room p.1 d ∧ IsGap p.2) parts ds) :
    ∃ n, DerivesText n (joined parts) (.items bracket ds) ∧ (room.plus 2).admits n = true := by
  induction h with
  | nil => exact absurd rfl hne
  | @cons p d parts ds hp hparts ih =>
    obtain ⟨m, hd, hm⟩ := spells_iff.mp hp.1
    have hitem : (room.plus 2).admits (itemCalls 1 m) = true :=
      Room.admits_plus hm (itemCalls_le (by decide) m)
    cases hparts with
    | nil => exact ⟨itemCalls 1 m, hd.one, hitem⟩
    | cons =>
      obtain ⟨n, hds, hn⟩ := ih (by simp)
      have hgap : (room.plus 2).admits (bracket.gap [d]) = true :=
        Room.admits_plus room.admits_zero (gap_le bracket [d]).2
      have hrest := Room.admits_max.mpr ⟨hgap, hn⟩
      exact ⟨_, hd.items_cons hp.2 hds, Room.admits_max.mpr ⟨hitem, hrest⟩⟩

/-- Any texts of data, with any white space between them, spell between brackets the list or the
vector of the data, and with a point before the last text the dotted list. A quote mark in front of
a text is as good as its name. The room that a text takes is that of its parts and two nested calls
more, or three behind a point, or one for a quote mark. -/
theorem spells_compose
    (hparts : List.Forall₂ (fun p d => Spells room p.1 d ∧ IsGap p.2) parts ds) :
    (∀ bracket : Bracket, Spells (room.plus 2) (bracket.text ++ (joined parts ++ [')']))
      (bracket.close ds)) ∧
    ∀ w d, Spells room w d →
      (∀ s, IsGap s →
        Spells (room.plus 3) ('(' :: (row parts ++ '.' :: (s ++ (w ++ [')'])))) (.dotted ds d)) ∧
      ∀ mark name, (mark, name) ∈ quoteNames →
        Spells (room.plus 1) (mark :: w) (.list [.symbol name, d]) ∧
        Spells (room.plus 2) ('(' :: (name.toList ++ ' ' :: (w ++ [')'])))
          (.list [.symbol name, d]) := by
  refine ⟨fun bracket => ?_, fun w d hw => ?_⟩
  · cases hparts with
    | nil =>
      exact spells_iff.mpr ⟨1, .empty bracket, Room.admits_plus room.admits_zero (by decide)⟩
    | cons hp hparts =>
      obtain ⟨n, hds, hn⟩ := exists_items bracket (by simp) (.cons hp hparts)
      exact spells_iff.mpr ⟨n, hds.sequence bracket, hn⟩
  · obtain ⟨n, hds, hn⟩ := exists_heads hparts
    obtain ⟨m, hd, hm⟩ := spells_iff.mp hw
    refine ⟨fun s hs => ?_, fun mark name hmark => ⟨?_, ?_⟩⟩
    · have hroom := Room.admits_max.mpr ⟨hn, Room.admits_plus hm le_rfl⟩
      exact spells_iff.mpr ⟨max n (m + 3), hds.dotted hs hd, hroom⟩
    · exact spells_iff.mpr ⟨m + 1, hd.quotation hmark, Room.admits_plus hm le_rfl⟩
    · have hitem := Room.admits_plus hm (itemCalls_le (Nat.le_succ 1) m)
      exact spells_iff.mpr ⟨itemCalls 1 m, hd.quoted hmark, hitem⟩

/-- A bracket and a point within a string, and tabs and line ends between the texts. -/
theorem spells_compose_string :
    let a := Datum.list [.symbol "quote", .symbol "a"]
    Spells (.frames 989) "(\"x) .\"\n\t'a)".toList (.list [.string "x) .", a]) ∧
      Spells (.frames 989) "#(\"x) .\"\n\t'a)".toList (.vector [.string "x) .", a]) ∧
      Spells .standard "(\"x) .\"\n\t'a .\n#\\b)".toList (.dotted [.string "x) .", a] (.char 'b')) ∧
      Spells (.frames 988) "\x60#\\b".toList (.list [.symbol "quasiquote", .char 'b']) := by
  intro a
  have hblank : isBlank '\n' = true ∧ isBlank '\t' = true := by decide
  have hgap : IsGap ['\n', '\t'] := ⟨by simp, by simpa using hblank⟩
  have hline : IsGap ['\n'] := isGap_singleton (by decide)
  have hstring : Spells (.frames 987) "\"x) .\"".toList (.string "x) .") := spells_of_datum rfl
  have hquoted : Spells (.frames 987) "'a".toList a := spells_of_datum rfl
  have hchar : Spells (.frames 987) "#\\b".toList (.char 'b') := spells_of_datum rfl
  have hparts : List.Forall₂ (fun p d => Spells (.frames 987) p.1 d ∧ IsGap p.2)
      [("\"x) .\"".toList, ['\n', '\t']), ("'a".toList, [' '])] [.string "x) .", a] :=
    .cons ⟨hstring, hgap⟩ (.cons ⟨hquoted, isGap_space⟩ .nil)
  obtain ⟨hsequence, hlast⟩ := spells_compose hparts
  obtain ⟨hdotted, hquotes⟩ := hlast "#\\b".toList (.char 'b') hchar
  obtain ⟨hquasi, -⟩ := hquotes '\x60' "quasiquote" (by decide)
  exact ⟨hsequence .list, hsequence .vector, hdotted ['\n'] hline, hquasi⟩

end
end Lisplet
