import Lisplet.Proofs.GrammarSoundness
import Lisplet.Proofs.ReadingRun

/-! Reading a source. Its tokens are genuine, so a reading of them ends with a datum that the grammar
derives, or in front of the token that has a defect, or where there is no room to look for one. A
source that begins with a literal is read as what the literal stands for. -/
namespace Lisplet
open Reading

theorem genuine_of_mem_lex {cs : List Char} {t : Token} (h : t ∈ lex cs) : t.Genuine := by
  induction cs using source_induction with
  | nil => cases h
  | cut cs rest hne hcs hlex ih =>
    rw [hlex, List.mem_cons] at h
    rcases h with rfl | h
    · have hcut := Scan.first_cut hne
      by_cases hlexes : Lexes cs
      · exact .inl (hcut.longest hlexes).1
      · exact .inr (hcut.single hlexes).1
    · exact ih h

/-- The reader has this defect to report where it looks for a token. -/
def Reading.Refuses (r : Reading) (what : Defect) : Option Token → Prop
  | none => what = r.defect none
  | some t => r.step t = .refuse (.defect what) false

section
variable {room : Room} {s s' : Stream} {why : Failure} {what : Defect} {front rest : List Token}
  {r : Reading}

theorem Reading.Refuses.offends {found : Option Token} (h : r.Refuses what found)
    (hr : r.HasTaken room front) (hroom : room.admits r.need = true)
    (hfound : ∀ t, found = some t → t.Genuine) : Offends what found := by
  cases found with
  | none =>
    obtain rfl : what = r.defect none := h
    exact r.defect_offends none
  | some t =>
    have htaken := step_hasTaken hr hroom (hfound t rfl)
    rw [show r.step t = .refuse (.defect what) false from h] at htaken
    obtain ⟨-, us, u, what', hsplit, hwhy, hoffends⟩ := htaken
    obtain ⟨-, hlast⟩ := List.append_inj' hsplit rfl
    obtain rfl := List.singleton_inj.mp hlast
    obtain rfl := Refusal.defect.inj hwhy
    exact hoffends

/-- A reading of tokens that are cut from a text fails in front of a token that is refused for a
defect, or where there is no room to look for one. -/
theorem Fails.exists_refused (h : Fails room (.next (.expression [])) s why s')
    (hs : ∀ t ∈ s.ahead, t.Genuine) :
    (why = .exhausted ∧ room ≠ .unlimited ∧
      ∃ s₁, s.Reaches s₁ ∧ s₁.Fresh ∧ s' = { s₁ with supply := s₁.supply.interrupted }) ∨
    ∃ front r what, Leads room (.next (.expression [])) front (.next r) ∧ s.Passes front s' ∧
      s'.Looked ∧ room.admits r.need = true ∧ r.Refuses what s'.ahead.head? ∧ why = s'.fail what := by
  have hstart : (Step.next (.expression [])).HasTaken room [] := rfl
  have hgenuine {front : List Token} {s₁ : Stream} (hpass : s.Passes front s₁) :
      ∀ t ∈ front, t.Genuine := fun t ht => hs t (hpass.ahead_eq ▸ List.mem_append_left _ ht)
  cases h with
  | taken hrun hpass _ =>
    obtain ⟨htaken, -⟩ := hrun.hasTaken hstart (hgenuine hpass)
    cases htaken
  | @stays front r t cause _ hrun hpass hlooked ht hroom hstep =>
    have htaken : r.HasTaken room ([] ++ front) := hrun.hasTaken hstart (hgenuine hpass)
    have hmem : t ∈ s.ahead :=
      hpass.ahead_eq ▸ List.mem_append_right front (List.mem_of_mem_head? ht)
    have hrefused := step_hasTaken htaken hroom (hs t hmem)
    rw [hstep] at hrefused
    obtain ⟨-, _, _, what, -, rfl, -⟩ := hrefused
    exact .inr ⟨front, r, what, hrun, hpass, hlooked, hroom, by rw [ht]; exact hstep, rfl⟩
  | @ended front r _ hrun hpass hlooked hnone hroom =>
    exact .inr ⟨front, r, _, hrun, hpass, hlooked, hroom, by rw [hnone]; rfl, rfl⟩
  | @exhausted front r s₁ _ hpass hfresh hroom =>
    refine .inl ⟨rfl, ?_, s₁, hpass.reaches, hfresh, rfl⟩
    rintro rfl
    cases hroom

theorem Fails.complains (h : Fails room (.next (.expression [])) s why s')
    (hs : ∀ t ∈ s.ahead, t.Genuine) :
    (why = .exhausted ∧ room ≠ .unlimited ∧
      ∃ s₁, s.Reaches s₁ ∧ s₁.Fresh ∧ s' = { s₁ with supply := s₁.supply.interrupted }) ∨
    ∃ what, why = s'.fail what ∧ Offends what s'.ahead.head? := by
  refine (h.exists_refused hs).imp_right ?_
  rintro ⟨front, r, what, hrun, hpass, -, hroom, hrefuses, hwhy⟩
  obtain ⟨hfront, hrest⟩ := List.forall_mem_append.mp (hpass.ahead_eq ▸ hs)
  have hstart : (Step.next (.expression [])).HasTaken room [] := rfl
  have htaken : r.HasTaken room ([] ++ front) := hrun.hasTaken hstart hfront
  exact ⟨what, hwhy, hrefuses.offends htaken hroom fun t ht => hrest t (List.mem_of_mem_head? ht)⟩

theorem Reading.Refuses.run_eq (h : r.Refuses what rest.head?) (hroom : room.admits r.need = true) :
    r.run room rest = ⟨.error (.defect what), 0⟩ := by
  cases rest with
  | nil =>
    obtain rfl : what = r.defect none := h
    rw [run, if_pos hroom]
  | cons t rest =>
    rw [run, if_pos hroom, show r.step t = .refuse (.defect what) false from h]

theorem Stream.parse_of_refused (hs : s.Sound) (hahead : s.ahead = front ++ rest)
    (hrun : Leads room (.next (.expression [])) front (.next r)) (hroom : room.admits r.need = true)
    (hrefuses : r.Refuses what rest.head?) :
    ∃ s', s.parse room = (.error (s'.fail what), s') ∧ s.Behind front s' := by
  have hend : Reading.datum room s.ahead = ⟨.error (.defect what), front.length⟩ := by
    have hending := Step.ending_append hrun (by simp) rest
    rw [← hahead, Step.ending, Step.ending, hrefuses.run_eq hroom, Nat.zero_add] at hending
    exact hending
  have hfront : front <+: s.ahead := hahead ▸ List.prefix_append front rest
  exact parse_of_datum hs hfront hend

end

section
variable {room : Room} {cs : List Char} {d : Datum}

theorem exists_parse_of_read (h : read room cs = .ok d) :
    ∃ s', (Stream.ofText defaultSource cs).parse room = (.ok d, s') := by
  unfold read at h
  split at h
  · cases h
  · exact ⟨_, Prod.ext h rfl⟩

theorem exists_leads_of_read (h : read room cs = .ok d) :
    ∃ ts, ts <+: lex cs ∧ Leads room (.next (.expression [])) ts (.done d) := by
  obtain ⟨s', hparse⟩ := exists_parse_of_read h
  obtain ⟨ts, hrun, hpass, -⟩ := Stream.parse_ok (Stream.ofText_sound defaultSource cs) hparse
  exact ⟨ts, hpass.behind.front_le, hrun⟩

theorem read_of_leads {ts : List Token} (hts : ts <+: lex cs)
    (h : Leads room (.next (.expression [])) ts (.done d)) : read room cs = .ok d := by
  obtain ⟨rest, hrest⟩ := hts
  have hahead : (Stream.ofText defaultSource cs).ahead = ts ++ rest := hrest.symm
  obtain ⟨s', hparse, -⟩ := Stream.parse_of_leads (Stream.ofText_sound defaultSource cs) hahead h
  simp only [read, hparse]

theorem read_of_derives {n : Nat} {ts : List Token} (hts : ts <+: lex cs)
    (h : Derives n ts (.datum d)) (hroom : room.admits n = true) : read room cs = .ok d :=
  read_of_leads hts (h.leads hroom)

theorem read_ok_or_unreadable (room : Room) (cs : List Char) :
    (∃ d, read room cs = .ok d) ∨ ∃ e, read room cs = .error (.fault (.unreadable e)) := by
  have hsound := Stream.ofText_sound defaultSource cs
  rcases hparse : (Stream.ofText defaultSource cs).parse room with ⟨why | d, s'⟩
  · right
    have hfails := Stream.parse_fails hsound hparse
    simp only [read, hparse]
    rcases hfails.complains fun _ => genuine_of_mem_lex with ⟨rfl, -⟩ | ⟨what, rfl, -⟩
    · exact ⟨.tooDeep, rfl⟩
    · exact ⟨_, rfl⟩
  · exact .inl ⟨d, by simp only [read, hparse]⟩

theorem exists_derives_of_read (h : read room cs = .ok d) :
    ∃ n ts, ts <+: lex cs ∧ Derives n ts (.datum d) ∧ room.admits n = true := by
  obtain ⟨ts, hts, hrun⟩ := exists_leads_of_read h
  obtain ⟨n, hd, hroom⟩ := hrun.exists_derives fun t ht => genuine_of_mem_lex (hts.subset ht)
  exact ⟨n, ts, hts, hd, hroom⟩

end

/-- The reader accepts exactly what the grammar derives from a front of the tokens, as far as there
is room. This front and its datum are the only ones, and where there is none the source is
unreadable. -/
theorem read_accepts_grammar (room : Room) (cs : List Char) :
    (∀ d, read room cs = .ok d ↔
      ∃ n ts, ts <+: lex cs ∧ Derives n ts (.datum d) ∧ room.admits n = true) ∧
    (∀ n ts d n' ts' d', ts <+: lex cs → Derives n ts (.datum d) →
      ts' <+: lex cs → Derives n' ts' (.datum d') → ts = ts' ∧ d = d') ∧
    ((¬ ∃ n ts d, ts <+: lex cs ∧ Derives n ts (.datum d) ∧ room.admits n = true) →
      ∃ e, read room cs = .error (.fault (.unreadable e))) := by
  refine ⟨fun d => ⟨exists_derives_of_read, ?_⟩, ?_, fun hnone => ?_⟩
  · rintro ⟨n, ts, hts, hd, hroom⟩
    exact read_of_derives hts hd hroom
  · intro n ts d n' ts' d' hts hd hts' hd'
    have hrun : Leads .unlimited _ ts (.done d) := hd.leads rfl
    have hrun' : Leads .unlimited _ ts' (.done d') := hd'.leads rfl
    exact hrun.done_unique hrun' hts hts'
  · refine (read_ok_or_unreadable room cs).resolve_left ?_
    rintro ⟨d, hread⟩
    obtain ⟨n, ts, hts, hd, hroom⟩ := exists_derives_of_read hread
    exact hnone ⟨n, ts, d, hts, hd, hroom⟩

/-- A dotted list is read up to its bracket, and nothing begins with a closing bracket. -/
theorem read_accepts_grammar_dotted :
    read .standard "(a . 'b) c".toList =
        .ok (.dotted [.symbol "a"] (.list [.symbol "quote", .symbol "b"])) ∧
      ∃ e, read .standard ") a".toList = .error (.fault (.unreadable e)) := by
  have hlex : lex "(a . 'b) c".toList =
      [⟨.lparen, ['(']⟩, ⟨.symbol, ['a']⟩, ⟨.space, [' ']⟩, ⟨.dot, ['.']⟩, ⟨.space, [' ']⟩,
        ⟨.quote, ['\x27']⟩, ⟨.symbol, ['b']⟩, ⟨.rparen, [')']⟩, ⟨.space, [' ']⟩,
        ⟨.symbol, ['c']⟩] := by decide
  have hlex' : lex ") a".toList = [⟨.rparen, [')']⟩, ⟨.space, [' ']⟩, ⟨.symbol, ['a']⟩] := by decide
  obtain ⟨haccepts, -, -⟩ := read_accepts_grammar .standard "(a . 'b) c".toList
  obtain ⟨-, -, hrejects⟩ := read_accepts_grammar .standard ") a".toList
  have hhead : Derives 1 [⟨.symbol, ['a']⟩, ⟨.space, [' ']⟩] (.heads .list [.symbol "a"]) :=
    Derives.none.head (.literal .symbol) rfl
  have htail : Derives 1 [⟨.quote, ['\x27']⟩, ⟨.symbol, ['b']⟩]
      (.datum (.list [.symbol "quote", .symbol "b"])) :=
    .quotation (by decide) (.literal .symbol)
  have hdotted : Derives 4 ((lex "(a . 'b) c".toList).take 8)
      (.datum (.dotted [.symbol "a"] (.list [.symbol "quote", .symbol "b"]))) := by
    rw [hlex]
    exact .dotted rfl hhead rfl rfl htail rfl
  refine ⟨(haccepts _).mpr ⟨4, _, List.take_prefix 8 _, hdotted, by decide⟩, hrejects ?_⟩
  · rintro ⟨n, ts, d, hts, hd, -⟩
    obtain ⟨t, rest, rfl, ht⟩ := hd.exists_first
    rw [hlex', List.cons_prefix_cons] at hts
    exact ht .rparen (by decide) (congrArg Token.kind hts.1)

section
variable {room : Room} {cs : List Char} {name : String} {position : Position} {what : Defect}
  {taken rest : List Token} {r : Reading}

theorem exists_refused_of_read
    (h : read room cs = .error (.fault (.unreadable (.defect name position what)))) :
    ∃ taken rest r, lex cs = taken ++ rest ∧ Leads room (.next (.expression [])) taken (.next r) ∧
      room.admits r.need = true ∧ r.Refuses what rest.head? ∧ name = defaultSource ∧
      position = Position.start.past (Token.source taken) := by
  have hsound := Stream.ofText_sound defaultSource cs
  rcases hparse : (Stream.ofText defaultSource cs).parse room with ⟨why | d, s'⟩
  · simp only [read, hparse] at h
    rcases (Stream.parse_fails hsound hparse).exists_refused fun _ => genuine_of_mem_lex with
      ⟨rfl, -⟩ | ⟨taken, r, found, hrun, hpass, -, hroom, hrefuses, rfl⟩
    · cases h
    · obtain ⟨rfl, rfl, rfl⟩ : s'.source = name ∧ s'.position = position ∧ found = what := by
        simpa [Stream.fail] using h
      exact ⟨taken, s'.ahead, r, hpass.ahead_eq, hrun, hroom, hrefuses, hpass.reaches.source_eq,
        hpass.position_eq⟩
  · simp only [read, hparse] at h
    cases h

theorem parse_refused {s : Stream} (hs : s.Sound) (hsource : s.source = defaultSource)
    (hplace : s.position = .start) (hcount : s.taken = 0) (hahead : s.ahead = taken ++ rest)
    (hrun : Leads room (.next (.expression [])) taken (.next r)) (hroom : room.admits r.need = true)
    (hrefuses : r.Refuses what rest.head?) :
    (s.parse room).1 = .error (.fault (.unreadable
        (.defect defaultSource (Position.start.past (Token.source taken)) what))) ∧
      (s.parse room).2.taken = taken.length := by
  obtain ⟨s', hparse, hbehind⟩ := Stream.parse_of_refused hs hahead hrun hroom hrefuses
  rw [hparse]
  refine ⟨?_, by rw [hbehind.taken_eq, hcount, Nat.zero_add]⟩
  rw [Stream.fail, hbehind.source_eq, hbehind.position_eq, hsource, hplace]

end

def DefectAtStart (room : Room) (cs : List Char) : Prop :=
  ∃ what, read room cs = .error (.fault (.unreadable (.defect defaultSource .start what)))

/-- The data with some property are read and no others, and where there are none a defect is
reported at the first character. -/
structure ReadsJust (room : Room) (cs : List Char) (P : Datum → Prop) : Prop where
  ok_iff : ∀ d, read room cs = .ok d ↔ P d
  defect : (∀ d, ¬ P d) → DefectAtStart room cs

section
variable {room : Room} {cs : List Char} {P : Datum → Prop} {t : Token} {ts : List Token}
  {what : Defect} {e : Except Refusal Datum}

theorem ReadsJust.congr {Q : Datum → Prop} (h : ReadsJust room cs P) (hPQ : ∀ d, P d ↔ Q d) :
    ReadsJust room cs Q where
  ok_iff d := (h.ok_iff d).trans (hPQ d)
  defect hQ := h.defect fun d hd => hQ d ((hPQ d).mp hd)

theorem ReadsJust.defectAtStart_iff (h : ReadsJust room cs P) :
    DefectAtStart room cs ↔ ∀ d, ¬ P d := by
  constructor
  · rintro ⟨what, hwhat⟩ d hd
    cases hwhat.symm.trans ((h.ok_iff d).mpr hd)
  · exact h.defect

theorem readsJust_of_defect (h : DefectAtStart room cs) (hP : ∀ d, ¬ P d) :
    ReadsJust room cs P where
  ok_iff d := by
    constructor
    · intro hd
      obtain ⟨what, hwhat⟩ := h
      cases hd.symm.trans hwhat
    · exact fun hd => absurd hd (hP d)
  defect _ := h

theorem defectAtStart_of_refused (hlex : lex cs = t :: ts)
    (h : begin [] t = .refuse (.defect what) false) : DefectAtStart room cs := by
  have hahead : (Stream.ofText defaultSource cs).ahead = [] ++ t :: ts := hlex
  have hrefuses : (expression []).Refuses what (t :: ts).head? := h
  obtain ⟨herror, -⟩ := parse_refused (Stream.ofText_sound defaultSource cs) rfl rfl rfl hahead
    (.refl _) room.admits_zero hrefuses
  exact ⟨what, by simp only [read, herror]; rfl⟩

theorem begin_literal_defect (h : t.literal? = some (.error (.defect what))) :
    begin [] t = .refuse (.defect what) false := by
  obtain ⟨kind, text⟩ := t
  have htaken := Token.takenFirst_of_defect h
  cases kind with
  | lparen | rparen | vector | quote | space | dot | error | other => cases h
  | _ => simp only [begin, beginLiteral, h, htaken]

/-- A source that begins with a token of a literal class is read as what this is converted to. -/
theorem readsJust_of_converts (hlex : lex cs = t :: ts) (ht : t.text ∈ t.kind.language)
    (he : t.literal? = some e) (h : Literal.Converts e P) : ReadsJust room cs P := by
  cases e with
  | ok d =>
    have hd : t.Denotes d := (Token.literal?_converts ht he).ok_iff.mp rfl
    have hread : read room cs = .ok d :=
      read_of_derives ⟨ts, hlex.symm⟩ (.literal hd) room.admits_zero
    refine ⟨fun d' => ?_, fun hnone => absurd (h.ok_iff.mp rfl) (hnone d)⟩
    rw [hread, ← h.ok_iff, Except.ok.injEq, Except.ok.injEq]
  | error why =>
    obtain ⟨what, rfl⟩ := h.defect rfl
    refine readsJust_of_defect (defectAtStart_of_refused hlex (begin_literal_defect he)) ?_
    intro d hd
    cases h.ok_iff.mpr hd

end

end Lisplet
