import Lisplet.Proofs.ReadingRoom
import Lisplet.Proofs.TextGrammar

/-! A defect is reported at the first token where there is one. What has been taken before can still
be completed to a datum, by an atom where an expression is missing and by closing brackets. With the
refused token it cannot be completed at all. -/
namespace Lisplet
open Lexeme

namespace Token

def atom : Token := ⟨.symbol, ['a']⟩

def blank : Token := ⟨.space, [' ']⟩

theorem atom_genuine : atom.Genuine :=
  .inl (mem_symbol.mpr ⟨'a', [], by decide, by simp, rfl⟩)

theorem blank_genuine : blank.Genuine := by
  have hblank : isBlank ' ' = true := by decide
  exact .inl (mem_many.mpr (by simpa [blank] using hblank))

end Token

open Reading Token

/-- There are tokens that complete a datum in all these rooms. -/
def Completable (rooms : Room → Prop) (s : Step) : Prop :=
  ∃ us d, (∀ t ∈ us, t.Genuine) ∧ ∀ room, rooms room → Leads room s us (.done d)

section
variable {s : Step} {r : Reading} {t : Token} {ts : List Token} {room : Room}
  {within : List Context} {d : Datum} {rooms rooms' : Room → Prop}

theorem Completable.mono (h : Completable rooms s) (hle : ∀ room, rooms' room → rooms room) :
    Completable rooms' s := by
  obtain ⟨us, d, hus, hrun⟩ := h
  exact ⟨us, d, hus, fun room hroom => hrun room (hle room hroom)⟩

theorem Completable.take (h : Completable rooms s) (ht : t.Genuine) (hstep : r.step t = s)
    (hneed : ∀ room, rooms room → room.admits r.need = true) : Completable rooms (.next r) := by
  obtain ⟨us, d, hus, hrun⟩ := h
  refine ⟨t :: us, d, List.forall_mem_cons.mpr ⟨ht, hus⟩, fun room hroom => ?_⟩
  exact .take (hneed room hroom) (hstep ▸ hrun room hroom)

theorem fits_of_admits (h : room.admits (weight within) = true) : Fits room within 0 :=
  (Begins.expression within).fits h

theorem deliver_completable (h : Opens room within ts) (d : Datum) :
    Completable (fun room => Fits room within 0) (deliver d within) := by
  induction within generalizing d ts with
  | nil => exact ⟨[], d, by simp, fun room _ => .refl _⟩
  | cons context within ih =>
    have hle (room : Room) (hfits : Fits room (context :: within) 0) : Fits room within 0 :=
      fits_of_admits (Room.admits_mono hfits (Nat.le_add_right _ _))
    cases context with
    | quotation mark =>
      obtain ⟨us, c, name, hus, rfl, hname, rfl⟩ := h
      rw [deliver, quoteSymbol?_eq_some hname]
      exact (ih hus _).mono hle
    | item bracket items =>
      obtain ⟨hus, -⟩ := h
      have hclosed := (ih hus (bracket.close (d :: items).reverse)).mono hle
      refine hclosed.take close_genuine (step_ended_rparen rfl) fun room hfits => ?_
      exact Room.admits_mono hfits (Nat.add_le_add_left (gap_le bracket items).1 _)
    | tail items =>
      obtain ⟨us, dot, space, ⟨hus, -⟩, -⟩ := h
      have hclosed := (ih hus (.dotted items.reverse d)).mono hle
      exact hclosed.take close_genuine (step_closing rfl) fun room hfits => hfits

theorem Reading.Begins.completable (hbegins : r.Begins within) (h : r.HasTaken room ts) :
    Completable (fun room => room.admits r.need = true) (.next r) := by
  have hclosed := (deliver_completable (hbegins.opens h) (.symbol "a")).mono
    fun _ hroom => hbegins.fits hroom
  refine hclosed.take atom_genuine ?_ fun room hroom => hroom
  have hatom : atom.Denotes (.symbol "a") := .symbol
  have hliteral : begin within atom = deliver (.symbol "a") within := begin_literal hatom within
  cases hbegins with
  | expression => exact hliteral
  | first | item => simpa [step, atom] using hliteral

theorem Reading.Closes.completable (hcloses : r.Closes d within) (hopens : Opens room within ts)
    (hstep : ∀ t : Token, t.kind = .rparen → r.step t = deliver d within) :
    Completable (fun room => room.admits r.need = true) (.next r) := by
  have hclosed := (deliver_completable hopens d).mono fun room hroom =>
    fits_of_admits (Room.admits_mono hroom hcloses.weight_le)
  exact hclosed.take close_genuine (hstep close rfl) fun room hroom => hroom

/-- What has been taken can be completed where there is room to look for the next token. -/
theorem Reading.HasTaken.completable (h : r.HasTaken room ts) :
    Completable (fun room => room.admits r.need = true) (.next r) := by
  cases r with
  | expression within => exact (Begins.expression within).completable h
  | opened bracket within => exact (Begins.first bracket within).completable h
  | ended bracket items within =>
    obtain ⟨d, rest, rfl, _, _, _, ⟨hus, -⟩, -⟩ := h
    exact (Closes.ended bracket (d :: rest) within).completable hus fun _ => step_ended_rparen
  | separated bracket items within => exact (Begins.item bracket items within).completable h
  | point items within =>
    have hmoves : (Reading.point items within).Moves blank (.expression (.tail items :: within)) :=
      .tail items within rfl
    have htail := (Begins.expression (.tail items :: within)).completable (hmoves.hasTaken h)
    have hneed : (Reading.expression (.tail items :: within)).need = weight within + 3 :=
      Nat.add_comm _ _
    rw [hneed] at htail
    exact htail.take blank_genuine (step_point rfl) fun room hroom => hroom
  | closing items tail within =>
    obtain ⟨_, _, _, ⟨_, _, _, ⟨hus, -⟩, -⟩, -⟩ := h
    exact (Closes.closing items tail within).completable hus fun _ => step_closing

end

section
variable {room room' : Room} {cs : List Char} {name : String} {position : Position} {what : Defect}
  {taken rest : List Token} {r : Reading} {d : Datum}

theorem exists_completion (htaken : ∀ t ∈ taken, t.Genuine)
    (h : Leads room (.next (.expression [])) taken (.next r)) (hroom : room.admits r.need = true) :
    ∃ c more d, lex (Token.source taken ++ c) = taken ++ more ∧
      Leads room (.next (.expression [])) (taken ++ more) (.done d) := by
  have hstart : (Step.next (.expression [])).HasTaken room [] := rfl
  have hstate : r.HasTaken room ([] ++ taken) := h.hasTaken hstart htaken
  obtain ⟨more, d, hmore, hclose⟩ := hstate.completable
  have hrun := h.trans (hclose room hroom)
  have hlex := hrun.lex_source (List.forall_mem_append.mpr ⟨htaken, hmore⟩)
  rw [Token.source_append] at hlex
  exact ⟨Token.source more, more, d, hlex, hrun⟩

theorem parse_done (hahead : lex cs = taken)
    (h : Leads room (.next (.expression [])) taken (.done d)) :
    read room cs = .ok d ∧
      ((Stream.ofText defaultSource cs).parse room).2.taken = taken.length := by
  obtain ⟨s', hparse, hpass, -⟩ := Stream.parse_of_leads (Stream.ofText_sound defaultSource cs)
    (hahead.trans (List.append_nil taken).symm) h
  refine ⟨by simp only [read, hparse], ?_⟩
  rw [hparse, hpass.taken_eq]
  exact Nat.zero_add _

/-- Where a defect is reported, it is reported behind tokens that can be completed to the text of a
datum. The reader reads this datum and takes these tokens first. With the token that is refused they
cannot be completed: the same defect is reported at the same place whatever follows. So it is in all
rooms that are as large. -/
theorem read_defect_viable_prefix (hroom : room ≤ room')
    (h : read room cs = .error (.fault (.unreadable (.defect name position what)))) :
    ∃ taken rest, lex cs = taken ++ rest ∧
      read room' cs = .error (.fault (.unreadable (.defect name position what))) ∧
      ((Stream.ofText defaultSource cs).parse room').2.taken = taken.length ∧
      position = Position.start.past (Token.source taken) ∧
      (∃ c more d, lex (Token.source taken ++ c) = taken ++ more ∧
        read room' (Token.source taken ++ c) = .ok d ∧
        ((Stream.ofText defaultSource (Token.source taken ++ c)).parse room').2.taken =
          (taken ++ more).length) ∧
      ∀ t ∈ rest.head?, ∀ ts,
        ((Stream.ofTokens defaultSource (taken ++ t :: ts)).parse room').1 =
          .error (.fault (.unreadable (.defect name position what))) ∧
        ((Stream.ofTokens defaultSource (taken ++ t :: ts)).parse room').2.taken =
          taken.length := by
  obtain ⟨taken, rest, r, hsplit, hrun, hneed, hrefuses, rfl, rfl⟩ := exists_refused_of_read h
  -- More room changes neither the run up to the refused token nor the refusal.
  have hrun' : Leads room' (.next (.expression [])) taken (.next r) := hrun.of_le hroom
  have hneed' : room'.admits r.need = true := Room.admits_of_le hroom hneed
  obtain ⟨herror, hcount⟩ := parse_refused (Stream.ofText_sound defaultSource cs) rfl rfl rfl hsplit hrun'
    hneed' hrefuses
  refine ⟨taken, rest, hsplit, by simp only [read, herror], hcount, rfl, ?_, fun t ht ts => ?_⟩
  · have htaken : ∀ t ∈ taken, t.Genuine := fun t ht =>
      genuine_of_mem_lex (hsplit ▸ List.mem_append_left rest ht)
    obtain ⟨c, more, d, hlex, hdone⟩ := exists_completion htaken hrun' hneed'
    exact ⟨c, more, d, hlex, parse_done hlex hdone⟩
  · have hfound : rest.head? = some t := ht
    rw [hfound] at hrefuses
    exact parse_refused (Stream.ofTokens_sound _ _) rfl rfl rfl rfl hrun' hneed' hrefuses

/-- The square bracket is no expression, and what stands before it can be completed. -/
theorem read_defect_viable_prefix_dotted :
    read (.frames 6) "(a '(b . ]".toList = .error (.fault (.unreadable
        (.defect "lisp" ⟨1, 10⟩ (.unexpected (some ⟨.error, [']']⟩))))) ∧
      ∃ c d, read .standard ("(a '(b . ".toList ++ c) = .ok d := by
  have hlex : lex "(a '(b . ]".toList = [⟨.lparen, ['(']⟩, ⟨.symbol, ['a']⟩, ⟨.space, [' ']⟩,
      ⟨.quote, ['\x27']⟩, ⟨.lparen, ['(']⟩, ⟨.symbol, ['b']⟩, ⟨.space, [' ']⟩, ⟨.dot, ['.']⟩,
      ⟨.space, [' ']⟩, ⟨.error, [']']⟩] := by decide
  have hread : read (.frames 6) "(a '(b . ]".toList = .error (.fault (.unreadable
      (.defect "lisp" ⟨1, 10⟩ (.unexpected (some ⟨.error, [']']⟩))))) := by
    rw [read_eq, hlex]
    rfl
  have hroom : Room.frames 6 ≤ .standard := .frames (by decide)
  have hcount : ((Stream.ofText defaultSource "(a '(b . ]".toList).parse .standard).2.taken = 9 := by
    rw [Stream.parse_taken (Stream.ofText_sound _ _), Stream.ofText, Stream.ahead, Supply.ahead, hlex]
    rfl
  obtain ⟨taken, rest, hsplit, -, htaken, -, ⟨c, more, d, -, hcompleted, -⟩, -⟩ :=
    read_defect_viable_prefix hroom hread
  have hfront : taken = (lex "(a '(b . ]".toList).take 9 := by
    rw [hsplit, ← hcount, htaken, List.take_left]
  have hsource : Token.source taken = "(a '(b . ".toList := by
    rw [hfront, hlex]
    rfl
  exact ⟨hread, c, d, hsource ▸ hcompleted⟩

end
end Lisplet
