import Lisplet.Proofs.Simulation

/-! What a reading gives, told by the run of the machine over the tokens that are ahead: the datum or
the failure, how many tokens are taken, and that nothing behind the datum has been pulled. -/
namespace Lisplet
open Reading

/-- What the end of a run is to the caller, for tokens that begin at a place. -/
def Reading.Ending.outcome (e : Ending) (source : String) (start : Position) (ts : List Token) :
    Outcome Datum :=
  match e.result with
  | .ok d => .ok d
  | .error (.defect what) =>
    (Fault.unreadable (.defect source (start.past (Token.source (ts.take e.taken))) what)).raise
  | .error (.malformed what) => .error (.malformed what)
  | .error .tooDeep => .error .exhausted

theorem Supply.isLive_of_next {supply supply' : Supply} {t : Token}
    (h : supply.next = (some t, supply')) : supply'.isLive = true := by
  cases supply with
  | lexer cs =>
    cases cs <;> cases h
    rfl
  | tokens ts =>
    cases ts <;> cases h
    rfl
  | ended cs => cases h

namespace Stream

variable {room : Room} {depth : Nat} {s s' : Stream} {front rest : List Token} {d : Datum}
  {why : Failure} {cause : Refusal} {r : Reading}

/-- What looks and takings can leave: one token at most has been looked at and not taken, and no
others have been pulled than this and those that have been taken. -/
structure Sound (s : Stream) : Prop where
  buffer : s.buffer = [] ∨ ∃ t, s.buffer = [t] ∧ s.supply.isLive = true
  pulled : s.pulled = s.taken + s.buffer.length

theorem ofText_sound (name : String) (cs : List Char) : (ofText name cs).Sound := ⟨.inl rfl, rfl⟩

theorem ofTokens_sound (name : String) (ts : List Token) : (ofTokens name ts).Sound :=
  ⟨.inl rfl, rfl⟩

theorem Sound.fresh_or_looked (h : s.Sound) : s.Fresh ∨ s.Looked := by
  rcases h.buffer with hbuffer | hbuffer
  · cases hlive : s.supply.isLive with
    | true => exact .inl ⟨hbuffer, hlive⟩
    | false => exact .inr (.inr ⟨hbuffer, hlive⟩)
  · exact .inr (.inl hbuffer)

theorem Sound.advance (h : s.Sound) : s.advance.2.Sound := by
  obtain ⟨source, supply, buffer, position, taken, pulled⟩ := s
  obtain rfl : pulled = taken + buffer.length := h.pulled
  rcases h.buffer with rfl | ⟨t, rfl, -⟩
  · simp only [Stream.advance]
    split <;> exact ⟨.inl rfl, rfl⟩
  · exact ⟨.inl rfl, rfl⟩

theorem Sound.look (h : s.Sound) (room : Room) (depth : Nat) : (s.look room depth).2.Sound := by
  obtain ⟨source, supply, buffer, position, taken, pulled⟩ := s
  obtain rfl : pulled = taken + buffer.length := h.pulled
  unfold Stream.look
  split
  · next hout =>
    obtain ⟨rfl, -⟩ := hout
    exact ⟨.inl rfl, rfl⟩
  · rcases h.buffer with rfl | ⟨t, rfl, hlive⟩
    · simp only [peek]
      split
      · next t supply' hnext => exact ⟨.inr ⟨t, rfl, Supply.isLive_of_next hnext⟩, rfl⟩
      · exact ⟨.inl rfl, rfl⟩
    · exact ⟨.inr ⟨t, rfl, hlive⟩, rfl⟩

theorem Reaches.sound (h : s.Reaches s') (hs : s.Sound) : s'.Sound := by
  induction h with
  | refl => exact hs
  | look room depth _ ih => exact ih.look room depth
  | advance _ ih => exact ih.advance

theorem advance_source (s : Stream) : s.advance.2.source = s.source := by
  unfold advance
  split
  · rfl
  · split <;> rfl

theorem look_source (room : Room) (depth : Nat) (s : Stream) :
    (s.look room depth).2.source = s.source := by
  unfold look peek
  split
  · rfl
  · split
    · rfl
    · split <;> rfl

theorem Reaches.source_eq (h : s.Reaches s') : s'.source = s.source := by
  induction h with
  | refl => rfl
  | look room depth _ ih => rw [look_source, ih]
  | advance _ ih => rw [advance_source, ih]

structure Behind (s : Stream) (front : List Token) (s' : Stream) : Prop where
  front_le : front <+: s.ahead
  source_eq : s'.source = s.source
  taken_eq : s'.taken = s.taken + front.length
  position_eq : s'.position = s.position.past (Token.source front)

theorem Passes.behind (h : s.Passes front s') : s.Behind front s' where
  front_le := h.ahead_eq ▸ List.prefix_append _ _
  source_eq := h.reaches.source_eq
  taken_eq := h.taken_eq
  position_eq := h.position_eq

theorem Passes.ending_eq {st st' : Step} {e : Except Refusal Datum} (h : s.Passes front s')
    (hrun : Leads room st front st') (hst' : ∀ why, st' ≠ .refuse why false)
    (hend : st'.ending room s'.ahead = ⟨e, 0⟩) :
    st.ending room s.ahead = ⟨e, front.length⟩ := by
  rw [h.ahead_eq, Step.ending_append hrun hst', hend]
  simp

end Stream

section
variable {room : Room} {s s' : Stream} {st : Step} {why : Failure}

/-- Where a call fails the run fails, and the stream stands behind what the run has taken. -/
theorem Fails.exists_behind (h : Fails room st s why s') :
    ∃ cause front, st.ending room s.ahead = ⟨.error cause, front.length⟩ ∧ why = s'.failOf cause ∧
      s.Behind front s' := by
  cases h with
  | @taken front cause _ hrun hpass _ =>
    exact ⟨cause, front, hpass.ending_eq hrun (by simp) rfl, rfl, hpass.behind⟩
  | @stays front r t cause _ hrun hpass _ ht hroom hstep =>
    have hend : (Step.next r).ending room s'.ahead = ⟨.error cause, 0⟩ := by
      obtain ⟨ts, hahead⟩ := List.head?_eq_some_iff.mp ht
      simp [hahead, Step.ending, run, hroom, hstep]
    exact ⟨cause, front, hpass.ending_eq hrun (by simp) hend, rfl, hpass.behind⟩
  | @ended front r _ hrun hpass _ hnone hroom =>
    have hend : (Step.next r).ending room s'.ahead = ⟨.error (.defect (r.defect none)), 0⟩ := by
      simp [List.head?_eq_none_iff.mp hnone, Step.ending, run, hroom]
    exact ⟨_, front, hpass.ending_eq hrun (by simp) hend, rfl, hpass.behind⟩
  | @exhausted front r s' hrun hpass hfresh hroom =>
    have hend : (Step.next r).ending room s'.ahead = ⟨.error .tooDeep, 0⟩ := by
      cases s'.ahead <;> simp [Step.ending, run, hroom]
    obtain ⟨hfront, hsource, htaken, hposition⟩ := hpass.behind
    exact ⟨_, front, hpass.ending_eq hrun (by simp) hend, rfl, hfront, hsource, htaken, hposition⟩

end

namespace Stream

section
variable {room room' : Room} {s s' : Stream} {front rest : List Token} {d : Datum} {why : Failure}
  {cause : Refusal} {r : Reading} {e : Except Refusal Datum}

theorem parse_answers (hs : s.Sound) (room : Room) :
    Answers room (.next (.expression [])) .done s (s.parse room) := by
  have hasks : s.Asks room (.expression []) 0 := by
    rcases hs.fresh_or_looked with hfresh | hlooked
    · exact .fresh hfresh rfl
    · exact .looked hlooked room.admits_zero
  exact readsExpr room s _ _ (.expression []) (fun _ _ => rfl) hasks

/-- A reading that succeeds takes the tokens of a run to its datum, and behind them nothing has been
looked at. -/
theorem parse_ok (hs : s.Sound) (h : s.parse room = (.ok d, s')) :
    ∃ front, Leads room (.next (.expression [])) front (.done d) ∧ s.Passes front s' ∧ s'.Fresh := by
  have hanswers := s.parse_answers hs room
  rw [h] at hanswers
  cases hanswers with
  | ok hrun hpass hfresh => exact ⟨_, hrun, hpass, hfresh⟩

theorem parse_fails (hs : s.Sound) (h : s.parse room = (.error why, s')) :
    Fails room (.next (.expression [])) s why s' := by
  have hanswers := s.parse_answers hs room
  rw [h] at hanswers
  cases hanswers with
  | error hfails => exact hfails

/-- A reading ends as the run does, and the stream stands behind what the run has taken. -/
theorem parse_eq (hs : s.Sound) (room : Room) :
    ∃ e front s', Reading.datum room s.ahead = ⟨e, front.length⟩ ∧
      s.parse room = (e.mapError s'.failOf, s') ∧ s.Behind front s' := by
  rcases hparse : s.parse room with ⟨why | d, s'⟩
  · obtain ⟨cause, front, hend, rfl, hbehind⟩ := (parse_fails hs hparse).exists_behind
    exact ⟨_, front, s', hend, rfl, hbehind⟩
  · obtain ⟨front, hrun, hpass, -⟩ := parse_ok hs hparse
    exact ⟨_, front, s', hpass.ending_eq hrun (by simp) rfl, rfl, hpass.behind⟩

theorem parse_of_datum (hs : s.Sound) (hfront : front <+: s.ahead)
    (h : Reading.datum room s.ahead = ⟨e, front.length⟩) :
    ∃ s', s.parse room = (e.mapError s'.failOf, s') ∧ s.Behind front s' := by
  obtain ⟨e', us, s', hend, hparse, hbehind⟩ := s.parse_eq hs room
  obtain ⟨rfl, hlen⟩ := Ending.mk.inj (hend.symm.trans h)
  have hus : us <+: front := List.prefix_of_prefix_length_le hbehind.front_le hfront hlen.le
  obtain rfl := hus.eq_of_length hlen
  exact ⟨s', hparse, hbehind⟩

theorem parse_outcome (hs : s.Sound) (room : Room) :
    (s.parse room).1 =
      (Reading.datum room s.ahead).outcome s.source s.position s.ahead := by
  obtain ⟨e, front, s', hend, hparse, hbehind⟩ := s.parse_eq hs room
  have htake : s.ahead.take front.length = front :=
    (List.prefix_iff_eq_take.mp hbehind.front_le).symm
  rw [hparse, hend]
  cases e with
  | ok d => rfl
  | error cause =>
    cases cause with
    | defect what =>
      simp only [Except.mapError, Ending.outcome, failOf, fail, hbehind.source_eq,
        hbehind.position_eq, htake]
      rfl
    | malformed what => rfl
    | tooDeep => rfl

theorem parse_taken (hs : s.Sound) (room : Room) :
    (s.parse room).2.taken = s.taken + (Reading.datum room s.ahead).taken := by
  obtain ⟨e, front, s', hend, hparse, hbehind⟩ := s.parse_eq hs room
  rw [hparse, hend, hbehind.taken_eq]

theorem parse_of_leads (hs : s.Sound) (hahead : s.ahead = front ++ rest)
    (h : Leads room (.next (.expression [])) front (.done d)) :
    ∃ s', s.parse room = (.ok d, s') ∧ s.Passes front s' ∧ s'.Fresh := by
  have hend : Reading.datum room s.ahead = ⟨.ok d, front.length⟩ := by
    have hending := Step.ending_append h (by simp) rest
    rw [← hahead] at hending
    simpa [Step.ending, Reading.datum] using hending
  have hfront : front <+: s.ahead := hahead ▸ List.prefix_append front rest
  obtain ⟨s', hparse, -⟩ := parse_of_datum hs hfront hend
  obtain ⟨us, hrun, hpass, hfresh⟩ := parse_ok hs hparse
  obtain ⟨rfl, -⟩ := h.done_unique hrun hfront hpass.behind.front_le
  exact ⟨s', hparse, hpass, hfresh⟩

end
end Stream

section
variable {room : Room} {cs : List Char} {d : Datum}

theorem read_eq (room : Room) (cs : List Char) :
    read room cs = match (Reading.datum room (lex cs)).outcome defaultSource .start (lex cs) with
      | .error .exhausted => (Fault.unreadable .tooDeep).raise
      | result => result := by
  rw [read, Stream.parse_outcome (Stream.ofText_sound defaultSource cs)]
  rfl

end

end Lisplet
