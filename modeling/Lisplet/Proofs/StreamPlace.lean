import Lisplet.Proofs.SourceReading

/-! What a token stream keeps under all its calls, those that fail included: the tokens that have
been taken, the one that has been looked at and the text behind them make up the source, and the
place is behind what has been taken. A call that fails names this place and leaves the token that it
complains about. -/
namespace Lisplet

inductive StreamCall
  | peek
  | advance
  | expect (kind : Kind) (wanted : String)
  | parse (room : Room)

inductive StreamAnswer
  | token (found : Option Token)
  | expected
  | datum (value : Datum)

namespace Stream

def call (s : Stream) : StreamCall → Outcome StreamAnswer × Stream
  | .peek => (.ok (.token s.peek.1), s.peek.2)
  | .advance => (.ok (.token s.advance.1), s.advance.2)
  | .expect kind wanted =>
    ((s.expect kind wanted).1.map fun _ => .expected, (s.expect kind wanted).2)
  | .parse room => ((s.parse room).1.map .datum, (s.parse room).2)

def after (s : Stream) (calls : List StreamCall) : Stream := calls.foldl (fun s c => (s.call c).2) s

/-- A stream in any state that calls lead to. -/
inductive Reached : Stream → Prop
  | ofText (name : String) (cs : List Char) : Reached (ofText name cs)
  | ofTokens (name : String) (ts : List Token) : Reached (ofTokens name ts)
  | call {s : Stream} (c : StreamCall) : Reached s → Reached (s.call c).2

/-- The stream has taken some tokens of a source, and this is what it has not cut yet. -/
structure Follows (s : Stream) (name : String) (cs : List Char) (taken : List Token)
    (unread : List Char) : Prop where
  source : s.source = name
  supply : s.supply = .lexer unread ∨ s.supply = .ended unread
  tokens : lex cs = taken ++ s.buffer ++ lex unread
  text : cs = Token.source taken ++ Token.source s.buffer ++ unread
  count : taken.length = s.taken
  position : s.position = Position.start.past (Token.source taken)

section
variable {s s' : Stream} {name : String} {cs unread : List Char} {taken : List Token}
  {c : StreamCall} {why : Failure}

theorem reaches_call (s : Stream) (c : StreamCall) : s.Reaches (s.call c).2 := by
  cases c with
  | peek => exact Reaches.refl.peek
  | advance => exact .advance .refl
  | expect kind wanted => exact (s.expecting .unlimited 0 kind wanted).2
  | parse room => exact (s.parseExpr room 0).2

theorem Reached.sound (h : s.Reached) : s.Sound := by
  induction h with
  | ofText name cs => exact ofText_sound name cs
  | ofTokens name ts => exact ofTokens_sound name ts
  | call c _ ih => exact (reaches_call _ c).sound ih

theorem next_of_lexed {supply : Supply} (h : supply = .lexer unread ∨ supply = .ended unread) :
    (∃ t rest, supply.next = (some t, .lexer rest) ∧ unread = t.text ++ rest ∧
      lex unread = t :: lex rest) ∨ supply.next = (none, .ended unread) := by
  rcases h with rfl | rfl
  · cases unread with
    | nil => exact .inr rfl
    | cons c cs =>
      exact .inl ⟨_, _, rfl, (Scan.first_append_drop c cs).symm, lex_cons c cs⟩
  · exact .inr rfl

/-- A pull moves a token from the text to the buffer, or finds that there is none. -/
theorem Follows.pull (h : s.Follows name cs taken unread) (hbuffer : s.buffer = []) (n : Nat) :
    (∃ t rest, s.supply.next = (some t, .lexer rest) ∧
      { s with supply := .lexer rest, buffer := [t], pulled := n }.Follows name cs taken rest) ∨
    s.supply.next = (none, .ended unread) ∧
      { s with supply := .ended unread }.Follows name cs taken unread := by
  rcases next_of_lexed h.supply with ⟨t, rest, hnext, hunread, hlex⟩ | hnext
  · refine .inl ⟨t, rest, hnext, ?_⟩
    exact {
      source := h.source
      supply := .inl rfl
      tokens := by simpa [hbuffer, hlex] using h.tokens
      text := by simpa [hbuffer, hunread] using h.text
      count := h.count
      position := h.position }
  · exact .inr ⟨hnext, { h with supply := .inr rfl }⟩

theorem Follows.take {t : Token} {others : List Token} (h : s.Follows name cs taken unread)
    (hbuffer : s.buffer = t :: others) :
    { s with
      buffer := others
      position := s.position.past t.text
      taken := s.taken + 1 }.Follows name cs (taken ++ [t]) unread where
  source := h.source
  supply := h.supply
  tokens := by simpa [hbuffer] using h.tokens
  text := by simpa [hbuffer] using h.text
  count := by simp [h.count]
  position := by simp [h.position]

theorem Follows.advance (h : s.Follows name cs taken unread) :
    ∃ more rest, s.advance.2.Follows name cs (taken ++ more) rest := by
  rcases hbuffer : s.buffer with _ | ⟨t, others⟩
  · rcases h.pull hbuffer (s.pulled + 1) with ⟨t, rest, hnext, hpulled⟩ | ⟨hnext, hended⟩
    · refine ⟨[t], rest, ?_⟩
      simp only [Stream.advance, hbuffer, hnext]
      exact hpulled.take rfl
    · refine ⟨[], unread, ?_⟩
      simp only [Stream.advance, hbuffer, hnext, List.append_nil]
      rwa [hbuffer] at hended
  · refine ⟨[t], unread, ?_⟩
    simp only [Stream.advance, hbuffer]
    exact h.take hbuffer

theorem Follows.peek (h : s.Follows name cs taken unread) :
    ∃ rest, s.peek.2.Follows name cs taken rest := by
  rcases hbuffer : s.buffer with _ | ⟨t, others⟩
  · rcases h.pull hbuffer (s.pulled + 1) with ⟨t, rest, hnext, hpulled⟩ | ⟨hnext, hended⟩
    · refine ⟨rest, ?_⟩
      simp only [Stream.peek, hbuffer, hnext]
      exact hpulled
    · refine ⟨unread, ?_⟩
      simp only [Stream.peek, hbuffer, hnext]
      rwa [hbuffer] at hended
  · refine ⟨unread, ?_⟩
    simp only [Stream.peek, hbuffer]
    exact h

/-- A look that there is no room for ends the lexer, and no text is lost. -/
theorem Follows.interrupted (h : s.Follows name cs taken unread) :
    { s with supply := s.supply.interrupted }.Follows name cs taken unread := by
  refine { h with supply := .inr ?_ }
  rcases h.supply with hsupply | hsupply <;> rw [hsupply] <;> rfl

theorem Follows.look (h : s.Follows name cs taken unread) (room : Room) (depth : Nat) :
    ∃ rest, (s.look room depth).2.Follows name cs taken rest := by
  unfold Stream.look
  split
  · exact ⟨unread, h.interrupted⟩
  · exact h.peek

theorem Follows.reaches (h : s.Follows name cs taken unread) (hs : s.Reaches s') :
    ∃ more rest, s'.Follows name cs (taken ++ more) rest := by
  induction hs with
  | refl => exact ⟨[], unread, by rwa [List.append_nil]⟩
  | look room depth _ ih =>
    obtain ⟨more, rest, ih⟩ := ih
    obtain ⟨rest', hlook⟩ := ih.look room depth
    exact ⟨more, rest', hlook⟩
  | advance _ ih =>
    obtain ⟨more, rest, ih⟩ := ih
    obtain ⟨last, rest', hadvance⟩ := ih.advance
    exact ⟨more ++ last, rest', by rwa [← List.append_assoc]⟩

end

end Stream
end Lisplet
