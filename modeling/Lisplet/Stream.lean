import Lisplet.Literal
import Lisplet.Report

/-! Token streams. A stream pulls a token from its supply only when it is asked for one and has none
left from an earlier look. -/
namespace Lisplet

/-- Where tokens come from: a text that is cut on demand, or another producer. A supply that has
been asked for more than it has, and a lexer that has run out of room at work, has ended. -/
inductive Supply
  | lexer (unlexed : List Char)
  | tokens (ts : List Token)
  | ended (unlexed : List Char)

namespace Supply

def next : Supply → Option Token × Supply
  | .lexer [] => (none, .ended [])
  | .lexer (c :: cs) =>
    let t := Scan.first (c :: cs)
    (some t, .lexer (cs.drop (t.text.length - 1)))
  | .tokens [] => (none, .ended [])
  | .tokens (t :: ts) => (some t, .tokens ts)
  | .ended cs => (none, .ended cs)

def isLive : Supply → Bool
  | .ended _ => false
  | _ => true

/-- What a pull without room leaves. -/
def interrupted : Supply → Supply
  | .lexer cs => .ended cs
  | supply => supply

def ahead : Supply → List Token
  | .lexer cs => lex cs
  | .tokens ts => ts
  | .ended _ => []

theorem next_eq (supply : Supply) :
    supply.next.1 = supply.ahead.head? ∧ supply.next.2.ahead = supply.ahead.tail := by
  cases supply with
  | lexer cs =>
    cases cs with
    | nil => exact ⟨rfl, rfl⟩
    | cons c cs =>
      rw [ahead, lex_cons]
      exact ⟨rfl, rfl⟩
  | tokens ts => cases ts <;> exact ⟨rfl, rfl⟩
  | ended cs => exact ⟨rfl, rfl⟩

theorem interrupted_ahead_le (supply : Supply) :
    supply.interrupted.ahead.length ≤ supply.ahead.length := by
  cases supply <;> simp [interrupted, ahead]

end Supply

structure Stream where
  source : String
  supply : Supply
  /-- The tokens that have been looked at and not taken. -/
  buffer : List Token
  position : Position
  /-- How many tokens have been taken, and how many the supply has given. -/
  taken : Nat
  pulled : Nat

namespace Stream

def ofTokens (source : String) (tokens : List Token) : Stream :=
  ⟨source, .tokens tokens, [], .start, 0, 0⟩

def ofText (source : String) (cs : List Char) : Stream := ⟨source, .lexer cs, [], .start, 0, 0⟩

def ahead (s : Stream) : List Token := s.buffer ++ s.supply.ahead

/-- The next token. It stays in the buffer. -/
def peek (s : Stream) : Option Token × Stream :=
  match s.buffer with
  | t :: _ => (some t, s)
  | [] =>
    match s.supply.next with
    | (some t, supply) =>
      (some t, { s with supply := supply, buffer := [t], pulled := s.pulled + 1 })
    | (none, supply) => (none, { s with supply := supply })

def advance (s : Stream) : Option Token × Stream :=
  match s.buffer with
  | t :: rest =>
    (some t,
      { s with buffer := rest, position := s.position.past t.text, taken := s.taken + 1 })
  | [] =>
    match s.supply.next with
    | (some t, supply) =>
      (some t,
        { s with
          supply := supply
          position := s.position.past t.text
          taken := s.taken + 1
          pulled := s.pulled + 1 })
    | (none, supply) => (none, { s with supply := supply })

/-- A look at the next token so many calls inside. Only a supply at work takes room. -/
def look (room : Room) (depth : Nat) (s : Stream) : Outcome (Option Token) × Stream :=
  if s.buffer = [] ∧ s.supply.isLive = true ∧ room.admits depth = false then
    (.error .exhausted, { s with supply := s.supply.interrupted })
  else (.ok s.peek.1, s.peek.2)

def fail (s : Stream) (what : Defect) : Failure :=
  .fault (.unreadable (.defect s.source s.position what))

def failOf (s : Stream) : Refusal → Failure
  | .defect what => s.fail what
  | .malformed what => .malformed what
  | .tooDeep => .exhausted

def report (s : Stream) (message : String) : Report :=
  .unreadable (placed s.source s.position message)

theorem peek_eq (s : Stream) : s.peek.1 = s.ahead.head? ∧ s.peek.2.ahead = s.ahead := by
  obtain ⟨source, supply, buffer, position, taken, pulled⟩ := s
  cases buffer with
  | cons t rest => exact ⟨rfl, rfl⟩
  | nil =>
    obtain ⟨hfound, hahead⟩ := supply.next_eq
    simp only [peek, ahead, List.nil_append]
    cases hnext : supply.next with
    | mk found rest =>
      rw [hnext] at hfound hahead
      simp only at hfound hahead
      cases found with
      | none =>
        have hnil : supply.ahead = [] := List.head?_eq_none_iff.mp hfound.symm
        simp [hahead, hnil]
      | some t =>
        obtain ⟨ts, hcons⟩ := List.head?_eq_some_iff.mp hfound.symm
        simp [hahead, hcons]

theorem advance_eq (s : Stream) :
    s.advance.1 = s.ahead.head? ∧ s.advance.2.ahead = s.ahead.tail := by
  obtain ⟨source, supply, buffer, position, taken, pulled⟩ := s
  cases buffer with
  | cons t rest => exact ⟨rfl, rfl⟩
  | nil =>
    obtain ⟨hfound, hahead⟩ := supply.next_eq
    simp only [advance, ahead, List.nil_append]
    cases hnext : supply.next with
    | mk found rest =>
      rw [hnext] at hfound hahead
      cases found with
      | none => exact ⟨hfound, hahead⟩
      | some t => exact ⟨hfound, hahead⟩

theorem look_eq_ok {room : Room} {depth : Nat} {s s' : Stream} {found : Option Token}
    (h : s.look room depth = (.ok found, s')) : found = s.ahead.head? ∧ s' = s.peek.2 := by
  unfold look at h
  split at h
  · cases h
  · cases h
    exact ⟨s.peek_eq.1, rfl⟩

/-- Looks and takings lead from one stream to the other. -/
inductive Reaches (s : Stream) : Stream → Prop
  | refl : Reaches s s
  | look {s' : Stream} (room : Room) (depth : Nat) :
      Reaches s s' → Reaches s (s'.look room depth).2
  | advance {s' : Stream} : Reaches s s' → Reaches s s'.advance.2

namespace Reaches

variable {s s' s'' : Stream}

theorem trans (h : s.Reaches s') (h' : s'.Reaches s'') : s.Reaches s'' := by
  induction h' with
  | refl => exact h
  | look room depth _ ih => exact ih.look room depth
  | advance _ ih => exact ih.advance

theorem ahead_le (h : s.Reaches s') : s'.ahead.length ≤ s.ahead.length := by
  induction h with
  | refl => exact Nat.le_refl _
  | @look s' room depth _ ih =>
    refine Nat.le_trans ?_ ih
    unfold Stream.look
    split
    · simp only [ahead, List.length_append]
      exact Nat.add_le_add_left (Supply.interrupted_ahead_le _) _
    · exact Nat.le_of_eq (congrArg List.length s'.peek_eq.2)
  | @advance s' _ ih =>
    refine Nat.le_trans ?_ ih
    rw [s'.advance_eq.2, List.length_tail]
    exact Nat.sub_le _ _

theorem peek (h : s.Reaches s') : s.Reaches s'.peek.2 := by
  have hlook : (s'.look .unlimited 0).2 = s'.peek.2 := by
    rw [Stream.look, if_neg (by simp)]
  exact hlook ▸ h.look .unlimited 0

end Reaches

/-- What a call answers, with the stream that it leaves. -/
abbrev Parsed (s : Stream) (α : Type) : Type := {r : Outcome α × Stream // s.Reaches r.2}

namespace Parsed

variable {α β : Type} {s s' : Stream}

theorem reaches {p : s.Parsed α} {o : Outcome α} (h : p.1 = (o, s')) : s.Reaches s' := by
  have hp := p.2
  rwa [h] at hp

@[inline]
def ok (a : α) : s.Parsed α := ⟨(.ok a, s), .refl⟩

@[inline]
def error (why : Failure) : s.Parsed α := ⟨(.error why, s), .refl⟩

@[inline]
def after (p : s'.Parsed α) (h : s.Reaches s') : s.Parsed α := ⟨p.1, h.trans p.2⟩

/-- A call and, unless it fails, another one behind it. -/
@[inline]
def andThen (p : s.Parsed α) (f : (a : α) → (s' : Stream) → p.1 = (.ok a, s') → s'.Parsed β) :
    s.Parsed β :=
  match h : p.1 with
  | (.ok a, s') => (f a s' h).after (reaches h)
  | (.error why, s') => ⟨(.error why, s'), reaches h⟩

theorem andThen_of_ok {p : s.Parsed α}
    {f : (a : α) → (s' : Stream) → p.1 = (.ok a, s') → s'.Parsed β} {a : α}
    (h : p.1 = (.ok a, s')) : (p.andThen f).1 = (f a s' h).1 := by
  unfold andThen
  split
  · next a' s'' h' =>
    cases h.symm.trans h'
    rfl
  · next why s'' h' => cases h.symm.trans h'

theorem andThen_of_error {p : s.Parsed α}
    {f : (a : α) → (s' : Stream) → p.1 = (.ok a, s') → s'.Parsed β} {why : Failure}
    (h : p.1 = (.error why, s')) : (p.andThen f).1 = (.error why, s') := by
  unfold andThen
  split
  · next a s'' h' => cases h.symm.trans h'
  · next why' s'' h' =>
    cases h.symm.trans h'
    rfl

end Parsed

@[inline]
def looking (room : Room) (depth : Nat) (s : Stream) : s.Parsed (Option Token) :=
  ⟨s.look room depth, .look room depth .refl⟩

@[inline]
def taking {α : Type} (s : Stream) (a : α) : s.Parsed α := ⟨(.ok a, s.advance.2), .advance .refl⟩

/-- Takes a token of a class; a token of another class stays. -/
def expecting (room : Room) (depth : Nat) (kind : Kind) (wanted : String) (s : Stream) :
    s.Parsed Unit :=
  (s.looking room depth).andThen fun found s' _ =>
    if found.map Token.kind = some kind then s'.taking ()
    else .error (s'.fail (.expecting found wanted))

def expect (kind : Kind) (wanted : String) (s : Stream) : Outcome Unit × Stream :=
  (s.expecting .unlimited 0 kind wanted).1

end Stream
end Lisplet
