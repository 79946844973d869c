import Lisplet.Stream

/-! Reading a datum from a stream of tokens, by recursive descent. What stands behind the token that
completes the datum is not looked at. -/
namespace Lisplet

inductive Bracket
  | list | vector
  deriving DecidableEq

def Bracket.close : Bracket → List Datum → Datum
  | .list, items => .list items
  | .vector, items => .vector items

def quoteSymbol? : List Char → Option String
  | ['\x27'] => some "quote"
  | ['\x60'] => some "quasiquote"
  | [','] => some "unquote"
  | _ => none

namespace Stream

def literal (t : Token) (s : Stream) : s.Parsed Datum :=
  match t.literal? with
  | some (.ok d) => s.taking d
  | some (.error why) =>
    if t.takenFirst then (s.taking ()).andThen fun _ s' _ => .error (s'.failOf why)
    else .error (s.failOf why)
  | none => .error (s.fail (.unexpected (some t)))

def quoted (mark : List Char) (d : Datum) (s : Stream) : s.Parsed Datum :=
  match quoteSymbol? mark with
  | some name => .ok (.list [.symbol name, d])
  | none => .error (.malformed (.unknownMark mark))

/-- Whether the point of a dotted list comes. A vector has none, so there is no look for it. -/
def pointing (room : Room) (depth : Nat) (bracket : Bracket) (s : Stream) : s.Parsed Bool :=
  match bracket with
  | .list => (s.looking room depth).andThen fun found _ _ =>
      .ok (found.map Token.kind = some .dot)
  | .vector => .ok false

section
variable {room : Room} {depth : Nat} {s s₁ s₂ : Stream} {found : Option Token} {kind : Kind}
  {wanted : String} {u : Unit}

/-- A token that has been looked at and taken is no longer ahead. -/
theorem taking_lt (hlook : (s.looking room depth).1 = (.ok found, s₁)) (hfound : found ≠ none)
    (htake : (s₁.taking ()).1 = (.ok u, s₂)) : s₂.ahead.length < s.ahead.length := by
  obtain ⟨rfl, rfl⟩ := look_eq_ok hlook
  obtain ⟨t, ht⟩ := Option.ne_none_iff_exists'.mp hfound
  obtain ⟨ts, hahead⟩ := List.head?_eq_some_iff.mp ht
  obtain rfl : s.peek.2.advance.2 = s₂ := (Prod.mk.inj htake).2
  rw [(advance_eq _).2, s.peek_eq.2, hahead]
  simp

theorem expecting_lt (h : (s.expecting room depth kind wanted).1 = (.ok u, s₂)) :
    s₂.ahead.length < s.ahead.length := by
  unfold expecting at h
  rcases hlook : (s.looking room depth).1 with ⟨why | found, s₁⟩
  · cases (Parsed.andThen_of_error hlook).symm.trans h
  · rw [Parsed.andThen_of_ok hlook] at h
    split at h
    · next hkind => exact taking_lt hlook (by rintro rfl; cases hkind) h
    · cases h

end

mutual

def parseExpr (room : Room) (depth : Nat) (s : Stream) : s.Parsed Datum :=
  (s.looking room depth).andThen fun found s₁ _hlook =>
    match found with
    | none => .error (s₁.fail (.unexpected none))
    | some t =>
      match t.kind with
      | .quote =>
        (s₁.taking ()).andThen fun _ s₂ _htake =>
          (parseExpr room (depth + 1) s₂).andThen fun d s₃ _ => s₃.quoted t.text d
      | .lparen =>
        (s₁.taking ()).andThen fun _ s₂ _htake => parseSequence room (depth + 1) .list s₂
      | .vector =>
        (s₁.taking ()).andThen fun _ s₂ _htake => parseSequence room (depth + 1) .vector s₂
      | _ => s₁.literal t
  termination_by (s.ahead.length, 0)
  decreasing_by all_goals exact .left _ _ (taking_lt _hlook (Option.some_ne_none t) _htake)

def parseSequence (room : Room) (depth : Nat) (bracket : Bracket) (s : Stream) : s.Parsed Datum :=
  (s.looking room depth).andThen fun found s₁ _hlook =>
    if found.map Token.kind = some .rparen then s₁.taking (bracket.close [])
    else parseItems room depth bracket [] s₁
  termination_by (s.ahead.length, 2)
  decreasing_by exact Prod.Lex.right' _ (Parsed.reaches _hlook).ahead_le (by decide)

/-- Reads the items behind those that have been read, the last one first. -/
def parseItems (room : Room) (depth : Nat) (bracket : Bracket) (items : List Datum) (s : Stream) :
    s.Parsed Datum :=
  (s.pointing room depth bracket).andThen fun dotted s₁ _hpoint =>
    if dotted then parseDottedTail room (depth + 1) items s₁
    else
      (parseExpr room (depth + 1) s₁).andThen fun d s₂ _hitem =>
        (s₂.looking room depth).andThen fun found s₃ _hlook =>
          match _hkind : found.map Token.kind with
          | some .rparen => s₃.taking (bracket.close (d :: items).reverse)
          | some .space =>
            (s₃.taking ()).andThen fun _ s₄ _htake => parseItems room depth bracket (d :: items) s₄
          | _ => .error (s₃.fail (.expecting found "space or ')'"))
  termination_by (s.ahead.length, 1)
  decreasing_by
    · exact Prod.Lex.right' _ (Parsed.reaches _hpoint).ahead_le (by decide)
    · exact Prod.Lex.right' _ (Parsed.reaches _hpoint).ahead_le (by decide)
    · have hitem := Parsed.reaches _hitem
      have hle := ((Parsed.reaches _hpoint).trans hitem).ahead_le
      have hlt := taking_lt _hlook (by rintro rfl; cases _hkind) _htake
      exact .left _ _ (Nat.lt_of_lt_of_le hlt hle)

def parseDottedTail (room : Room) (depth : Nat) (items : List Datum) (s : Stream) :
    s.Parsed Datum :=
  (s.taking ()).andThen fun _ s₁ _htake =>
    (s₁.expecting room (depth + 1) .space "space after '.'").andThen fun _ s₂ _hspace =>
      (parseExpr room (depth + 1) s₂).andThen fun d s₃ _ =>
        (s₃.expecting room (depth + 1) .rparen "')' after dotted tail").andThen fun _ _ _ =>
          .ok (.dotted items.reverse d)
  termination_by (s.ahead.length, 0)
  decreasing_by
    exact .left _ _ (Nat.lt_of_lt_of_le (expecting_lt _hspace) (Parsed.reaches _htake).ahead_le)

end

def parse (room : Room) (s : Stream) : Outcome Datum × Stream := (s.parseExpr room 0).1

end Stream

/-- What messages call a source that has no name. -/
def defaultSource : String := "lisp"

/-- The first datum of a text. What stands behind it is not looked at. -/
def read (room : Room) (cs : List Char) : Outcome Datum :=
  match ((Stream.ofText defaultSource cs).parse room).1 with
  | .error .exhausted => (Fault.unreadable .tooDeep).raise
  | result => result

end Lisplet
