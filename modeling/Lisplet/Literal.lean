import Lisplet.Failure

/-! Literals: the datum that a single token stands for. -/
namespace Lisplet

inductive Refusal
  | defect (what : Defect)
  | malformed (what : Malformed)
  | tooDeep

namespace Literal

/-- The parts of a text between the places where a mark stands; one part more than marks. -/
def partsAt (mark : Char) : List Char → List (List Char)
  | [] => [[]]
  | c :: rest =>
    if c = mark then [] :: partsAt mark rest
    else
      match partsAt mark rest with
      | part :: parts => (c :: part) :: parts
      | [] => [[c]]

def integer (cs : List Char) : Except Refusal Int :=
  match readInteger cs with
  | .ok n => .ok n
  | .error .notANumeral => .error (.defect (.notANumeral cs))
  | .error (.tooLong digits) => .error (.defect (.longNumeral digits))

def real (cs : List Char) : Except Refusal Binary64 :=
  match Binary64.ofText? cs with
  | some x => .ok x
  | none => .error (.malformed (.notReal cs))

def ratio (text : List Char) : Except Refusal Datum :=
  match partsAt '/' text with
  | [num, den] => do
    let n ← integer num
    let d ← integer den
    if d = 0 then .error (.defect (.zeroDenominator text)) else .ok (.ratio (Rat.divInt n d))
  | first :: second :: third :: _ => do
    let _ ← integer first
    let _ ← integer second
    let _ ← integer third
    .error (.malformed .manyParts)
  | parts => do
    let _ ← parts.mapM integer
    .error (.malformed .fewParts)

def complex (text : List Char) : Except Refusal Datum :=
  match partsAt '+' text.dropLast with
  | [re, im] => do
    let x ← real re
    let y ← real im
    .ok (.complex x y)
  | _ :: _ :: _ => .error (.malformed .manyParts)
  | _ => .error (.malformed .fewParts)

def base? : Char → Option Nat
  | 'd' => some 10
  | 'b' => some 2
  | 'o' => some 8
  | 'x' => some 16
  | _ => none

/-- A digit of a base: an ASCII digit or letter of small enough value. -/
def isDigitOf (base : Nat) (c : Char) : Bool := c.isAlphanum && digitValue c < base

def radix (text : List Char) : Except Refusal Datum :=
  match text with
  | hash :: letter :: digits =>
    match base? letter with
    | none => .error (.malformed (.unknownRadix letter))
    | some base =>
      if digits = [] then .error (.defect (.missingDigits [hash, letter]))
      else
        match digits.find? fun c => !isDigitOf base c with
        | some c => .error (.defect (.badDigit c text))
        | none =>
          if base = 10 ∧ digitLimit < digits.length then
            .error (.defect (.longNumeral digits.length))
          else .ok (.int (positional base (digits.map digitValue)))
  | _ => .error (.malformed .cutShort)

def characterNames : List (List Char × Char) :=
  [("space".toList, ' '), ("newline".toList, '\n')]

/-- A character behind a hash and a backslash: itself, or its name in any case. -/
def character (text : List Char) : Except Refusal Datum :=
  let name := text.drop 2
  match characterNames.lookup (name.map Char.toLower), name with
  | some c, _ => .ok (.char c)
  | none, [c] => .ok (.char c)
  | none, [] => .error (.defect .missingLetter)
  | none, name => .error (.defect (.unknownCharacter name))

def escape? : Char → Option Char
  | '\\' => some '\\'
  | '\x22' => some '\x22'
  | 'n' => some '\n'
  | 'r' => some '\r'
  | 't' => some '\t'
  | _ => none

def unescape : List Char → Except Refusal (List Char)
  | [] => .ok []
  | '\\' :: [] => .error (.malformed .cutShort)
  | '\\' :: c :: rest =>
    match escape? c with
    | some d => (unescape rest).map (d :: ·)
    | none => .error (.defect (.badEscape c))
  | c :: rest => (unescape rest).map (c :: ·)

def string (text : List Char) : Except Refusal Datum :=
  (unescape (text.drop 1).dropLast).map fun cs => .string (String.ofList cs)

end Literal

namespace Token

/-- The datum that a token of a literal class stands for; other tokens have none. -/
def literal? (t : Token) : Option (Except Refusal Datum) :=
  match t.kind with
  | .symbol => some (.ok (.symbol (String.ofList t.text)))
  | .integer => some ((Literal.integer t.text).map .int)
  | .float => some ((Literal.real t.text).map .float)
  | .ratio => some (Literal.ratio t.text)
  | .complex => some (Literal.complex t.text)
  | .radix => some (Literal.radix t.text)
  | .bool => some (.ok (.bool (t.text == ['#', 't'])))
  | .char => some (Literal.character t.text)
  | .string => some (Literal.string t.text)
  | _ => none

/-- Whether a token is taken from the stream before its text is converted. -/
def takenFirst (t : Token) : Bool := t.kind == .float || t.kind == .complex

end Token
end Lisplet
