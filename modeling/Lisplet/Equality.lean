import Lisplet.Datum.Write

/-! Coercions: data taken as integers, texts or truth values. A text counts as the integer that it
begins with, a list of one item as that item, and integers and truth values have a text.

Equality: strict equality tells the variants apart and compares part by part; weak equality also
holds where one of the coercions takes both data to the same thing. -/
namespace Lisplet

/-- A text split for a number at its front: whether a minus sign stands behind the leading white
space, the digits there, and the rest. -/
structure LeadingInteger where
  negative : Bool
  digits : List Char
  rest : List Char

namespace LeadingInteger

def of (cs : List Char) : LeadingInteger :=
  let body := cs.dropWhile isBlank
  match body with
  | '-' :: unsigned => ⟨true, unsigned.takeWhile Char.isDigit, unsigned.dropWhile Char.isDigit⟩
  | _ => ⟨false, body.takeWhile Char.isDigit, body.dropWhile Char.isDigit⟩

def startsWithDigit : List Char → Bool
  | [] => false
  | c :: _ => c.isDigit

/-- Whether a text goes on as a fraction or an exponent would, so that the digits before it are no
integer. -/
def continues : List Char → Bool
  | '.' :: rest => startsWithDigit rest
  | c :: rest => (c == 'e' || c == 'E') && startsWithDigit (splitSign rest).2
  | [] => false

def value (i : LeadingInteger) : Int :=
  let n : Int := positional 10 (i.digits.map digitValue)
  if i.negative then -n else n

end LeadingInteger

namespace Datum

def integerOfText (s : String) : Outcome Int :=
  let i := LeadingInteger.of s.toList
  if i.digits = [] ∨ LeadingInteger.continues i.rest = true then
    (Fault.wrongType .number (.string s)).raise
  else if digitLimit < i.digits.length then .error (.longNumeral i.digits.length)
  else .ok i.value

def unwrapWeight : Nat := 1

def toInteger (room : Room) : Datum → Outcome Int
  | .int n => .ok n
  | .string s => integerOfText s
  | .list [d] => do
    let inner ← room.enter unwrapWeight
    toInteger inner d
  | d => (Fault.wrongType .number d).raise

def toText : Datum → Outcome (List Char)
  | .string s => .ok s.toList
  | .bool b => .ok (if b then "True".toList else "False".toList)
  | .int n => writeInteger n
  | d => (Fault.wrongType .string d).raise

theorem toText_int {n : Int} (h : isWritable n = true) : toText (.int n) = .ok (decimal n) :=
  writeInteger_of_isWritable h

def toTruth : Datum → Outcome Bool
  | .bool b => .ok b
  | d => (Fault.wrongType .boolean d).raise

/-- The nested calls that comparing the items of lists takes, and those of dotted lists. -/
def pairsWeight : Nat := 2

def dottedPairsWeight : Nat := 3

def andThen (first : Outcome Bool) (second : Outcome Bool) : Outcome Bool :=
  match first with
  | .ok true => second
  | other => other

/-- A comparison that finds a fault tells its data apart. -/
def apartOnFault : Outcome Bool → Outcome Bool
  | .error (.fault _) => .ok false
  | other => other

mutual

def strictlyEqual (room : Room) : Datum → Datum → Outcome Bool
  | .symbol a, .symbol b => .ok (a == b)
  | .int a, .int b => .ok (a == b)
  | .float a, .float b => .ok (a.eq b)
  | .ratio a, .ratio b => .ok (a == b)
  | .complex a b, .complex c d => .ok (a.eq c && b.eq d)
  | .string a, .string b => .ok (a == b)
  | .char a, .char b => .ok (a == b)
  | .bool a, .bool b => .ok (a == b)
  | .list xs, .list ys =>
    if xs.length = ys.length then
      (room.enter pairsWeight).bind fun inner => strictlyEqualAll inner xs ys
    else .ok false
  | .vector xs, .vector ys =>
    if xs.length = ys.length then
      (room.enter pairsWeight).bind fun inner => strictlyEqualAll inner xs ys
    else .ok false
  | .dotted xs x, .dotted ys y =>
    if xs.length = ys.length then
      (room.enter dottedPairsWeight).bind fun inner =>
        andThen (strictlyEqualAll inner xs ys) (apartOnFault (strictlyEqual inner x y))
    else .ok false
  | _, _ => .ok false

def strictlyEqualAll (room : Room) : List Datum → List Datum → Outcome Bool
  | x :: xs, y :: ys =>
    andThen (apartOnFault (strictlyEqual room x y)) (strictlyEqualAll room xs ys)
  | _, _ => .ok true

end

/-- Whether a coercion takes both data, the first one first, to the same thing. A datum that it
does not take agrees with nothing. -/
def agreeUnder {α : Type} [BEq α] (coerce : Datum → Outcome α) (a b : Datum) : Outcome Bool :=
  apartOnFault do
    let x ← coerce a
    let y ← coerce b
    .ok (x == y)

def weaklyEqualWhole (room : Room) (a b : Datum) : Outcome Bool := do
  let asIntegers ← agreeUnder (toInteger room) a b
  let asTexts ← agreeUnder toText a b
  let asTruths ← agreeUnder toTruth a b
  if asIntegers || asTexts || asTruths then .ok true else strictlyEqual room a b

mutual

def weaklyEqual (room : Room) : Datum → Datum → Outcome Bool
  | .list xs, .list ys =>
    if xs.length = ys.length then
      (room.enter pairsWeight).bind fun inner => weaklyEqualAll inner xs ys
    else .ok false
  | .dotted xs x, .dotted ys y =>
    if xs.length = ys.length then
      (room.enter dottedPairsWeight).bind fun inner =>
        andThen (weaklyEqualAll inner xs ys) (apartOnFault (weaklyEqual inner x y))
    else .ok false
  | a, b => weaklyEqualWhole room a b

def weaklyEqualAll (room : Room) : List Datum → List Datum → Outcome Bool
  | x :: xs, y :: ys =>
    andThen (apartOnFault (weaklyEqual room x y)) (weaklyEqualAll room xs ys)
  | _, _ => .ok true

end

end Datum

end Lisplet
