import Lisplet.Failure
import Lisplet.Text.Printable

/-! The text of a datum, as the reader would take it back where it can; strings are written as they
are, without escapes. Besides this, data as the host sees them: written for the eyes of a
programmer, every part with its class and texts quoted, and compared loosely, numbers of all kinds
by their value. -/
namespace Lisplet

def spaced : List (List Char) → List Char
  | [] => []
  | [cs] => cs
  | cs :: rest => cs ++ ' ' :: spaced rest

def writeInteger (n : Int) : Outcome (List Char) :=
  if isWritable n then .ok (decimal n) else .error .longInteger

theorem writeInteger_of_isWritable {n : Int} (h : isWritable n = true) :
    writeInteger n = .ok (decimal n) :=
  if_pos h

theorem writeInteger_of_not_isWritable {n : Int} (h : ¬ isWritable n = true) :
    writeInteger n = .error .longInteger :=
  if_neg h

namespace Datum

def characterText (c : Char) : List Char :=
  if c = ' ' then "space".toList else if c = '\n' then "newline".toList else [c]

/-- The imaginary part always has a sign. -/
def complexText (re im : Binary64) : List Char :=
  let i := im.text
  re.text ++ (if i.head? = some '-' then i else '+' :: i) ++ ['i']

/-- The nested calls that writing the items of a list or vector takes, and those that the items and
the tail of a dotted list take. -/
def listWeight : Nat := 4

def headWeight : Nat := 2

def tailWeight : Nat := 1

def writingDepth (d : Datum) : Nat := d.depth listWeight headWeight tailWeight

def writingDepthAll (ds : List Datum) : Nat := depthAll listWeight headWeight tailWeight ds

mutual

def write (room : Room) : Datum → Outcome (List Char)
  | .symbol name => .ok name.toList
  | .int n => writeInteger n
  | .float x => .ok x.text
  | .ratio q => do
    let num ← writeInteger q.num
    let den ← writeInteger q.den
    .ok (num ++ '/' :: den)
  | .complex re im => .ok (complexText re im)
  | .string text => .ok ('\x22' :: (text.toList ++ ['\x22']))
  | .char c => .ok ('#' :: '\\' :: characterText c)
  | .bool b => .ok (if b then ['#', 't'] else ['#', 'f'])
  | .list items => do
    let inner ← room.enter listWeight
    let parts ← writeAll inner items
    .ok ('(' :: (spaced parts ++ [')']))
  | .dotted head tail => do
    let inner ← room.enter headWeight
    let parts ← writeAll inner head
    let outer ← room.enter tailWeight
    let last ← write outer tail
    .ok ('(' :: (spaced (parts ++ [['.'], last]) ++ [')']))
  | .vector items => do
    let inner ← room.enter listWeight
    let parts ← writeAll inner items
    .ok ('#' :: '(' :: (spaced parts ++ [')']))
  | .foreign => .ok "None".toList

def writeAll (room : Room) : List Datum → Outcome (List (List Char))
  | [] => .ok []
  | d :: rest => do
    let text ← write room d
    let texts ← writeAll room rest
    .ok (text :: texts)

end

def text (room : Room) (d : Datum) : Outcome String := (write room d).map String.ofList

def textOfAll (room : Room) (ds : List Datum) : Outcome String :=
  (writeAll room ds).map fun parts => String.ofList (spaced parts)

end Datum

def commaSeparated : List (List Char) → List Char
  | [] => []
  | [cs] => cs
  | cs :: rest => cs ++ ',' :: ' ' :: commaSeparated rest

namespace Datum

/-- A complex number with the letter j, in parentheses unless it is purely imaginary. -/
def inspectComplex (re im : Binary64) : List Char :=
  let i := partLayout.write im
  if re = .finite false 0 Binary64.minExponent then i ++ ['j']
  else
    let signed := if i.head? = some '-' then i else '+' :: i
    '(' :: (partLayout.write re ++ signed ++ ['j', ')'])

mutual

def inspect : Datum → Outcome (List Char)
  | .symbol name => .ok ("Symbol(".toList ++ quoted name.toList ++ [')'])
  | .int n => writeInteger n
  | .float x => .ok x.text
  | .ratio q => do
    let num ← writeInteger q.num
    let den ← writeInteger q.den
    .ok ("Fraction(".toList ++ num ++ ',' :: ' ' :: (den ++ [')']))
  | .complex re im => .ok (inspectComplex re im)
  | .string text => .ok (quoted text.toList)
  | .char c => .ok ("Char(".toList ++ quoted [c] ++ [')'])
  | .bool b => .ok (if b then "True".toList else "False".toList)
  | .list items => do
    let parts ← inspectAll items
    .ok ('[' :: (commaSeparated parts ++ [']']))
  | .dotted head tail => do
    let parts ← inspectAll head
    let last ← inspect tail
    .ok ("([".toList ++ commaSeparated parts ++ "], ".toList ++ last ++ [')'])
  | .vector items => do
    let parts ← inspectAll items
    .ok ("Vector([".toList ++ commaSeparated parts ++ "])".toList)
  | .foreign => .ok "None".toList

def inspectAll : List Datum → Outcome (List (List Char))
  | [] => .ok []
  | d :: rest => do
    let text ← inspect d
    let texts ← inspectAll rest
    .ok (text :: texts)

end

/-- The same without quotes and class around a bare text, and a whole ratio without its denominator. -/
def plain : Datum → Outcome (List Char)
  | .symbol name => .ok name.toList
  | .string text => .ok text.toList
  | .char c => .ok [c]
  | .ratio q => do
    let num ← writeInteger q.num
    if q.den = 1 then .ok num
    else
      let den ← writeInteger q.den
      .ok (num ++ '/' :: den)
  | d => inspect d

def notOneCharacter (s : String) : String :=
  "Char expects exactly one character, got " ++ String.ofList (quoted s.toList)

/-- The first index too large for any item of any vector. -/
def indexBound : Int := 9223372036854775808

def noSuchItem (index : Int) : String :=
  if -indexBound ≤ index ∧ index < indexBound then "tuple index out of range"
  else "cannot fit 'int' into an index-sized integer"

/-- The value of a number: a pair of floating-point numbers or an exact one. A truth value counts
as one or zero. -/
inductive Quantity
  | exact (re im : Rat)
  | infinite (re im : Binary64)

def quantityOf (re im : Binary64) : Quantity :=
  match re.toRat?, im.toRat? with
  | some x, some y => .exact x y
  | _, _ => .infinite re im

def quantity? : Datum → Option Quantity
  | .int n => some (.exact n 0)
  | .bool b => some (.exact (if b then 1 else 0) 0)
  | .ratio q => some (.exact q 0)
  | .float x => some (quantityOf x (.finite false 0 Binary64.minExponent))
  | .complex re im => some (quantityOf re im)
  | _ => none

def Quantity.agrees : Quantity → Quantity → Bool
  | .exact a b, .exact c d => a == c && b == d
  | .infinite a b, .infinite c d => a.eq c && b.eq d
  | _, _ => false

mutual

def agrees : Datum → Datum → Bool
  | .symbol a, .symbol b => a == b
  | .string a, .string b => a == b
  | .char a, .char b => a == b
  | .list xs, .list ys => allAgree xs ys
  | .vector xs, .vector ys => allAgree xs ys
  | .dotted xs x, .dotted ys y => allAgree xs ys && agrees x y
  | .foreign, .foreign => true
  | a, b =>
    match a.quantity?, b.quantity? with
    | some p, some q => p.agrees q
    | _, _ => false

def allAgree : List Datum → List Datum → Bool
  | [], [] => true
  | x :: xs, y :: ys => agrees x y && allAgree xs ys
  | _, _ => false

end

/-- Why no set takes a datum: it is a list or a vector, and those have no hash. A dotted list is
refused for the list in it. -/
def unhashable? : Datum → Option Variant
  | .list _ => some .list
  | .dotted .. => some .list
  | .vector _ => some .vector
  | _ => none

def unhashableMessage (v : Variant) : String :=
  "unhashable type: '" ++ (if v = .vector then "Vector" else v.name) ++ "'"

def countDistinct (ds : List Datum) : Nat :=
  (ds.foldl (fun kept d => if kept.any (agrees d) then kept else d :: kept) []).length

def sizeOfSet (ds : List Datum) : Except Variant Nat :=
  match ds.findSome? unhashable? with
  | some v => .error v
  | none => .ok (countDistinct ds)

end Datum

end Lisplet
