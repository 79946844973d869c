import Lisplet.Text.Character

/-! Numbers. Integers and their digits: reading a run of digits in a base, writing an integer in
decimal, and the most digits that either direction accepts. Binary floating-point numbers of 64
bits, as exact dyadic fractions, and the shortest decimal that reads back as a given one: the
candidates of each length are the two neighbours of the number on that decimal grid; the first
length with a candidate inside the rounding interval wins, then the nearer candidate, then the even
one. -/
namespace Lisplet

def digitValue (c : Char) : Nat :=
  if c.isDigit then c.toNat - '0'.toNat
  else if c.isLower then c.toNat - 'a'.toNat + 10
  else c.toNat - 'A'.toNat + 10

def positional (base : Nat) (values : List Nat) : Nat :=
  values.foldl (fun n d => base * n + d) 0

@[simp] theorem positional_append_singleton (base : Nat) (values : List Nat) (d : Nat) :
    positional base (values ++ [d]) = base * positional base values + d := by
  simp [positional]

def decimal (n : Int) : List Char :=
  if n < 0 then '-' :: Nat.toDigits 10 n.natAbs else Nat.toDigits 10 n.natAbs

/-- The most decimal digits of an integer that is read from text or written as text. -/
def digitLimit : Nat := 4300

/-- Whether a number has at most so many decimal digits; no more of them are looked at. -/
def fitsDigits : Nat → Nat → Bool
  | 0, _ => false
  | k + 1, n => n < 10 || fitsDigits k (n / 10)

theorem fitsDigits_iff {k n : Nat} :
    fitsDigits k n = true ↔ (Nat.toDigits 10 n).length ≤ k := by
  induction k generalizing n with
  | zero =>
    have h : 0 < (Nat.toDigits 10 n).length := Nat.length_toDigits_pos
    simp only [fitsDigits, Bool.false_eq_true, false_iff]
    omega
  | succ k ih =>
    by_cases h : n < 10
    · simp [fitsDigits, h, Nat.toDigits_of_lt_base h]
    · rw [Nat.toDigits_of_base_le (by decide) (Nat.le_of_not_lt h)]
      simp [fitsDigits, h, ih]

def isWritable (n : Int) : Bool := fitsDigits digitLimit n.natAbs

theorem isWritable_iff {n : Int} :
    isWritable n = true ↔ (Nat.toDigits 10 n.natAbs).length ≤ digitLimit :=
  fitsDigits_iff

/-- White space around a numeral. The information separators do not count here. -/
def isNumeralBlank (c : Char) : Bool :=
  isBlank c && !(0x1C ≤ c.toNat && c.toNat ≤ 0x1F)

/-- The digits of a run in which single underscores may stand between two digits. -/
def groupedDigits? : List Char → Option (List Nat)
  | [] => none
  | c :: rest =>
    match digitOfScript? c, rest with
    | none, _ => none
    | some d, [] => some [d]
    | some d, '_' :: more => (groupedDigits? more).map (d :: ·)
    | some d, next :: more => (groupedDigits? (next :: more)).map (d :: ·)

def splitSign : List Char → Bool × List Char
  | '-' :: rest => (true, rest)
  | '+' :: rest => (false, rest)
  | rest => (false, rest)

inductive NumeralError
  | notANumeral
  | tooLong (digits : Nat)
  deriving DecidableEq

/-- The integer that a text spells: a sign and decimal digits of any script, between white space. -/
def readInteger (cs : List Char) : Except NumeralError Int :=
  let (negative, body) := splitSign (cs.dropWhile isNumeralBlank)
  let isBody := fun c => (digitOfScript? c).isSome || c == '_'
  match groupedDigits? (body.takeWhile isBody) with
  | none => .error .notANumeral
  | some digits =>
    if digitLimit < digits.length then .error (.tooLong digits.length)
    else if (body.dropWhile isBody).all isNumeralBlank then
      let n : Int := positional 10 digits
      .ok (if negative then -n else n)
    else .error .notANumeral

/-- A floating-point number: the fraction `significand * 2 ^ exponent`, an infinity, or no number. -/
inductive Binary64
  | nan
  | infinite (negative : Bool)
  | finite (negative : Bool) (significand : Nat) (exponent : Int)
  deriving DecidableEq

namespace Binary64

def precision : Nat := 53

def minExponent : Int := -1074

def maxExponent : Int := 971

def twoTo (n : Nat) : Nat := Nat.pow 2 n

def tenTo (n : Nat) : Nat := Nat.pow 10 n

/-- The integer nearest to a quotient; of two equally near ones the even one. -/
def roundQuotient (num den : Nat) : Nat :=
  let q := num / den
  let twice := 2 * (num % den)
  if den < twice ∨ (den = twice ∧ q % 2 = 1) then q + 1 else q

def scaled (num den : Nat) (exponent : Int) : Nat × Nat :=
  if 0 ≤ exponent then (num, den * twoTo exponent.toNat) else (num * twoTo (-exponent).toNat, den)

def leadingBit (num den : Nat) : Int :=
  let guess : Int := num.log2 - den.log2
  let (n, d) := scaled num den guess
  if d ≤ n then guess else guess - 1

/-- The number nearest to `num / den`; a tie goes to the even significand. -/
def ofQuotient (negative : Bool) (num den : Nat) : Binary64 :=
  if num = 0 then .finite negative 0 minExponent
  else
    let exponent := max (leadingBit num den - (precision - 1)) minExponent
    let (n, d) := scaled num den exponent
    let m := roundQuotient n d
    let (m, exponent) := if m = twoTo precision then (m / 2, exponent + 1) else (m, exponent)
    if maxExponent < exponent then .infinite negative else .finite negative m exponent

/-- The number nearest to `10 ^ exponent` times what the digits spell. What lies far outside the
range is decided by the place of the first digit that is not zero. -/
def ofDecimal (negative : Bool) (digits : List Nat) (exponent : Int) : Binary64 :=
  let digits := digits.dropWhile (· == 0)
  let place := digits.length + exponent
  if digits = [] ∨ place < -330 then .finite negative 0 minExponent
  else if 310 < place then .infinite negative
  else if 0 ≤ exponent then ofQuotient negative (positional 10 digits * tenTo exponent.toNat) 1
  else ofQuotient negative (positional 10 digits) (tenTo (-exponent).toNat)

def toRat? : Binary64 → Option Rat
  | .finite negative m e =>
    let n : Int := if negative then -m else m
    some (if 0 ≤ e then mkRat (n * twoTo e.toNat) 1 else mkRat n (twoTo (-e).toNat))
  | _ => none

/-- Numerical equality: the two zeros agree, and what is no number agrees with nothing. -/
def eq : Binary64 → Binary64 → Bool
  | .infinite a, .infinite b => a == b
  | x, y =>
    match x.toRat?, y.toRat? with
    | some p, some q => p == q
    | _, _ => false

end Binary64

namespace Shortest

def power (base : Nat) (exponent : Int) : Rat :=
  if 0 ≤ exponent then mkRat (Nat.pow base exponent.toNat) 1
  else mkRat 1 (Nat.pow base (-exponent).toNat)

/-- The reals that round to a number: those between two bounds, which belong to it or not. -/
structure Interval where
  low : Rat
  high : Rat
  closed : Bool

def Interval.contains (i : Interval) (x : Rat) : Bool :=
  if i.closed then i.low ≤ x && x ≤ i.high else i.low < x && x < i.high

/-- The rounding interval of `m * 2 ^ e`. Below a power of two the numbers lie twice as dense. -/
def interval (m : Nat) (e : Int) : Interval :=
  let unit := power 2 (e - 2)
  let below := if m = Binary64.twoTo (Binary64.precision - 1) ∧ Binary64.minExponent < e then 1 else 2
  { low := ((4 * m - below : Nat) : Rat) * unit
    high := ((4 * m + 2 : Nat) : Rat) * unit
    closed := m % 2 = 0 }

/-- The exponent of the first decimal digit of `m * 2 ^ e`. The estimate by logarithms is off by
one at most. -/
def firstDigit (m : Nat) (e : Int) : Int :=
  let v := (m : Rat) * power 2 e
  let guess := Int.fdiv ((m.log2 + e) * 30103) 100000
  if v < power 10 guess then guess - 1
  else if power 10 (guess + 1) ≤ v then guess + 1
  else guess

/-- The better of the two neighbours of `v` on the grid of multiples of `10 ^ place`, if one lies
in the interval. -/
def onGrid? (i : Interval) (v : Rat) (place : Int) : Option Nat :=
  let unit := power 10 place
  let lower := (v / unit).floor.toNat
  let upper := lower + 1
  match i.contains ((lower : Rat) * unit), i.contains ((upper : Rat) * unit) with
  | false, false => none
  | true, false => some lower
  | false, true => some upper
  | true, true =>
    let down := v - (lower : Rat) * unit
    let up := (upper : Rat) * unit - v
    if down < up then some lower
    else if up < down then some upper
    else if lower % 2 = 0 then some lower else some upper

/-- The digits by grids that grow finer, each place once, at most `count` of them. -/
def search (i : Interval) (v : Rat) : Nat → Int → Nat × Int
  | 0, place => ((v / power 10 place).floor.toNat, place)
  | count + 1, place =>
    match onGrid? i v place with
    | some digits => (digits, place)
    | none => search i v count (place - 1)

structure Digits where
  digits : List Char
  point : Int
  deriving DecidableEq

def Digits.of (digits : Nat) (place : Int) : Digits :=
  let written := Nat.toDigits 10 digits
  { digits := (written.reverse.dropWhile (· == '0')).reverse
    point := place + written.length }

/-- The shortest digits of the positive number `m * 2 ^ e`. Seventeen always suffice. -/
def digits (m : Nat) (e : Int) : Digits :=
  let found := search (interval m e) ((m : Rat) * power 2 e) 17 (firstDigit m e)
  Digits.of found.1 found.2

end Shortest

structure RealLayout where
  /-- Positional when the point lies beyond this place, -/
  plainAbove : Int
  /-- and not beyond this one. -/
  plainUpTo : Int
  wholeMark : List Char
  exponentWidth : Nat

/-- Positional from one ten-thousandth up to sixteen digits before the point, whole numbers with
one decimal, exponents with a sign and two digits. -/
def realLayout : RealLayout := ⟨-4, 16, ['.', '0'], 2⟩

/-- As `realLayout`, whole numbers without a decimal: the parts of a pair. -/
def partLayout : RealLayout := { realLayout with wholeMark := [] }

namespace RealLayout

def exponentText (layout : RealLayout) (exponent : Int) : List Char :=
  let written := Nat.toDigits 10 exponent.natAbs
  'e' :: (if exponent < 0 then '-' else '+') ::
    (List.replicate (layout.exponentWidth - written.length) '0' ++ written)

def positive (layout : RealLayout) (d : Shortest.Digits) : List Char :=
  let n : Int := d.digits.length
  if layout.plainAbove < d.point ∧ d.point ≤ layout.plainUpTo then
    if d.point ≤ 0 then '0' :: '.' :: (List.replicate (-d.point).toNat '0' ++ d.digits)
    else if n ≤ d.point then
      d.digits ++ List.replicate (d.point - n).toNat '0' ++ layout.wholeMark
    else d.digits.take d.point.toNat ++ '.' :: d.digits.drop d.point.toNat
  else
    match d.digits with
    | first :: second :: rest => first :: '.' :: second :: rest ++ layout.exponentText (d.point - 1)
    | digits => digits ++ layout.exponentText (d.point - 1)

def write (layout : RealLayout) : Binary64 → List Char
  | .nan => "nan".toList
  | .infinite negative => (if negative then ['-'] else []) ++ "inf".toList
  | .finite negative m e =>
    (if negative then ['-'] else []) ++
      if m = 0 then '0' :: layout.wholeMark else layout.positive (Shortest.digits m e)

end RealLayout

namespace Binary64

def text (x : Binary64) : List Char := realLayout.write x

def ofParts (negative : Bool) (whole fraction : List Nat) (exponent : Int) : Binary64 :=
  ofDecimal negative (whole ++ fraction) (exponent - fraction.length)

def exponent? : List Char → Option Int
  | [] => some 0
  | c :: rest =>
    if c = 'e' ∨ c = 'E' then
      let (negative, digits) := splitSign rest
      (groupedDigits? digits).map fun ds =>
        let n : Int := positional 10 ds
        if negative then -n else n
    else none

def optionalDigits? : List Char → Option (List Nat)
  | [] => some []
  | cs => groupedDigits? cs

def ofUnsigned? (negative : Bool) (cs : List Char) : Option Binary64 :=
  let word := cs.map Char.toLower
  if word = "inf".toList ∨ word = "infinity".toList then some (.infinite negative)
  else if word = "nan".toList then some .nan
  else
    let inNumber := fun c => (digitOfScript? c).isSome || c == '_'
    let whole := cs.takeWhile inNumber
    let afterWhole := cs.dropWhile inNumber
    let fractionOf := fun rest : List Char => (rest.takeWhile inNumber, rest.dropWhile inNumber)
    let (fraction, tail) := match afterWhole with
      | '.' :: rest => fractionOf rest
      | rest => ([], rest)
    if whole.isEmpty && fraction.isEmpty then none
    else
      match optionalDigits? whole, optionalDigits? fraction, exponent? tail with
      | some w, some f, some e => some (ofParts negative w f e)
      | _, _, _ => none

def ofText? (cs : List Char) : Option Binary64 :=
  let body := cs.dropWhile isNumeralBlank
  let body := (body.reverse.dropWhile isNumeralBlank).reverse
  let (negative, rest) := splitSign body
  ofUnsigned? negative rest

end Binary64

end Lisplet
