import Lisplet.Equality

/-! The primitives: their names, how many arguments they take, and what they compute. A wrong number
of arguments is refused before any of them is looked at, so what a primitive does is settled on one
argument, on two, or for a fold on more. -/
namespace Lisplet

/-- Operations on two integers. Division rounds down or toward zero; each way has its remainder. -/
inductive Arithmetic
  | add | sub | mul | divDown | modDown | divToZero | modToZero
  deriving DecidableEq

/-- The quotient of the absolute values with the sign that the numbers have together. Zero goes
with the positive numbers here. -/
def quotientToZero (n d : Int) : Int :=
  let q : Nat := n.natAbs / d.natAbs
  if (n < 0 ↔ d < 0) then q else -q

def remainderToZero (n d : Int) : Int := n - d * quotientToZero n d

def Arithmetic.apply : Arithmetic → Int → Int → Outcome Int
  | .add, n, d => .ok (n + d)
  | .sub, n, d => .ok (n - d)
  | .mul, n, d => .ok (n * d)
  | .divDown, n, d => if d = 0 then Fault.divisionByZero.raise else .ok (n.fdiv d)
  | .modDown, n, d => if d = 0 then Fault.divisionByZero.raise else .ok (n.fmod d)
  | .divToZero, n, d => if d = 0 then Fault.divisionByZero.raise else .ok (quotientToZero n d)
  | .modToZero, n, d => if d = 0 then Fault.divisionByZero.raise else .ok (remainderToZero n d)

inductive Relation
  | eq | lt | gt | ne | ge | le
  deriving DecidableEq

def Relation.holds : Relation → Ordering → Bool
  | .eq, o => o == .eq
  | .lt, o => o == .lt
  | .gt, o => o == .gt
  | .ne, o => o != .eq
  | .ge, o => o != .lt
  | .le, o => o != .gt

/-- The order of texts: by the first character in which they differ, a beginning before the whole. -/
def compareTexts : List Char → List Char → Ordering
  | [], [] => .eq
  | [], _ :: _ => .lt
  | _ :: _, [] => .gt
  | a :: as, b :: bs =>
    if a.toNat < b.toNat then .lt
    else if b.toNat < a.toNat then .gt
    else compareTexts as bs

theorem compareTexts_eq_iff {as bs : List Char} : compareTexts as bs = .eq ↔ as = bs := by
  induction as generalizing bs with
  | nil => cases bs <;> simp [compareTexts]
  | cons a as ih =>
    cases bs with
    | nil => simp [compareTexts]
    | cons b bs =>
      rw [compareTexts, List.cons.injEq, ← Char.toNat_inj]
      split
      · simp
        omega
      · split
        · simp
          omega
        · rw [ih, and_iff_right (by omega)]

inductive Primitive
  | fold (op : Arithmetic)
  | compareIntegers (r : Relation)
  | compareTexts (r : Relation)
  | conj
  | disj
  | textLength
  | textItem
  | isSymbol
  | isText
  | isNumber
  | isTruth
  | isList
  | symbolToText
  | textToSymbol
  | car
  | cdr
  | cons
  | strict
  | weak
  deriving DecidableEq

structure Arity where
  least : Nat
  more : Bool
  deriving DecidableEq

def Arity.accepts (a : Arity) (count : Nat) : Bool :=
  if a.more then a.least ≤ count else count == a.least

namespace Primitive

def table : List (String × Primitive) :=
  [("+", .fold .add), ("-", .fold .sub), ("*", .fold .mul), ("/", .fold .divDown),
    ("mod", .fold .modDown), ("quotient", .fold .divToZero), ("remainder", .fold .modToZero),
    ("=", .compareIntegers .eq), ("<", .compareIntegers .lt), (">", .compareIntegers .gt),
    ("/=", .compareIntegers .ne), (">=", .compareIntegers .ge), ("<=", .compareIntegers .le),
    ("&&", .conj), ("||", .disj),
    ("string=?", .compareTexts .eq), ("string<?", .compareTexts .lt),
    ("string>?", .compareTexts .gt), ("string<=?", .compareTexts .le),
    ("string>=?", .compareTexts .ge),
    ("string-length", .textLength), ("string-ref", .textItem),
    ("symbol?", .isSymbol), ("string?", .isText), ("number?", .isNumber), ("bool?", .isTruth),
    ("list?", .isList), ("symbol->string", .symbolToText), ("string->symbol", .textToSymbol),
    ("car", .car), ("cdr", .cdr), ("cons", .cons),
    ("eq?", .strict), ("eqv?", .strict), ("equal?", .weak)]

def ofName? (name : String) : Option Primitive := table.lookup name

def names : List String :=
  (table.map Prod.fst).mergeSort fun a b => Relation.le.holds (Lisplet.compareTexts a.toList b.toList)

def arity : Primitive → Arity
  | .fold _ => ⟨2, true⟩
  | .compareIntegers _ | .compareTexts _ | .conj | .disj | .textItem | .cons | .strict | .weak =>
    ⟨2, false⟩
  | .textLength | .isSymbol | .isText | .isNumber | .isTruth | .isList | .symbolToText
  | .textToSymbol | .car | .cdr => ⟨1, false⟩

def both {α : Type} (coerce : Datum → Outcome α) (a b : Datum) : Outcome (α × α) := do
  let x ← coerce a
  let y ← coerce b
  .ok (x, y)

/-- All arguments are coerced before any is computed with. -/
def foldIntegers (room : Room) (op : Arithmetic) (first : Datum) (rest : List Datum) :
    Outcome Datum := do
  let n ← first.toInteger room
  let ns ← rest.mapM (Datum.toInteger room)
  let result ← ns.foldlM op.apply n
  .ok (.int result)

def textAt (text : String) (index : Int) : Outcome Datum :=
  if index < 0 then Fault.outOfBound.raise
  else
    match text.toList[index.toNat]? with
    | some c => .ok (.string (String.ofList [c]))
    | none => Fault.outOfBound.raise

def first : Datum → Outcome Datum
  | .list (d :: _) => .ok d
  | .dotted (d :: _) _ => .ok d
  | d => (Fault.wrongType .pair d).raise

/-- What remains without the first item. Without its only item a dotted list is its tail. -/
def rest : Datum → Outcome Datum
  | .list (_ :: items) => .ok (.list items)
  | .dotted [_] tail => .ok tail
  | .dotted (_ :: items) tail => .ok (.dotted items tail)
  | d => (Fault.wrongType .pair d).raise

/-- An item before a list, before the items of a dotted list, or before a new point. -/
def join (d : Datum) : Datum → Datum
  | .list items => .list (d :: items)
  | .dotted items tail => .dotted (d :: items) tail
  | other => .dotted [d] other

/-- What a primitive computes. The last line is for any number of arguments that it does not take. -/
def apply (room : Room) : Primitive → List Datum → Outcome Datum
  | .fold op, a :: b :: more => foldIntegers room op a (b :: more)
  | .compareIntegers r, [a, b] =>
    (both (Datum.toInteger room) a b).map fun p => .bool (r.holds (compare p.1 p.2))
  | .compareTexts r, [a, b] =>
    (both Datum.toText a b).map fun p => .bool (r.holds (Lisplet.compareTexts p.1 p.2))
  | .conj, [a, b] => (both Datum.toTruth a b).map fun p => .bool (p.1 && p.2)
  | .disj, [a, b] => (both Datum.toTruth a b).map fun p => .bool (p.1 || p.2)
  | .textLength, [a] =>
    match a with
    | .string s => .ok (.int s.toList.length)
    | _ => (Fault.wrongType .string a).raise
  | .textItem, [a, b] =>
    match a, b with
    | .string s, .int index => textAt s index
    | .string _, _ => (Fault.wrongType .number b).raise
    | _, _ => (Fault.wrongType .string a).raise
  | .isSymbol, [a] => .ok (.bool (a.variant? == some .atom))
  | .isText, [a] => .ok (.bool (a.variant? == some .string))
  | .isNumber, [a] => .ok (.bool (a.variant? == some .number))
  | .isTruth, [a] => .ok (.bool (a.variant? == some .bool))
  | .isList, [a] => .ok (.bool (a.variant? == some .list || a.variant? == some .dottedList))
  | .symbolToText, [a] =>
    match a with
    | .symbol name => .ok (.string name)
    | _ => .ok (.string "")
  | .textToSymbol, [a] =>
    match a with
    | .string s => .ok (.symbol s)
    | _ => .ok (.symbol "")
  | .car, [a] => first a
  | .cdr, [a] => rest a
  | .cons, [a, b] => .ok (join a b)
  | .strict, [a, b] => (a.strictlyEqual room b).map .bool
  | .weak, [a, b] => (a.weaklyEqual room b).map .bool
  | p, args => (Fault.arity p.arity.least args).raise

def applyNamed (room : Room) (name : String) (args : List Datum) : Outcome Datum :=
  match ofName? name with
  | some p => p.apply room args
  | none => (Fault.notFunction name).raise

theorem apply_of_not_accepts (room : Room) {p : Primitive} {args : List Datum}
    (h : p.arity.accepts args.length = false) :
    p.apply room args = (Fault.arity p.arity.least args).raise := by
  rcases args with _ | ⟨a, _ | ⟨b, _ | ⟨c, more⟩⟩⟩ <;> cases p <;> first | rfl | cases h

/-- Cases by the number of arguments. -/
@[elab_as_elim]
theorem arity_induction {C : Primitive → List Datum → Prop}
    (refused : ∀ p args, p.arity.accepts args.length = false → C p args)
    (fold : ∀ op a b more, C (.fold op) (a :: b :: more))
    (unary : ∀ p a, p.arity = ⟨1, false⟩ → C p [a])
    (binary : ∀ p a b, p.arity = ⟨2, false⟩ → C p [a, b])
    (p : Primitive) (args : List Datum) : C p args := by
  cases haccepts : p.arity.accepts args.length with
  | false => exact refused p args haccepts
  | true =>
    cases p with
    | fold op =>
      obtain ⟨a, b, more, rfl⟩ : ∃ a b more, args = a :: b :: more := by
        rcases args with _ | ⟨a, _ | ⟨b, more⟩⟩
        · cases haccepts
        · cases haccepts
        · exact ⟨a, b, more, rfl⟩
      exact fold op a b more
    | compareIntegers | compareTexts | conj | disj | textItem | cons | strict | weak =>
      obtain ⟨a, b, rfl⟩ : ∃ a b, args = [a, b] := by
        rcases args with _ | ⟨a, _ | ⟨b, _ | ⟨c, more⟩⟩⟩
        · cases haccepts
        · cases haccepts
        · exact ⟨a, b, rfl⟩
        · cases haccepts
      exact binary _ a b rfl
    | textLength | isSymbol | isText | isNumber | isTruth | isList | symbolToText | textToSymbol
    | car | cdr =>
      obtain ⟨a, rfl⟩ := List.length_eq_one_iff.mp (beq_iff_eq.mp haccepts)
      exact unary _ a rfl

end Primitive
end Lisplet
