import Lisplet.Report
import Lisplet.Proofs.Comparison
import Lisplet.Proofs.Demand
import Lisplet.Proofs.IntegerFold

/-! What primitives report. A number of arguments that is not taken is reported before anything is
looked at. Then the first argument that is not what is wanted where it stands is reported, whatever
the ones behind it are. What is left are divisors that are zero and indices outside of a text. -/
namespace Lisplet

def Raises {α : Type} (o : Outcome α) (r : Report) : Prop := ∃ f : Fault, o = f.raise ∧ f.report = r

section
variable {α : Type} {r : Report}

@[simp] theorem raises_raise_iff {f : Fault} : Raises (f.raise : Outcome α) r ↔ f.report = r := by
  constructor
  · rintro ⟨g, heq, rfl⟩
    cases heq
    rfl
  · exact fun h => ⟨f, rfl, h⟩

@[simp] theorem not_raises_ok {a : α} : ¬ Raises (.ok a) r := by
  rintro ⟨f, heq, -⟩
  cases heq

@[simp] theorem not_raises_exhausted : ¬ Raises (.error .exhausted : Outcome α) r := by
  rintro ⟨f, heq, -⟩
  cases heq

theorem Failure.DigitLimit.not_raises {why : Failure} (h : why.DigitLimit) :
    ¬ Raises (.error why : Outcome α) r := by
  rintro ⟨f, heq, -⟩
  cases heq
  cases h

end

namespace Primitive
open Datum

def demand? : Primitive → Nat → Option Demand
  | .fold _, _ | .compareIntegers _, _ => some .integer
  | .compareTexts _, _ => some .text
  | .conj, _ | .disj, _ => some .truth
  | .textLength, _ | .textItem, 0 => some .string
  | .textItem, _ => some .number
  | .car, _ | .cdr, _ => some .pair
  | _, _ => none

def FitsAt (p : Primitive) (args : List Datum) (i : Nat) : Prop :=
  ∀ a q, args[i]? = some a → p.demand? i = some q → q.MetBy a

/-- The argument at an index is not what it has to be, and all before it are. -/
structure OffendsFirst (p : Primitive) (args : List Datum) (i : Nat) (q : Demand) (a : Datum) :
    Prop where
  arg : args[i]? = some a
  demand : p.demand? i = some q
  offends : ¬ q.MetBy a
  first : ∀ j < i, p.FitsAt args j

def divides : Primitive → Bool
  | .fold op => op.divides
  | _ => false

/-- The faults that a primitive finds in arguments of a number that it takes. -/
inductive Finds (p : Primitive) (args : List Datum) : Fault → Prop
  | wrongType {i : Nat} {q : Demand} {a : Datum} : p.OffendsFirst args i q a →
      Finds p args (.wrongType q.expected (q.found a))
  | divisionByZero : (∀ i, p.FitsAt args i) → p.divides = true → Finds p args .divisionByZero
  | outOfBound {s : String} {i : Int} : (∀ j, p.FitsAt args j) → p = .textItem →
      args = [.string s, .int i] → i < 0 ∨ s.toList.length ≤ i → Finds p args .outOfBound

/-- How a primitive ends on arguments of a number that it takes. -/
inductive Ends (p : Primitive) (args : List Datum) : Outcome Datum → Prop
  | value (v : Datum) : (∀ i, p.FitsAt args i) → Ends p args (.ok v)
  | fault {f : Fault} : p.Finds args f → Ends p args f.raise
  | digitLimit {why : Failure} : why.DigitLimit → Ends p args (.error why)
  | exhausted : Ends p args (.error .exhausted)

section
variable {room : Room} {p : Primitive} {args : List Datum} {i j : Nat} {q q' : Demand} {a b : Datum}
  {o : Outcome Datum}

theorem OffendsFirst.unique (h : p.OffendsFirst args i q a) (h' : p.OffendsFirst args j q' b) :
    q = q' ∧ a = b := by
  rcases lt_trichotomy i j with hlt | rfl | hgt
  · exact absurd (h'.first i hlt a q h.arg h.demand) h.offends
  · exact ⟨Option.some.inj (h.demand.symm.trans h'.demand), Option.some.inj (h.arg.symm.trans h'.arg)⟩
  · exact absurd (h.first j hgt b q' h'.arg h'.demand) h'.offends

theorem OffendsFirst.not_fits (h : p.OffendsFirst args i q a) : ¬ ∀ i, p.FitsAt args i :=
  fun hfits => h.offends (hfits i a q h.arg h.demand)

theorem fitsAt_of_no_demand (h : ∀ i, p.demand? i = none) (args : List Datum) (i : Nat) :
    p.FitsAt args i := by
  intro a q _ hq
  rw [h] at hq
  cases hq

theorem ends_of_takesAll {result : Outcome Datum → Prop} (hq : ∀ i, p.demand? i = some q)
    (h : q.TakesAll result args o)
    (hresult : (∀ i, p.FitsAt args i) → ∀ o, result o → Ends p args o) : Ends p args o := by
  have hfits {i : Nat} (hall : ∀ a, args[i]? = some a → q.MetBy a) : p.FitsAt args i := by
    intro a q' ha hq'
    obtain rfl := Option.some.inj ((hq i).symm.trans hq')
    exact hall a ha
  cases h with
  | taken hall ho =>
    exact hresult (fun i => hfits fun a ha => hall a (List.mem_of_getElem? ha)) _ ho
  | refused hi ha hbefore =>
    exact .fault (.wrongType ⟨hi, hq _, ha, fun j hj => hfits (hbefore j hj)⟩)
  | digitLimit hwhy => exact .digitLimit hwhy
  | exhausted => exact .exhausted

theorem ends_of_value (hq : ∀ i, p.demand? i = some q)
    (h : q.TakesAll (fun o => ∃ v, o = .ok v) args o) : Ends p args o := by
  refine ends_of_takesAll hq h fun hfits o ho => ?_
  obtain ⟨v, rfl⟩ := ho
  exact .value v hfits

theorem ends_of_takes (hq : ∀ i, p.demand? i = some q) (h : q.Takes a o) : Ends p [a] o := by
  have hsingle : q.TakesAll (fun o => ∃ v, o = .ok v) [a] (o >>= .ok) := .single h fun v => ⟨v, rfl⟩
  have hbind : o >>= .ok = o := by cases o <;> rfl
  exact ends_of_value hq (hbind ▸ hsingle)

theorem ends_of_failsOnly {n : Nat} (hq : ∀ i, p.demand? i = none)
    (h : FailsOnly Failure.DigitLimit room n o) : Ends p args o := by
  cases o with
  | ok v => exact .value v (fitsAt_of_no_demand hq args)
  | error why =>
    rcases h why rfl with hwhy | ⟨rfl, -⟩
    · exact .digitLimit hwhy
    · exact .exhausted

theorem ends_fold (op : Arithmetic) (room : Room) (d : Datum) (ds : List Datum) :
    Ends (.fold op) (d :: ds) (foldIntegers room op d ds) := by
  have htakes : Demand.integer.TakesAll
      (fun o => (∃ v, o = .ok v) ∨ op.divides = true ∧ o = Fault.divisionByZero.raise) (d :: ds)
      (foldIntegers room op d ds) := by
    refine .cons (Demand.takes_toInteger room d) fun n =>
      .mapM (Demand.takes_toInteger room) (fun ns => ?_) ds
    rw [Arithmetic.foldlM_apply]
    split_ifs with hzero
    · exact .inr ⟨hzero.1, rfl⟩
    · exact .inl ⟨_, rfl⟩
  refine ends_of_takesAll (fun _ => rfl) htakes ?_
  rintro hfits o (⟨v, rfl⟩ | ⟨hdivides, rfl⟩)
  · exact .value v hfits
  · exact .fault (.divisionByZero hfits hdivides)

/-- A text has no character where the index is negative or not less than the length. -/
theorem textAt_cases (s : String) (i : Int) :
    (i < 0 ∨ s.toList.length ≤ i) ∧ textAt s i = Fault.outOfBound.raise ∨
      ¬ (i < 0 ∨ s.toList.length ≤ i) ∧ ∃ v, textAt s i = .ok v := by
  unfold textAt
  split_ifs with hneg
  · exact .inl ⟨.inl hneg, rfl⟩
  · cases hchar : s.toList[i.toNat]? with
    | none =>
      have hlength := List.getElem?_eq_none_iff.mp hchar
      exact .inl ⟨.inr (by omega), rfl⟩
    | some c =>
      obtain ⟨hlength, -⟩ := List.getElem?_eq_some_iff.mp hchar
      exact .inr ⟨by omega, _, rfl⟩

theorem ends_textItem (room : Room) (a b : Datum) :
    Ends .textItem [a, b] (Primitive.textItem.apply room [a, b]) := by
  cases a with
  | string s =>
    have hfirst : ∀ j < 1, textItem.FitsAt [.string s, b] j := by
      intro j hj d q hd hq
      obtain rfl := Nat.lt_one_iff.mp hj
      cases hd
      cases hq
      rfl
    cases b with
    | int i =>
      have hfits : ∀ j, textItem.FitsAt [.string s, .int i] j := by
        intro j d q hd hq
        match j with
        | 0 => exact hfirst 0 Nat.one_pos d q hd hq
        | 1 =>
          cases hd
          cases hq
          rfl
        | j + 2 => cases hd
      change Ends .textItem _ (textAt s i)
      rcases textAt_cases s i with ⟨hout, heq⟩ | ⟨-, v, heq⟩
      · rw [heq]
        exact .fault (.outOfBound hfits rfl rfl hout)
      · rw [heq]
        exact .value v hfits
    | _ => exact .fault (.wrongType (q := .number) ⟨rfl, rfl, nofun, hfirst⟩)
  | _ => exact .fault (.wrongType (q := .string) ⟨List.getElem?_cons_zero, rfl, nofun, nofun⟩)

theorem apply_ends (room : Room) (h : p.arity.accepts args.length = true) :
    Ends p args (p.apply room args) := by
  induction p, args using arity_induction with
  | refused p args hrefused =>
    rw [hrefused] at h
    cases h
  | fold op a b more => exact ends_fold op room a (b :: more)
  | unary p a hp =>
    cases p with
    | textLength =>
      refine ends_of_takes (q := .string) (fun _ => rfl) ?_
      cases a with
      | string s => exact .taken _ rfl
      | _ => exact .refused nofun
    | car => exact ends_of_takes (fun _ => rfl) (Demand.takes_first a)
    | cdr => exact ends_of_takes (fun _ => rfl) (Demand.takes_rest a)
    | isSymbol | isText | isNumber | isTruth | isList =>
      exact .value _ (fitsAt_of_no_demand (fun _ => rfl) _)
    | symbolToText | textToSymbol =>
      cases a <;> exact .value _ (fitsAt_of_no_demand (fun _ => rfl) _)
    | _ => cases hp
  | binary p a b hp =>
    cases p with
    | compareIntegers r =>
      refine ends_of_value (fun _ => rfl) ?_
      exact Demand.takesAll_both (Demand.takes_toInteger room) (fun _ => ⟨_, rfl⟩) a b
    | compareTexts r =>
      refine ends_of_value (fun _ => rfl) ?_
      exact Demand.takesAll_both Demand.takes_toText (fun _ => ⟨_, rfl⟩) a b
    | conj | disj =>
      refine ends_of_value (fun _ => rfl) ?_
      exact Demand.takesAll_both Demand.takes_toTruth (fun _ => ⟨_, rfl⟩) a b
    | textItem => exact ends_textItem room a b
    | cons => exact .value _ (fitsAt_of_no_demand (fun _ => rfl) _)
    | strict => exact ends_of_failsOnly (fun _ => rfl) (strictlyEqual_failsOnly a b).map
    | weak => exact ends_of_failsOnly (fun _ => rfl) (weaklyEqual_failsOnly a b).map
    | _ => cases hp

theorem Ends.exists_finds {r : Report} (h : Ends p args o) (hr : Raises o r) :
    ∃ f, p.Finds args f ∧ f.report = r := by
  cases h with
  | value => exact absurd hr not_raises_ok
  | fault hf => exact ⟨_, hf, raises_raise_iff.mp hr⟩
  | digitLimit hwhy => exact absurd hr hwhy.not_raises
  | exhausted => exact absurd hr not_raises_exhausted

/-- The first argument that offends is reported, if the limit on digits and the room allow it. -/
theorem Ends.of_offendsFirst (h : Ends p args o) (hfirst : p.OffendsFirst args i q a) :
    Raises o (.wrongType q.expected.name (q.found a)) ∨
      ∃ why, o = .error why ∧ (why.DigitLimit ∨ why = .exhausted) := by
  cases h with
  | value _ hfits => exact absurd hfits hfirst.not_fits
  | fault hf =>
    cases hf with
    | wrongType hother =>
      obtain ⟨rfl, rfl⟩ := hother.unique hfirst
      exact .inl (raises_raise_iff.mpr rfl)
    | divisionByZero hfits | outOfBound hfits => exact absurd hfits hfirst.not_fits
  | digitLimit hwhy => exact .inr ⟨_, rfl, .inl hwhy⟩
  | exhausted => exact .inr ⟨_, rfl, .inr rfl⟩

end

def pairNames : List String :=
  (integerComparisons ++ textComparisons).map Prod.snd ++
    ["&&", "||", "string-ref", "cons", "eq?", "eqv?", "equal?"]

def arityOfName (name : String) : Arity :=
  if name ∈ foldNames then ⟨2, true⟩ else if name ∈ pairNames then ⟨2, false⟩ else ⟨1, false⟩

def totalNames : List String :=
  ["symbol?", "string?", "number?", "bool?", "list?", "symbol->string", "string->symbol", "eq?",
    "eqv?"]

def isTotal : Primitive → Bool
  | .isSymbol | .isText | .isNumber | .isTruth | .isList | .symbolToText | .textToSymbol
  | .strict => true
  | _ => false

section
variable {room : Room} {name : String} {p : Primitive} {args : List Datum}

theorem arity_eq (h : ofName? name = some p) : p.arity = arityOfName name := by
  have htable : ∀ entry ∈ table, entry.2.arity = arityOfName entry.1 := by decide
  exact htable (name, p) (mem_table h)

theorem mem_divisionNames (h : ofName? name = some p) (hp : p.divides = true) :
    name ∈ divisionNames := by
  have htable : ∀ entry ∈ table, entry.2.divides = true → entry.1 ∈ divisionNames := by decide
  exact htable (name, p) (mem_table h) hp

theorem eq_of_textItem (h : ofName? name = some .textItem) : name = "string-ref" := by
  have htable : ∀ entry ∈ table, entry.2 = .textItem → entry.1 = "string-ref" := by decide
  exact htable (name, .textItem) (mem_table h) rfl

theorem isTotal_of_mem (h : ofName? name = some p) (hname : name ∈ totalNames) :
    p.isTotal = true := by
  have htable : ∀ entry ∈ table, entry.1 ∈ totalNames → entry.2.isTotal = true := by decide
  exact htable (name, p) (mem_table h) hname

theorem apply_of_isTotal (room : Room) (hp : p.isTotal = true)
    (h : p.arity.accepts args.length = true) :
    FailsOnly (fun _ => False) room (evaluationDepthAll args) (p.apply room args) := by
  induction p, args using arity_induction with
  | refused p args hrefused =>
    rw [hrefused] at h
    cases h
  | fold => cases hp
  | unary p a harity =>
    cases p with
    | isSymbol | isText | isNumber | isTruth | isList => exact .of_ok _
    | symbolToText | textToSymbol => cases a <;> exact .of_ok _
    | strict => cases harity
    | _ => cases hp
  | binary p a b harity =>
    cases p with
    | strict =>
      exact ((strictlyEqual_failsOnly a b).mono (evaluationDepth_le_all List.mem_cons_self)).map
    | isSymbol | isText | isNumber | isTruth | isList | symbolToText | textToSymbol => cases harity
    | _ => cases hp

end

section
variable {room : Room} {name : String} {p : Primitive} {args : List Datum} {r : Report}

theorem applyNamed_of_not_accepts (h : ofName? name = some p) (room : Room)
    (hargs : (arityOfName name).accepts args.length = false) :
    applyNamed room name args = (Fault.arity (arityOfName name).least args).raise := by
  rw [← arity_eq h] at hargs ⊢
  rw [applyNamed_eq h, apply_of_not_accepts room hargs]

theorem applyNamed_ends (h : ofName? name = some p) (room : Room)
    (hargs : (arityOfName name).accepts args.length = true) :
    Ends p args (applyNamed room name args) := by
  rw [← arity_eq h] at hargs
  rw [applyNamed_eq h]
  exact apply_ends room hargs

/-- All that is reported: the number of arguments if it is not taken, and else what is found in
them. -/
theorem cases_of_raises (h : ofName? name = some p) (hr : Raises (applyNamed room name args) r) :
    (arityOfName name).accepts args.length = false ∧ r = .arity (arityOfName name).least args ∨
      (arityOfName name).accepts args.length = true ∧ ∃ f, p.Finds args f ∧ r = f.report := by
  cases hargs : (arityOfName name).accepts args.length with
  | false =>
    rw [applyNamed_of_not_accepts h room hargs, raises_raise_iff] at hr
    exact .inl ⟨rfl, hr.symm⟩
  | true =>
    obtain ⟨f, hf, hreport⟩ := (applyNamed_ends h room hargs).exists_finds hr
    exact .inr ⟨rfl, f, hf, hreport.symm⟩

theorem raises_arity_iff (h : ofName? name = some p) {n : Int} {found : List Datum} :
    Raises (applyNamed room name args) (.arity n found) ↔
      (arityOfName name).accepts args.length = false ∧ n = (arityOfName name).least ∧
        found = args := by
  constructor
  · intro hr
    rcases cases_of_raises h hr with ⟨hargs, hr⟩ | ⟨-, f, hf, hr⟩
    · exact ⟨hargs, Report.arity.inj hr⟩
    · cases hf <;> cases hr
  · rintro ⟨hargs, rfl, rfl⟩
    rw [applyNamed_of_not_accepts h room hargs, raises_raise_iff]
    rfl

theorem exists_offendsFirst_of_raises (h : ofName? name = some p) {expected : String}
    {found : Datum} (hr : Raises (applyNamed room name args) (.wrongType expected found)) :
    (arityOfName name).accepts args.length = true ∧
      ∃ i q a, p.OffendsFirst args i q a ∧ expected = q.expected.name ∧ found = q.found a := by
  rcases cases_of_raises h hr with ⟨-, hr⟩ | ⟨hargs, f, hf, hr⟩
  · cases hr
  · cases hf with
    | wrongType hfirst => exact ⟨hargs, _, _, _, hfirst, Report.wrongType.inj hr⟩
    | divisionByZero | outOfBound => cases hr

theorem raises_of_offendsFirst (h : ofName? name = some p) (room : Room) {i : Nat} {q : Demand}
    {a : Datum} (hfirst : p.OffendsFirst args i q a)
    (hargs : (arityOfName name).accepts args.length = true) :
    Raises (applyNamed room name args) (.wrongType q.expected.name (q.found a)) ∨
      ∃ why, applyNamed room name args = .error why ∧
        (why.DigitLimit ∨ why = .exhausted ∧ room.admits (evaluationDepthAll args) = false) := by
  refine ((applyNamed_ends h room hargs).of_offendsFirst hfirst).imp_right ?_
  rintro ⟨why, hwhy, hlimit | rfl⟩
  · exact ⟨why, hwhy, .inl hlimit⟩
  · have hfails : FailsOnly (Failure.OfProgram True) room (evaluationDepthAll args)
        (applyNamed room name args) :=
      applyNamed_failsOnly name args fun hnot => absurd trivial hnot
    refine ⟨.exhausted, hwhy, .inr ⟨rfl, ?_⟩⟩
    rw [← Bool.not_eq_true]
    exact fun hroom => hfails.ne_exhausted hroom hwhy

theorem raises_runtime (h : ofName? name = some p) {message : String}
    (hr : Raises (applyNamed room name args) (.runtime message)) :
    message = "Division by zero" ∧ name ∈ divisionNames ∨
      message = "Out of bound error" ∧ name = "string-ref" := by
  rcases cases_of_raises h hr with ⟨-, hr⟩ | ⟨-, f, hf, hr⟩
  · cases hr
  · cases hf with
    | wrongType => cases hr
    | divisionByZero _ hp => exact .inl ⟨Report.runtime.inj hr, mem_divisionNames h hp⟩
    | outOfBound _ hp => exact .inr ⟨Report.runtime.inj hr, eq_of_textItem (hp ▸ h)⟩

theorem raises_outOfBound_iff (h : ofName? name = some p) :
    Raises (applyNamed room name args) (.runtime "Out of bound error") ↔
      name = "string-ref" ∧
        ∃ s i, args = [.string s, .int i] ∧ (i < 0 ∨ s.toList.length ≤ i) := by
  constructor
  · intro hr
    rcases cases_of_raises h hr with ⟨-, hr⟩ | ⟨-, f, hf, hr⟩
    · cases hr
    · cases hf with
      | wrongType => cases hr
      | divisionByZero => exact absurd (Report.runtime.inj hr) (by decide)
      | outOfBound _ hp hargs hout => exact ⟨eq_of_textItem (hp ▸ h), _, _, hargs, hout⟩
  · rintro ⟨rfl, s, i, rfl, hout⟩
    change Raises (textAt s i) _
    rcases textAt_cases s i with ⟨-, heq⟩ | ⟨hin, -⟩
    · rw [heq, raises_raise_iff]
      rfl
    · exact absurd hout hin

theorem className_of_raises (h : ofName? name = some p)
    (hr : Raises (applyNamed room name args) r) :
    r.className ∈ ["SchemeArityError", "SchemeTypeError", "SchemeRuntimeError"] := by
  rcases cases_of_raises h hr with ⟨-, rfl⟩ | ⟨-, f, hf, rfl⟩
  · exact List.mem_cons_self
  · cases hf <;> simp [Fault.report, Report.className]

theorem applyNamed_of_total (h : ofName? name = some p) (room : Room) (hname : name ∈ totalNames)
    (hargs : (arityOfName name).accepts args.length = true) :
    (∃ v, applyNamed room name args = .ok v) ∨
      applyNamed room name args = .error .exhausted ∧
        room.admits (evaluationDepthAll args) = false := by
  rw [← arity_eq h] at hargs
  rw [applyNamed_eq h]
  exact (apply_of_isTotal room (isTotal_of_mem h hname) hargs).exists_ok_or

end

/-- What the primitive of a name reports of its arguments. -/
structure ErrorContract (room : Room) (name : String) (p : Primitive) (args : List Datum) :
    Prop where
  arity (n : Int) (found : List Datum) : Raises (applyNamed room name args) (.arity n found) ↔
    (arityOfName name).accepts args.length = false ∧ n = (arityOfName name).least ∧ found = args
  wrongType (expected : String) (found : Datum) :
    Raises (applyNamed room name args) (.wrongType expected found) →
      (arityOfName name).accepts args.length = true ∧
      ∃ i q a, p.OffendsFirst args i q a ∧ expected = q.expected.name ∧ found = q.found a
  offender (i : Nat) (q : Demand) (a : Datum) : p.OffendsFirst args i q a →
    (arityOfName name).accepts args.length = true →
      Raises (applyNamed room name args) (.wrongType q.expected.name (q.found a)) ∨
      ∃ why, applyNamed room name args = .error why ∧
        (why.DigitLimit ∨ why = .exhausted ∧ room.admits (evaluationDepthAll args) = false)
  runtime (message : String) : Raises (applyNamed room name args) (.runtime message) →
    message = "Division by zero" ∧ name ∈ divisionNames ∨
      message = "Out of bound error" ∧ name = "string-ref"
  outOfBound : Raises (applyNamed room name args) (.runtime "Out of bound error") ↔
    name = "string-ref" ∧
      ∃ s i, args = [.string s, .int i] ∧ (i < 0 ∨ s.toList.length ≤ i)
  className (r : Report) : Raises (applyNamed room name args) r →
    r.className ∈ ["SchemeArityError", "SchemeTypeError", "SchemeRuntimeError"]
  total : name ∈ totalNames → (arityOfName name).accepts args.length = true →
    (∃ v, applyNamed room name args = .ok v) ∨
      applyNamed room name args = .error .exhausted ∧ room.admits (evaluationDepthAll args) = false

/-- A primitive reports a number of arguments that it does not take before it looks at any of them.
Of a number that it takes it reports the first argument that is not what it has to be, or what stands
inside where lists are unwrapped in search of an integer. Only divisions report a zero, and only an
item of a text is out of bounds, just where the index is negative or not less than the length. The
tests of variants, the two conversions and strict equality report nothing else. -/
theorem primitives_keep_contract (room : Room) {name : String} {p : Primitive}
    (h : ofName? name = some p) (args : List Datum) : ErrorContract room name p args where
  arity _ _ := raises_arity_iff h
  wrongType _ _ := exists_offendsFirst_of_raises h
  offender _ _ _ := raises_of_offendsFirst h room
  runtime _ := raises_runtime h
  outOfBound := raises_outOfBound_iff h
  className _ := className_of_raises h
  total := applyNamed_of_total h room

/-- A text is found within two lists, and the truth value behind them is not looked at. -/
theorem primitives_keep_contract_unwrapped :
    (∃ i q a, (Primitive.fold .add).OffendsFirst
        [.int 1, .list [.list [.string "x"]], .bool true] i q a ∧ Datum.string "x" = q.found a) ∧
      Raises (applyNamed .standard "car" []) (.arity 1 []) ∧
      Raises (applyNamed .standard "string-ref" [.string "ab", .int 2])
        (.runtime "Out of bound error") := by
  have hplus : ErrorContract .standard "+" (.fold .add)
      [.int 1, .list [.list [.string "x"]], .bool true] := primitives_keep_contract .standard rfl _
  have hcar : ErrorContract .standard "car" .car [] := primitives_keep_contract .standard rfl _
  have hitem : ErrorContract .standard "string-ref" .textItem [.string "ab", .int 2] :=
    primitives_keep_contract .standard rfl _
  obtain ⟨-, i, q, a, hfirst, -, hfound⟩ :=
    hplus.wrongType "number" (.string "x") ⟨.wrongType .number (.string "x"), rfl, rfl⟩
  exact ⟨⟨i, q, a, hfirst, hfound⟩, (hcar.arity 1 []).mpr ⟨rfl, rfl, rfl⟩,
    hitem.outOfBound.mpr ⟨rfl, "ab", 2, rfl, .inr (by decide)⟩⟩

end Primitive
end Lisplet
