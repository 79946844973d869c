import Lisplet.Proofs.Form

/-! What the value of a form is made of. Primitives make integers, truth values, single letters and
names of their own; all else in a value is a part of the form or is put together from such parts.
What relates each form to its parts and each application to what a primitive gives therefore relates
every form to its value. -/
namespace Lisplet
namespace Primitive

/-- What primitives make of their own. A name is made from a text of the arguments and a text from a
name. -/
inductive Makes (args : List Datum) : Datum → Prop
  | int (n : Int) : Makes args (.int n)
  | bool (b : Bool) : Makes args (.bool b)
  | letter (c : Char) : Makes args (.string (String.ofList [c]))
  | noText : Makes args (.string "")
  | noName : Makes args (.symbol "")
  | text {name : String} : .symbol name ∈ args → Makes args (.string name)
  | name {text : String} : .string text ∈ args → Makes args (.symbol text)

section
variable {room : Room} {a b v : Datum} {args : List Datum} {Q : Datum → Prop}

theorem makes_of_map {α : Type} {o : Outcome α} {g : α → Datum} (h : o.map g = .ok v)
    (hg : ∀ x, Makes args (g x)) : Makes args v := by
  cases o with
  | ok x =>
    obtain rfl := Except.ok.inj h
    exact hg x
  | error why => cases h

theorem makes_of_textAt {s : String} {i : Int} (h : textAt s i = .ok v) : Makes args v := by
  unfold textAt at h
  split_ifs at h
  · cases h
  · split at h
    · obtain rfl := Except.ok.inj h
      exact .letter _
    · cases h

theorem apply_eq_ok {p : Primitive} (h : p.apply room args = .ok v) :
    Makes args v ∨ (∃ a, args = [a] ∧ (first a = .ok v ∨ rest a = .ok v)) ∨
      ∃ a b, args = [a, b] ∧ v = join a b := by
  induction p, args using arity_induction with
  | refused p args hp =>
    rw [apply_of_not_accepts room hp] at h
    cases h
  | fold op a b more =>
    obtain ⟨i, -, h⟩ := bind_eq_ok_iff.mp h
    obtain ⟨is, -, h⟩ := bind_eq_ok_iff.mp h
    obtain ⟨j, -, h⟩ := bind_eq_ok_iff.mp h
    obtain rfl := Except.ok.inj h
    exact .inl (.int j)
  | unary p a hp =>
    cases p with
    | car => exact .inr (.inl ⟨a, rfl, .inl h⟩)
    | cdr => exact .inr (.inl ⟨a, rfl, .inr h⟩)
    | isSymbol | isText | isNumber | isTruth | isList =>
      obtain rfl := Except.ok.inj h
      exact .inl (.bool _)
    | textLength =>
      cases a <;> cases h
      exact .inl (.int _)
    | symbolToText =>
      cases a with
      | symbol name =>
        obtain rfl := Except.ok.inj h
        exact .inl (.text List.mem_cons_self)
      | _ =>
        obtain rfl := Except.ok.inj h
        exact .inl .noText
    | textToSymbol =>
      cases a with
      | string s =>
        obtain rfl := Except.ok.inj h
        exact .inl (.name List.mem_cons_self)
      | _ =>
        obtain rfl := Except.ok.inj h
        exact .inl .noName
    | _ => cases hp
  | binary p a b hp =>
    cases p with
    | cons => exact .inr (.inr ⟨a, b, rfl, (Except.ok.inj h).symm⟩)
    | compareIntegers | compareTexts | conj | disj | strict | weak =>
      exact .inl (makes_of_map h fun _ => .bool _)
    | textItem =>
      cases a with
      | string s =>
        cases b with
        | int i => exact .inl (makes_of_textAt h)
        | _ => cases h
      | _ => cases h
    | _ => cases hp

structure HeldByMade (Q : Datum → Prop) : Prop where
  int : ∀ n, Q (.int n)
  bool : ∀ b, Q (.bool b)
  letter : ∀ c, Q (.string (String.ofList [c]))
  noText : Q (.string "")
  name_iff : ∀ s, Q (.symbol s) ↔ Q (.string s)

theorem Makes.throughout (hQ : HeldByMade Q) (h : Makes args v)
    (hargs : ∀ a ∈ args, a.Throughout Q) : v.Throughout Q := by
  cases h with
  | int n => exact hQ.int n
  | bool b => exact hQ.bool b
  | letter c => exact hQ.letter c
  | noText => exact hQ.noText
  | noName => exact (hQ.name_iff "").mpr hQ.noText
  | text hname => exact (hQ.name_iff _).mp (hargs _ hname)
  | name htext => exact (hQ.name_iff _).mpr (hargs _ htext)

theorem first_throughout (h : first a = .ok v) (ha : a.Throughout Q) : v.Throughout Q := by
  unfold first at h
  split at h
  · obtain rfl := Except.ok.inj h
    exact ha.1
  · obtain rfl := Except.ok.inj h
    exact ha.1.1
  · cases h

theorem rest_throughout (h : rest a = .ok v) (ha : a.Throughout Q) : v.Throughout Q := by
  unfold rest at h
  split at h
  · obtain rfl := Except.ok.inj h
    exact ha.2
  · obtain rfl := Except.ok.inj h
    exact ha.2
  · obtain rfl := Except.ok.inj h
    exact ⟨ha.1.2, ha.2⟩
  · cases h

theorem join_throughout (ha : a.Throughout Q) (hb : b.Throughout Q) : (join a b).Throughout Q := by
  cases b with
  | list items => exact ⟨ha, hb⟩
  | dotted head tail => exact ⟨⟨ha, hb.1⟩, hb.2⟩
  | _ => exact ⟨⟨ha, trivial⟩, hb⟩

theorem apply_throughout (hQ : HeldByMade Q) {p : Primitive} (h : p.apply room args = .ok v)
    (hargs : ∀ a ∈ args, a.Throughout Q) : v.Throughout Q := by
  rcases apply_eq_ok h with hmade | ⟨a, rfl, hpart⟩ | ⟨a, b, rfl, rfl⟩
  · exact hmade.throughout hQ hargs
  · have ha : a.Throughout Q := hargs a (by simp)
    exact hpart.elim (first_throughout · ha) (rest_throughout · ha)
  · have ha : a.Throughout Q := hargs a (by simp)
    have hb : b.Throughout Q := hargs b (by simp)
    exact join_throughout ha hb

theorem applyNamed_eq {name : String} {p : Primitive} (h : ofName? name = some p) (room : Room)
    (args : List Datum) : applyNamed room name args = p.apply room args := by
  simp only [applyNamed, h]

theorem exists_of_applyNamed {name : String} (h : applyNamed room name args = .ok v) :
    ∃ p, ofName? name = some p ∧ p.apply room args = .ok v := by
  unfold applyNamed at h
  split at h
  · exact ⟨_, ‹_›, h⟩
  · cases h

end
end Primitive

namespace Datum

section
variable {room : Room} {d v : Datum} {ds values : List Datum} {Q : Datum → Prop}

theorem forall₂_of_eval {R : Datum → Datum → Prop}
    (h : List.Forall₂ (fun d v => d.eval room = .ok v) ds values)
    (hR : ∀ d ∈ ds, ∀ v, d.eval room = .ok v → R d v) : List.Forall₂ R ds values := by
  obtain ⟨hlength, hzip⟩ := List.forall₂_iff_zip.mp h
  refine List.forall₂_iff_zip.mpr ⟨hlength, fun hxv => ?_⟩
  have hmem := (List.of_mem_zip hxv).1
  exact hR _ hmem _ (hzip hxv)

/-- A relation between data and their parts, and between applications and what primitives give, holds
between forms and their values. -/
theorem eval_related {R : Datum → Datum → Prop} (self : ∀ d, R d d)
    (part : ∀ items d v, d ∈ items → R d v → R (.list items) v)
    (application : ∀ room name operands values v, List.Forall₂ R operands values →
      Primitive.applyNamed room name values = .ok v → R (.list (.symbol name :: operands)) v)
    (h : d.eval room = .ok v) : R d v := by
  -- A clause that is chosen is a part of the form, and the value comes from its last part.
  induction d using form_induction
    (Q := fun clauses => ∀ (room : Room) v, evalClauses room clauses = .ok v →
      ∃ clause ∈ clauses, R clause v)
    generalizing room v with
  | string | int | bool =>
    obtain rfl := Except.ok.inj h
    exact self _
  | quote d =>
    obtain rfl := Except.ok.inj h
    exact part _ d d (by simp) (self d)
  | branch test yes no _ ihyes ihno =>
    rw [eval_branch] at h
    obtain ⟨inner, -, h⟩ := bind_eq_ok_iff.mp h
    obtain ⟨value, -, h⟩ := bind_eq_ok_iff.mp h
    split at h
    · exact part _ yes v (by simp) (ihyes h)
    · exact part _ no v (by simp) (ihno h)
    · cases h
  | cond clauses ih =>
    rw [eval_cond] at h
    obtain ⟨inner, -, h⟩ := bind_eq_ok_iff.mp h
    obtain ⟨clause, hclause, hR⟩ := ih inner v h
    exact part _ clause v (List.mem_cons_of_mem _ hclause) hR
  | application name operands happ ih =>
    rw [eval_of_isApplication room happ] at h
    obtain ⟨inner, -, h⟩ := bind_eq_ok_iff.mp h
    obtain ⟨values, hvalues, h⟩ := bind_eq_ok_iff.mp h
    have hall : List.Forall₂ R operands values :=
      forall₂_of_eval (evalAll_eq_ok_iff.mp hvalues) fun d hd v hv => ih d hd hv
    exact application inner name operands values v hall h
  | noForm d hd =>
    rw [eval_of_isNoForm room hd] at h
    cases h
  | noClause room v h => cases h
  | clause test body clauses _ ihbody ih room v h =>
    have hbody : R body v → ∃ clause ∈ .list [test, body] :: clauses, R clause v := fun hR =>
      ⟨_, List.mem_cons_self, part _ body v (by simp) hR⟩
    rw [evalClauses] at h
    split_ifs at h
    · exact hbody (ihbody h)
    · obtain ⟨value, -, h⟩ := bind_eq_ok_iff.mp h
      split at h
      · exact hbody (ihbody h)
      · obtain ⟨clause, hclause, hR⟩ := ih room v h
        exact ⟨clause, List.mem_cons_of_mem _ hclause, hR⟩
      · cases h
  | listClause items clauses hitems room v h =>
    rw [evalClauses_list room hitems] at h
    cases h
  | otherClause d clauses hd room v h =>
    rw [evalClauses_other room hd] at h
    cases h

theorem allThroughout_of_forall₂
    (h : List.Forall₂ (fun d v => d.Throughout Q → v.Throughout Q) ds values)
    (hds : AllThroughout Q ds) : AllThroughout Q values := by
  induction h with
  | nil => trivial
  | cons hd _ ih => exact ⟨hd hds.1, ih hds.2⟩

/-- What holds throughout a form and of all that primitives make holds throughout its value. -/
theorem eval_throughout (hQ : Primitive.HeldByMade Q) (h : d.eval room = .ok v)
    (hd : d.Throughout Q) : v.Throughout Q := by
  refine eval_related (R := fun d v => d.Throughout Q → v.Throughout Q) (fun _ hd => hd)
    (fun items d v hmem hR hitems => ?_)
    (fun room name operands values v hall happly hform => ?_) h hd
  · exact hR (allThroughout_iff.mp hitems d hmem)
  · obtain ⟨p, -, happly⟩ := Primitive.exists_of_applyNamed happly
    have hvalues : AllThroughout Q values := allThroughout_of_forall₂ hall hform.2
    exact Primitive.apply_throughout hQ happly (allThroughout_iff.mp hvalues)

end
end Datum
end Lisplet
