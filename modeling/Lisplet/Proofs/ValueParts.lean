import Lisplet.Proofs.EvaluationRules

/-! Where the parts of a value come from. Of numbers primitives make only integers, and they make
neither characters nor vectors, so such parts of a value are parts of its form. Dotted lists are
joined and taken apart in such a way that those of a value are as normal as those of its form. -/
namespace Lisplet
namespace Datum

/-- The first datum is the second one or occurs in one of its members. -/
inductive OccursIn (x : Datum) : Datum → Prop
  | self : OccursIn x x
  | list {items : List Datum} {d : Datum} : d ∈ items → OccursIn x d → OccursIn x (.list items)
  | vector {items : List Datum} {d : Datum} : d ∈ items → OccursIn x d → OccursIn x (.vector items)
  | head {head : List Datum} {tail d : Datum} :
      d ∈ head → OccursIn x d → OccursIn x (.dotted head tail)
  | tail {head : List Datum} {tail : Datum} : OccursIn x tail → OccursIn x (.dotted head tail)

def IsOnlyRead : Datum → Prop
  | .float _ | .ratio _ | .complex .. | .char _ | .vector _ | .foreign => True
  | _ => False

def IsNoPair : Datum → Prop
  | .list _ | .dotted .. => False
  | _ => True

/-- Each dotted list in the datum has items before its point, and behind it neither a list nor a
dotted list. -/
def IsNormal (d : Datum) : Prop :=
  ∀ head tail, (dotted head tail).OccursIn d → head ≠ [] ∧ tail.IsNoPair

section
variable {x d : Datum} {items head : List Datum} {tail : Datum}

theorem occursIn_list_iff :
    x.OccursIn (.list items) ↔ x = .list items ∨ ∃ d ∈ items, x.OccursIn d := by
  constructor
  · intro h
    cases h with
    | self => exact .inl rfl
    | list hd hx => exact .inr ⟨_, hd, hx⟩
  · rintro (rfl | ⟨d, hd, hx⟩)
    · exact .self
    · exact .list hd hx

theorem occursIn_vector_iff :
    x.OccursIn (.vector items) ↔ x = .vector items ∨ ∃ d ∈ items, x.OccursIn d := by
  constructor
  · intro h
    cases h with
    | self => exact .inl rfl
    | vector hd hx => exact .inr ⟨_, hd, hx⟩
  · rintro (rfl | ⟨d, hd, hx⟩)
    · exact .self
    · exact .vector hd hx

theorem occursIn_dotted_iff : x.OccursIn (.dotted head tail) ↔
    x = .dotted head tail ∨ (∃ d ∈ head, x.OccursIn d) ∨ x.OccursIn tail := by
  constructor
  · intro h
    cases h with
    | self => exact .inl rfl
    | head hd hx => exact .inr (.inl ⟨_, hd, hx⟩)
    | tail hx => exact .inr (.inr hx)
  · rintro (rfl | ⟨d, hd, hx⟩ | hx)
    · exact .self
    · exact .head hd hx
    · exact .tail hx

theorem isNormal_of_single (h : ∀ x : Datum, x.OccursIn d → x = d) (hd : d.IsNoPair) :
    d.IsNormal := by
  intro head tail hx
  rw [← h _ hx] at hd
  exact hd.elim

theorem isNormal_list_iff : (list items).IsNormal ↔ ∀ d ∈ items, d.IsNormal := by
  constructor
  · exact fun h d hd head tail hx => h head tail (.list hd hx)
  · intro h head tail hx
    obtain ⟨d, hd, hx⟩ := (occursIn_list_iff.mp hx).resolve_left (by simp)
    exact h d hd head tail hx

theorem isNormal_vector_iff : (vector items).IsNormal ↔ ∀ d ∈ items, d.IsNormal := by
  constructor
  · exact fun h d hd head tail hx => h head tail (.vector hd hx)
  · intro h head tail hx
    obtain ⟨d, hd, hx⟩ := (occursIn_vector_iff.mp hx).resolve_left (by simp)
    exact h d hd head tail hx

theorem isNormal_dotted_iff : (dotted head tail).IsNormal ↔
    (head ≠ [] ∧ tail.IsNoPair) ∧ (∀ d ∈ head, d.IsNormal) ∧ tail.IsNormal := by
  constructor
  · intro h
    exact ⟨h head tail .self, fun d hd head' tail' hx => h head' tail' (.head hd hx),
      fun head' tail' hx => h head' tail' (.tail hx)⟩
  · rintro ⟨hself, hhead, htail⟩ head' tail' hx
    rcases occursIn_dotted_iff.mp hx with heq | ⟨d, hd, hx⟩ | hx
    · obtain ⟨rfl, rfl⟩ := Datum.dotted.inj heq
      exact hself
    · exact hhead d hd head' tail' hx
    · exact htail head' tail' hx

end
end Datum

namespace Primitive
open Datum

section
variable {room : Room} {x a b v : Datum} {args : List Datum}

theorem Makes.occursIn_eq (h : Makes args v) (hx : x.OccursIn v) : x = v := by
  cases h <;> cases hx <;> rfl

theorem first_occursIn (h : first a = .ok v) (hx : x.OccursIn v) : x.OccursIn a := by
  unfold first at h
  split at h
  · obtain rfl := Except.ok.inj h
    exact .list List.mem_cons_self hx
  · obtain rfl := Except.ok.inj h
    exact .head List.mem_cons_self hx
  · cases h

theorem rest_occursIn (h : rest a = .ok v) (hx : x.OccursIn v) (hread : x.IsOnlyRead) :
    x.OccursIn a := by
  unfold rest at h
  split at h
  · obtain rfl := Except.ok.inj h
    rcases occursIn_list_iff.mp hx with rfl | ⟨d, hd, hx⟩
    · exact hread.elim
    · exact .list (List.mem_cons_of_mem _ hd) hx
  · obtain rfl := Except.ok.inj h
    exact .tail hx
  · obtain rfl := Except.ok.inj h
    rcases occursIn_dotted_iff.mp hx with rfl | ⟨d, hd, hx⟩ | hx
    · exact hread.elim
    · exact .head (List.mem_cons_of_mem _ hd) hx
    · exact .tail hx
  · cases h

theorem join_occursIn (h : x.OccursIn (join a b)) (hread : x.IsOnlyRead) :
    x.OccursIn a ∨ x.OccursIn b := by
  cases b with
  | list items =>
    rcases occursIn_list_iff.mp h with rfl | ⟨d, hd, hx⟩
    · exact hread.elim
    · rcases List.mem_cons.mp hd with rfl | hd
      · exact .inl hx
      · exact .inr (.list hd hx)
  | dotted head tail =>
    rcases occursIn_dotted_iff.mp h with rfl | ⟨d, hd, hx⟩ | hx
    · exact hread.elim
    · rcases List.mem_cons.mp hd with rfl | hd
      · exact .inl hx
      · exact .inr (.head hd hx)
    · exact .inr (.tail hx)
  | _ =>
    rcases occursIn_dotted_iff.mp h with rfl | ⟨d, hd, hx⟩ | hx
    · exact hread.elim
    · obtain rfl := List.mem_singleton.mp hd
      exact .inl hx
    · exact .inr hx

theorem apply_occursIn {p : Primitive} (h : p.apply room args = .ok v) (hx : x.OccursIn v)
    (hread : x.IsOnlyRead) : ∃ a ∈ args, x.OccursIn a := by
  rcases apply_eq_ok h with hmade | ⟨a, rfl, hpart⟩ | ⟨a, b, rfl, rfl⟩
  · obtain rfl := hmade.occursIn_eq hx
    cases hmade <;> exact hread.elim
  · refine ⟨a, List.mem_singleton_self a, ?_⟩
    exact hpart.elim (first_occursIn · hx) (rest_occursIn · hx hread)
  · rcases join_occursIn hx hread with hx | hx
    · exact ⟨a, by simp, hx⟩
    · exact ⟨b, by simp, hx⟩

theorem first_normal (h : first a = .ok v) (ha : a.IsNormal) : v.IsNormal :=
  fun head tail hx => ha head tail (first_occursIn h hx)

theorem rest_normal (h : rest a = .ok v) (ha : a.IsNormal) : v.IsNormal := by
  unfold rest at h
  split at h
  · obtain rfl := Except.ok.inj h
    exact isNormal_list_iff.mpr (List.forall_mem_cons.mp (isNormal_list_iff.mp ha)).2
  · obtain rfl := Except.ok.inj h
    exact (isNormal_dotted_iff.mp ha).2.2
  · next hlast =>
    -- There is another item, for a dotted list of one item is taken apart before.
    obtain rfl := Except.ok.inj h
    obtain ⟨⟨-, hend⟩, hhead, htail⟩ := isNormal_dotted_iff.mp ha
    exact isNormal_dotted_iff.mpr ⟨⟨hlast, hend⟩, (List.forall_mem_cons.mp hhead).2, htail⟩
  · cases h

theorem join_normal (ha : a.IsNormal) (hb : b.IsNormal) : (join a b).IsNormal := by
  cases b with
  | list items =>
    exact isNormal_list_iff.mpr (List.forall_mem_cons.mpr ⟨ha, isNormal_list_iff.mp hb⟩)
  | dotted head tail =>
    obtain ⟨⟨-, hend⟩, hhead, htail⟩ := isNormal_dotted_iff.mp hb
    exact isNormal_dotted_iff.mpr
      ⟨⟨List.cons_ne_nil a head, hend⟩, List.forall_mem_cons.mpr ⟨ha, hhead⟩, htail⟩
  | _ =>
    exact isNormal_dotted_iff.mpr ⟨⟨List.cons_ne_nil a [], trivial⟩, by simpa using ha, hb⟩

theorem apply_normal {p : Primitive} (h : p.apply room args = .ok v)
    (hargs : ∀ a ∈ args, a.IsNormal) : v.IsNormal := by
  rcases apply_eq_ok h with hmade | ⟨a, rfl, hpart⟩ | ⟨a, b, rfl, rfl⟩
  · exact isNormal_of_single (fun _ => hmade.occursIn_eq) (by cases hmade <;> trivial)
  · have ha : a.IsNormal := hargs a (by simp)
    exact hpart.elim (first_normal · ha) (rest_normal · ha)
  · have ha : a.IsNormal := hargs a (by simp)
    have hb : b.IsNormal := hargs b (by simp)
    exact join_normal ha hb

end
end Primitive

namespace Datum

section
variable {room : Room} {d v x : Datum} {ds values : List Datum}

theorem exists_left_of_forall₂ {R : Datum → Datum → Prop} (h : List.Forall₂ R ds values)
    (hv : v ∈ values) : ∃ d ∈ ds, R d v := by
  induction h with
  | nil => cases hv
  | cons hd _ ih =>
    rcases List.mem_cons.mp hv with rfl | hv
    · exact ⟨_, List.mem_cons_self, hd⟩
    · obtain ⟨d, hmem, hR⟩ := ih hv
      exact ⟨d, List.mem_cons_of_mem _ hmem, hR⟩

theorem eval_occursIn (h : d.eval room = .ok v) (hread : x.IsOnlyRead) (hx : x.OccursIn v) :
    x.OccursIn d := by
  refine eval_related (R := fun d v => x.OccursIn v → x.OccursIn d) (fun _ hx => hx)
    (fun items d v hmem hR hx => .list hmem (hR hx))
    (fun room name operands values v hall happly hx => ?_) h hx
  obtain ⟨p, -, happly⟩ := Primitive.exists_of_applyNamed happly
  obtain ⟨value, hvalue, hx⟩ := Primitive.apply_occursIn happly hx hread
  obtain ⟨operand, hoperand, hR⟩ := exists_left_of_forall₂ hall hvalue
  exact .list (List.mem_cons_of_mem _ hoperand) (hR hx)

theorem eval_normal (h : d.eval room = .ok v) (hd : d.IsNormal) : v.IsNormal := by
  refine eval_related (R := fun d v => d.IsNormal → v.IsNormal) (fun _ hd => hd)
    (fun items d v hmem hR hitems => hR (isNormal_list_iff.mp hitems d hmem))
    (fun room name operands values v hall happly hform => ?_) h hd
  obtain ⟨p, -, happly⟩ := Primitive.exists_of_applyNamed happly
  refine Primitive.apply_normal happly fun value hvalue => ?_
  obtain ⟨operand, hoperand, hR⟩ := exists_left_of_forall₂ hall hvalue
  exact hR (isNormal_list_iff.mp hform operand (List.mem_cons_of_mem _ hoperand))

/-- Floating-point numbers, ratios, complex numbers, characters, vectors and data of a host that
occur in the value of a form occur in the form, and the value of a normal form is normal. -/
theorem evaluate_creates_nothing_abnormal (h : d.evaluate room = .ok v) :
    (∀ x : Datum, x.IsOnlyRead → x.OccursIn v → x.OccursIn d) ∧ (d.IsNormal → v.IsNormal) := by
  have heval := evaluate_eq_ok_iff.mp h
  exact ⟨fun x hread hx => eval_occursIn heval hread hx, eval_normal heval⟩

/-- `(cons (car '(#\a . 1)) (cdr '(2 #(#\b) . 3)))`: the vector in the value is that of the form. -/
theorem evaluate_creates_nothing_abnormal_vector :
    (list [.symbol "cons",
      list [.symbol "car", list [.symbol "quote", dotted [.char 'a'] (.int 1)]],
      list [.symbol "cdr", list [.symbol "quote",
        dotted [.int 2, .vector [.char 'b']] (.int 3)]]]).evaluate .standard =
          .ok (dotted [.char 'a', .vector [.char 'b']] (.int 3)) ∧
      (dotted [.char 'a', .vector [.char 'b']] (.int 3)).IsNormal := by
  have hvalue : (list [.symbol "cons",
      list [.symbol "car", list [.symbol "quote", dotted [.char 'a'] (.int 1)]],
      list [.symbol "cdr", list [.symbol "quote",
        dotted [.int 2, .vector [.char 'b']] (.int 3)]]]).evaluate .standard =
          .ok (dotted [.char 'a', .vector [.char 'b']] (.int 3)) := rfl
  have hsymbol (name : String) : (Datum.symbol name).IsNormal :=
    isNormal_of_single (fun x hx => by cases hx; rfl) trivial
  have hint (n : Int) : (Datum.int n).IsNormal :=
    isNormal_of_single (fun x hx => by cases hx; rfl) trivial
  have hchar (c : Char) : (Datum.char c).IsNormal :=
    isNormal_of_single (fun x hx => by cases hx; rfl) trivial
  refine ⟨hvalue, (evaluate_creates_nothing_abnormal hvalue).2 ?_⟩
  simp [isNormal_list_iff, isNormal_dotted_iff, isNormal_vector_iff, IsNoPair, hsymbol, hint, hchar]

end
end Datum
end Lisplet
