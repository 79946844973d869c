import Lisplet.Report
import Lisplet.Proofs.Demand

/-! Arithmetic sees data only as integers, and weak equality tells data that count as integers apart
exactly by these. So arguments that are weakly equal can stand for each other: either both lists of
them have the same result, or both are at fault in the same way. -/
namespace Lisplet

inductive SameClass {α : Type} : Outcome α → Outcome α → Prop
  | ok (a : α) : SameClass (.ok a) (.ok a)
  | fault {f g : Fault} : f.report.className = g.report.className → SameClass f.raise g.raise

namespace SameClass

variable {α β γ : Type} {o o' : Outcome α} {f f' : α → Outcome β}

theorem bind (h : SameClass o o') (hf : ∀ a, SameClass (f a) (f' a)) :
    SameClass (o >>= f) (o' >>= f') := by
  cases h with
  | ok a => exact hf a
  | fault hclass => exact .fault hclass

theorem map (h : SameClass o o') (g : α → β) : SameClass (o.map g) (o'.map g) := by
  cases h with
  | ok a => exact .ok (g a)
  | fault hclass => exact .fault hclass

theorem mapM {g : γ → Outcome α} {l l' : List γ}
    (h : List.Forall₂ (fun c c' => SameClass (g c) (g c')) l l') :
    SameClass (l.mapM g) (l'.mapM g) := by
  induction h with
  | nil => exact .ok []
  | cons hc _ ih =>
    rw [List.mapM_cons, List.mapM_cons]
    exact bind hc fun _ => bind ih fun _ => .ok _

theorem foldlM {g : α → γ → Outcome α} (h : ∀ a c, SameClass (g a c) (g a c)) (l : List γ)
    (a : α) : SameClass (l.foldlM g a) (l.foldlM g a) := by
  induction l generalizing a with
  | nil => exact .ok a
  | cons c l ih =>
    rw [List.foldlM_cons]
    exact bind (h a c) fun b => ih b

end SameClass

namespace Datum

variable {room : Room} {a b d : Datum}

/-- A comparable datum that is not nested too deep to be compared in the room. -/
structure ComparableIn (room : Room) (d : Datum) : Prop where
  throughout : d.Throughout IsComparable
  admits : room.admits d.comparisonDepth = true

namespace ComparableIn

theorem toInteger_iff (h : d.ComparableIn room) (n : Int) :
    d.toInteger room = .ok n ↔ d.canonical = .int n :=
  (toInteger_spec h.throughout h.admits).2 n

theorem equal_iff (ha : a.ComparableIn room) (hb : b.ComparableIn room) :
    Primitive.applyNamed room "equal?" [a, b] = .ok (.bool true) ↔ a.canonical = b.canonical :=
  (weaklyEqual_decides ha.throughout hb.throughout ha.admits hb.admits).map_bool_iff

end ComparableIn

theorem className_of_toInteger {f : Fault} (h : d.toInteger room = .error (.fault f)) :
    f.report.className = "SchemeTypeError" := by
  have htakes := Demand.takes_toInteger room d
  rw [h] at htakes
  cases htakes with
  | refused => rfl
  | digitLimit _ hwhy => cases hwhy

/-- Data with one canonical form count as the same integer or are both no numbers. -/
theorem toInteger_sameClass (ha : a.ComparableIn room) (hb : b.ComparableIn room)
    (h : a.canonical = b.canonical) : SameClass (a.toInteger room) (b.toInteger room) := by
  obtain ⟨hoka, hinta⟩ := toInteger_spec ha.throughout ha.admits
  obtain ⟨hokb, hintb⟩ := toInteger_spec hb.throughout hb.admits
  rcases hoka with ⟨n, hn⟩ | ⟨f, hf⟩
  · have hb' : b.toInteger room = .ok n := (hintb n).mpr (h ▸ (hinta n).mp hn)
    rw [hn, hb']
    exact .ok n
  · rcases hokb with ⟨n, hn⟩ | ⟨g, hg⟩
    · have ha' : a.toInteger room = .ok n := (hinta n).mpr (h.trans ((hintb n).mp hn))
      rw [hf] at ha'
      cases ha'
    · have hclass : f.report.className = g.report.className :=
        (className_of_toInteger hf).trans (className_of_toInteger hg).symm
      rw [hf, hg]
      exact .fault hclass

end Datum

namespace Primitive

def isNumeric : Primitive → Bool
  | .fold _ | .compareIntegers _ => true
  | _ => false

def numericNames : List String :=
  ["+", "-", "*", "/", "mod", "quotient", "remainder", "=", "<", ">", "/=", ">=", "<="]

theorem exists_numeric {name : String} (h : name ∈ numericNames) :
    ∃ p, ofName? name = some p ∧ p.isNumeric = true := by
  have hnames : ∀ name ∈ numericNames, (ofName? name).any isNumeric = true := by decide
  exact (Option.any_eq_true isNumeric (ofName? name)).mp (hnames name h)

variable {room : Room} {args args' : List Datum}

theorem arithmetic_sameClass (op : Arithmetic) (i j : Int) :
    SameClass (op.apply i j) (op.apply i j) := by
  cases op with
  | add | sub | mul => exact .ok _
  | divDown | modDown | divToZero | modToZero =>
    rw [Arithmetic.apply]
    split_ifs
    · exact .fault rfl
    · exact .ok _

theorem apply_sameClass {p : Primitive} (hp : p.isNumeric = true)
    (h : List.Forall₂ (fun a a' => SameClass (a.toInteger room) (a'.toInteger room)) args args') :
    SameClass (p.apply room args) (p.apply room args') := by
  cases haccepts : p.arity.accepts args.length with
  | false =>
    have hother : p.arity.accepts args'.length = false := h.length_eq ▸ haccepts
    rw [apply_of_not_accepts room haccepts, apply_of_not_accepts room hother]
    exact .fault rfl
  | true =>
    cases p with
    | fold op =>
      obtain _ | ⟨ha, _ | ⟨hb, hmore⟩⟩ := h
      · cases haccepts
      · cases haccepts
      · refine .bind ha fun n => .bind (.mapM (.cons hb hmore)) fun ns => .bind ?_ fun _ => .ok _
        exact .foldlM (arithmetic_sameClass op) ns n
    | compareIntegers r =>
      obtain _ | ⟨ha, _ | ⟨hb, _ | ⟨hc, hmore⟩⟩⟩ := h
      · cases haccepts
      · cases haccepts
      · exact .map (.bind ha fun _ => .bind hb fun _ => .ok _) _
      · cases haccepts
    | _ => cases hp

theorem applyNamed_sameClass {name : String} (hname : name ∈ numericNames)
    (h : List.Forall₂ (fun a a' => SameClass (a.toInteger room) (a'.toInteger room)) args args') :
    SameClass (applyNamed room name args) (applyNamed room name args') := by
  obtain ⟨p, hp, hnumeric⟩ := exists_numeric hname
  rw [applyNamed_eq hp, applyNamed_eq hp]
  exact apply_sameClass hnumeric h

end Primitive

open Primitive Datum in
/-- Among comparable data, what is weakly equal to a datum that counts as an integer counts as the
same one, and two that count as integers are weakly equal exactly where these are the same, that is
where `=` holds. Therefore arithmetic on arguments that are weakly equal one by one has the same
value, or is at fault with reports of one class. -/
theorem arithmetic_respects_equality (room : Room) :
    (∀ a b, ComparableIn room a → ComparableIn room b →
      (∀ n, a.toInteger room = .ok n → applyNamed room "equal?" [a, b] = .ok (.bool true) →
        b.toInteger room = .ok n) ∧
      ∀ m n, a.toInteger room = .ok m → b.toInteger room = .ok n →
        (applyNamed room "equal?" [a, b] = .ok (.bool true) ↔ m = n) ∧
        (applyNamed room "equal?" [a, b] = .ok (.bool true) ↔
          applyNamed room "=" [a, b] = .ok (.bool true))) ∧
    ∀ name ∈ numericNames, ∀ args args', (∀ d ∈ args ++ args', ComparableIn room d) →
      List.Forall₂ (fun a a' => applyNamed room "equal?" [a, a'] = .ok (.bool true)) args args' →
      SameClass (applyNamed room name args) (applyNamed room name args') := by
  refine ⟨fun a b ha hb => ⟨fun n hn hequal => ?_, fun m n hm hn => ?_⟩,
    fun name hname args args' hall hequal => applyNamed_sameClass hname ?_⟩
  · have hsame := (ha.equal_iff hb).mp hequal
    exact (hb.toInteger_iff n).mpr (hsame ▸ (ha.toInteger_iff n).mp hn)
  · have hequal : applyNamed room "equal?" [a, b] = .ok (.bool true) ↔ m = n := by
      rw [ha.equal_iff hb, (ha.toInteger_iff m).mp hm, (hb.toInteger_iff n).mp hn,
        Datum.int.injEq]
    refine ⟨hequal, hequal.trans ?_⟩
    rw [applyNamed_integers_equal hm hn, Except.ok.injEq, Datum.bool.injEq, decide_eq_true_iff]
  · obtain ⟨hargs, hargs'⟩ := List.forall_mem_append.mp hall
    obtain ⟨hlength, hzip⟩ := List.forall₂_iff_zip.mp hequal
    refine List.forall₂_iff_zip.mpr ⟨hlength, fun {a a'} hmem => ?_⟩
    obtain ⟨ha, ha'⟩ := List.of_mem_zip hmem
    have hsame := ((hargs a ha).equal_iff (hargs' a' ha')).mp (hzip hmem)
    exact toInteger_sameClass (hargs a ha) (hargs' a' ha') hsame

open Primitive Datum in
/-- A list of one integer, and that of a text, stand for a text and an integer in a sum. -/
theorem arithmetic_respects_equality_sum :
    toInteger .standard (.string " 3x") = .ok 3 ∧
      SameClass (applyNamed .standard "+" [.list [.int 3], .int 4])
        (applyNamed .standard "+" [.string " 3x", .list [.string "4."]]) := by
  have hint (n : Nat) (hn : (Nat.toDigits 10 n).length ≤ digitLimit) :
      (Datum.int n).Throughout IsComparable := hn
  have htext (s : String) (hs : s.toList.length ≤ digitLimit) :
      (Datum.string s).Throughout IsComparable := shortRuns_of_length hs
  have hlist : ComparableIn .standard (.list [.int 3]) := ⟨⟨hint 3 (by decide), trivial⟩, rfl⟩
  have hthree : ComparableIn .standard (.string " 3x") := ⟨htext _ (by decide), rfl⟩
  have hfour : ComparableIn .standard (.int 4) := ⟨hint 4 (by decide), rfl⟩
  have hlist' : ComparableIn .standard (.list [.string "4."]) :=
    ⟨⟨htext _ (by decide), trivial⟩, rfl⟩
  obtain ⟨hnumber, hsum⟩ := arithmetic_respects_equality .standard
  refine ⟨(hnumber _ _ hlist hthree).1 3 rfl rfl, hsum "+" (by decide) _ _ ?_ ?_⟩
  · simp [hlist, hthree, hfour, hlist']
  · exact .cons rfl (.cons rfl .nil)

end Lisplet
