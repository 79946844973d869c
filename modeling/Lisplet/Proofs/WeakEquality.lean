import Lisplet.Proofs.LeadingNumeral
import Lisplet.Proofs.StrictEquality

/-! Weak equality through a canonical form. A coercion takes two data to the same thing exactly when
their canonical forms are the same integer or the same text, so weak equality is an equivalence
although it is a union of coercions. -/
namespace Lisplet
namespace Datum

/-- A list of one integer counts as that integer. -/
def collapse : List Datum → Datum
  | [.int n] => .int n
  | items => .list items

mutual

/-- Texts that count as an integer become the integer, truth values become their texts, and a list
of one item that becomes an integer becomes it too. Vectors are left as they are. -/
def canonical : Datum → Datum
  | .string s =>
    match integerOfText s with
    | .ok n => .int n
    | .error _ => .string s
  | .bool b => .string (if b then "True" else "False")
  | .list items => collapse (canonicalAll items)
  | .dotted head tail => .dotted (canonicalAll head) (canonical tail)
  | d => d

def canonicalAll : List Datum → List Datum
  | [] => []
  | d :: ds => canonical d :: canonicalAll ds

end

/-- Data that the coercions take or find at fault: exact ones without numerals that are too long. -/
def IsComparable : Datum → Prop
  | .int n => (Nat.toDigits 10 n.natAbs).length ≤ digitLimit
  | .string s => ShortRuns s
  | .float _ | .complex .. | .foreign => False
  | _ => True

theorem IsComparable.isExact {d : Datum} (h : d.IsComparable) : d.IsExact := by
  cases d with
  | float | complex | foreign => exact h
  | _ => trivial

section
variable {room : Room} {a b : Datum} {xs ys : List Datum} {n : Int}

theorem collapse_eq_list (h : ∀ n, xs ≠ [.int n]) : collapse xs = .list xs := by
  unfold collapse
  split
  · exact absurd rfl (h _)
  · rfl

theorem collapse_eq_int_iff : collapse xs = .int n ↔ xs = [.int n] := by
  constructor
  · intro h
    unfold collapse at h
    split at h
    · rw [Datum.int.inj h]
    · cases h
  · rintro rfl
    rfl

theorem collapse_injective (h : collapse xs = collapse ys) : xs = ys := by
  by_cases hxs : ∃ n, xs = [.int n]
  · obtain ⟨n, rfl⟩ := hxs
    exact (collapse_eq_int_iff.mp h.symm).symm
  · by_cases hys : ∃ n, ys = [.int n]
    · obtain ⟨n, rfl⟩ := hys
      exact collapse_eq_int_iff.mp h
    · rw [not_exists] at hxs hys
      rw [collapse_eq_list hxs, collapse_eq_list hys] at h
      exact Datum.list.inj h

theorem canonicalAll_eq_iff :
    canonicalAll xs = canonicalAll ys ↔
      List.Forall₂ (fun x y => canonical x = canonical y) xs ys := by
  induction xs generalizing ys with
  | nil => cases ys <;> simp [canonicalAll]
  | cons x xs ih => cases ys <;> simp [canonicalAll, ih]

theorem canonical_list (items : List Datum) :
    canonical (.list items) = collapse (canonicalAll items) := by
  rw [canonical]

def OkOrFault {α : Type} (o : Outcome α) : Prop :=
  (∃ x, o = .ok x) ∨ ∃ f, o = .error (.fault f)

theorem agreeUnder_decides {α : Type} [BEq α] [LawfulBEq α] {coerce : Datum → Outcome α}
    (ha : OkOrFault (coerce a)) (hb : OkOrFault (coerce b)) :
    Decides (agreeUnder coerce a b) (∃ x, coerce a = .ok x ∧ coerce b = .ok x) := by
  rcases ha with ⟨x, hx⟩ | ⟨f, hf⟩
  · rcases hb with ⟨y, hy⟩ | ⟨f, hf⟩
    · rw [agreeUnder, hx, hy]
      refine .ok ⟨fun h => ⟨x, rfl, by rw [eq_of_beq h]⟩, ?_⟩
      rintro ⟨z, hxz, hyz⟩
      rw [Except.ok.inj hxz, Except.ok.inj hyz]
      exact beq_self_eq_true z
    · rw [agreeUnder, hx, hf]
      exact .ok (by simp)
  · rw [agreeUnder, hf]
    exact .ok (by simp)

theorem toInteger_singleton {d : Datum} {k : Nat} (hroom : room.admits (unwrapWeight + k) = true) :
    ∃ inner, inner.admits k = true ∧ toInteger room (.list [d]) = toInteger inner d := by
  obtain ⟨inner, henter, hinner⟩ := Room.enter_of_admits hroom
  refine ⟨inner, hinner, ?_⟩
  rw [toInteger, henter]
  rfl

theorem toInteger_spec (ha : a.Throughout IsComparable)
    (hroom : room.admits a.comparisonDepth = true) :
    OkOrFault (toInteger room a) ∧ ∀ n, toInteger room a = .ok n ↔ canonical a = .int n := by
  induction a using induction_on generalizing room with
  | int n => exact ⟨.inl ⟨n, rfl⟩, fun m => by simp [toInteger, canonical]⟩
  | string s =>
    have hs := integerOfText_ok_or_fault ha
    refine ⟨hs, fun n => ?_⟩
    rw [toInteger, canonical]
    rcases hs with ⟨m, hm⟩ | ⟨f, hf⟩
    · simp [hm]
    · simp [hf]
  | list items ih =>
    match items with
    | [] =>
      refine ⟨.inr ⟨_, rfl⟩, fun n => ?_⟩
      rw [canonical_list, collapse_eq_int_iff, canonicalAll]
      simp [toInteger, Fault.raise]
    | [d] =>
      have hd : d.Throughout IsComparable := ha.1
      have hadmits : room.admits (unwrapWeight + d.comparisonDepth) = true := by
        refine Room.admits_mono hroom ?_
        simp only [comparisonDepth, depth, depthAll, unwrapWeight, pairsWeight]
        omega
      obtain ⟨inner, hinner, hunwrap⟩ := toInteger_singleton hadmits
      obtain ⟨hok, hiff⟩ := ih d (by simp) hd hinner
      rw [hunwrap]
      refine ⟨hok, fun n => ?_⟩
      rw [hiff, canonical_list, collapse_eq_int_iff, canonicalAll, canonicalAll]
      simp
    | d :: d' :: rest =>
      refine ⟨.inr ⟨_, rfl⟩, fun n => ?_⟩
      rw [canonical_list, collapse_eq_int_iff, canonicalAll, canonicalAll]
      simp [toInteger, Fault.raise]
  | float | complex | foreign => cases ha
  | _ => exact ⟨.inr ⟨_, rfl⟩, fun n => by simp [toInteger, canonical, Fault.raise]⟩

theorem toText_okOrFault (ha : a.Throughout IsComparable) : OkOrFault (toText a) := by
  cases a with
  | int n =>
    have hn : isWritable n = true := isWritable_iff.mpr ha
    exact .inl ⟨decimal n, toText_int hn⟩
  | string | bool => exact .inl ⟨_, rfl⟩
  | _ => exact .inr ⟨_, rfl⟩

theorem toTruth_okOrFault (a : Datum) : OkOrFault (toTruth a) := by
  cases a with
  | bool => exact .inl ⟨_, rfl⟩
  | _ => exact .inr ⟨_, rfl⟩

theorem canonical_eq_of_toText {cs : List Char} (ha : a.Throughout IsComparable)
    (h : toText a = .ok cs) : canonical a = canonical (.string (String.ofList cs)) := by
  cases a with
  | int n =>
    have hn : isWritable n = true := isWritable_iff.mpr ha
    rw [toText_int hn] at h
    rw [← Except.ok.inj h]
    simp only [canonical, integerOfText_decimal hn]
  | string s =>
    rw [← Except.ok.inj h, String.ofList_toList]
  | bool b =>
    obtain ⟨f, hf⟩ := integerOfText_truth b
    have htext : String.ofList cs = if b then "True" else "False" := by
      rw [← Except.ok.inj h]
      cases b <;> rfl
    rw [htext]
    simp only [canonical, hf]
  | _ => cases h

/-- What a canonical form can be: an integer, a text that the datum has, a list or dotted list that
it is too, or the datum itself. -/
inductive Form (a : Datum) : Datum → Prop
  | int (n : Int) : Form a (.int n)
  | text {s : String} : toText a = .ok s.toList → Form a (.string s)
  | list {items xs : List Datum} : a = .list items → Form a (.list xs)
  | dotted {head xs : List Datum} {tail x : Datum} : a = .dotted head tail → Form a (.dotted xs x)
  | self : Form a a

theorem form_canonical (a : Datum) : Form a (canonical a) := by
  cases a with
  | string s =>
    rw [canonical]
    cases integerOfText s with
    | ok n => exact .int n
    | error why => exact .self
  | bool b =>
    rw [canonical]
    exact .text (by cases b <;> rfl)
  | list items =>
    rw [canonical_list]
    by_cases hitems : ∃ n, canonicalAll items = [.int n]
    · obtain ⟨n, hn⟩ := hitems
      rw [collapse_eq_int_iff.mpr hn]
      exact .int n
    · rw [not_exists] at hitems
      rw [collapse_eq_list hitems]
      exact .list rfl
  | dotted head tail =>
    rw [canonical]
    exact .dotted rfl
  | _ =>
    simp only [canonical]
    exact .self

theorem toText_of_canonical {s : String} (h : canonical a = .string s) :
    toText a = .ok s.toList := by
  have hform := form_canonical a
  rw [h] at hform
  cases hform with
  | text htext => exact htext
  | self => rfl

theorem exists_list_of_canonical (h : canonical a = .list xs) : ∃ items, a = .list items := by
  have hform := form_canonical a
  rw [h] at hform
  cases hform with
  | list ha => exact ⟨_, ha⟩
  | self => exact ⟨xs, rfl⟩

theorem exists_dotted_of_canonical {x : Datum} (h : canonical a = .dotted xs x) :
    ∃ head tail, a = .dotted head tail := by
  have hform := form_canonical a
  rw [h] at hform
  cases hform with
  | dotted ha => exact ⟨_, _, ha⟩
  | self => exact ⟨xs, x, rfl⟩

/-- Data of one canonical form that is neither an integer nor a text nor that of a list or dotted
list are the same. -/
theorem canonical_eq_cases (h : canonical a = canonical b) :
    (∃ n, canonical a = .int n) ∨ (∃ s, canonical a = .string s) ∨
      (∃ xs, canonical a = .list xs) ∨ (∃ xs x, canonical a = .dotted xs x) ∨ a = b := by
  have hforma := form_canonical a
  have hformb := form_canonical b
  rw [← h] at hformb
  generalize canonical a = d at hforma hformb ⊢
  cases hforma with
  | int n => exact .inl ⟨n, rfl⟩
  | text => exact .inr (.inl ⟨_, rfl⟩)
  | list => exact .inr (.inr (.inl ⟨_, rfl⟩))
  | dotted => exact .inr (.inr (.inr (.inl ⟨_, _, rfl⟩)))
  | self =>
    cases hformb with
    | int n => exact .inl ⟨n, rfl⟩
    | text => exact .inr (.inl ⟨_, rfl⟩)
    | list => exact .inr (.inr (.inl ⟨_, rfl⟩))
    | dotted => exact .inr (.inr (.inr (.inl ⟨_, _, rfl⟩)))
    | self => exact .inr (.inr (.inr (.inr rfl)))

theorem eq_bool_of_toTruth {t : Bool} (h : toTruth a = .ok t) : a = .bool t := by
  cases a with
  | bool b => rw [Except.ok.inj h]
  | _ => cases h

def Agree (room : Room) (a b : Datum) : Prop :=
  (∃ n, toInteger room a = .ok n ∧ toInteger room b = .ok n) ∨
    (∃ cs, toText a = .ok cs ∧ toText b = .ok cs) ∨
    (∃ t, toTruth a = .ok t ∧ toTruth b = .ok t) ∨ a = b

theorem weaklyEqualWhole_decides (ha : a.Throughout IsComparable) (hb : b.Throughout IsComparable)
    (haroom : room.admits a.comparisonDepth = true)
    (hbroom : room.admits b.comparisonDepth = true) :
    Decides (weaklyEqualWhole room a b) (Agree room a b) := by
  obtain ⟨hinta, -⟩ := toInteger_spec ha haroom
  obtain ⟨hintb, -⟩ := toInteger_spec hb hbroom
  obtain ⟨x, hx, hint⟩ := agreeUnder_decides hinta hintb
  obtain ⟨y, hy, htext⟩ := agreeUnder_decides (toText_okOrFault ha) (toText_okOrFault hb)
  obtain ⟨z, hz, htruth⟩ := agreeUnder_decides (toTruth_okOrFault a) (toTruth_okOrFault b)
  obtain ⟨w, hw, hstrict⟩ := strictlyEqual_decides (ha.mono fun _ => IsComparable.isExact) b haroom
  rw [Agree, ← hint, ← htext, ← htruth, ← hstrict]
  simp only [weaklyEqualWhole, hx, hy, hz, hw, bind, Except.bind]
  cases x <;> cases y <;> cases z <;> exact .ok (by simp)

/-- Data that are not both lists and not both dotted lists agree when their canonical forms do. -/
theorem agree_iff (ha : a.Throughout IsComparable) (hb : b.Throughout IsComparable)
    (haroom : room.admits a.comparisonDepth = true)
    (hbroom : room.admits b.comparisonDepth = true)
    (hlist : ∀ xs ys, a = .list xs → b = .list ys → False)
    (hdotted : ∀ xs x ys y, a = .dotted xs x → b = .dotted ys y → False) :
    Agree room a b ↔ canonical a = canonical b := by
  have hinta := (toInteger_spec ha haroom).2
  have hintb := (toInteger_spec hb hbroom).2
  constructor
  · rintro (⟨n, hna, hnb⟩ | ⟨cs, hca, hcb⟩ | ⟨t, hta, htb⟩ | rfl)
    · rw [(hinta n).mp hna, (hintb n).mp hnb]
    · rw [canonical_eq_of_toText ha hca, canonical_eq_of_toText hb hcb]
    · rw [eq_bool_of_toTruth hta, eq_bool_of_toTruth htb]
    · rfl
  · intro h
    rcases canonical_eq_cases h with ⟨n, hn⟩ | ⟨s, hs⟩ | ⟨zs, hzs⟩ | ⟨zs, z, hz⟩ | rfl
    · exact .inl ⟨n, (hinta n).mpr hn, (hintb n).mpr (h.symm.trans hn)⟩
    · exact .inr (.inl ⟨s.toList, toText_of_canonical hs, toText_of_canonical (h.symm.trans hs)⟩)
    · obtain ⟨xs, rfl⟩ := exists_list_of_canonical hzs
      obtain ⟨ys, rfl⟩ := exists_list_of_canonical (h.symm.trans hzs)
      exact (hlist xs ys rfl rfl).elim
    · obtain ⟨xs, x, rfl⟩ := exists_dotted_of_canonical hz
      obtain ⟨ys, y, rfl⟩ := exists_dotted_of_canonical (h.symm.trans hz)
      exact (hdotted xs x ys y rfl rfl).elim
    · exact .inr (.inr (.inr rfl))

theorem weaklyEqualAll_eq (room : Room) (xs ys : List Datum) :
    weaklyEqualAll room xs ys = pairwise (weaklyEqual room) xs ys := by
  induction xs generalizing ys with
  | nil => rw [weaklyEqualAll, pairwise] <;> simp
  | cons x xs ih =>
    cases ys with
    | nil => rw [weaklyEqualAll, pairwise] <;> simp
    | cons y ys => rw [weaklyEqualAll, pairwise, ih]

/-- Weak equality too compares a dotted list as the list of its items and its tail. -/
theorem weaklyEqual_dotted {inner : Room} (henter : room.enter 1 = .ok inner) (x y : Datum) :
    weaklyEqual room (.dotted xs x) (.dotted ys y) =
      weaklyEqual inner (.list (xs ++ [x])) (.list (ys ++ [y])) := by
  simp only [weaklyEqual, weaklyEqualAll_eq]
  exact pairwise_dotted henter x y

theorem weaklyEqual_decides_apart (ha : a.Throughout IsComparable)
    (hb : b.Throughout IsComparable) (haroom : room.admits a.comparisonDepth = true)
    (hbroom : room.admits b.comparisonDepth = true)
    (hlist : ∀ xs ys, a = .list xs → b = .list ys → False)
    (hdotted : ∀ xs x ys y, a = .dotted xs x → b = .dotted ys y → False) :
    Decides (weaklyEqual room a b) (canonical a = canonical b) := by
  rw [weaklyEqual.eq_3 room a b hlist hdotted]
  exact (weaklyEqualWhole_decides ha hb haroom hbroom).congr
    (agree_iff ha hb haroom hbroom hlist hdotted)

theorem weaklyEqual_decides (ha : a.Throughout IsComparable) (hb : b.Throughout IsComparable)
    (haroom : room.admits a.comparisonDepth = true)
    (hbroom : room.admits b.comparisonDepth = true) :
    Decides (weaklyEqual room a b) (canonical a = canonical b) := by
  induction a using induction_on generalizing b room with
  | list xs ih =>
    cases b with
    | list ys =>
      have hroom : room.admits (pairsWeight +
          max (depthAll pairsWeight dottedPairsWeight dottedPairsWeight xs)
            (depthAll pairsWeight dottedPairsWeight dottedPairsWeight ys)) = true := by
        rw [← Nat.add_max_add_left, Room.admits_max]
        exact ⟨haroom, hbroom⟩
      simp only [weaklyEqual, weaklyEqualAll_eq]
      refine (sequence_decides (R := fun x y => canonical x = canonical y) hroom
        fun inner hinner x hx y hy => ?_).congr ?_
      · obtain ⟨hxs, hys⟩ := Room.admits_max.mp hinner
        exact ih x hx (allThroughout_iff.mp ha x hx) (allThroughout_iff.mp hb y hy)
          (Room.admits_mono hxs (depth_le_depthAll hx))
          (Room.admits_mono hys (depth_le_depthAll hy))
      · rw [← canonicalAll_eq_iff, canonical_list, canonical_list]
        exact ⟨congrArg collapse, collapse_injective⟩
    | _ => exact weaklyEqual_decides_apart ha hb haroom hbroom (by simp) (by simp)
  | dotted xs x ihhead ihtail =>
    cases b with
    | dotted ys y =>
      have hroom : room.admits (dottedPairsWeight +
          max (max (depthAll pairsWeight dottedPairsWeight dottedPairsWeight xs) x.comparisonDepth)
            (max (depthAll pairsWeight dottedPairsWeight dottedPairsWeight ys)
              y.comparisonDepth)) = true := by
        rw [comparisonDepth, depth, Nat.add_max_add_left] at haroom hbroom
        rw [← Nat.add_max_add_left, Room.admits_max]
        exact ⟨haroom, hbroom⟩
      simp only [weaklyEqual, weaklyEqualAll_eq]
      refine (dotted_decides (R := fun x y => canonical x = canonical y) hroom
        (fun inner hinner x' hx y' hy => ?_) fun inner hinner => ?_).congr ?_
      · obtain ⟨ha', hb'⟩ := Room.admits_max.mp hinner
        exact ihhead x' hx (allThroughout_iff.mp ha.1 x' hx) (allThroughout_iff.mp hb.1 y' hy)
          (Room.admits_mono (Room.admits_max.mp ha').1 (depth_le_depthAll hx))
          (Room.admits_mono (Room.admits_max.mp hb').1 (depth_le_depthAll hy))
      · obtain ⟨ha', hb'⟩ := Room.admits_max.mp hinner
        exact ihtail ha.2 hb.2 (Room.admits_max.mp ha').2 (Room.admits_max.mp hb').2
      · rw [← canonicalAll_eq_iff, canonical, canonical, Datum.dotted.injEq]
    | _ => exact weaklyEqual_decides_apart ha hb haroom hbroom (by simp) (by simp)
  | _ => exact weaklyEqual_decides_apart ha hb haroom hbroom (by simp) (by simp)

theorem shortRuns_of_length {s : String} (h : s.toList.length ≤ digitLimit) : ShortRuns s :=
  fun _ hrun _ => hrun.length_le.trans h

end

open Primitive in
/-- On comparable data `equal?` gives a truth value, true for those with one canonical form; it is
an equivalence, and it holds wherever `eqv?` does. -/
theorem equal_equivalence {room : Room} {a b c : Datum} (ha : a.Throughout IsComparable)
    (hb : b.Throughout IsComparable) (hc : c.Throughout IsComparable)
    (haroom : room.admits a.comparisonDepth = true)
    (hbroom : room.admits b.comparisonDepth = true)
    (hcroom : room.admits c.comparisonDepth = true) :
    (∃ x, applyNamed room "equal?" [a, b] = .ok (.bool x)) ∧
      (applyNamed room "equal?" [a, b] = .ok (.bool true) ↔ canonical a = canonical b) ∧
      applyNamed room "equal?" [a, a] = .ok (.bool true) ∧
      applyNamed room "equal?" [a, b] = applyNamed room "equal?" [b, a] ∧
      (applyNamed room "equal?" [a, b] = .ok (.bool true) →
        applyNamed room "equal?" [b, c] = .ok (.bool true) →
        applyNamed room "equal?" [a, c] = .ok (.bool true)) ∧
      (applyNamed room "eqv?" [a, b] = .ok (.bool true) →
        applyNamed room "equal?" [a, b] = .ok (.bool true)) := by
  have hequal (x y : Datum) :
      applyNamed room "equal?" [x, y] = (x.weaklyEqual room y).map .bool := rfl
  have heqv : applyNamed room "eqv?" [a, b] = (a.strictlyEqual room b).map .bool := rfl
  have hab := weaklyEqual_decides ha hb haroom hbroom
  have hba := weaklyEqual_decides hb ha hbroom haroom
  have hbc := weaklyEqual_decides hb hc hbroom hcroom
  have hac := weaklyEqual_decides ha hc haroom hcroom
  have haa := weaklyEqual_decides ha ha haroom haroom
  have hstrict := strictlyEqual_decides (ha.mono fun _ => IsComparable.isExact) b haroom
  simp only [hequal, heqv]
  refine ⟨?_, hab.map_bool_iff, haa.map_bool_iff.mpr rfl, ?_, fun h h' => ?_, fun h => ?_⟩
  · obtain ⟨x, hx, -⟩ := hab
    rw [hx]
    exact ⟨x, rfl⟩
  · rw [hab.unique (hba.congr eq_comm)]
  · exact hac.map_bool_iff.mpr ((hab.map_bool_iff.mp h).trans (hbc.map_bool_iff.mp h'))
  · exact hab.map_bool_iff.mpr (congrArg canonical (hstrict.map_bool_iff.mp h))

open Primitive in
/-- A list of one integer equals the integer, the integer a text that begins with it, and so the
list equals the text, though a list has no text. -/
theorem equal_equivalence_numeral :
    applyNamed .standard "equal?" [.list [.int 3], .int 3] = .ok (.bool true) ∧
      applyNamed .standard "equal?" [.int 3, .string " 3x"] = .ok (.bool true) ∧
      applyNamed .standard "equal?" [.list [.int 3], .string " 3x"] = .ok (.bool true) := by
  have hdigits : (Nat.toDigits 10 3).length ≤ digitLimit := by decide
  have hint : (Datum.int 3).Throughout IsComparable := hdigits
  have hlist : (Datum.list [.int 3]).Throughout IsComparable := ⟨hint, trivial⟩
  have hstring : (Datum.string " 3x").Throughout IsComparable := shortRuns_of_length (by decide)
  have hfirst : applyNamed .standard "equal?" [.list [.int 3], .int 3] = .ok (.bool true) := by
    rfl
  have hsecond : applyNamed .standard "equal?" [.int 3, .string " 3x"] = .ok (.bool true) := by
    rfl
  have hroom : Room.standard.admits (Datum.list [.int 3]).comparisonDepth = true := by decide
  have hroom' : Room.standard.admits (Datum.int 3).comparisonDepth = true := by decide
  obtain ⟨-, -, -, -, htrans, -⟩ := equal_equivalence hlist hint hstring hroom hroom' (by decide)
  exact ⟨hfirst, hsecond, htrans hfirst hsecond⟩

end Datum
end Lisplet
