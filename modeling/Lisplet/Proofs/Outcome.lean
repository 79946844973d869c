import Lisplet.Failure
import Mathlib.Tactic.SplitIfs

/-! Outcomes of computations in steps: in which ways they can fail, and what becomes of them when
there is more room. Both are settled step by step, entering a call included. -/
namespace Lisplet

namespace Room

variable {room inner : Room} {cost : Nat} {why : Failure}

theorem enter_eq_error_iff :
    room.enter cost = .error why ↔ why = .exhausted ∧ room.admits cost = false := by
  cases room with
  | unlimited => simp [admits]
  | frames k => by_cases h : cost ≤ k <;> simp [enter, admits, h, eq_comm]

theorem admits_add (h : room.enter cost = .ok inner) (n : Nat) :
    room.admits (cost + n) = inner.admits n := by
  cases room with
  | unlimited =>
    obtain rfl := Except.ok.inj h
    rfl
  | frames k =>
    rw [enter] at h
    split_ifs at h with hcost
    obtain rfl := Except.ok.inj h
    simp only [admits, decide_eq_decide]
    omega

theorem enter_add (h : room.enter cost = .ok inner) (n : Nat) :
    room.enter (cost + n) = inner.enter n := by
  cases room with
  | unlimited =>
    obtain rfl := Except.ok.inj h
    rfl
  | frames k =>
    rw [enter] at h
    split_ifs at h with hcost
    obtain rfl := Except.ok.inj h
    have hfits : cost + n ≤ k ↔ n ≤ k - cost := by omega
    simp only [enter, hfits, Nat.sub_add_eq]

inductive Le : Room → Room → Prop
  | unlimited {room : Room} : Le room .unlimited
  | frames {m n : Nat} : m ≤ n → Le (.frames m) (.frames n)

instance : LE Room := ⟨Le⟩

theorem le_refl (room : Room) : room ≤ room := by
  cases room with
  | unlimited => exact .unlimited
  | frames n => exact .frames (Nat.le_refl n)

theorem le_of_enter (h : room.enter cost = .ok inner) : inner ≤ room := by
  cases room with
  | unlimited => exact .unlimited
  | frames n =>
    rw [enter] at h
    split_ifs at h
    obtain rfl := Except.ok.inj h
    exact .frames (Nat.sub_le n cost)

theorem enter_mono {room' : Room} (h : room ≤ room') (henter : room.enter cost = .ok inner) :
    ∃ inner', room'.enter cost = .ok inner' ∧ inner ≤ inner' := by
  cases h with
  | unlimited => exact ⟨.unlimited, rfl, .unlimited⟩
  | @frames m n hmn =>
    rw [enter] at henter
    split_ifs at henter with hcost
    obtain rfl := Except.ok.inj henter
    exact ⟨.frames (n - cost), if_pos (by omega), .frames (by omega)⟩

end Room

section
variable {ε α β : Type} {o : Except ε α} {f : α → Except ε β} {why : ε}

theorem bind_eq_ok_iff {b : β} : o >>= f = .ok b ↔ ∃ a, o = .ok a ∧ f a = .ok b := by
  cases o with
  | ok a =>
    constructor
    · exact fun h => ⟨a, rfl, h⟩
    · rintro ⟨_, ha, h⟩
      cases ha
      exact h
  | error why =>
    constructor
    · intro h
      cases h
    · rintro ⟨_, ha, -⟩
      cases ha

theorem bind_eq_error_iff :
    o >>= f = .error why ↔ o = .error why ∨ ∃ a, o = .ok a ∧ f a = .error why := by
  cases o with
  | ok a =>
    constructor
    · exact fun h => .inr ⟨a, rfl, h⟩
    · rintro (h | ⟨_, ha, h⟩)
      · cases h
      · cases ha
        exact h
  | error cause =>
    constructor
    · intro h
      cases h
      exact .inl rfl
    · rintro (h | ⟨_, ha, _⟩)
      · cases h
        rfl
      · cases ha

theorem map_eq_error_iff {g : α → β} : o.map g = .error why ↔ o = .error why := by
  cases o with
  | ok a => simp [Except.map]
  | error cause => simp [Except.map]

theorem bind_ok_eq_error_iff {g : α → β} :
    (o >>= fun a => Except.ok (g a)) = .error why ↔ o = .error why :=
  map_eq_error_iff

end

section
variable {α β : Type} {o o' : Outcome α} {f f' : α → Outcome β} {room room' : Room}
  {P Q : Failure → Prop} {why : Failure} {m n cost : Nat}

/-- The outcome fails only in some ways, or for want of room where `n` nested calls do not fit. -/
def FailsOnly (P : Failure → Prop) (room : Room) (n : Nat) (o : Outcome α) : Prop :=
  ∀ why, o = .error why → P why ∨ why = .exhausted ∧ room.admits n = false

namespace FailsOnly

theorem of_ok (a : α) : FailsOnly P room n (.ok a) := fun _ h => by cases h

theorem of_error (h : P why) : FailsOnly P room n (.error why : Outcome α) := by
  intro why' heq
  cases heq
  exact .inl h

theorem mono (h : FailsOnly P room m o) (hmn : m ≤ n) : FailsOnly P room n o := by
  intro why hwhy
  refine (h why hwhy).imp_right fun hroom => ⟨hroom.1, ?_⟩
  cases hn : room.admits n with
  | false => rfl
  | true => cases hroom.2.symm.trans (Room.admits_mono hn hmn)

theorem bind (h : FailsOnly P room n o) (hf : ∀ a, o = .ok a → FailsOnly P room n (f a)) :
    FailsOnly P room n (o >>= f) := by
  intro why hwhy
  rcases bind_eq_error_iff.mp hwhy with ho | ⟨a, ha, hfa⟩
  · exact h why ho
  · exact hf a ha why hfa

theorem map {g : α → β} (h : FailsOnly P room n o) : FailsOnly P room n (o.map g) := by
  cases o with
  | ok a => exact of_ok (g a)
  | error cause =>
    intro why hwhy
    cases hwhy
    exact h cause rfl

theorem exists_ok_or (h : FailsOnly (fun _ => False) room n o) :
    (∃ a, o = .ok a) ∨ o = .error .exhausted ∧ room.admits n = false := by
  cases o with
  | ok a => exact .inl ⟨a, rfl⟩
  | error why =>
    obtain ⟨rfl, hroom⟩ := (h why rfl).resolve_left id
    exact .inr ⟨rfl, hroom⟩

theorem imp (h : FailsOnly P room n o) (hPQ : ∀ why, P why → Q why) : FailsOnly Q room n o :=
  fun why hwhy => (h why hwhy).imp_left (hPQ why)

theorem mapM {γ : Type} {g : γ → Outcome α} {l : List γ}
    (h : ∀ c ∈ l, FailsOnly P room n (g c)) : FailsOnly P room n (l.mapM g) := by
  induction l with
  | nil => exact of_ok []
  | cons c l ih =>
    obtain ⟨hc, hl⟩ := List.forall_mem_cons.mp h
    rw [List.mapM_cons]
    exact bind hc fun a _ => bind (ih hl) fun _ _ => of_ok _

theorem foldlM {γ : Type} {g : α → γ → Outcome α} {l : List γ}
    (h : ∀ a, ∀ c ∈ l, FailsOnly P room n (g a c)) (a : α) : FailsOnly P room n (l.foldlM g a) := by
  induction l generalizing a with
  | nil => exact of_ok a
  | cons c l ih =>
    rw [List.foldlM_cons]
    exact bind (h a c List.mem_cons_self) fun b _ =>
      ih (fun a c hc => h a c (List.mem_cons_of_mem _ hc)) b

theorem enter {g : Room → Outcome β}
    (h : ∀ inner, room.enter cost = .ok inner → FailsOnly P inner n (g inner))
    (hle : cost + n ≤ m) : FailsOnly P room m (room.enter cost >>= g) := by
  intro why hwhy
  rcases bind_eq_error_iff.mp hwhy with henter | ⟨inner, henter, hg⟩
  · obtain ⟨rfl, hroom⟩ := Room.enter_eq_error_iff.mp henter
    have hnone : FailsOnly P room cost (.error .exhausted : Outcome β) := fun _ heq =>
      .inr ⟨(Except.error.inj heq).symm, hroom⟩
    exact hnone.mono (by omega) _ rfl
  · have hinner : FailsOnly P room (cost + n) (.error why : Outcome β) := fun why' heq => by
      rw [Room.admits_add henter]
      exact h inner henter why' (hg.trans heq)
    exact hinner.mono hle _ rfl

end FailsOnly

/-- The outcome is the other one, if it is not for want of room. -/
def Approximates (o o' : Outcome α) : Prop := o = .error .exhausted ∨ o = o'

namespace Approximates

theorem rfl : Approximates o o := .inr (Eq.refl o)

theorem eq (h : Approximates o o') (ho : o ≠ .error .exhausted) : o = o' := h.resolve_left ho

theorem trans {o'' : Outcome α} (h : Approximates o o') (h' : Approximates o' o'') :
    Approximates o o'' := by
  rcases h with h | rfl
  · exact .inl h
  · exact h'

theorem bind (h : Approximates o o') (hf : ∀ a, Approximates (f a) (f' a)) :
    Approximates (o >>= f) (o' >>= f') := by
  rcases h with h | h <;> subst h
  · exact .inl (Eq.refl _)
  · cases o with
    | ok a => exact hf a
    | error why => exact .inr (Eq.refl _)

theorem map (h : Approximates o o') (g : α → β) : Approximates (o.map g) (o'.map g) := by
  rcases h with h | h <;> subst h
  · exact .inl (Eq.refl _)
  · exact rfl

theorem mapM {γ : Type} {g g' : γ → Outcome α} {l : List γ}
    (h : ∀ c ∈ l, Approximates (g c) (g' c)) : Approximates (l.mapM g) (l.mapM g') := by
  induction l with
  | nil => exact rfl
  | cons c l ih =>
    obtain ⟨hc, hl⟩ := List.forall_mem_cons.mp h
    rw [List.mapM_cons, List.mapM_cons]
    exact bind hc fun _ => bind (ih hl) fun _ => rfl

theorem enter {g g' : Room → Outcome β} (h : room ≤ room')
    (hg : ∀ inner inner', inner ≤ inner' → Approximates (g inner) (g' inner')) :
    Approximates (room.enter cost >>= g) (room'.enter cost >>= g') := by
  cases henter : room.enter cost with
  | error why =>
    obtain ⟨hwhy, -⟩ := Room.enter_eq_error_iff.mp henter
    exact .inl (congrArg Except.error hwhy)
  | ok inner =>
    obtain ⟨inner', henter', hinner⟩ := Room.enter_mono h henter
    rw [henter']
    exact hg inner inner' hinner

theorem of_enter {g : Room → Outcome α}
    (h : ∀ inner, room.enter cost = .ok inner → Approximates (g inner) o) :
    Approximates (room.enter cost >>= g) o := by
  cases henter : room.enter cost with
  | error why =>
    obtain ⟨hwhy, -⟩ := Room.enter_eq_error_iff.mp henter
    exact .inl (congrArg Except.error hwhy)
  | ok inner => exact h inner henter

end Approximates

end
end Lisplet
