import Lisplet.Proofs.Grammar
import Lisplet.Proofs.ReadingMachine

/-! The reader takes all that the grammar derives, for the datum that it derives. -/
namespace Lisplet

namespace Reading

variable {t : Token} {d : Datum} {bracket : Bracket} {items : List Datum} {within : List Context}
  {r : Reading}

/-- What the reader waits for behind a bracket and items with white space behind each. -/
def awaiting (bracket : Bracket) : List Datum → List Context → Reading
  | [], within => .opened bracket within
  | item :: items, within => .separated bracket (item :: items) within

theorem awaiting_of_ne_nil (h : items ≠ []) :
    awaiting bracket items within = .separated bracket items within := by
  cases items with
  | nil => exact absurd rfl h
  | cons item items => rfl

theorem need_awaiting (bracket : Bracket) (items : List Datum) (within : List Context) :
    (awaiting bracket items within).need = weight within + bracket.gap items := by
  cases items with
  | nil => rw [gap_nil]; rfl
  | cons item items => cases bracket <;> simp [awaiting, need, Bracket.gap]

theorem begin_quote (mark : List Char) (within : List Context) :
    begin within ⟨.quote, mark⟩ = .next (.expression (.quotation mark :: within)) :=
  rfl

theorem begin_opening (ht : t.kind = bracket.opening) (within : List Context) :
    begin within t = .next (.opened bracket within) := by
  cases bracket with
  | list => simp [begin, ht, Bracket.opening]
  | vector => simp [begin, ht, Bracket.opening]

theorem begin_literal (ht : t.Denotes d) (within : List Context) :
    begin within t = deliver d within := by
  have hliteral : beginLiteral within t = deliver d within := by
    rw [beginLiteral, Token.literal?_of_denotes ht]
  rw [← hliteral]
  cases ht <;> rfl

theorem step_awaiting (ht : ∀ k ∈ [Kind.space, .rparen, .dot], t.kind ≠ k) :
    (awaiting bracket items within).step t = begin (.item bracket items :: within) t := by
  have hrparen : t.kind ≠ .rparen := ht _ (by simp)
  have hdot : t.kind ≠ .dot := ht _ (by simp)
  cases items with
  | nil => simp [awaiting, step, hrparen, hdot]
  | cons item items => simp [awaiting, step, hdot]

theorem step_awaiting_dot (ht : t.kind = .dot) :
    (awaiting .list items within).step t = .next (.point items within) := by
  cases items with
  | nil => simp [awaiting, step, ht]
  | cons item items => simp [awaiting, step, ht]

theorem step_opened_rparen (ht : t.kind = .rparen) :
    (opened bracket within).step t = deliver (bracket.close []) within := by
  simp [step, ht]

theorem step_ended_rparen (ht : t.kind = .rparen) :
    (ended bracket items within).step t = deliver (bracket.close items.reverse) within := by
  simp [step, ht]

theorem step_ended_space (ht : t.kind = .space) :
    (ended bracket items within).step t = .next (.separated bracket items within) := by
  simp [step, ht]

theorem step_point (ht : t.kind = .space) :
    (point items within).step t = .next (.expression (.tail items :: within)) := by
  simp [step, ht]

theorem step_closing (ht : t.kind = .rparen) :
    (closing items d within).step t = deliver (.dotted items.reverse d) within := by
  simp [step, ht]

end Reading

open Reading

/-- What reading the tokens of a phrase has to do, wherever the phrase may stand. A datum is read
from each state that begins it with its first token. -/
def Phrase.ReadBy (room : Room) (n : Nat) (ts : List Token) : Phrase → Prop
  | .datum d => ∀ r within, (∀ t ∈ ts.head?, r.step t = begin within t) →
      room.admits r.need = true → (0 < n → room.admits (weight within + n) = true) →
      Leads room (.next r) ts (deliver d within)
  | .items bracket ds => ∀ within, room.admits (weight within + n) = true →
      Leads room (.next (.opened bracket within)) ts (.next (.ended bracket ds.reverse within))
  | .heads bracket ds => ∀ within, (0 < n → room.admits (weight within + n) = true) →
      Leads room (.next (.opened bracket within)) ts (.next (awaiting bracket ds.reverse within))

section
variable {room : Room} {n : Nat} {ts : List Token} {p : Phrase} {d : Datum}

theorem leads_item (bracket : Bracket) (items : List Datum) {within : List Context}
    (hfirst : Derives n ts (.datum d)) (hread : Phrase.ReadBy room n ts (.datum d))
    (h : room.admits (weight within + itemCalls (bracket.gap items) n) = true) :
    Leads room (.next (awaiting bracket items within)) ts
      (.next (.ended bracket (d :: items) within)) := by
  obtain ⟨hone, htwo⟩ := gap_le bracket items
  refine hread _ (.item bracket items :: within) (fun t ht => ?_) ?_ fun hn => ?_
  · obtain ⟨first, rest, rfl, hkinds⟩ := hfirst.exists_first
    obtain rfl := Option.some.inj ht
    exact step_awaiting hkinds
  · rw [need_awaiting]
    refine Room.admits_mono h (Nat.add_le_add_left ?_ _)
    rw [itemCalls_gap]
    exact le_max_left _ _
  · obtain ⟨n, rfl⟩ := Nat.exists_eq_succ_of_ne_zero hn.ne'
    refine Room.admits_mono h ?_
    simp only [weight, Context.weight, itemCalls]
    omega

/-- Every derivation is followed by the reader. -/
theorem Derives.readBy (h : Derives n ts p) (room : Room) : p.ReadBy room n ts := by
  induction h with
  | literal ht =>
    intro r within hstep hneed _
    exact .single hneed ((hstep _ rfl).trans (begin_literal ht within))
  | @quotation n mark name ts d hname _ ih =>
    intro r within hstep hneed hroom
    have hinner : room.admits (weight within + (n + 1)) = true := hroom n.succ_pos
    have hquote := (hstep _ rfl).trans (begin_quote [mark] within)
    have hrun := ih (.expression (.quotation [mark] :: within)) _ (fun _ _ => rfl)
      (Room.admits_mono hinner (by simp only [need, weight, Context.weight]; omega))
      (fun _ => Room.admits_mono hinner (by simp only [weight, Context.weight]; omega))
    rw [deliver, quoteSymbol?_eq_some hname] at hrun
    exact (Leads.single hneed hquote).trans hrun
  | empty hopening hclosing =>
    intro r within hstep hneed hroom
    have hopened := (hstep _ rfl).trans (begin_opening hopening within)
    exact (Leads.single hneed hopened).snoc (hroom Nat.one_pos) (step_opened_rparen hclosing)
  | @sequence n bracket opening closing ts ds hopening hitems hclosing ih =>
    intro r within hstep hneed hroom
    have hinner : room.admits (weight within + n) = true := hroom hitems.items_pos
    have hopened := (hstep _ rfl).trans (begin_opening hopening within)
    have hlook : room.admits (weight within + 1) = true :=
      Room.admits_mono hinner (Nat.add_le_add_left hitems.items_pos _)
    have hend := (ih within hinner).snoc hlook (step_ended_rparen hclosing)
    rw [List.reverse_reverse] at hend
    exact (Leads.single hneed hopened).trans hend
  | @dotted n m opening dot space closing ts us ds d hopening _ hdot hspace _ hclosing ihheads
      ihtail =>
    intro r within hstep hneed hroom
    have hinner : room.admits (weight within + max n (m + 3)) = true :=
      hroom (lt_max_of_lt_right (Nat.succ_pos _))
    have hpoint : room.admits (weight within + 3) = true := Room.admits_mono hinner (by omega)
    have hlist : opening.kind = Bracket.list.opening := hopening
    have hopened := (hstep _ rfl).trans (begin_opening hlist within)
    have hheads := ihheads within fun _ => Room.admits_mono hinner (by omega)
    have hawaiting : room.admits (awaiting .list ds.reverse within).need = true := by
      rw [need_awaiting, gap_list]
      exact Room.admits_mono hpoint (by omega)
    have hdotted := (hheads.snoc hawaiting (step_awaiting_dot hdot)).snoc hpoint (step_point hspace)
    have htail := ihtail (.expression (.tail ds.reverse :: within)) _ (fun _ _ => rfl)
      (Room.admits_mono hpoint (by simp only [need, weight, Context.weight]; omega))
      (fun _ => Room.admits_mono hinner (by simp only [weight, Context.weight]; omega))
    have hend := (hdotted.trans htail).snoc hpoint (step_closing hclosing)
    rw [List.reverse_reverse] at hend
    have hrun := (Leads.single hneed hopened).trans hend
    simpa [List.append_assoc] using hrun
  | @one n bracket ts d hdatum ih =>
    intro within hroom
    refine leads_item bracket [] hdatum ih ?_
    rwa [gap_nil]
  | @more n m bracket space ts us ds d hitems hspace hdatum ihitems ihdatum =>
    intro within hroom
    rw [← Nat.add_max_add_left, Room.admits_max] at hroom
    have hlook : room.admits (weight within + 1) = true :=
      Room.admits_mono hroom.1 (Nat.add_le_add_left hitems.items_pos _)
    have hfront := (ihitems within hroom.1).snoc hlook (step_ended_space hspace)
    have hne : ds.reverse ≠ [] := by simpa using hitems.items_ne_nil
    rw [← gap_reverse] at hroom
    have hitem := leads_item bracket ds.reverse hdatum ihdatum hroom.2
    rw [awaiting_of_ne_nil hne] at hitem
    simpa [List.append_assoc] using hfront.trans hitem
  | none =>
    intro within _
    exact .refl _
  | @head n m bracket space ts us ds d _ hdatum hspace ihheads ihdatum =>
    intro within hroom
    have hpos : 1 ≤ itemCalls (bracket.gap ds) m := itemCalls_pos (gap_le bracket ds).1 m
    replace hroom := hroom (lt_max_of_lt_right hpos)
    rw [← Nat.add_max_add_left, Room.admits_max] at hroom
    have hheads := ihheads within fun _ => hroom.1
    have hlook : room.admits (weight within + 1) = true :=
      Room.admits_mono hroom.2 (Nat.add_le_add_left hpos _)
    rw [← gap_reverse] at hroom
    have hitem := leads_item bracket ds.reverse hdatum ihdatum hroom.2
    have hrun := hheads.trans (hitem.snoc hlook (step_ended_space hspace))
    rw [List.reverse_append]
    exact hrun

theorem Derives.leads (h : Derives n ts (.datum d)) (hroom : room.admits n = true) :
    Leads room (.next (.expression [])) ts (.done d) :=
  h.readBy room (.expression []) [] (fun _ _ => rfl) room.admits_zero fun _ => by
    simpa [weight] using hroom

end

end Lisplet
