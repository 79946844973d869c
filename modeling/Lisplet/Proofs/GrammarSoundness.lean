import Lisplet.Proofs.GrammarCompleteness
import Lisplet.Proofs.MaximalMunch
import Lisplet.Proofs.Outcome

/-! The reader takes nothing that the grammar does not derive. What it has taken so far is always a
row of open brackets and quote marks with finished items between them; this is kept by each step. -/
namespace Lisplet

/-- The token is in its class, or is in none and has the class of errors. -/
def Token.Genuine (t : Token) : Prop := t.text ∈ t.kind.language ∨ t.kind = .error

theorem Token.Genuine.mem {t : Token} (h : t.Genuine) (hkind : t.kind ≠ .error) :
    t.text ∈ t.kind.language :=
  h.resolve_right hkind

theorem Token.ne_error_of_literal? {t : Token} {e : Except Refusal Datum}
    (h : t.literal? = some e) : t.kind ≠ .error := by
  intro hkind
  simp [Token.literal?, hkind] at h

theorem exists_quoteName {mark : List Char} (h : mark ∈ Kind.quote.language) :
    ∃ c name, mark = [c] ∧ (c, name) ∈ quoteNames := by
  rcases mem_quote.mp h with rfl | rfl | rfl
  · exact ⟨'\x27', "quote", rfl, by decide⟩
  · exact ⟨'\x60', "quasiquote", rfl, by decide⟩
  · exact ⟨',', "unquote", rfl, by decide⟩

/-- What a defect is about: the token that its report names, or a literal that cannot be converted
for it. -/
inductive Offends : Defect → Option Token → Prop
  | unexpected (found : Option Token) : Offends (.unexpected found) found
  | expecting (found : Option Token) (wanted : String) : Offends (.expecting found wanted) found
  | literal {t : Token} {what : Defect} : t.literal? = some (.error (.defect what)) →
      Offends what (some t)

theorem Reading.defect_offends (r : Reading) (found : Option Token) :
    Offends (r.defect found) found := by
  unfold defect
  split
  · exact .unexpected found
  · exact .expecting found _

theorem Literal.real_eq_error {text : List Char} {why : Refusal} (h : Literal.real text = .error why) :
    ∃ m, why = .malformed m := by
  unfold Literal.real at h
  split at h
  · cases h
  · exact ⟨_, (Except.error.inj h).symm⟩

theorem Literal.complex_eq_error {text : List Char} {why : Refusal}
    (h : Literal.complex text = .error why) : ∃ m, why = .malformed m := by
  unfold Literal.complex at h
  split at h
  · rcases bind_eq_error_iff.mp h with hre | ⟨x, -, h⟩
    · exact real_eq_error hre
    · exact real_eq_error (bind_ok_eq_error_iff.mp h)
  · exact ⟨_, (Except.error.inj h).symm⟩
  · exact ⟨_, (Except.error.inj h).symm⟩

theorem Token.takenFirst_of_defect {t : Token} {what : Defect}
    (h : t.literal? = some (.error (.defect what))) : t.takenFirst = false := by
  obtain ⟨kind, text⟩ := t
  cases kind with
  | float =>
    obtain ⟨m, hm⟩ := Literal.real_eq_error (map_eq_error_iff.mp (Option.some.inj h))
    cases hm
  | complex =>
    obtain ⟨m, hm⟩ := Literal.complex_eq_error (Option.some.inj h)
    cases hm
  | _ => rfl

/-- Behind a bracket and some items with white space behind each, in a place that takes `weight`
nested calls. -/
inductive Inside (outer : List Token → Prop) (room : Room) (weight : Nat) (bracket : Bracket)
    (items : List Datum) : List Token → Prop
  | mk {n : Nat} {opening : Token} {us vs : List Token} : outer us →
      opening.kind = bracket.opening → Derives n vs (.heads bracket items.reverse) →
      (0 < n → room.admits (weight + n) = true) →
      Inside outer room weight bracket items (us ++ opening :: vs)

/-- The nested calls inside what is around it that a datum takes which takes so many by itself. -/
def Context.calls : Context → Nat → Nat
  | .quotation _, n => n + 1
  | .item bracket items, n => itemCalls (bracket.gap items) n
  | .tail _, n => n + 3

namespace Reading

/-- There is room for a datum that stands within the rest. -/
def Fits (room : Room) : List Context → Nat → Prop
  | [], n => room.admits n = true
  | context :: within, n => room.admits (weight within + context.calls n) = true

/-- The tokens open these quotations and sequences and leave them open. -/
def Opens (room : Room) : List Context → List Token → Prop
  | [] => fun ts => ts = []
  | .quotation mark :: within => fun ts =>
    ∃ us c name, Opens room within us ∧ mark = [c] ∧ (c, name) ∈ quoteNames ∧
      ts = us ++ [⟨.quote, mark⟩]
  | .item bracket items :: within => Inside (Opens room within) room (weight within) bracket items
  | .tail items :: within => fun ts =>
    ∃ us dot space, Inside (Opens room within) room (weight within) .list items us ∧
      dot.kind = .dot ∧ space.kind = .space ∧ ts = us ++ [dot, space]

def Completes (room : Room) (within : List Context) (d : Datum) (ts : List Token) : Prop :=
  ∃ us vs n, Opens room within us ∧ Derives n vs (.datum d) ∧ Fits room within n ∧ ts = us ++ vs

/-- What the reader has taken in each of its states. -/
def HasTaken (room : Room) : Reading → List Token → Prop
  | .expression within => Opens room within
  | .opened bracket within => Inside (Opens room within) room (weight within) bracket []
  | .ended bracket items within => fun ts =>
    ∃ d rest, items = d :: rest ∧ Completes room (.item bracket rest :: within) d ts
  | .separated bracket items within =>
    Inside (Opens room within) room (weight within) bracket items
  | .point items within => fun ts =>
    ∃ us dot, Inside (Opens room within) room (weight within) .list items us ∧ dot.kind = .dot ∧
      ts = us ++ [dot]
  | .closing items tail within => Completes room (.tail items :: within) tail

end Reading

open Reading

/-- What has been taken when a step has some outcome. A token that is refused is refused for a defect
of its own, and stays. -/
def Step.HasTaken (room : Room) : Step → List Token → Prop
  | .next r, ts => r.HasTaken room ts
  | .done d, ts => Completes room [] d ts
  | .refuse why taken, ts =>
    taken = false ∧ ∃ us t what, ts = us ++ [t] ∧ why = .defect what ∧ Offends what (some t)

section
variable {room : Room} {within : List Context} {d : Datum} {t : Token} {ts : List Token} {n : Nat}
  {r : Reading}

theorem fits_iff_of_pos (hn : 0 < n) :
    Fits room within n ↔ room.admits (weight within + n) = true := by
  obtain ⟨n, rfl⟩ := Nat.exists_eq_succ_of_ne_zero hn.ne'
  cases within with
  | nil => rw [Fits, weight, Nat.zero_add]
  | cons context within =>
    have hcalls : weight within + context.calls (n + 1) = weight (context :: within) + (n + 1) := by
      cases context <;> simp only [Context.calls, Context.weight, weight, itemCalls] <;> omega
    rw [Fits, ← hcalls]

/-- Where a token is looked for that begins a datum, there is room for one that has no other. -/
theorem Reading.Begins.fits (h : r.Begins within) (hroom : room.admits r.need = true) :
    Fits room within 0 := by
  cases h with
  | expression =>
    cases within with
    | nil => exact room.admits_zero
    | cons context within =>
      have hcalls : context.calls 0 ≤ context.weight := by
        cases context with
        | item bracket items => exact (gap_le bracket items).2
        | _ => exact le_rfl
      refine Room.admits_mono hroom ?_
      simp only [need, weight]
      omega
  | first bracket within =>
    rw [Fits, Context.calls, itemCalls, gap_nil]
    exact hroom
  | item bracket items within =>
    refine Room.admits_mono hroom ?_
    cases bracket with
    | list =>
      rw [Context.calls, itemCalls, gap_list]
      exact le_rfl
    | vector => exact Nat.add_le_add_left (gap_le _ _).2 _

theorem deliver_hasTaken (h : Completes room within d ts) :
    (deliver d within).HasTaken room ts := by
  induction within generalizing d with
  | nil => exact h
  | cons context within ih =>
    cases context with
    | quotation mark =>
      obtain ⟨_, vs, n, ⟨us, c, name, hus, rfl, hname, rfl⟩, hvs, hroom, rfl⟩ := h
      rw [deliver, quoteSymbol?_eq_some hname]
      have hfits := (fits_iff_of_pos n.succ_pos).mpr hroom
      exact ih ⟨us, ⟨.quote, [c]⟩ :: vs, n + 1, hus, .quotation hname hvs, hfits, by simp⟩
    | item bracket items => exact ⟨d, items, rfl, h⟩
    | tail items => exact h

theorem Inside.first (bracket : Bracket) {opening : Token} (h : Opens room within ts)
    (hopening : opening.kind = bracket.opening) :
    Inside (Opens room within) room (weight within) bracket [] (ts ++ [opening]) :=
  ⟨h, hopening, .none, fun hpos => absurd hpos (Nat.lt_irrefl 0)⟩

theorem begin_hasTaken (h : Opens room within ts) (hfits : Fits room within 0) (ht : t.Genuine) :
    (begin within t).HasTaken room (ts ++ [t]) := by
  unfold begin
  split
  · rename_i hquote
    have hmark := ht.mem (by simp [hquote])
    rw [hquote] at hmark
    obtain ⟨c, name, hc, hname⟩ := exists_quoteName hmark
    refine ⟨ts, c, name, h, hc, hname, ?_⟩
    rw [← hquote]
  · rename_i hopening
    exact Inside.first .list h hopening
  · rename_i hopening
    exact Inside.first .vector h hopening
  · unfold beginLiteral
    split
    · rename_i d hliteral
      have hmem := ht.mem (Token.ne_error_of_literal? hliteral)
      have hdenotes := (Token.literal?_converts hmem hliteral).ok_iff.mp rfl
      exact deliver_hasTaken ⟨ts, [t], 0, h, .literal hdenotes, hfits, rfl⟩
    · rename_i why hliteral
      have hmem := ht.mem (Token.ne_error_of_literal? hliteral)
      obtain ⟨what, rfl⟩ := (Token.literal?_converts hmem hliteral).defect rfl
      exact ⟨Token.takenFirst_of_defect hliteral, ts, t, what, rfl, rfl, .literal hliteral⟩
    · exact ⟨rfl, ts, t, _, rfl, rfl, .unexpected (some t)⟩

theorem admits_max_of {m k : Nat} (hitems : 0 < n → room.admits (k + n) = true)
    (hroom : room.admits (k + m) = true) : room.admits (k + max n m) = true := by
  rw [← Nat.add_max_add_left, Room.admits_max]
  refine ⟨?_, hroom⟩
  rcases Nat.eq_zero_or_pos n with rfl | hn
  · exact Room.admits_mono hroom (Nat.le_add_right k m)
  · exact hitems hn

theorem Inside.add {bracket : Bracket} {items : List Datum} {space : Token}
    (h : Completes room (.item bracket items :: within) d ts) (hspace : space.kind = .space) :
    Inside (Opens room within) room (weight within) bracket (d :: items) (ts ++ [space]) := by
  obtain ⟨_, ws, m, ⟨hus, hopening, hvs, hitems⟩, hws, hroom, rfl⟩ := h
  have hadmits := admits_max_of hitems hroom
  have hheads := hvs.head hws hspace
  rw [← List.reverse_cons, gap_reverse] at hheads
  have hinside : Inside (Opens room within) room (weight within) bracket (d :: items) _ :=
    .mk hus hopening hheads fun _ => hadmits
  simpa [List.append_assoc] using hinside

theorem completes_sequence {bracket : Bracket} {items : List Datum} {closing : Token}
    (h : Completes room (.item bracket items :: within) d ts) (hclosing : closing.kind = .rparen) :
    Completes room within (bracket.close (d :: items).reverse) (ts ++ [closing]) := by
  obtain ⟨_, ws, m, ⟨hus, hopening, hvs, hitems⟩, hws, hroom, rfl⟩ := h
  have hall := hvs.items_of_heads hws
  rw [← List.reverse_cons, gap_reverse] at hall
  have hfits := (fits_iff_of_pos hall.items_pos).mpr (admits_max_of hitems hroom)
  exact ⟨_, _, _, hus, .sequence hopening hall hclosing, hfits, by simp⟩

theorem completes_empty {bracket : Bracket} {closing : Token}
    (h : Inside (Opens room within) room (weight within) bracket [] ts)
    (hroom : room.admits (weight within + 1) = true) (hclosing : closing.kind = .rparen) :
    Completes room within (bracket.close []) (ts ++ [closing]) := by
  obtain ⟨hus, hopening, hvs, -⟩ := h
  obtain ⟨rfl, rfl⟩ := hvs.heads_nil
  have hfits := (fits_iff_of_pos Nat.one_pos).mpr hroom
  exact ⟨_, _, 1, hus, .empty hopening hclosing, hfits, by simp⟩

theorem completes_dotted {items : List Datum} {closing : Token}
    (h : Completes room (.tail items :: within) d ts) (hclosing : closing.kind = .rparen) :
    Completes room within (.dotted items.reverse d) (ts ++ [closing]) := by
  obtain ⟨_, ws, m, ⟨_, dot, space, hinside, hdot, hspace, rfl⟩, hws, hroom, rfl⟩ := h
  obtain ⟨hus, hopening, hvs, hitems⟩ := hinside
  have hpos {n : Nat} : 0 < max n (m + 3) := lt_max_of_lt_right (Nat.succ_pos _)
  have hfits := (fits_iff_of_pos hpos).mpr (admits_max_of hitems hroom)
  exact ⟨_, _, _, hus, .dotted hopening hvs hdot hspace hws hclosing, hfits, by simp⟩

theorem Reading.Closes.completes (hcloses : r.Closes d within) (h : r.HasTaken room ts)
    (hroom : room.admits r.need = true) (ht : t.kind = .rparen) :
    Completes room within d (ts ++ [t]) := by
  cases hcloses with
  | opened => exact completes_empty h hroom ht
  | ended =>
    obtain ⟨d, rest, rfl, h⟩ := h
    exact completes_sequence h ht
  | closing => exact completes_dotted h ht

theorem Reading.Moves.hasTaken {r' : Reading} (hmoves : r.Moves t r') (h : r.HasTaken room ts) :
    r'.HasTaken room (ts ++ [t]) := by
  cases hmoves with
  | first within hdot | dot items within hdot => exact ⟨ts, t, h, hdot, rfl⟩
  | space bracket items within hspace =>
    obtain ⟨d, rest, rfl, h⟩ := h
    exact Inside.add h hspace
  | tail items within hspace =>
    obtain ⟨us, dot, hus, hdot, rfl⟩ := h
    exact ⟨us, dot, t, hus, hdot, hspace, by simp⟩

theorem Reading.Begins.opens (hbegins : r.Begins within) (h : r.HasTaken room ts) :
    Opens room within ts := by
  cases hbegins <;> exact h

theorem step_hasTaken (h : r.HasTaken room ts) (hroom : room.admits r.need = true)
    (ht : t.Genuine) : (r.step t).HasTaken room (ts ++ [t]) := by
  cases r.does t with
  | closes hcloses hkind hstep =>
    rw [hstep]
    exact deliver_hasTaken (hcloses.completes h hroom hkind)
  | moves hmoves hstep =>
    rw [hstep]
    exact hmoves.hasTaken h
  | begins hbegins hstep =>
    rw [hstep]
    exact begin_hasTaken (hbegins.opens h) (hbegins.fits hroom) ht
  | refuses hstep =>
    rw [hstep]
    exact ⟨rfl, ts, t, _, rfl, rfl, r.defect_offends (some t)⟩

end

theorem Leads.hasTaken {room : Room} {s s' : Step} {ts us : List Token} (h : Leads room s ts s')
    (hs : s.HasTaken room us) (hts : ∀ t ∈ ts, t.Genuine) : s'.HasTaken room (us ++ ts) := by
  induction h generalizing us with
  | refl s => simpa using hs
  | take hroom _ ih =>
    have hstep := step_hasTaken hs hroom (hts _ List.mem_cons_self)
    simpa using ih hstep fun t ht => hts t (List.mem_cons_of_mem _ ht)

/-- What a run to a datum has taken spells this datum. -/
theorem Leads.exists_derives {room : Room} {ts : List Token} {d : Datum}
    (h : Leads room (.next (.expression [])) ts (.done d)) (hts : ∀ t ∈ ts, t.Genuine) :
    ∃ n, Derives n ts (.datum d) ∧ room.admits n = true := by
  have hstart : (Step.next (.expression [])).HasTaken room [] := rfl
  obtain ⟨us, vs, n, rfl, hvs, hroom, hsplit⟩ := h.hasTaken hstart hts
  obtain rfl : ts = vs := hsplit
  exact ⟨n, hvs, hroom⟩

end Lisplet
