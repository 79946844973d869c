import Lisplet.Proofs.LiteralMeaning
import Lisplet.Reading

/-! The grammar of data over tokens. White space stands between the items of a sequence and around
the point of a dotted list and nowhere else. -/
namespace Lisplet

def Bracket.opening : Bracket → Kind
  | .list => .lparen
  | .vector => .vector

def quoteNames : List (Char × String) :=
  [('\x27', "quote"), ('\x60', "quasiquote"), (',', "unquote")]

/-- The nested calls inside a sequence from which the first token of its next item is looked for.
In a list the point is looked for there too. -/
def Bracket.gap (bracket : Bracket) (items : List Datum) : Nat :=
  if items = [] ∨ bracket = .list then 1 else 2

/-- The nested calls that an item takes inside its sequence, when it takes so many by itself. -/
def itemCalls (gap : Nat) : Nat → Nat
  | 0 => gap
  | n + 1 => n + 3

inductive Phrase
  | datum (d : Datum)
  /-- Data with white space between them, one at least. -/
  | items (bracket : Bracket) (ds : List Datum)
  /-- Data with white space behind each. -/
  | heads (bracket : Bracket) (ds : List Datum)

/-- The productions. The number counts the nested calls at the deepest look for a token; the first
token of a datum is looked for by those around it. -/
inductive Derives : Nat → List Token → Phrase → Prop
  | literal {t : Token} {d : Datum} : t.Denotes d → Derives 0 [t] (.datum d)
  | quotation {n : Nat} {mark : Char} {name : String} {ts : List Token} {d : Datum} :
      (mark, name) ∈ quoteNames → Derives n ts (.datum d) →
      Derives (n + 1) (⟨.quote, [mark]⟩ :: ts) (.datum (.list [.symbol name, d]))
  | empty {bracket : Bracket} {opening closing : Token} :
      opening.kind = bracket.opening → closing.kind = .rparen →
      Derives 1 [opening, closing] (.datum (bracket.close []))
  | sequence {n : Nat} {bracket : Bracket} {opening closing : Token} {ts : List Token}
      {ds : List Datum} :
      opening.kind = bracket.opening → Derives n ts (.items bracket ds) →
      closing.kind = .rparen →
      Derives n (opening :: (ts ++ [closing])) (.datum (bracket.close ds))
  | dotted {n m : Nat} {opening dot space closing : Token} {ts us : List Token} {ds : List Datum}
      {d : Datum} :
      opening.kind = .lparen → Derives n ts (.heads .list ds) → dot.kind = .dot →
      space.kind = .space → Derives m us (.datum d) → closing.kind = .rparen →
      Derives (max n (m + 3)) (opening :: (ts ++ dot :: space :: (us ++ [closing])))
        (.datum (.dotted ds d))
  | one {n : Nat} {bracket : Bracket} {ts : List Token} {d : Datum} :
      Derives n ts (.datum d) → Derives (itemCalls 1 n) ts (.items bracket [d])
  | more {n m : Nat} {bracket : Bracket} {space : Token} {ts us : List Token} {ds : List Datum}
      {d : Datum} :
      Derives n ts (.items bracket ds) → space.kind = .space → Derives m us (.datum d) →
      Derives (max n (itemCalls (bracket.gap ds) m)) (ts ++ space :: us)
        (.items bracket (ds ++ [d]))
  | none {bracket : Bracket} : Derives 0 [] (.heads bracket [])
  | head {n m : Nat} {bracket : Bracket} {space : Token} {ts us : List Token} {ds : List Datum}
      {d : Datum} :
      Derives n ts (.heads bracket ds) → Derives m us (.datum d) → space.kind = .space →
      Derives (max n (itemCalls (bracket.gap ds) m)) (ts ++ (us ++ [space]))
        (.heads bracket (ds ++ [d]))

section
variable {n m : Nat} {ts us : List Token} {t : Token} {d : Datum} {ds : List Datum}
  {bracket : Bracket}

@[simp] theorem gap_nil (bracket : Bracket) : bracket.gap [] = 1 := if_pos (.inl rfl)

@[simp] theorem gap_list (ds : List Datum) : Bracket.list.gap ds = 1 := if_pos (.inr rfl)

@[simp] theorem gap_reverse (bracket : Bracket) (ds : List Datum) :
    bracket.gap ds.reverse = bracket.gap ds := by
  simp [Bracket.gap]

theorem gap_cons (hds : ds ≠ []) : bracket.gap (d :: ds) = bracket.gap ds := by
  simp [Bracket.gap, hds]

theorem gap_le (bracket : Bracket) (ds : List Datum) : 1 ≤ bracket.gap ds ∧ bracket.gap ds ≤ 2 := by
  unfold Bracket.gap
  split <;> simp

theorem itemCalls_pos {gap : Nat} (hgap : 1 ≤ gap) (n : Nat) : 1 ≤ itemCalls gap n := by
  cases n <;> simp [itemCalls, hgap]

theorem itemCalls_le {gap : Nat} (hgap : gap ≤ 2) (n : Nat) : itemCalls gap n ≤ n + 2 := by
  cases n <;> simp [itemCalls, hgap]

theorem itemCalls_gap (bracket : Bracket) (ds : List Datum) (n : Nat) :
    itemCalls (bracket.gap ds) n = max (bracket.gap ds) (itemCalls 1 n) := by
  obtain ⟨hone, htwo⟩ := gap_le bracket ds
  cases n with
  | zero => exact (max_eq_left hone).symm
  | succ n => exact (max_eq_right (by simp only [itemCalls]; omega)).symm

theorem quoteSymbol?_eq_some {mark : Char} {name : String} (h : (mark, name) ∈ quoteNames) :
    quoteSymbol? [mark] = some name := by
  have hall : ∀ r ∈ quoteNames, quoteSymbol? [r.1] = some r.2 := by decide
  exact hall _ h

theorem Token.Denotes.kind_ne (h : t.Denotes d) :
    ∀ k ∈ [Kind.space, .lparen, .rparen, .vector, .quote, .dot], t.kind ≠ k := by
  cases h <;> simp

theorem Bracket.opening_ne (bracket : Bracket) :
    ∀ k ∈ [Kind.space, .rparen, .dot], bracket.opening ≠ k := by
  cases bracket <;> simp [Bracket.opening]

theorem Derives.exists_first (h : Derives n ts (.datum d)) :
    ∃ t rest, ts = t :: rest ∧ ∀ k ∈ [Kind.space, .rparen, .dot], t.kind ≠ k := by
  cases h with
  | literal ht =>
    refine ⟨_, [], rfl, fun k hk => ht.kind_ne k ?_⟩
    have hsubset : [Kind.space, .rparen, .dot] ⊆
        [.space, .lparen, .rparen, .vector, .quote, .dot] := by decide
    exact hsubset hk
  | quotation => exact ⟨_, _, rfl, by simp⟩
  | empty hopening =>
    refine ⟨_, _, rfl, ?_⟩
    rw [hopening]
    exact Bracket.opening_ne _
  | sequence hopening =>
    refine ⟨_, _, rfl, ?_⟩
    rw [hopening]
    exact Bracket.opening_ne _
  | dotted hopening =>
    refine ⟨_, _, rfl, ?_⟩
    rw [hopening]
    exact Bracket.opening_ne .list

theorem Derives.items_of_heads (h : Derives n ts (.heads bracket ds)) (hd : Derives m us (.datum d)) :
    Derives (max n (itemCalls (bracket.gap ds) m)) (ts ++ us) (.items bracket (ds ++ [d])) := by
  generalize hp : Phrase.heads bracket ds = p at h
  induction h generalizing bracket ds m us d with
  | none =>
    obtain ⟨rfl, rfl⟩ := Phrase.heads.inj hp
    simpa using Derives.one hd
  | head hheads hdatum hspace ih =>
    obtain ⟨rfl, rfl⟩ := Phrase.heads.inj hp
    simpa [List.append_assoc] using (ih hdatum rfl).more hspace hd
  | _ => cases hp

theorem Derives.items_ne_nil (h : Derives n ts (.items bracket ds)) : ds ≠ [] := by
  cases h <;> simp

/-- Data with white space between them with one more datum in front. The next one is now a further
item. -/
theorem Derives.items_cons {space : Token} (hd : Derives m us (.datum d))
    (hspace : space.kind = .space) (h : Derives n ts (.items bracket ds)) :
    Derives (max (itemCalls 1 m) (max (bracket.gap [d]) n)) (us ++ space :: ts)
      (.items bracket (d :: ds)) := by
  generalize hp : Phrase.items bracket ds = p at h
  induction h generalizing bracket ds with
  | one hdatum =>
    obtain ⟨rfl, rfl⟩ := Phrase.items.inj hp
    rw [← itemCalls_gap]
    exact (Derives.one hd).more hspace hdatum
  | more hitems hspace' hdatum ih =>
    obtain ⟨rfl, rfl⟩ := Phrase.items.inj hp
    have hall := (ih rfl).more hspace' hdatum
    rw [gap_cons hitems.items_ne_nil] at hall
    simpa [Nat.max_assoc] using hall
  | _ => cases hp

theorem Derives.heads_cons {space : Token} (hd : Derives m us (.datum d))
    (hspace : space.kind = .space) (h : Derives n ts (.heads .list ds)) :
    Derives (max (itemCalls 1 m) n) (us ++ space :: ts) (.heads .list (d :: ds)) := by
  generalize hp : Phrase.heads .list ds = p at h
  induction h generalizing ds with
  | none =>
    obtain ⟨rfl, rfl⟩ := Phrase.heads.inj hp
    simpa using Derives.none.head hd hspace
  | head _ hdatum hspace' ih =>
    obtain ⟨rfl, rfl⟩ := Phrase.heads.inj hp
    simpa [Nat.max_assoc] using (ih rfl).head hdatum hspace'
  | _ => cases hp

theorem Derives.items_pos (h : Derives n ts (.items bracket ds)) : 1 ≤ n := by
  generalize hp : Phrase.items bracket ds = p at h
  induction h generalizing ds with
  | one => exact itemCalls_pos le_rfl _
  | more _ _ _ ih =>
    obtain ⟨rfl, rfl⟩ := Phrase.items.inj hp
    exact (ih rfl).trans (le_max_left _ _)
  | _ => cases hp

theorem Derives.heads_nil (h : Derives n ts (.heads bracket [])) : ts = [] ∧ n = 0 := by
  generalize hds : ([] : List Datum) = ds at h
  cases h with
  | none => exact ⟨rfl, rfl⟩
  | head => simp at hds

end

end Lisplet
