import Lisplet.Reading

/-! The reader as a machine that takes one token at a time. A stack of the sequences and quotations
that are still open stands for the calls of the reader, so what is done with a token depends only on
the tokens before it. A step completes a datum, moves on behind a separator, begins an expression or
refuses its token; a run is a chain of steps, one for each token, and it is the only one. -/
namespace Lisplet

/-- What the expression that is read next belongs to. Items are kept with the last one first. -/
inductive Context
  | quotation (mark : List Char)
  | item (bracket : Bracket) (items : List Datum)
  | tail (items : List Datum)

/-- What comes next. Behind the point of a dotted list this is white space. -/
inductive Reading
  | expression (within : List Context)
  | opened (bracket : Bracket) (within : List Context)
  | ended (bracket : Bracket) (items : List Datum) (within : List Context)
  | separated (bracket : Bracket) (items : List Datum) (within : List Context)
  | point (items : List Datum) (within : List Context)
  | closing (items : List Datum) (tail : Datum) (within : List Context)

def Context.weight : Context → Nat
  | .quotation _ => 1
  | .item .. => 2
  | .tail _ => 3

/-- What taking one token leads to. A token that is refused stays, unless it is said to be taken. -/
inductive Step
  | next (state : Reading)
  | done (value : Datum)
  | refuse (why : Refusal) (taken : Bool)

namespace Reading

def weight : List Context → Nat
  | [] => 0
  | context :: within => context.weight + weight within

/-- A datum is complete: it ends the quotations around it and goes to the innermost sequence. -/
def deliver (d : Datum) : List Context → Step
  | [] => .done d
  | .quotation mark :: within =>
    match quoteSymbol? mark with
    | some name => deliver (.list [.symbol name, d]) within
    | none => .refuse (.malformed (.unknownMark mark)) true
  | .item bracket items :: within => .next (.ended bracket (d :: items) within)
  | .tail items :: within => .next (.closing items d within)

def beginLiteral (within : List Context) (t : Token) : Step :=
  match t.literal? with
  | some (.ok d) => deliver d within
  | some (.error why) => .refuse why t.takenFirst
  | none => .refuse (.defect (.unexpected (some t))) false

def begin (within : List Context) (t : Token) : Step :=
  match t.kind with
  | .quote => .next (.expression (.quotation t.text :: within))
  | .lparen => .next (.opened .list within)
  | .vector => .next (.opened .vector within)
  | _ => beginLiteral within t

theorem begin_eq_beginLiteral {t : Token} (hquote : t.kind ≠ .quote) (hlist : t.kind ≠ .lparen)
    (hvector : t.kind ≠ .vector) (within : List Context) : begin within t = beginLiteral within t := by
  unfold begin
  split <;> first | contradiction | rfl

def wanted? : Reading → Option String
  | .expression _ | .opened .. | .separated .. => none
  | .ended .. => some "space or ')'"
  | .point .. => some "space after '.'"
  | .closing .. => some "')' after dotted tail"

def defect (r : Reading) (found : Option Token) : Defect :=
  match r.wanted? with
  | none => .unexpected found
  | some wanted => .expecting found wanted

def refuse (r : Reading) (t : Token) : Step := .refuse (.defect (r.defect (some t))) false

def step (r : Reading) (t : Token) : Step :=
  match r with
  | .expression within => begin within t
  | .opened bracket within =>
    if t.kind = .rparen then deliver (bracket.close []) within
    else if t.kind = .dot ∧ bracket = .list then .next (.point [] within)
    else begin (.item bracket [] :: within) t
  | .ended bracket items within =>
    if t.kind = .rparen then deliver (bracket.close items.reverse) within
    else if t.kind = .space then .next (.separated bracket items within)
    else r.refuse t
  | .separated bracket items within =>
    if t.kind = .dot ∧ bracket = .list then .next (.point items within)
    else begin (.item bracket items :: within) t
  | .point items within =>
    if t.kind = .space then .next (.expression (.tail items :: within)) else r.refuse t
  | .closing items tail within =>
    if t.kind = .rparen then deliver (.dotted items.reverse tail) within else r.refuse t

/-- The nested calls inside which the next token is looked for. A further item of a vector is looked
for only where it is read. -/
def need : Reading → Nat
  | .expression within => weight within
  | .opened _ within | .ended _ _ within | .separated .list _ within => weight within + 1
  | .separated .vector _ within => weight within + 2
  | .point _ within | .closing _ _ within => weight within + 3

structure Ending where
  result : Except Refusal Datum
  taken : Nat

/-- Reads on until a datum is complete, a token is refused, or there is no room to look for one. -/
def run (room : Room) : Reading → List Token → Ending
  | r, [] => ⟨.error (if room.admits r.need then .defect (r.defect none) else .tooDeep), 0⟩
  | r, t :: ts =>
    if room.admits r.need then
      match r.step t with
      | .next r' =>
        let ending := run room r' ts
        { ending with taken := ending.taken + 1 }
      | .done d => ⟨.ok d, 1⟩
      | .refuse why true => ⟨.error why, 1⟩
      | .refuse why false => ⟨.error why, 0⟩
    else ⟨.error .tooDeep, 0⟩

def datum (room : Room) (ts : List Token) : Ending := run room (.expression []) ts

inductive Closes : Reading → Datum → List Context → Prop
  | opened (bracket : Bracket) (within : List Context) :
      Closes (.opened bracket within) (bracket.close []) within
  | ended (bracket : Bracket) (items : List Datum) (within : List Context) :
      Closes (.ended bracket items within) (bracket.close items.reverse) within
  | closing (items : List Datum) (tail : Datum) (within : List Context) :
      Closes (.closing items tail within) (.dotted items.reverse tail) within

inductive Moves (t : Token) : Reading → Reading → Prop
  | first (within : List Context) :
      t.kind = .dot → Moves t (.opened .list within) (.point [] within)
  | dot (items : List Datum) (within : List Context) :
      t.kind = .dot → Moves t (.separated .list items within) (.point items within)
  | space (bracket : Bracket) (items : List Datum) (within : List Context) :
      t.kind = .space → Moves t (.ended bracket items within) (.separated bracket items within)
  | tail (items : List Datum) (within : List Context) :
      t.kind = .space → Moves t (.point items within) (.expression (.tail items :: within))

inductive Begins : Reading → List Context → Prop
  | expression (within : List Context) : Begins (.expression within) within
  | first (bracket : Bracket) (within : List Context) :
      Begins (.opened bracket within) (.item bracket [] :: within)
  | item (bracket : Bracket) (items : List Datum) (within : List Context) :
      Begins (.separated bracket items within) (.item bracket items :: within)

/-- What a step can do. -/
inductive Does (r : Reading) (t : Token) : Prop
  | closes {d : Datum} {within : List Context} : r.Closes d within → t.kind = .rparen →
      r.step t = deliver d within → Does r t
  | moves {r' : Reading} : r.Moves t r' → r.step t = .next r' → Does r t
  | begins {within : List Context} : r.Begins within → r.step t = begin within t → Does r t
  | refuses : r.step t = r.refuse t → Does r t

theorem does (r : Reading) (t : Token) : r.Does t := by
  cases r with
  | expression within => exact .begins (.expression within) rfl
  | opened bracket within =>
    by_cases hclosing : t.kind = .rparen
    · exact .closes (.opened bracket within) hclosing (if_pos hclosing)
    · by_cases hdot : t.kind = .dot ∧ bracket = .list
      · obtain ⟨hkind, rfl⟩ := hdot
        exact .moves (.first within hkind) (by simp [step, hkind])
      · exact .begins (.first bracket within) (by simp only [step, hclosing, hdot, if_false])
  | ended bracket items within =>
    by_cases hclosing : t.kind = .rparen
    · exact .closes (.ended bracket items within) hclosing (if_pos hclosing)
    · by_cases hspace : t.kind = .space
      · exact .moves (.space bracket items within hspace) (by simp [step, hspace])
      · exact .refuses (by simp only [step, hclosing, hspace, if_false])
  | separated bracket items within =>
    by_cases hdot : t.kind = .dot ∧ bracket = .list
    · obtain ⟨hkind, rfl⟩ := hdot
      exact .moves (.dot items within hkind) (by simp [step, hkind])
    · exact .begins (.item bracket items within) (if_neg hdot)
  | point items within =>
    by_cases hspace : t.kind = .space
    · exact .moves (.tail items within hspace) (if_pos hspace)
    · exact .refuses (if_neg hspace)
  | closing items tail within =>
    by_cases hclosing : t.kind = .rparen
    · exact .closes (.closing items tail within) hclosing (if_pos hclosing)
    · exact .refuses (if_neg hclosing)

theorem Begins.defect_none {r : Reading} {within : List Context} (h : r.Begins within) :
    r.defect none = .unexpected none := by
  cases h <;> rfl

end Reading

/-- Taking some tokens leads from the outcome of a step to that of a later one. -/
inductive Leads (room : Room) : Step → List Token → Step → Prop
  | refl (s : Step) : Leads room s [] s
  | take {r : Reading} {t : Token} {ts : List Token} {s : Step} :
      room.admits r.need = true → Leads room (r.step t) ts s → Leads room (.next r) (t :: ts) s

namespace Leads

variable {room : Room} {s s' s'' : Step} {r : Reading} {t : Token} {ts us rest : List Token}
  {d d' : Datum}

theorem trans (h : Leads room s ts s') (h' : Leads room s' us s'') :
    Leads room s (ts ++ us) s'' := by
  induction h with
  | refl s => exact h'
  | take hroom _ ih => exact .take hroom (ih h')

theorem single (hroom : room.admits r.need = true) (h : r.step t = s) :
    Leads room (.next r) [t] s :=
  .take hroom (h ▸ .refl _)

theorem snoc (h : Leads room s ts (.next r)) (hroom : room.admits r.need = true)
    (hstep : r.step t = s') : Leads room s (ts ++ [t]) s' :=
  h.trans (single hroom hstep)

/-- The reader stops at the first datum, wherever the tokens end. -/
theorem done_unique (h : Leads room s ts (.done d)) (h' : Leads room s us (.done d'))
    (hts : ts <+: rest) (hus : us <+: rest) : ts = us ∧ d = d' := by
  generalize hs : Step.done d = last at h
  induction h generalizing us rest with
  | refl =>
    subst hs
    cases h'
    exact ⟨rfl, rfl⟩
  | take _ _ ih =>
    cases h' with
    | take _ h' =>
      cases rest with
      | nil => cases List.prefix_nil.mp hts
      | cons t rest =>
        obtain ⟨rfl, hfront⟩ := List.cons_prefix_cons.mp hts
        obtain ⟨rfl, hfront'⟩ := List.cons_prefix_cons.mp hus
        obtain ⟨rfl, hd⟩ := ih h' hfront hfront' hs
        exact ⟨rfl, hd⟩

end Leads

namespace Step

section
variable {room : Room} {s s' : Step} {ts : List Token}

def ending (room : Room) : Step → List Token → Reading.Ending
  | .next r, ts => r.run room ts
  | .done d, _ => ⟨.ok d, 0⟩
  | .refuse why _, _ => ⟨.error why, 0⟩

theorem ending_next_cons {r : Reading} {t : Token} (hroom : room.admits r.need = true)
    (h : ∀ why, r.step t ≠ .refuse why false) (ts : List Token) :
    ending room (.next r) (t :: ts) =
      { ending room (r.step t) ts with taken := (ending room (r.step t) ts).taken + 1 } := by
  rw [ending, Reading.run, if_pos hroom]
  cases hstep : r.step t with
  | next r' => rfl
  | done d => rfl
  | refuse why taken =>
    cases taken with
    | true => rfl
    | false => exact absurd hstep (h why)

theorem ending_append (h : Leads room s ts s') (hs' : ∀ why, s' ≠ .refuse why false)
    (rest : List Token) :
    ending room s (ts ++ rest) =
      { ending room s' rest with taken := (ending room s' rest).taken + ts.length } := by
  induction h with
  | refl s => rfl
  | @take r t ts s' hroom hrun ih =>
    have hstep : ∀ why, r.step t ≠ .refuse why false := by
      intro why heq
      rw [heq] at hrun
      cases hrun
      exact hs' why rfl
    rw [List.cons_append, ending_next_cons hroom hstep, ih hs', List.length_cons, Nat.add_assoc]

end

end Step

end Lisplet
