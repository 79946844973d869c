import Lisplet.Proofs.MaximalMunch
import Lisplet.Proofs.ReadingMachine

/-! The reader does what the machine does. Each of its calls takes the tokens that the machine takes
from the state that the call stands for, and where the call fails the machine refuses what the
stream then stands in front of, or there is no room to look for it. -/
namespace Lisplet

theorem weight_cons (context : Context) (within : List Context) :
    Reading.weight (context :: within) = Reading.weight within + context.weight :=
  Nat.add_comm _ _

namespace Stream

variable {room : Room} {depth : Nat} {s s' s'' : Stream} {t : Token} {ts front more : List Token}
  {found : Option Token}

/-- The second stream is left when some tokens of the first have been taken. -/
structure Passes (s : Stream) (front : List Token) (s' : Stream) : Prop where
  reaches : s.Reaches s'
  ahead_eq : s.ahead = front ++ s'.ahead
  taken_eq : s'.taken = s.taken + front.length
  position_eq : s'.position = s.position.past (Token.source front)

def Fresh (s : Stream) : Prop := s.buffer = [] ∧ s.supply.isLive = true

/-- The next token, or the end, has been looked at. -/
def Looked (s : Stream) : Prop :=
  (∃ t, s.buffer = [t] ∧ s.supply.isLive = true) ∨ s.buffer = [] ∧ s.supply.isLive = false

namespace Passes

theorem refl (s : Stream) : s.Passes [] s := ⟨.refl, rfl, rfl, rfl⟩

theorem trans (h : s.Passes front s') (h' : s'.Passes more s'') :
    s.Passes (front ++ more) s'' where
  reaches := h.reaches.trans h'.reaches
  ahead_eq := by rw [h.ahead_eq, h'.ahead_eq, List.append_assoc]
  taken_eq := by rw [h'.taken_eq, h.taken_eq, List.length_append, Nat.add_assoc]
  position_eq := by
    rw [h'.position_eq, h.position_eq, Token.source_append, Position.past_append]

end Passes

theorem Looked.peek_eq (h : s.Looked) : s.peek.2 = s := by
  obtain ⟨source, supply, buffer, position, taken, pulled⟩ := s
  rcases h with ⟨t, rfl, -⟩ | ⟨rfl, hended⟩
  · rfl
  · cases supply with
    | ended cs => rfl
    | lexer cs => cases hended
    | tokens ts => cases hended

theorem Fresh.peek (h : s.Fresh) : s.peek.2.Looked ∧ s.Passes [] s.peek.2 := by
  have hreaches := Reaches.refl.peek (s := s)
  have hahead : s.ahead = [] ++ s.peek.2.ahead := s.peek_eq.2.symm
  obtain ⟨source, supply, buffer, position, taken, pulled⟩ := s
  obtain ⟨rfl, hlive⟩ := h
  cases supply with
  | lexer cs =>
    cases cs with
    | nil => exact ⟨.inr ⟨rfl, rfl⟩, hreaches, hahead, rfl, rfl⟩
    | cons c cs => exact ⟨.inl ⟨_, rfl, rfl⟩, hreaches, hahead, rfl, rfl⟩
  | tokens ts =>
    cases ts with
    | nil => exact ⟨.inr ⟨rfl, rfl⟩, hreaches, hahead, rfl, rfl⟩
    | cons t ts => exact ⟨.inl ⟨t, rfl, rfl⟩, hreaches, hahead, rfl, rfl⟩
  | ended cs => cases hlive

theorem Looked.advance (h : s.Looked) (ht : s.ahead.head? = some t) :
    s.advance.2.Fresh ∧ s.Passes [t] s.advance.2 := by
  have hreaches : s.Reaches s.advance.2 := .advance .refl
  have hahead := s.advance_eq.2
  obtain ⟨ts, hcons⟩ := List.head?_eq_some_iff.mp ht
  rw [hcons, List.tail_cons] at hahead
  obtain ⟨source, supply, buffer, position, taken, pulled⟩ := s
  rcases h with ⟨u, rfl, hlive⟩ | ⟨rfl, hended⟩
  · obtain rfl : u = t := Option.some.inj ht
    refine ⟨⟨rfl, hlive⟩, hreaches, ?_, rfl, ?_⟩
    · rw [hcons, hahead]
      rfl
    · simp [Stream.advance, Token.source]
  · cases supply with
    | ended cs => cases ht
    | lexer cs => cases hended
    | tokens ts => cases hended

theorem Looked.not_fresh (h : s.Looked) : ¬ s.Fresh := by
  rintro ⟨hbuffer, hlive⟩
  rcases h with ⟨t, ht, -⟩ | ⟨-, hended⟩
  · cases hbuffer.symm.trans ht
  · cases hlive.symm.trans hended

theorem Looked.look_eq (h : s.Looked) (room : Room) (depth : Nat) :
    s.look room depth = (.ok s.ahead.head?, s) := by
  have hsure : ¬ (s.buffer = [] ∧ s.supply.isLive = true ∧ room.admits depth = false) :=
    fun hall => h.not_fresh ⟨hall.1, hall.2.1⟩
  rw [look, if_neg hsure, s.peek_eq.1, h.peek_eq]

end Stream

open Reading

/-- How a call fails that starts where the machine stands behind a step. The machine goes to where
it refuses a token, which it has taken or not, meets the end of the tokens, or has no room. -/
inductive Fails (room : Room) (st : Step) (s : Stream) : Failure → Stream → Prop
  | taken {front : List Token} {why : Refusal} {s' : Stream} :
      Leads room st front (.refuse why true) → s.Passes front s' → s'.Fresh →
      Fails room st s (s'.failOf why) s'
  | stays {front : List Token} {r : Reading} {t : Token} {why : Refusal} {s' : Stream} :
      Leads room st front (.next r) → s.Passes front s' → s'.Looked → s'.ahead.head? = some t →
      room.admits r.need = true → r.step t = .refuse why false →
      Fails room st s (s'.failOf why) s'
  | ended {front : List Token} {r : Reading} {s' : Stream} :
      Leads room st front (.next r) → s.Passes front s' → s'.Looked → s'.ahead.head? = none →
      room.admits r.need = true → Fails room st s (s'.fail (r.defect none)) s'
  | exhausted {front : List Token} {r : Reading} {s' : Stream} :
      Leads room st front (.next r) → s.Passes front s' → s'.Fresh → room.admits r.need = false →
      Fails room st s .exhausted { s' with supply := s'.supply.interrupted }

/-- How a call ends that reads a datum for some purpose. Behind the datum nothing is looked at. -/
inductive Answers (room : Room) (st : Step) (goal : Datum → Step) (s : Stream) :
    Outcome Datum × Stream → Prop
  | ok {front : List Token} {d : Datum} {s' : Stream} :
      Leads room st front (goal d) → s.Passes front s' → s'.Fresh →
      Answers room st goal s (.ok d, s')
  | error {why : Failure} {s' : Stream} :
      Fails room st s why s' → Answers room st goal s (.error why, s')

section
variable {room : Room} {st st' : Step} {s s' s'' : Stream} {front : List Token} {why : Failure}
  {goal : Datum → Step} {answer : Outcome Datum × Stream}

theorem Fails.behind (h : Fails room st' s' why s'') (hrun : Leads room st front st')
    (hpass : s.Passes front s') : Fails room st s why s'' := by
  cases h with
  | taken hrun' hpass' hfresh => exact .taken (hrun.trans hrun') (hpass.trans hpass') hfresh
  | stays hrun' hpass' hlooked ht hroom hstep =>
    exact .stays (hrun.trans hrun') (hpass.trans hpass') hlooked ht hroom hstep
  | ended hrun' hpass' hlooked hend hroom =>
    exact .ended (hrun.trans hrun') (hpass.trans hpass') hlooked hend hroom
  | exhausted hrun' hpass' hfresh hroom =>
    exact .exhausted (hrun.trans hrun') (hpass.trans hpass') hfresh hroom

theorem Answers.behind (h : Answers room st' goal s' answer) (hrun : Leads room st front st')
    (hpass : s.Passes front s') : Answers room st goal s answer := by
  cases h with
  | ok hrun' hpass' hfresh => exact .ok (hrun.trans hrun') (hpass.trans hpass') hfresh
  | error hfails => exact .error (hfails.behind hrun hpass)

theorem Answers.andThen {goal' : Datum → Step} {p : s.Parsed Datum}
    {f : (d : Datum) → (s' : Stream) → p.1 = (.ok d, s') → s'.Parsed Datum}
    (h : Answers room st goal s p.1)
    (hf : ∀ d s' (hp : p.1 = (.ok d, s')), s'.Fresh →
      Answers room (goal d) goal' s' (f d s' hp).1) :
    Answers room st goal' s (p.andThen f).1 := by
  obtain ⟨o, s', hp⟩ : ∃ o s', p.1 = (o, s') := ⟨_, _, rfl⟩
  cases o with
  | error why =>
    rw [hp] at h
    rw [Stream.Parsed.andThen_of_error hp]
    cases h with
    | error hfails => exact .error hfails
  | ok d =>
    have hanswers := h
    rw [hp] at hanswers
    rw [Stream.Parsed.andThen_of_ok hp]
    cases hanswers with
    | ok hrun hpass hfresh => exact (hf d s' hp hfresh).behind hrun hpass

end

namespace Stream

section
variable {room : Room} {depth : Nat} {s s' : Stream} {t : Token} {r : Reading} {d : Datum}
  {bracket : Bracket} {items : List Datum} {within : List Context} {goal : Datum → Step}
  {kind : Kind} {wanted : String} {found : Option Token}

/-- The machine waits for its next token, which has been looked at or is looked for so many calls
inside. -/
inductive Asks (room : Room) (r : Reading) (depth : Nat) (s : Stream) : Prop
  | fresh : s.Fresh → r.need = depth → Asks room r depth s
  | looked : s.Looked → room.admits r.need = true → Asks room r depth s

theorem Asks.look (h : s.Asks room r depth) :
    (∃ s', (s.looking room depth).1 = (.error .exhausted, s') ∧
      Fails room (.next r) s .exhausted s') ∨
    ∃ found s', (s.looking room depth).1 = (.ok found, s') ∧ s'.ahead.head? = found ∧
      s'.Looked ∧ s.Passes [] s' ∧ room.admits r.need = true := by
  cases h with
  | fresh hfresh hdepth =>
    subst hdepth
    by_cases hroom : room.admits r.need = true
    · obtain ⟨hlooked, hpass⟩ := hfresh.peek
      refine .inr ⟨s.peek.1, s.peek.2, ?_, ?_, hlooked, hpass, hroom⟩
      · simp only [looking]
        rw [Stream.look, if_neg (by simp [hroom])]
      · rw [s.peek_eq.1, s.peek_eq.2]
    · have hnone : room.admits r.need = false := Bool.eq_false_of_not_eq_true hroom
      refine .inl ⟨_, ?_, .exhausted (.refl _) (.refl s) hfresh hnone⟩
      simp only [looking]
      rw [Stream.look, if_pos ⟨hfresh.1, hfresh.2, hnone⟩]
  | looked hlooked hroom =>
    exact .inr ⟨_, s, hlooked.look_eq room depth, rfl, hlooked, .refl s, hroom⟩

/-- A look at the next token, and what is done behind it. -/
theorem Asks.answers
    {f : (found : Option Token) → (s' : Stream) → (s.looking room depth).1 = (.ok found, s') →
      s'.Parsed Datum}
    (h : s.Asks room r depth)
    (hf : ∀ found s' hlook, s'.ahead.head? = found → s'.Looked → s.Passes [] s' →
      room.admits r.need = true → Answers room (.next r) goal s' (f found s' hlook).1) :
    Answers room (.next r) goal s ((s.looking room depth).andThen f).1 := by
  rcases h.look with ⟨s', hlook, hfails⟩ | ⟨found, s', hlook, hfound, hlooked, hpass, hroom⟩
  · rw [Parsed.andThen_of_error hlook]
    exact .error hfails
  · rw [Parsed.andThen_of_ok hlook]
    exact (hf found s' hlook hfound hlooked hpass hroom).behind (.refl _) hpass

theorem Looked.answers
    {f : (u : Unit) → (s' : Stream) → (s.taking ()).1 = (.ok u, s') → s'.Parsed Datum}
    (h : s.Looked) (ht : s.ahead.head? = some t) (hroom : room.admits r.need = true)
    (hf : ∀ s' htake, s'.Fresh → s.Passes [t] s' →
      Answers room (r.step t) goal s' (f () s' htake).1) :
    Answers room (.next r) goal s ((s.taking ()).andThen f).1 := by
  obtain ⟨hfresh, hpass⟩ := h.advance ht
  have htake : (s.taking ()).1 = (.ok (), s.advance.2) := rfl
  rw [Parsed.andThen_of_ok htake]
  exact (hf s.advance.2 htake hfresh hpass).behind (.single hroom rfl) hpass

variable (room) in
theorem Fresh.expects (hfresh : s.Fresh) (hneed : r.need = depth)
    (hwanted : r.wanted? = some wanted) (hrefuse : ∀ t, t.kind ≠ kind → r.step t = r.refuse t) :
    (∃ why s', (s.expecting room depth kind wanted).1 = (.error why, s') ∧
      Fails room (.next r) s why s') ∨
    ∃ t s', (s.expecting room depth kind wanted).1 = (.ok (), s') ∧ t.kind = kind ∧
      room.admits r.need = true ∧ s.Passes [t] s' ∧ s'.Fresh := by
  have hdefect (found : Option Token) : r.defect found = .expecting found wanted := by
    rw [defect, hwanted]
  have hasks : s.Asks room r depth := .fresh hfresh hneed
  unfold expecting
  rcases hasks.look with ⟨s₁, hlook, hfails⟩ | ⟨found, s₁, hlook, hfound, hlooked, hpass, hroom⟩
  · exact .inl ⟨.exhausted, s₁, Parsed.andThen_of_error hlook, hfails⟩
  · rw [Parsed.andThen_of_ok hlook]
    cases found with
    | none =>
      refine .inl ⟨_, s₁, rfl, ?_⟩
      rw [← hdefect]
      exact .ended (.refl _) hpass hlooked hfound hroom
    | some t =>
      by_cases hkind : t.kind = kind
      · obtain ⟨hfresh', hpass'⟩ := hlooked.advance hfound
        refine .inr ⟨t, s₁.advance.2, ?_, hkind, hroom, hpass.trans hpass', hfresh'⟩
        simp [hkind, taking]
      · refine .inl ⟨s₁.fail (.expecting (some t) wanted), s₁, ?_, ?_⟩
        · simp [hkind, Parsed.error]
        · rw [← hdefect]
          exact .stays (.refl _) hpass hlooked hfound hroom (hrefuse t hkind)

theorem Fresh.expecting_answers
    {f : (u : Unit) → (s' : Stream) → (s.expecting room depth kind wanted).1 = (.ok u, s') →
      s'.Parsed Datum}
    (hfresh : s.Fresh) (hneed : r.need = depth) (hwanted : r.wanted? = some wanted)
    (hrefuse : ∀ t, t.kind ≠ kind → r.step t = r.refuse t)
    (hf : ∀ t s' hexpect, t.kind = kind → s'.Fresh →
      Answers room (r.step t) goal s' (f () s' hexpect).1) :
    Answers room (.next r) goal s ((s.expecting room depth kind wanted).andThen f).1 := by
  rcases hfresh.expects room hneed hwanted hrefuse with
    ⟨why, s', hexpect, hfails⟩ | ⟨t, s', hexpect, hkind, hroom, hpass, hfresh'⟩
  · rw [Parsed.andThen_of_error hexpect]
    exact .error hfails
  · rw [Parsed.andThen_of_ok hexpect]
    exact (hf t s' hexpect hkind hfresh').behind (.single hroom rfl) hpass

theorem literal_answers (hlooked : s.Looked) (ht : s.ahead.head? = some t)
    (hroom : room.admits r.need = true) (hstep : r.step t = begin within t)
    (hquote : t.kind ≠ .quote) (hlist : t.kind ≠ .lparen) (hvector : t.kind ≠ .vector) :
    Answers room (.next r) (deliver · within) s (s.literal t).1 := by
  obtain ⟨hfresh, hpass⟩ := hlooked.advance ht
  have hbegin := hstep.trans (begin_eq_beginLiteral hquote hlist hvector within)
  unfold literal
  split
  · next d hliteral =>
    rw [beginLiteral, hliteral] at hbegin
    exact .ok (.single hroom hbegin) hpass hfresh
  · next why hliteral =>
    rw [beginLiteral, hliteral] at hbegin
    split
    · next hfirst =>
      rw [hfirst] at hbegin
      exact .error (.taken (.single hroom hbegin) hpass hfresh)
    · next hfirst =>
      rw [Bool.eq_false_of_not_eq_true hfirst] at hbegin
      exact .error (.stays (.refl _) (.refl s) hlooked ht hroom hbegin)
  · next hliteral =>
    rw [beginLiteral, hliteral] at hbegin
    exact .error (.stays (.refl _) (.refl s) hlooked ht hroom hbegin)

def ReadsExpr (room : Room) (s : Stream) : Prop :=
  ∀ (r : Reading) (within : List Context), r.Begins within →
    (∀ t, s.ahead.head? = some t → r.step t = begin within t) →
    s.Asks room r (weight within) →
    Answers room (.next r) (deliver · within) s (s.parseExpr room (weight within)).1

theorem parseDottedTail_answers
    (ih : ∀ u : Stream, u.ahead.length < s.ahead.length → u.ReadsExpr room)
    (hlooked : s.Looked) (ht : s.ahead.head? = some t) (hroom : room.admits r.need = true)
    (hstep : r.step t = .next (.point items within)) :
    Answers room (.next r) (deliver · within) s
      (s.parseDottedTail room (weight within + 2) items).1 := by
  have hdepth : weight (.tail items :: within) = weight within + 2 + 1 := weight_cons _ _
  rw [parseDottedTail]
  refine hlooked.answers ht hroom fun s₁ htake hfresh₁ hpass₁ => ?_
  rw [hstep]
  -- Behind the point come white space, the tail and the closing bracket.
  refine hfresh₁.expecting_answers rfl rfl (fun u hu => if_neg hu) ?_
  intro u s₂ hspace hkind hfresh₂
  have hless : s₂.ahead.length < s.ahead.length :=
    Nat.lt_of_lt_of_le (expecting_lt hspace) hpass₁.reaches.ahead_le
  have htail := ih s₂ hless (.expression (.tail items :: within)) _ (.expression _) (fun _ _ => rfl)
    (.fresh hfresh₂ rfl)
  rw [hdepth] at htail
  rw [step, if_pos hkind]
  refine htail.andThen fun d s₃ _ hfresh₃ => ?_
  refine hfresh₃.expecting_answers rfl rfl (fun u hu => if_neg hu) ?_
  intro u s₄ _ hkind hfresh₄
  rw [step, if_pos hkind]
  exact .ok (.refl _) (.refl s₄) hfresh₄

/-- Where the loop over the items of a sequence stands: in front of the first item, which has been
looked at and is no closing bracket, or behind the white space after an item. -/
inductive AtItem (room : Room) (bracket : Bracket) (within : List Context) (s : Stream) :
    List Datum → Reading → Prop
  | first : s.Looked → room.admits (weight within + 1) = true →
      (∀ t, s.ahead.head? = some t → t.kind ≠ .rparen) →
      AtItem room bracket within s [] (.opened bracket within)
  | further (items : List Datum) : s.Fresh →
      AtItem room bracket within s items (.separated bracket items within)

theorem AtItem.begins (h : s.AtItem room bracket within items r) :
    r.Begins (.item bracket items :: within) := by
  cases h with
  | first => exact .first bracket within
  | further => exact .item bracket items within

theorem AtItem.step_eq (h : s.AtItem room bracket within items r) (ht : s.ahead.head? = some t) :
    r.step t = if t.kind = .dot ∧ bracket = .list then .next (.point items within)
      else begin (.item bracket items :: within) t := by
  cases h with
  | first _ _ hother => exact if_neg (hother t ht)
  | further => rfl

theorem AtItem.asks_list (h : s.AtItem room .list within items r) :
    s.Asks room r (weight within + 1) := by
  cases h with
  | first hlooked hroom => exact .looked hlooked hroom
  | further items hfresh => exact .fresh hfresh rfl

theorem AtItem.asks_vector (h : s.AtItem room .vector within items r) :
    s.Asks room r (weight within + 2) := by
  cases h with
  | first hlooked hroom => exact .looked hlooked hroom
  | further items hfresh => exact .fresh hfresh rfl

theorem AtItem.pointing (h : s.AtItem room bracket within items r) :
    (∃ s', (s.pointing room (weight within + 1) bracket).1 = (.error .exhausted, s') ∧
      Fails room (.next r) s .exhausted s') ∨
    ∃ dotted s', (s.pointing room (weight within + 1) bracket).1 = (.ok dotted, s') ∧
      s.Passes [] s' ∧ s'.Asks room r (weight within + 2) ∧
      (dotted = true → s'.Looked ∧ room.admits r.need = true ∧
        ∃ t, s'.ahead.head? = some t ∧ t.kind = .dot ∧ bracket = .list) ∧
      (dotted = false → ∀ t, s'.ahead.head? = some t → ¬ (t.kind = .dot ∧ bracket = .list)) := by
  cases bracket with
  | list =>
    rcases h.asks_list.look with
      ⟨s₁, hlook, hfails⟩ | ⟨found, s₁, hlook, hfound, hlooked, hpass, hroom⟩
    · exact .inl ⟨s₁, Parsed.andThen_of_error hlook, hfails⟩
    · refine .inr ⟨_, s₁, Parsed.andThen_of_ok hlook, hpass, .looked hlooked hroom, ?_, ?_⟩
      · intro hdot
        obtain ⟨t, ht, hkind⟩ := Option.map_eq_some_iff.mp (of_decide_eq_true hdot)
        exact ⟨hlooked, hroom, t, hfound.trans ht, hkind, rfl⟩
      · rintro hother t ht ⟨hkind, -⟩
        rw [← hfound, ht] at hother
        exact of_decide_eq_false hother (congrArg some hkind)
  | vector =>
    refine .inr ⟨false, s, rfl, .refl s, h.asks_vector, fun hdot => ?_, ?_⟩
    · cases hdot
    · rintro - t - ⟨-, hlist⟩
      cases hlist

/-- Behind an item nothing else may come than white space or the closing bracket. -/
theorem Looked.fails_ended (hlooked : s.Looked) (hfound : s.ahead.head? = found)
    (hroom : room.admits (Reading.ended bracket items within).need = true)
    (hrparen : found.map Token.kind ≠ some .rparen) (hspace : found.map Token.kind ≠ some .space) :
    Fails room (.next (.ended bracket items within)) s
      (s.fail (.expecting found "space or ')'")) s := by
  cases found with
  | none => exact .ended (.refl _) (.refl s) hlooked hfound hroom
  | some t =>
    have hrefuse : (Reading.ended bracket items within).step t =
        (Reading.ended bracket items within).refuse t := by
      have hclosing : t.kind ≠ .rparen := fun ht => hrparen (congrArg some ht)
      have hblank : t.kind ≠ .space := fun ht => hspace (congrArg some ht)
      simp only [step, hclosing, hblank, if_false]
    exact .stays (.refl _) (.refl s) hlooked hfound hroom hrefuse

theorem parseItems_answers
    (ih : ∀ u : Stream, u.ahead.length ≤ s.ahead.length → u.ReadsExpr room)
    (h : s.AtItem room bracket within items r) :
    Answers room (.next r) (deliver · within) s
      (s.parseItems room (weight within + 1) bracket items).1 := by
  induction hn : s.ahead.length using Nat.strong_induction_on generalizing s items r with
  | _ n ihn =>
    subst hn
    rw [parseItems]
    rcases h.pointing with ⟨s₁, hpoint, hfails⟩ | ⟨dotted, s₁, hpoint, hpass, hasks, hdot, hother⟩
    · rw [Parsed.andThen_of_error hpoint]
      exact .error hfails
    rw [Parsed.andThen_of_ok hpoint]
    refine Answers.behind ?_ (.refl _) hpass
    have hahead : s.ahead = s₁.ahead := hpass.ahead_eq
    cases dotted with
    | true =>
      obtain ⟨hlooked, hroom, t, ht, hkind⟩ := hdot rfl
      have hstep := (h.step_eq (hahead ▸ ht)).trans (if_pos hkind)
      rw [if_pos rfl]
      exact parseDottedTail_answers (fun u hu => ih u (hahead ▸ hu.le)) hlooked ht hroom hstep
    | false =>
      have hstep : ∀ t, s₁.ahead.head? = some t →
          r.step t = begin (.item bracket items :: within) t := fun t ht =>
        (h.step_eq (hahead ▸ ht)).trans (if_neg (hother rfl t ht))
      have hdepth : weight (.item bracket items :: within) = weight within + 2 := weight_cons _ _
      have hexpr := ih s₁ (hahead ▸ le_rfl) r _ h.begins hstep (hdepth ▸ hasks)
      rw [hdepth] at hexpr
      rw [if_neg Bool.false_ne_true]
      refine hexpr.andThen fun d s₂ hitem hfresh₂ => ?_
      have hended : s₂.Asks room (.ended bracket (d :: items) within) (weight within + 1) :=
        .fresh hfresh₂ rfl
      refine hended.answers fun found s₃ _ hfound hlooked hpass₃ hroom => ?_
      split
      · next hkind =>
        obtain ⟨t, rfl, hrparen⟩ := Option.map_eq_some_iff.mp hkind
        obtain ⟨hfresh₄, hpass₄⟩ := hlooked.advance hfound
        exact .ok (.single hroom (if_pos hrparen)) hpass₄ hfresh₄
      · next hkind =>
        obtain ⟨t, rfl, hspace⟩ := Option.map_eq_some_iff.mp hkind
        refine hlooked.answers hfound hroom fun s₄ _ hfresh₄ hpass₄ => ?_
        have hnext : (Reading.ended bracket (d :: items) within).step t =
            .next (.separated bracket (d :: items) within) := by simp [step, hspace]
        have hless : s₄.ahead.length < s.ahead.length := by
          have hle := (hpass.reaches.trans (Parsed.reaches hitem)).ahead_le
          rw [hpass₃.ahead_eq, List.nil_append, hpass₄.ahead_eq] at hle
          exact hle
        rw [hnext]
        exact ihn _ hless (fun u hu => ih u (hu.trans hless.le)) (.further _ hfresh₄) rfl
      · next hrparen hspace => exact .error (hlooked.fails_ended hfound hroom hrparen hspace)

theorem parseSequence_answers
    (ih : ∀ u : Stream, u.ahead.length ≤ s.ahead.length → u.ReadsExpr room)
    (hfresh : s.Fresh) (bracket : Bracket) (within : List Context) :
    Answers room (.next (.opened bracket within)) (deliver · within) s
      (s.parseSequence room (weight within + 1) bracket).1 := by
  have hopened : s.Asks room (.opened bracket within) (weight within + 1) := .fresh hfresh rfl
  rw [parseSequence]
  refine hopened.answers fun found s₁ _ hfound hlooked hpass hroom => ?_
  split
  · next hkind =>
    obtain ⟨t, rfl, hrparen⟩ := Option.map_eq_some_iff.mp hkind
    obtain ⟨hfresh₂, hpass₂⟩ := hlooked.advance hfound
    exact .ok (.single hroom (if_pos hrparen)) hpass₂ hfresh₂
  · next hkind =>
    have hahead : s.ahead = s₁.ahead := hpass.ahead_eq
    have hother : ∀ t, s₁.ahead.head? = some t → t.kind ≠ .rparen := by
      intro t ht hrparen
      rw [← hfound, ht] at hkind
      exact hkind (congrArg some hrparen)
    exact parseItems_answers (fun u hu => ih u (hahead ▸ hu)) (.first hlooked hroom hother)

theorem quoted_answers (hfresh : s.Fresh) (mark : List Char) (d : Datum) (within : List Context) :
    Answers room (deliver d (.quotation mark :: within)) (deliver · within) s
      (s.quoted mark d).1 := by
  unfold quoted
  split
  · next name hname =>
    simp only [deliver, hname]
    exact .ok (.refl _) (.refl s) hfresh
  · next hname =>
    simp only [deliver, hname]
    exact .error (.taken (.refl _) (.refl s) hfresh)

theorem parseExpr_answers (ih : ∀ u : Stream, u.ahead.length < s.ahead.length → u.ReadsExpr room) :
    s.ReadsExpr room := by
  intro r within hbegins hstep hasks
  rw [parseExpr]
  refine hasks.answers fun found s₁ _ hfound hlooked hpass hroom => ?_
  have hahead : s.ahead = s₁.ahead := hpass.ahead_eq
  cases found with
  | none =>
    simp only
    rw [← hbegins.defect_none]
    exact .error (.ended (.refl _) (.refl s₁) hlooked hfound hroom)
  | some t =>
    have hbegin : r.step t = begin within t := hstep t (hahead ▸ hfound)
    have hless {s₂ : Stream} (hpass₂ : s₁.Passes [t] s₂) : s₂.ahead.length < s.ahead.length := by
      rw [hahead, hpass₂.ahead_eq]
      exact Nat.lt_succ_self _
    have hle {s₂ : Stream} (hpass₂ : s₁.Passes [t] s₂) (u : Stream)
        (hu : u.ahead.length ≤ s₂.ahead.length) : u.ReadsExpr room :=
      ih u (hu.trans_lt (hless hpass₂))
    simp only
    split
    · next hkind =>
      have hdepth : weight (.quotation t.text :: within) = weight within + 1 := weight_cons _ _
      refine hlooked.answers hfound hroom fun s₂ _ hfresh₂ hpass₂ => ?_
      have hexpr := ih s₂ (hless hpass₂) (.expression (.quotation t.text :: within)) _
        (.expression _) (fun _ _ => rfl) (.fresh hfresh₂ rfl)
      rw [hdepth] at hexpr
      rw [hbegin, begin, hkind]
      exact hexpr.andThen fun d s₃ _ hfresh₃ => quoted_answers hfresh₃ _ _ _
    · next hkind =>
      refine hlooked.answers hfound hroom fun s₂ _ hfresh₂ hpass₂ => ?_
      rw [hbegin, begin, hkind]
      exact parseSequence_answers (hle hpass₂) hfresh₂ .list within
    · next hkind =>
      refine hlooked.answers hfound hroom fun s₂ _ hfresh₂ hpass₂ => ?_
      rw [hbegin, begin, hkind]
      exact parseSequence_answers (hle hpass₂) hfresh₂ .vector within
    · next hquote hlist hvector =>
      exact literal_answers hlooked hfound hroom hbegin hquote hlist hvector

theorem readsExpr (room : Room) (s : Stream) : s.ReadsExpr room := by
  induction hn : s.ahead.length using Nat.strong_induction_on generalizing s with
  | _ n ih =>
    subst hn
    exact parseExpr_answers fun u hu => ih _ hu u rfl

end
end Stream
end Lisplet
