import Lisplet.Proofs.SourceReading
import Lisplet.Proofs.WrittenTokens

/-! The texts of the tokens that the reader takes are cut into the same tokens again. For each state
of the reader it is enough that what follows could begin the next token that the state takes. -/
namespace Lisplet
open Lexeme Scan Reading

section
variable {room : Room} {t : Token} {ts : List Token} {within : List Context} {d : Datum}
  {r : Reading} {s s' : Step} {rest : List Char}

def Kind.fixed : List Kind := [.lparen, .rparen, .vector, .quote, .bool, .dot]

theorem Token.Genuine.lex_of_fixed (ht : t.Genuine) (hkind : t.kind ∈ Kind.fixed)
    (rest : List Char) : lex (t.text ++ rest) = t :: lex rest := by
  obtain ⟨kind, text⟩ := t
  simp only at hkind
  have hproper : ∀ k ∈ Kind.fixed, k ≠ .error ∧ k.family ≠ .integer := by decide
  obtain ⟨herror, hfamily⟩ := hproper kind hkind
  have hmem : text ∈ kind.language := ht.mem herror
  refine lex_append_of_fixed hmem hfamily (fun v hv => ?_) rest
  simp only [Kind.fixed, List.mem_cons, List.not_mem_nil, or_false] at hkind
  rcases hkind with rfl | rfl | rfl | rfl | rfl | rfl
  · rw [mem_word.mp hv, mem_word.mp hmem]
  · rw [mem_word.mp hv, mem_word.mp hmem]
  · rw [mem_word.mp hv, mem_word.mp hmem]
  · have hone : ∀ v ∈ Kind.quote.language, v.length = 1 := by
      intro v hv
      rcases mem_quote.mp hv with rfl | rfl | rfl <;> rfl
    rw [hone v hv, hone text hmem]
  · have htwo : ∀ v ∈ Kind.bool.language, v.length = 2 := by
      intro v hv
      rcases mem_bool.mp hv with rfl | rfl <;> rfl
    rw [htwo v hv, htwo text hmem]
  · rw [mem_word.mp hv, mem_word.mp hmem]

theorem Token.Genuine.lex_of_literal {e : Except Refusal Datum} (ht : t.Genuine)
    (h : t.literal? = some e) (hrest : Ends rest) : lex (t.text ++ rest) = t :: lex rest := by
  have hmem := ht.mem (Token.ne_error_of_literal? h)
  obtain ⟨kind, text⟩ := t
  cases kind with
  | string => exact lex_append_of_string hmem rest
  | bool => exact ht.lex_of_fixed (by simp [Kind.fixed]) rest
  | symbol | integer | float | ratio | complex | radix | char =>
    exact lex_append_of_ends hmem (by decide) hrest
  | _ => cases h

theorem Token.Genuine.lex_of_space (ht : t.Genuine) (hkind : t.kind = .space)
    (hrest : Stops isBlank rest) : lex (t.text ++ rest) = t :: lex rest := by
  obtain ⟨kind, text⟩ := t
  obtain rfl : kind = .space := hkind
  exact lex_append_of_stops (ht.mem (by simp)) hrest

theorem Token.Genuine.ends_of_space (ht : t.Genuine) (hkind : t.kind = .space) :
    Ends (t.text ++ rest) := by
  have hmem := ht.mem (by simp [hkind])
  rw [hkind] at hmem
  obtain ⟨hne, hblank⟩ := mem_many.mp hmem
  obtain ⟨c, text, htext⟩ := List.exists_cons_of_ne_nil hne
  rw [htext] at hblank ⊢
  exact ends_cons.mpr (.inl (hblank c List.mem_cons_self))

namespace Reading

/-- What may follow when the reader is in this state. Behind white space there is no more of it, and
behind an item the item has ended. -/
def Allows : Reading → List Char → Prop
  | .expression _ | .separated .. => Stops isBlank
  | .opened .. | .point .. => fun _ => True
  | .ended .. | .closing .. => Ends

end Reading

def Step.Allows : Step → List Char → Prop
  | .next r => r.Allows
  | .done _ => Ends
  | .refuse .. => fun _ => False

theorem deliver_allows (h : (deliver d within).Allows rest) : Ends rest := by
  induction within generalizing d with
  | nil => exact h
  | cons context within ih =>
    cases context with
    | quotation mark =>
      rw [deliver] at h
      split at h
      · exact ih h
      · cases h
    | item bracket items => exact h
    | tail items => exact h

theorem begin_lex (ht : t.Genuine) (h : (begin within t).Allows rest) :
    lex (t.text ++ rest) = t :: lex rest := by
  unfold begin at h
  split at h
  · next hkind => exact ht.lex_of_fixed (by simp [hkind, Kind.fixed]) rest
  · next hkind => exact ht.lex_of_fixed (by simp [hkind, Kind.fixed]) rest
  · next hkind => exact ht.lex_of_fixed (by simp [hkind, Kind.fixed]) rest
  · unfold beginLiteral at h
    split at h
    · next hliteral => exact ht.lex_of_literal hliteral (deliver_allows h)
    · cases h
    · cases h

theorem begin_of_space (hkind : t.kind = .space) (within : List Context) :
    begin within t = .refuse (.defect (.unexpected (some t))) false := by
  simp only [begin, beginLiteral, hkind, Token.literal?]

/-- A state that takes a token allows its text, if this is cut off as that token. -/
theorem allows_of_step (ht : t.Genuine) (hlex : lex (t.text ++ rest) = t :: lex rest)
    (h : ∀ why taken, r.step t ≠ .refuse why taken) : r.Allows (t.text ++ rest) := by
  cases r.does t with
  | closes hcloses hkind _ =>
    have hmem := ht.mem (by simp [hkind])
    rw [hkind] at hmem
    cases hcloses with
    | opened => trivial
    | ended | closing =>
      rw [mem_word.mp hmem]
      exact ends_cons.mpr (.inr rfl)
  | moves hmoves _ =>
    cases hmoves with
    | first | tail => trivial
    | dot items within hdot => exact stops_isBlank_of_lex hlex (by simp [hdot])
    | space bracket items within hspace => exact ht.ends_of_space hspace
  | begins hbegins hstep =>
    have hspace : t.kind ≠ .space := by
      intro hkind
      exact h _ _ (hstep.trans (begin_of_space hkind _))
    cases hbegins with
    | first => trivial
    | expression | item => exact stops_isBlank_of_lex hlex hspace
  | refuses hstep => exact absurd hstep (h _ _)

theorem step_lex (ht : t.Genuine) (h : (r.step t).Allows rest) :
    lex (t.text ++ rest) = t :: lex rest := by
  cases r.does t with
  | closes _ hkind _ => exact ht.lex_of_fixed (by simp [hkind, Kind.fixed]) rest
  | moves hmoves hstep =>
    rw [hstep] at h
    cases hmoves with
    | first within hdot | dot items within hdot =>
      exact ht.lex_of_fixed (by simp [hdot, Kind.fixed]) rest
    | space bracket items within hspace | tail items within hspace => exact ht.lex_of_space hspace h
  | begins _ hstep =>
    rw [hstep] at h
    exact begin_lex ht h
  | refuses hstep =>
    rw [hstep] at h
    cases h

theorem step_relex (ht : t.Genuine) (h : (r.step t).Allows rest) :
    lex (t.text ++ rest) = t :: lex rest ∧ r.Allows (t.text ++ rest) := by
  have hlex := step_lex ht h
  have htakes : ∀ why taken, r.step t ≠ .refuse why taken := by
    intro why taken hstep
    rw [hstep] at h
    cases h
  exact ⟨hlex, allows_of_step ht hlex htakes⟩

/-- What a run has taken is cut into the same tokens again. -/
theorem Leads.relex (h : Leads room s ts s') (hts : ∀ t ∈ ts, t.Genuine) (hrest : s'.Allows rest) :
    lex (Token.source ts ++ rest) = ts ++ lex rest ∧ s.Allows (Token.source ts ++ rest) := by
  induction h with
  | refl s => exact ⟨rfl, hrest⟩
  | take _ _ ih =>
    obtain ⟨ht, hts⟩ := List.forall_mem_cons.mp hts
    obtain ⟨hlex, hallows⟩ := ih hts hrest
    rw [Token.source_cons, List.append_assoc, List.cons_append, ← hlex]
    exact step_relex ht hallows

theorem Leads.lex_source (h : Leads room s ts (.done d)) (hts : ∀ t ∈ ts, t.Genuine) :
    lex (Token.source ts) = ts := by
  have hlex := (h.relex hts ends_nil).1
  rwa [List.append_nil, lex_nil, List.append_nil] at hlex

end
end Lisplet
