import Lisplet.Proofs.Outcome
import Lisplet.Proofs.ReadingRun

/-! How much room a reading takes. The room decides only whether the next token is looked for, so in
less room a reading is the same or ends for want of room. Each token lets the open sequences and
quotations take at most two calls more. -/
namespace Lisplet

theorem Room.admits_of_le {room room' : Room} {n : Nat} (h : room ≤ room')
    (hn : room.admits n = true) : room'.admits n = true := by
  cases h with
  | unlimited => rfl
  | frames hle =>
    simp only [admits, decide_eq_true_eq] at hn ⊢
    omega

theorem Leads.of_le {room room' : Room} {s s' : Step} {ts : List Token} (h : Leads room s ts s')
    (hle : room ≤ room') : Leads room' s ts s' := by
  induction h with
  | refl s => exact .refl s
  | take hroom _ ih => exact .take (Room.admits_of_le hle hroom) ih

namespace Reading

section
variable {room room' : Room} {within : List Context} {d : Datum} {t : Token} {r r' : Reading}
  {ts us : List Token}

theorem run_of_not_admits (h : ¬ room.admits r.need = true) (ts : List Token) :
    r.run room ts = ⟨.error .tooDeep, 0⟩ := by
  cases ts <;> simp [run, h]

theorem run_nil_congr (h : room.admits r.need = true) (h' : room'.admits r.need = true) :
    r.run room [] = r.run room' [] := by
  rw [run, run, if_pos h, if_pos h']

theorem run_cons_congr (h : room.admits r.need = true) (h' : room'.admits r.need = true)
    (hnext : ∀ r', r.step t = .next r' → r'.run room ts = r'.run room' ts) :
    r.run room (t :: ts) = r.run room' (t :: ts) := by
  rw [run, run, if_pos h, if_pos h']
  cases hcase : r.step t with
  | next r' => simp only [hnext r' hcase]
  | done d => rfl
  | refuse why taken => cases taken <;> rfl

/-- In less room a reading ends for want of room, or it is the same. -/
theorem run_approximates (h : room ≤ room') (r : Reading) (ts : List Token) :
    (r.run room ts).result = .error .tooDeep ∨ r.run room ts = r.run room' ts := by
  induction ts generalizing r with
  | nil =>
    by_cases hroom : room.admits r.need = true
    · exact .inr (run_nil_congr hroom (Room.admits_of_le h hroom))
    · exact .inl (by rw [run_of_not_admits hroom])
  | cons t ts ih =>
    by_cases hroom : room.admits r.need = true
    · by_cases hdeep : ∃ r', r.step t = .next r' ∧ (r'.run room ts).result = .error .tooDeep
      · obtain ⟨r', hnext, hresult⟩ := hdeep
        rw [run, if_pos hroom, hnext]
        exact .inl hresult
      · refine .inr (run_cons_congr hroom (Room.admits_of_le h hroom) fun r' hnext => ?_)
        exact (ih r').resolve_left fun hresult => hdeep ⟨r', hnext, hresult⟩
    · exact .inl (by rw [run_of_not_admits hroom])

theorem deliver_need (h : deliver d within = .next r) : r.need ≤ weight within := by
  induction within generalizing d with
  | nil => cases h
  | cons context within ih =>
    cases context with
    | quotation mark =>
      rw [deliver] at h
      split at h
      · exact (ih h).trans (Nat.le_add_left _ _)
      · cases h
    | item bracket items =>
      cases h
      rw [weight, need, Context.weight]
      omega
    | tail items =>
      cases h
      rw [weight, need, Context.weight]
      omega

theorem begin_need (h : begin within t = .next r) : r.need ≤ weight within + 1 := by
  unfold begin at h
  split at h
  · cases h
    rw [need, weight, Context.weight]
    omega
  · cases h
    exact le_rfl
  · cases h
    exact le_rfl
  · unfold beginLiteral at h
    split at h
    · exact (deliver_need h).trans (Nat.le_succ _)
    · cases h
    · cases h

theorem Closes.weight_le (h : r.Closes d within) : weight within ≤ r.need := by
  cases h <;> exact Nat.le_add_right _ _

theorem Begins.weight_le (h : r.Begins within) : weight within ≤ r.need + 1 := by
  cases h with
  | expression => exact Nat.le_succ _
  | first => exact (Nat.add_comm _ _).le
  | item bracket items =>
    cases bracket <;> simp only [weight, Context.weight, need] <;> omega

/-- Taking a token lets the next one be looked for at most two calls further inside. -/
theorem step_need (h : r.step t = .next r') : r'.need ≤ r.need + 2 := by
  cases r.does t with
  | closes hcloses _ hstep =>
    have hle := deliver_need (hstep.symm.trans h)
    have hweight := hcloses.weight_le
    omega
  | moves hmoves hstep =>
    obtain rfl := Step.next.inj (hstep.symm.trans h)
    cases hmoves with
    | space bracket => cases bracket <;> simp [need]
    | _ =>
      simp only [need, weight, Context.weight]
      omega
  | begins hbegins hstep =>
    have hle := begin_need (hstep.symm.trans h)
    have hweight := hbegins.weight_le
    omega
  | refuses hstep => cases hstep.symm.trans h

theorem run_of_admits (h : room.admits (r.need + 2 * ts.length) = true) :
    r.run room ts = r.run .unlimited ts := by
  induction ts generalizing r with
  | nil => exact run_nil_congr h rfl
  | cons t ts ih =>
    have hroom : room.admits r.need = true := Room.admits_mono h (Nat.le_add_right _ _)
    refine run_cons_congr hroom rfl fun r' hnext => ih (Room.admits_mono h ?_)
    have hneed := step_need hnext
    rw [List.length_cons]
    omega

end
end Reading

namespace Stream

variable {room room' : Room} {s : Stream}

theorem parse_approximates (h : room ≤ room') (hs : s.Sound) :
    (s.parse room).1 = .error .exhausted ∨ (s.parse room).1 = (s.parse room').1 := by
  rw [parse_outcome hs, parse_outcome hs]
  rcases Reading.run_approximates h (.expression []) s.ahead with hrun | hrun
  · left
    rw [Reading.datum, Reading.Ending.outcome, hrun]
  · right
    rw [Reading.datum, Reading.datum, hrun]

theorem parse_of_admits (hs : s.Sound) (h : room.admits (2 * s.ahead.length) = true) :
    (s.parse room).1 = (s.parse .unlimited).1 := by
  have hroom : room.admits ((Reading.expression []).need + 2 * s.ahead.length) = true := by
    rw [Reading.need, Reading.weight, Nat.zero_add]
    exact h
  rw [parse_outcome hs, parse_outcome hs, Reading.datum, Reading.datum,
    Reading.run_of_admits hroom]

end Stream
end Lisplet
