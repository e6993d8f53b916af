/-
Logs of events that raise and discharge obligations.  An obligation is
outstanding when nothing discharged it after it was last raised.  Nothing here
names the repository.
-/
import Mathlib

namespace CheckPo

section Obligations

variable {ε α : Type} (raises discharges : ε → α → Prop)

/-- Raised at some event and discharged by none after it. -/
def Outstanding (log : List ε) (obligation : α) : Prop :=
  ∃ front event back, log = front ++ event :: back ∧ raises event obligation ∧
    ∀ later ∈ back, ¬ discharges later obligation

variable {raises discharges} {log more : List ε} {event : ε} {obligation : α}

theorem not_outstanding_nil : ¬ Outstanding raises discharges [] obligation := by
  rintro ⟨front, event, back, hlog, -⟩
  simp at hlog

/-- What is outstanding after more events was so before and is not discharged by them,
or is outstanding in them. -/
theorem outstanding_append :
    Outstanding raises discharges (log ++ more) obligation ↔
      (Outstanding raises discharges log obligation ∧
          ∀ later ∈ more, ¬ discharges later obligation) ∨
        Outstanding raises discharges more obligation := by
  constructor
  · rintro ⟨front, event, back, hlog, hraises, hback⟩
    rcases List.append_eq_append_iff.mp hlog with ⟨middle, hfront, hmore⟩ | ⟨middle, hlogFront, hrest⟩
    · exact Or.inr ⟨middle, event, back, hmore, hraises, hback⟩
    · rcases middle with _ | ⟨head, tail⟩
      · exact Or.inr ⟨[], event, back, hrest.symm, hraises, hback⟩
      · rw [List.cons_append, List.cons.injEq] at hrest
        rcases hrest with ⟨rfl, rfl⟩
        refine Or.inl ⟨⟨front, event, tail, hlogFront, hraises, fun later hlater => ?_⟩,
          fun later hlater => ?_⟩
        · exact hback later (List.mem_append_left _ hlater)
        · exact hback later (List.mem_append_right _ hlater)
  · rintro (⟨⟨front, event, back, rfl, hraises, hback⟩, hmore⟩ |
      ⟨front, event, back, rfl, hraises, hback⟩)
    · refine ⟨front, event, back ++ more, by simp, hraises, fun later hlater => ?_⟩
      rcases List.mem_append.mp hlater with hlater | hlater
      · exact hback later hlater
      · exact hmore later hlater
    · exact ⟨log ++ front, event, back, by simp, hraises, hback⟩

theorem outstanding_concat :
    Outstanding raises discharges (log ++ [event]) obligation ↔
      (Outstanding raises discharges log obligation ∧ ¬ discharges event obligation) ∨
        raises event obligation := by
  have hsingle : Outstanding raises discharges [event] obligation ↔ raises event obligation := by
    constructor
    · rintro ⟨front, raised, back, hlog, hraises, -⟩
      rcases front with _ | ⟨head, tail⟩
      · rw [List.nil_append, List.cons.injEq] at hlog
        rw [hlog.1]
        exact hraises
      · simp at hlog
    · intro hraises
      exact ⟨[], event, [], rfl, hraises, by simp⟩
  rw [outstanding_append, hsingle]
  simp

/-- With nothing outstanding, each raising event is followed by a discharging one. -/
theorem discharged_of_not_outstanding (h : ¬ Outstanding raises discharges log obligation)
    {front back : List ε} (hlog : log = front ++ event :: back) (hraises : raises event obligation) :
    ∃ later ∈ back, discharges later obligation := by
  by_contra hnone
  push Not at hnone
  exact h ⟨front, event, back, hlog, hraises, hnone⟩

end Obligations

end CheckPo
