import Mathlib.Data.List.Basic

namespace ChipEight

variable {α : Type} {P : List α → α → Prop} {Q : α → Prop}

def Since (P : List α → α → Prop) (Q : α → Prop) (history : List α) : Prop :=
  ∃ earlier event later, history = earlier ++ event :: later ∧ P earlier event ∧
    ∀ other ∈ later, Q other

theorem not_since_nil : ¬Since P Q [] := by
  rintro ⟨earlier, event, later, hsplit, _⟩
  exact absurd hsplit.symm (List.append_ne_nil_of_right_ne_nil earlier nofun)

theorem since_snoc_iff (history : List α) (event : α) :
    Since P Q (history ++ [event]) ↔ P history event ∨ Q event ∧ Since P Q history := by
  constructor
  · rintro ⟨earlier, first, later, hsplit, hfirst, hlater⟩
    rcases later.eq_nil_or_concat' with rfl | ⟨later, last, rfl⟩
    · obtain ⟨rfl, hlast⟩ := List.append_inj' hsplit rfl
      obtain rfl := List.singleton_inj.1 hlast
      exact .inl hfirst
    · rw [← List.cons_append, ← List.append_assoc] at hsplit
      obtain ⟨hhistory, hlast⟩ := List.append_inj' hsplit rfl
      obtain rfl := List.singleton_inj.1 hlast
      obtain ⟨hlater, hevent⟩ := List.forall_mem_append.1 hlater
      refine .inr ⟨hevent event (List.mem_singleton_self event), ?_⟩
      exact ⟨earlier, first, later, hhistory, hfirst, hlater⟩
  · rintro (hevent | ⟨hevent, earlier, first, later, rfl, hfirst, hlater⟩)
    · exact ⟨history, event, [], rfl, hevent, nofun⟩
    · refine ⟨earlier, first, later ++ [event], ?_, hfirst, ?_⟩
      · rw [List.append_assoc, List.cons_append]
      · exact List.forall_mem_append.2 ⟨hlater, List.forall_mem_singleton.2 hevent⟩

end ChipEight
