import Mathlib.Data.List.Basic
import Scaffold.Text.Basic

/-!
# Where a list is cut

Readers cut a text where a test first fails, and settings that are made more than once are cut at
the last of them.  Both cuts are told here by what stands on their two sides, so that a text which
was put together can be taken apart again.
-/

namespace Scaffold

namespace Text

variable {p : Char → Bool} {s t : Text}

/-- A stretch on which a test holds, in front of a text at which it fails. -/
theorem takeWhile_append_stop (hs : ∀ c ∈ s, p c = true) (ht : ∀ c ∈ t.head?, p c = false) :
    (s ++ t).takeWhile p = s := by
  rw [List.takeWhile_append_of_pos hs]
  cases t with
  | nil => simp
  | cons c t => simp [ht c rfl]

theorem dropWhile_append_stop (hs : ∀ c ∈ s, p c = true) (ht : ∀ c ∈ t.head?, p c = false) :
    (s ++ t).dropWhile p = t := by
  rw [List.dropWhile_append_of_pos hs]
  cases t with
  | nil => simp
  | cons c t => simp [ht c rfl]

/-- A name reaches up to what ends it. -/
theorem cut_at_end {ends : Char → Bool} (hs : ∀ c ∈ s, ends c = false)
    (ht : ∀ c ∈ t.head?, ends c = true) :
    (s ++ t).takeWhile (fun c => !ends c) = s ∧ (s ++ t).dropWhile (fun c => !ends c) = t := by
  have hname : ∀ c ∈ s, (!ends c) = true := by
    intro c hc
    simp [hs c hc]
  have hstop : ∀ c ∈ t.head?, (!ends c) = false := by
    intro c hc
    simp [ht c hc]
  exact ⟨takeWhile_append_stop hname hstop, dropWhile_append_stop hname hstop⟩

end Text

/-- The last entry of a list that gives anything gives `b`. -/
def LastGives {α β : Type} (gives : α → β → Prop) (as : List α) (b : β) : Prop :=
  ∃ front a back, as = front ++ a :: back ∧ gives a b ∧ ∀ later ∈ back, ∀ other, ¬ gives later other

theorem lastGives_nil {α β : Type} {gives : α → β → Prop} {b : β} : ¬ LastGives gives [] b := by
  simp [LastGives]

theorem lastGives_concat {α β : Type} {gives : α → β → Prop} {as : List α} {a : α} {b : β} :
    LastGives gives (as ++ [a]) b ↔
      gives a b ∨ (∀ other, ¬ gives a other) ∧ LastGives gives as b := by
  constructor
  · rintro ⟨front, x, back, heq, hx, hback⟩
    rcases List.eq_nil_or_concat' back with rfl | ⟨back, y, rfl⟩
    · obtain ⟨-, hlast⟩ := List.append_inj' heq rfl
      obtain rfl : a = x := by simpa using hlast
      exact Or.inl hx
    · rw [← List.cons_append, ← List.append_assoc] at heq
      obtain ⟨hfront, hlast⟩ := List.append_inj' heq rfl
      obtain rfl : a = y := by simpa using hlast
      refine Or.inr ⟨hback a (by simp), front, x, back, hfront, hx, ?_⟩
      intro later hlater
      exact hback later (List.mem_append_left _ hlater)
  · rintro (ha | ⟨ha, front, x, back, rfl, hx, hback⟩)
    · exact ⟨as, a, [], rfl, ha, by simp⟩
    · refine ⟨front, x, back ++ [a], by simp, hx, ?_⟩
      intro later hlater
      rcases List.mem_append.1 hlater with hlater | hlater
      · exact hback later hlater
      · rw [List.mem_singleton.1 hlater]
        exact ha

end Scaffold
