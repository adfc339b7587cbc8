import Scaffold.Selector.Path

/-!
# Where a path is cut

A path that holds a space is what stands above it, a space and its own segment
(`Path.parent_append_own`); any other path is its own segment and has nothing above it.  From this
come the two facts that nesting rests on: being a parent is a question about the text above the
child alone (`isParentOf_iff`), and what may lie below a path may lie below everything that the
path itself may lie below (`covers_trans`).
-/

namespace Scaffold

namespace Text

/-- A text that holds a character can be cut at the last place where it stands. -/
theorem exists_last_cut {c : Char} {t : Text} (h : c ∈ t) :
    ∃ front back, t = front ++ c :: back ∧ c ∉ back := by
  induction t with
  | nil => simp at h
  | cons d t ih =>
    by_cases ht : c ∈ t
    · obtain ⟨front, back, rfl, hb⟩ := ih ht
      exact ⟨d :: front, back, rfl, hb⟩
    · rcases List.mem_cons.1 h with rfl | hc
      · exact ⟨[], t, rfl, ht⟩
      · exact absurd hc ht

end Text

namespace Selector.Path

open Scaffold.Text

/-! ## The segment of a path and what stands above it -/

theorem segments_append (front own : Text) (h : ' ' ∉ own) :
    segments ⟨front ++ ' ' :: own⟩ = front.splitOn ' ' ++ [own] := by
  rw [segments, List.splitOn_append_cons_self, List.splitOn_eq_singleton h]

/-- The own segment of a path stands behind its last space. -/
theorem own_append (front own : Text) (h : ' ' ∉ own) :
    Path.own ⟨front ++ ' ' :: own⟩ = own := by
  rw [Path.own, segments_append front own h, List.getLastD_concat]

theorem parent_append (front own : Text) (h : ' ' ∉ own) :
    Path.parent ⟨front ++ ' ' :: own⟩ = front := by
  rw [Path.parent, segments_append front own h, List.dropLast_concat, List.intercalate_splitOn]

theorem own_of_notMem {p : Path} (h : ' ' ∉ p.full) : p.own = p.full := by
  rw [Path.own, segments, List.splitOn_eq_singleton h]
  rfl

theorem parent_of_notMem {p : Path} (h : ' ' ∉ p.full) : p.parent = [] := by
  rw [Path.parent, segments, List.splitOn_eq_singleton h]
  rfl

/-- A path with a space in it is what stands above it, a space and its own segment. -/
theorem parent_append_own {p : Path} (h : ' ' ∈ p.full) :
    p.parent ++ ' ' :: p.own = p.full := by
  obtain ⟨full⟩ := p
  obtain ⟨front, own, rfl, ho⟩ := exists_last_cut h
  rw [parent_append front own ho, own_append front own ho]

theorem parent_prefix (p : Path) : p.parent <+: p.full := by
  by_cases h : ' ' ∈ p.full
  · exact ⟨' ' :: p.own, parent_append_own h⟩
  · rw [parent_of_notMem h]
    exact List.nil_prefix

/-- What stands above a path is shorter than the path. -/
theorem length_parent_lt {p : Path} (h : p.full ≠ []) : p.parent.length < p.full.length := by
  by_cases hs : ' ' ∈ p.full
  · rw [← parent_append_own hs, List.length_append, List.length_cons]
    omega
  · rw [parent_of_notMem hs]
    exact List.length_pos_iff.2 h

/-! ## Parents and what may lie below -/

/-- Being a parent is a question about the text above the child. -/
theorem isParentOf_iff {p c : Path} :
    p.isParentOf c = true ↔ ' ' ∈ c.full ∧ c.parent = p.full := by
  rw [isParentOf, beq_iff_eq]
  constructor
  · intro h
    have hs : ' ' ∈ c.full := by
      rw [h]
      exact List.mem_append_right _ (List.mem_cons_self ..)
    rw [← parent_append_own hs] at h
    exact ⟨hs, List.append_cancel_right h⟩
  · rintro ⟨hs, hp⟩
    rw [← hp, parent_append_own hs]

theorem parent_eq_of_isParentOf {p c : Path} (h : p.isParentOf c = true) : c.parent = p.full :=
  (isParentOf_iff.1 h).2

/-- What may lie below a path has the path at the start of the text above it. -/
theorem covers_iff {p q : Path} : p.covers q = true ↔ p.full <+: q.parent :=
  List.isPrefixOf_iff_prefix

/-- A child may lie below its parent. -/
theorem covers_of_isParentOf {p c : Path} (h : p.isParentOf c = true) : p.covers c = true :=
  covers_iff.2 ⟨[], by rw [List.append_nil, parent_eq_of_isParentOf h]⟩

theorem isParentOf_of_not_covers {p c : Path} (h : p.covers c = false) : p.isParentOf c = false :=
  Bool.eq_false_iff.2 fun hp => Bool.eq_false_iff.1 h (covers_of_isParentOf hp)

theorem covers_trans {p q r : Path} (hpq : p.covers q = true) (hqr : q.covers r = true) :
    p.covers r = true := by
  rw [covers_iff] at *
  exact hpq.trans (q.parent_prefix.trans hqr)

/-- What may lie below `p` reaches no further than `p` does. -/
theorem covers_eq_false_of_covers {p q r : Path} (hpq : p.covers q = true)
    (hpr : p.covers r = false) : q.covers r = false := by
  rw [Bool.eq_false_iff] at *
  exact fun hqr => hpr (covers_trans hpq hqr)

/-- What may lie below a path that may itself lie below `p` is no child of `p`. -/
theorem not_isParentOf_of_covers {p q r : Path} (hq : q.full ≠ []) (hpq : p.covers q = true)
    (hqr : q.covers r = true) : p.isParentOf r = false := by
  rw [Bool.eq_false_iff]
  intro h
  have hlen := length_parent_lt hq
  have h₁ := (covers_iff.1 hpq).length_le
  have h₂ := (covers_iff.1 hqr).length_le
  rw [parent_eq_of_isParentOf h] at h₂
  omega

/-! ## Roots -/

theorem isRoot_of_notMem {p : Path} (h : ' ' ∉ p.full) : p.isRoot = true := by
  rw [isRoot, parent_of_notMem h]
  rfl

/-- A path that does not start with a space is a root if no space stands in it. -/
theorem isRoot_iff {p : Path} (h : p.full.head? ≠ some ' ') :
    p.isRoot = true ↔ ' ' ∉ p.full := by
  refine ⟨fun hr hs => ?_, isRoot_of_notMem⟩
  rw [isRoot, List.isEmpty_iff] at hr
  rw [← parent_append_own hs, hr] at h
  exact h rfl

/-- What may lie below a path is no root. -/
theorem isRoot_of_covers {p q : Path} (hp : p.full ≠ []) (h : p.covers q = true) :
    q.isRoot = false := by
  rw [isRoot, Bool.eq_false_iff]
  intro hr
  rw [covers_iff, List.isEmpty_iff.1 hr, List.prefix_nil] at h
  exact hp h

/-- No path reaches over a single segment. -/
theorem covers_eq_false_of_notMem {p q : Path} (hp : p.full ≠ []) (hq : ' ' ∉ q.full) :
    p.covers q = false := by
  rw [Bool.eq_false_iff]
  intro hc
  have hroot := isRoot_of_covers hp hc
  rw [isRoot_of_notMem hq] at hroot
  exact Bool.noConfusion hroot

end Selector.Path

end Scaffold
