import Scaffold.Proofs.Element.Partition

/-!
# Children follow their parent without a break

An element is a child of the closest element in front of it whose path is its own without the last
segment, as long as nothing stands between them that ends the search.  What ends it is decided on
the text of the paths (`Path.covers`), and this file says what that comes to in segments
(`Path.covers_iff_seemsBelow`).  An element that lies below another never ends the search of that
other one.  But neither does one that only looks as if it did, because its segment at the place of
the other's last one is longer and starts with it: `ab c` lies outside `a` and does not end it.

The rule of the search is `isChildAt_iff_closest`.
-/

namespace Scaffold

namespace Text

/-! ## The start of a text and its parts -/

theorem splitOn_append_of_notMem {sep : Char} {word : Text} (h : sep ∉ word) (t : Text) :
    ∃ part parts, t.splitOn sep = part :: parts ∧
      (word ++ t).splitOn sep = (word ++ part) :: parts := by
  obtain ⟨part, parts, hsplit⟩ := List.exists_cons_of_ne_nil (List.splitOn_ne_nil sep t)
  refine ⟨part, parts, hsplit, ?_⟩
  induction word with
  | nil => exact hsplit
  | cons c word ih =>
    simp only [List.mem_cons, not_or] at h
    rw [List.cons_append, List.splitOn_cons_eq_if_modifyHead, if_neg (by simp [Ne.symm h.1]),
      ih h.2]
    rfl

/-- Parts that are joined start with what the first of them are joined to. -/
theorem intercalate_prefix (sep : Char) {parts more : List Text} (h : parts <+: more) :
    [sep].intercalate parts <+: [sep].intercalate more := by
  obtain ⟨rest, rfl⟩ := h
  induction parts with
  | nil => exact List.nil_prefix
  | cons part parts ih =>
    cases parts with
    | nil => cases rest <;> simp [List.intercalate]
    | cons next parts => simpa [List.intercalate] using ih

theorem intercalate_concat {sep : Char} {parts : List Text} (h : parts ≠ []) (last : Text) :
    [sep].intercalate (parts ++ [last]) = [sep].intercalate parts ++ sep :: last := by
  induction parts with
  | nil => exact absurd rfl h
  | cons part parts ih =>
    cases parts with
    | nil => simp [List.intercalate]
    | cons next parts => simpa [List.intercalate] using ih (List.cons_ne_nil next parts)

/-- One text starts another exactly if it has the same parts, but for its last part, which needs
only start the part at its place. -/
theorem prefix_iff_splitOn (sep : Char) {s t : Text} :
    s <+: t ↔ ∃ longer, (s.splitOn sep).getLastD [] <+: longer ∧
      (s.splitOn sep).dropLast ++ [longer] <+: t.splitOn sep := by
  -- up to the last separator the segments are whole, and the one behind it may go on
  by_cases hsep : sep ∈ s
  · obtain ⟨front, last, rfl, hlast⟩ := exists_last_cut hsep
    rw [List.splitOn_append_cons_self, List.splitOn_eq_singleton hlast, List.getLastD_concat,
      List.dropLast_concat]
    constructor
    · rintro ⟨back, rfl⟩
      obtain ⟨part, parts, -, hparts⟩ := splitOn_append_of_notMem hlast back
      refine ⟨last ++ part, List.prefix_append _ _, parts, ?_⟩
      have htext : front ++ sep :: last ++ back = front ++ sep :: (last ++ back) := by simp
      rw [htext, List.splitOn_append_cons_self, hparts, List.append_assoc, List.singleton_append]
    · rintro ⟨longer, hlonger, hprefix⟩
      have hjoin := intercalate_prefix sep hprefix
      rw [intercalate_concat (List.splitOn_ne_nil sep front), List.intercalate_splitOn,
        List.intercalate_splitOn] at hjoin
      refine List.IsPrefix.trans ?_ hjoin
      simpa using hlonger
  · rw [List.splitOn_eq_singleton hsep]
    constructor
    · rintro ⟨back, rfl⟩
      obtain ⟨part, parts, -, hparts⟩ := splitOn_append_of_notMem hsep back
      exact ⟨s ++ part, List.prefix_append _ _, parts, hparts.symm⟩
    · rintro ⟨longer, hlonger, hprefix⟩
      have hjoin := intercalate_prefix sep hprefix
      rw [List.intercalate_splitOn] at hjoin
      refine List.IsPrefix.trans hlonger ?_
      simpa [List.intercalate] using hjoin

end Text

open Text

namespace Selector.Path

/-! ## Paths by their segments -/

/-- A path has more segments than `p` and starts with those of `p`. -/
def IsBelow (q p : Path) : Prop :=
  p.segments <+: q.segments ∧ p.segments.length < q.segments.length

/-- The same, but for the last segment of `p`, which needs only start the one at its place. -/
def SeemsBelow (q p : Path) : Prop :=
  ∃ longer, p.own <+: longer ∧ p.segments.dropLast ++ [longer] <+: q.segments.dropLast

theorem dropLast_segments_append_own (p : Path) : p.segments.dropLast ++ [p.own] = p.segments := by
  have hne : p.segments ≠ [] := List.splitOn_ne_nil ' ' p.full
  rw [own, List.getLastD_eq_getLast?, List.getLast?_eq_some_getLast hne, Option.getD_some,
    List.dropLast_append_getLast]

theorem IsBelow.seemsBelow {p q : Path} (h : q.IsBelow p) : q.SeemsBelow p := by
  refine ⟨p.own, List.prefix_rfl, ?_⟩
  rw [dropLast_segments_append_own]
  have hlength := h.2
  refine List.prefix_of_prefix_length_le h.1 (List.dropLast_prefix _) ?_
  rw [List.length_dropLast]
  omega

/-- Above a path with more than one segment stand all segments but the last. -/
theorem segments_parent {p : Path} (h : ' ' ∈ p.full) :
    p.parent.splitOn ' ' = p.segments.dropLast := by
  obtain ⟨full⟩ := p
  obtain ⟨front, own, rfl, ho⟩ := exists_last_cut h
  rw [parent_append front own ho, segments_append front own ho, List.dropLast_concat]

theorem dropLast_segments_of_notMem {p : Path} (h : ' ' ∉ p.full) : p.segments.dropLast = [] := by
  rw [segments, List.splitOn_eq_singleton h]
  rfl

/-- What may lie below a path is what seems to, segment by segment. -/
theorem covers_iff_seemsBelow {p q : Path} (hp : p.full ≠ []) :
    p.covers q = true ↔ q.SeemsBelow p := by
  rw [covers_iff]
  by_cases hspace : ' ' ∈ q.full
  · rw [prefix_iff_splitOn ' ', segments_parent hspace]
    rfl
  · rw [parent_of_notMem hspace, SeemsBelow, dropLast_segments_of_notMem hspace]
    simp [hp]

theorem isParentOf_iff_segments {p c : Path} :
    p.isParentOf c = true ↔ p.segments = c.segments.dropLast := by
  rw [isParentOf_iff]
  constructor
  · rintro ⟨hspace, hparent⟩
    rw [← segments_parent hspace, hparent]
    rfl
  · intro h
    have hspace : ' ' ∈ c.full := by
      by_contra hspace
      rw [dropLast_segments_of_notMem hspace] at h
      exact List.splitOn_ne_nil ' ' p.full h
    refine ⟨hspace, ?_⟩
    rw [parent, ← h, segments, List.intercalate_splitOn]

/-- Nothing seems to lie below itself. -/
theorem SeemsBelow.segments_ne {p q : Path} (h : q.SeemsBelow p) : q.segments ≠ p.segments := by
  obtain ⟨longer, -, hprefix⟩ := h
  have hlength := hprefix.length_le
  have hpos : 0 < p.segments.length := List.length_pos_iff.2 (List.splitOn_ne_nil ' ' p.full)
  intro heq
  rw [heq] at hlength
  simp only [List.length_append, List.length_dropLast, List.length_singleton] at hlength
  omega

end Selector.Path

open Scaffold.Selector

/-! ## The search for children -/

theorem getElem?_childPositionsFrom (n i : Nat) (es : List Element) :
    (childPositionsFrom n es)[i]? =
      es[i]?.map fun e => childrenFrom e.path (n + i + 1) (es.drop (i + 1)) := by
  induction es generalizing n i with
  | nil => rfl
  | cons e es ih =>
    cases i with
    | zero => rfl
    | succ i =>
      rw [childPositionsFrom, List.getElem?_cons_succ, ih, List.getElem?_cons_succ,
        List.drop_succ_cons, Nat.add_assoc n 1 i, Nat.add_comm 1 i]

/-- A relation between the paths of all elements strictly between two places and the path at the
first of them. -/
def Between (es : List Element) (i j : Nat) (r : Path → Path → Prop) : Prop :=
  ∀ k first e, i < k → k < j → es[i]? = some first → es[k]? = some e → r e.path first.path

theorem Between.imp {es : List Element} {i j : Nat} {r s : Path → Path → Prop}
    (h : Between es i j r) (hrs : Between es i j fun q p => r q p → s q p) : Between es i j s :=
  fun k first e hik hkj hfirst he =>
    hrs k first e hik hkj hfirst he (h k first e hik hkj hfirst he)

/-- The children of an element are those that it is the parent of and up to which the search for
them goes on. -/
theorem isChildAt_iff {es : List Element} {i j : Nat} (hij : i < j) :
    IsChildAt es i j ↔
      (∃ parent child, es[i]? = some parent ∧ es[j]? = some child ∧
        parent.path.isParentOf child.path = true) ∧
      Between es i j fun q p => p.covers q = true := by
  have hplace : ∀ m, (es.drop (i + 1))[m]? = es[m + (i + 1)]? := by
    intro m
    rw [List.getElem?_drop, Nat.add_comm]
  simp only [IsChildAt, childPositions, getElem?_childPositionsFrom, Option.map_eq_some_iff]
  constructor
  · rintro ⟨children, ⟨parent, hparent, rfl⟩, hj⟩
    obtain ⟨k, child, hk, hchild, hp, hbetween⟩ := mem_childrenFrom_iff.1 hj
    obtain rfl : j = k + (i + 1) := by omega
    rw [hplace] at hchild
    refine ⟨⟨parent, child, hparent, hchild, hp⟩, ?_⟩
    intro m first e him hmj hfirst he
    obtain rfl : parent = first := Option.some.inj (hparent.symm.trans hfirst)
    refine hbetween (m - (i + 1)) (by omega) e ?_
    rw [hplace, Nat.sub_add_cancel (by omega), he]
  · rintro ⟨⟨parent, child, hparent, hchild, hp⟩, hbetween⟩
    refine ⟨_, ⟨parent, hparent, rfl⟩, mem_childrenFrom_iff.2 ?_⟩
    refine ⟨j - (i + 1), child, by omega, ?_, hp, ?_⟩
    · rw [hplace, Nat.sub_add_cancel (by omega), hchild]
    · intro m hm e he
      rw [hplace] at he
      exact hbetween (m + (i + 1)) parent e (by omega) (by omega) hparent he

/-! ## The closest parent -/

/-- The element at place `i` is the closest in front of place `j` whose path is the one there
without its last segment. -/
def IsClosestParent (es : List Element) (i j : Nat) : Prop :=
  ∃ parent child, es[i]? = some parent ∧ es[j]? = some child ∧
    parent.path.segments = child.path.segments.dropLast ∧
    ∀ k e, i < k → k < j → es[k]? = some e → e.path.segments ≠ child.path.segments.dropLast

/-- An element is a child of the closest one in front of it whose path is its own without the last
segment, exactly if every element between them seems to lie below that one.  Where no element only
seems to, it is the elements that do lie below, and any other ends the search. -/
theorem isChildAt_iff_closest {es : List Element} (hes : ∀ e ∈ es, e.path.full ≠ []) {i j : Nat}
    (hij : i < j) :
    (IsChildAt es i j ↔ IsClosestParent es i j ∧ Between es i j Path.SeemsBelow) ∧
      ((Between es i j fun q p => q.SeemsBelow p → q.IsBelow p) →
        (IsChildAt es i j ↔ IsClosestParent es i j ∧ Between es i j Path.IsBelow)) := by
  have hcovers : Between es i j fun q p => p.covers q = true ↔ q.SeemsBelow p := by
    intro k first e _ _ hfirst _
    exact Path.covers_iff_seemsBelow (hes first (List.mem_of_getElem? hfirst))
  have hseems : Between es i j (fun q p => p.covers q = true) ↔ Between es i j Path.SeemsBelow := by
    constructor
    · intro h
      exact h.imp fun k first e hik hkj hfirst he => (hcovers k first e hik hkj hfirst he).1
    · intro h
      exact h.imp fun k first e hik hkj hfirst he => (hcovers k first e hik hkj hfirst he).2
  -- a closer element with the same path would not seem to lie below the parent
  have hrule : IsChildAt es i j ↔ IsClosestParent es i j ∧ Between es i j Path.SeemsBelow := by
    rw [isChildAt_iff hij, hseems]
    refine and_congr_left fun hbetween => ?_
    constructor
    · rintro ⟨parent, child, hparent, hchild, hp⟩
      have hsegments := Path.isParentOf_iff_segments.1 hp
      refine ⟨parent, child, hparent, hchild, hsegments, ?_⟩
      intro k e hik hkj he
      rw [← hsegments]
      exact (hbetween k parent e hik hkj hparent he).segments_ne
    · rintro ⟨parent, child, hparent, hchild, hsegments, -⟩
      exact ⟨parent, child, hparent, hchild, Path.isParentOf_iff_segments.2 hsegments⟩
  refine ⟨hrule, fun honly => ?_⟩
  rw [hrule]
  refine and_congr_right fun _ => ⟨fun h => h.imp honly, fun h => h.imp ?_⟩
  intro k first e _ _ _ _ hbelow
  exact hbelow.seemsBelow

/-- The elements of rules without declarations. -/
def pageOf (selectors : List String) : List Element :=
  (selectors.map String.toList).filterMap fun selector => Element.ofRule? (.style selector [])

/-- A page on which an element that only seems to lie below the first stands in front of its
child. -/
def lookalikePage : List Element :=
  pageOf ["a", "ab c", "a x"]

/-- A page on which all elements lie below the first. -/
def layeredPage : List Element :=
  pageOf ["a", "a b", "a b c", "a x"]

theorem between_layeredPage : Between layeredPage 0 3 Path.IsBelow := by
  intro k first e hk hk' hfirst he
  obtain rfl := Option.some.inj hfirst
  have hplace : k = 1 ∨ k = 2 := by omega
  rcases hplace with rfl | rfl
  · obtain rfl := Option.some.inj he
    exact ⟨by decide, by decide⟩
  · obtain rfl := Option.some.inj he
    exact ⟨by decide, by decide⟩

theorem isChildAt_iff_closest_lookalikePage :
    (IsChildAt lookalikePage 0 2 ↔
        IsClosestParent lookalikePage 0 2 ∧ Between lookalikePage 0 2 Path.SeemsBelow) ∧
      Between layeredPage 0 3 Path.IsBelow ∧
      (IsChildAt layeredPage 0 3 ↔
        IsClosestParent layeredPage 0 3 ∧ Between layeredPage 0 3 Path.IsBelow) := by
  have hlookalike : ∀ e ∈ lookalikePage, e.path.full ≠ [] := by
    decide
  have hlayered : ∀ e ∈ layeredPage, e.path.full ≠ [] := by
    decide
  refine ⟨(isChildAt_iff_closest hlookalike (by decide)).1, between_layeredPage, ?_⟩
  refine (isChildAt_iff_closest hlayered (by decide)).2 ?_
  intro k first e hk hk' hfirst he _
  exact between_layeredPage k first e hk hk' hfirst he

/-- The third element becomes a child of the first, although the second, which stands between them,
does not lie below the first. -/
theorem isChildAt_lookalikePage :
    (lookalikePage.map fun e => e.path.segments.map String.ofList) =
        [["a"], ["ab", "c"], ["a", "x"]] ∧
      IsChildAt lookalikePage 0 2 ∧ IsClosestParent lookalikePage 0 2 ∧
      ¬ Between lookalikePage 0 2 Path.IsBelow := by
  refine ⟨by decide, ⟨[2], by decide, by decide⟩, ?_, ?_⟩
  · refine ⟨lookalikePage.get ⟨0, by decide⟩, lookalikePage.get ⟨2, by decide⟩, rfl, rfl, by decide,
      ?_⟩
    intro k e hk hk' he
    obtain rfl : k = 1 := by omega
    obtain rfl := Option.some.inj he
    decide
  · intro h
    have hbelow := h 1 (lookalikePage.get ⟨0, by decide⟩) (lookalikePage.get ⟨1, by decide⟩)
      (by decide) (by decide) rfl rfl
    exact absurd hbelow.1 (by decide)

end Scaffold
