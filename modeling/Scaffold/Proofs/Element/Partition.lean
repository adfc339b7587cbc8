import Mathlib.Data.List.Sort
import Scaffold.Fragment
import Scaffold.Proofs.Element.Listing
import Scaffold.Proofs.Text.Trim

/-!
# Nothing is lost, doubled or moved when elements are nested

The trees that `nest` keeps and those that it drops (`orphans`) share out the places of the list
between them: each place goes to one tree, once.  The kept places are those whose chain of parents
ends at a root, and in pre-order they stand in the order of the list.

The chain of parents is read off `childPositions`.  The argument goes by the spans of the list and
is made for any test `top` in the place of "is a root", because within the span of an element the
trees that matter are those of its children.
-/

namespace Scaffold

open Scaffold.Selector Scaffold.Text Element

/-- An element that nothing was nested under yet, with a path that starts with a segment. -/
structure Element.Fresh (e : Element) : Prop where
  full_ne_nil : e.path.full ≠ []
  head_ne_space : e.path.full.head? ≠ some ' '
  children_eq_nil : e.children = []

/-! ## Places -/

/-- The elements at the given places of a list. -/
def elementsAt (es : List Element) (places : List Nat) : List Element :=
  places.filterMap fun i => es[i]?

/-- The element at place `j` is among the children of the one at place `i`. -/
def IsChildAt (es : List Element) (i j : Nat) : Prop :=
  ∃ children, (childPositions es)[i]? = some children ∧ j ∈ children

/-- The chain of parents from a place of the list ends at an element whose path passes `top`. -/
inductive Reaches (top : Path → Bool) (es : List Element) : Nat → Prop
  | here {j : Nat} {e : Element} : es[j]? = some e → top e.path = true → Reaches top es j
  | step {i j : Nat} : IsChildAt es i j → Reaches top es i → Reaches top es j

theorem elementsAt_append (es : List Element) (ps qs : List Nat) :
    elementsAt es (ps ++ qs) = elementsAt es ps ++ elementsAt es qs :=
  List.filterMap_append ..

/-! ## Children of a span -/

/-- Counting from another place moves the children by as much. -/
theorem childrenFrom_add (parent : Path) (i n : Nat) (es : List Element) :
    childrenFrom parent (i + n) es = (childrenFrom parent i es).map (· + n) := by
  induction es generalizing i with
  | nil => rfl
  | cons e es ih =>
    have ih := ih (i + 1)
    rw [Nat.add_right_comm] at ih
    rw [childrenFrom, childrenFrom, ih]
    split
    · rfl
    · split <;> rfl

theorem childPositionsFrom_add (i n : Nat) (es : List Element) :
    childPositionsFrom (i + n) es = (childPositionsFrom i es).map (List.map (· + n)) := by
  induction es generalizing i with
  | nil => rfl
  | cons e es ih =>
    have ih := ih (i + 1)
    rw [Nat.add_right_comm] at ih
    rw [childPositionsFrom, childPositionsFrom, ih, Nat.add_right_comm, childrenFrom_add]
    rfl

theorem childrenFrom_of_not_covers {p : Path} {e : Element} (h : p.covers e.path = false)
    (next : Nat) (es : List Element) : childrenFrom p next (e :: es) = [] := by
  rw [childrenFrom, Path.isParentOf_of_not_covers h, h]
  rfl

/-- An element has no children behind the end of its span. -/
theorem childrenFrom_append {parent : Path} {es rest : List Element} (i : Nat)
    (h : ∀ r ∈ rest.head?, parent.covers r.path = false) :
    childrenFrom parent i (es ++ rest) = childrenFrom parent i es := by
  induction es generalizing i with
  | nil =>
    cases rest with
    | nil => rfl
    | cons r rest =>
      rw [List.nil_append, childrenFrom_of_not_covers (h r rfl), childrenFrom]
  | cons e es ih => rw [List.cons_append, childrenFrom, childrenFrom, ih]

theorem childPositionsFrom_append {es rest : List Element} (i : Nat)
    (h : ∀ e ∈ es, ∀ r ∈ rest.head?, e.path.covers r.path = false) :
    childPositionsFrom i (es ++ rest) =
      childPositionsFrom i es ++ childPositionsFrom (i + es.length) rest := by
  induction es generalizing i with
  | nil => rfl
  | cons e es ih =>
    have ih := ih (i + 1) fun f hf => h f (List.mem_cons_of_mem _ hf)
    rw [List.cons_append, childPositionsFrom, childPositionsFrom, ih,
      childrenFrom_append _ (h e (List.mem_cons_self ..)), List.length_cons, List.cons_append,
      Nat.add_right_comm i 1, Nat.add_assoc i]

theorem length_childPositionsFrom (i : Nat) (es : List Element) :
    (childPositionsFrom i es).length = es.length := by
  induction es generalizing i with
  | nil => rfl
  | cons e es ih => rw [childPositionsFrom, List.length_cons, ih, List.length_cons]

/-- The children of an element are found up to the first element that may not lie below it. -/
theorem mem_childrenFrom_iff {parent : Path} {es : List Element} {i j : Nat} :
    j ∈ childrenFrom parent i es ↔
      ∃ k child, j = k + i ∧ es[k]? = some child ∧ parent.isParentOf child.path = true ∧
        ∀ m, m < k → ∀ e, es[m]? = some e → parent.covers e.path = true := by
  induction es generalizing i with
  | nil => simp [childrenFrom]
  | cons e es ih =>
    -- an element covers its children, so finding one does not end the search
    have hhere : j ∈ childrenFrom parent i (e :: es) ↔
        (j = i ∧ parent.isParentOf e.path = true) ∨
          (parent.covers e.path = true ∧ j ∈ childrenFrom parent (i + 1) es) := by
      rw [childrenFrom]
      by_cases hp : parent.isParentOf e.path = true
      · simp [hp, Path.covers_of_isParentOf hp]
      · by_cases hc : parent.covers e.path = true <;> simp [hp, hc]
    rw [hhere, ih]
    constructor
    · rintro (⟨rfl, hp⟩ | ⟨hc, k, child, rfl, hchild, hp, hbetween⟩)
      · exact ⟨0, e, by omega, rfl, hp, by omega⟩
      · refine ⟨k + 1, child, by omega, hchild, hp, ?_⟩
        intro m hm f hf
        cases m with
        | zero =>
          obtain rfl := Option.some.inj hf
          exact hc
        | succ m => exact hbetween m (by omega) f hf
    · rintro ⟨k, child, rfl, hchild, hp, hbetween⟩
      cases k with
      | zero =>
        obtain rfl := Option.some.inj hchild
        exact Or.inl ⟨by omega, hp⟩
      | succ k =>
        refine Or.inr ⟨hbetween 0 (by omega) e rfl, k, child, by omega, hchild, hp, ?_⟩
        intro m hm f hf
        exact hbetween (m + 1) (by omega) f hf

/-- Within the span of an element its children are those one segment below it. -/
theorem mem_childrenFrom_of_covers {parent : Path} {es : List Element} {i j : Nat}
    (h : ∀ e ∈ es, parent.covers e.path = true) :
    j ∈ childrenFrom parent i es ↔
      ∃ k c, j = k + i ∧ es[k]? = some c ∧ parent.isParentOf c.path = true := by
  rw [mem_childrenFrom_iff]
  constructor
  · rintro ⟨k, c, hj, hc, hp, -⟩
    exact ⟨k, c, hj, hc, hp⟩
  · rintro ⟨k, c, hj, hc, hp⟩
    exact ⟨k, c, hj, hc, hp, fun m _ e he => h e (List.mem_of_getElem? he)⟩

theorem lt_of_mem_childrenFrom {parent : Path} {es : List Element} {i j : Nat}
    (h : j ∈ childrenFrom parent i es) : j < i + es.length := by
  obtain ⟨k, c, rfl, hc, -⟩ := mem_childrenFrom_iff.1 h
  have hlt := (List.getElem?_eq_some_iff.1 hc).1
  omega

theorem lt_of_mem_childPositionsFrom {es : List Element} {i j : Nat} {children : List Nat}
    (h : children ∈ childPositionsFrom i es) (hj : j ∈ children) : j < i + es.length := by
  induction es generalizing i with
  | nil => simp [childPositionsFrom] at h
  | cons e es ih =>
    rw [List.length_cons]
    rw [childPositionsFrom] at h
    rcases List.mem_cons.1 h with rfl | h
    · have := lt_of_mem_childrenFrom hj
      omega
    · have := ih h
      omega

theorem IsChildAt.lt_length {es : List Element} {i j : Nat} (h : IsChildAt es i j) :
    i < es.length ∧ j < es.length := by
  obtain ⟨children, hi, hj⟩ := h
  have hlt := (List.getElem?_eq_some_iff.1 hi).1
  rw [childPositions, length_childPositionsFrom] at hlt
  have := lt_of_mem_childPositionsFrom (List.mem_of_getElem? hi) hj
  exact ⟨hlt, by omega⟩

theorem Reaches.lt_length {top : Path → Bool} {es : List Element} {j : Nat}
    (h : Reaches top es j) : j < es.length := by
  cases h with
  | here hf _ => exact (List.getElem?_eq_some_iff.1 hf).1
  | step hc _ => exact hc.lt_length.2

section Span

variable {e : Element} {span rest : List Element}
  (hspan : ∀ s ∈ span, e.path.covers s.path = true)
  (hrest : ∀ r ∈ rest.head?, e.path.covers r.path = false)

include hspan hrest

/-- The children in a list, by its first element, the span of that and what follows. -/
theorem childPositions_cons_append :
    childPositions (e :: (span ++ rest)) =
      childrenFrom e.path 1 span ::
        ((childPositions span).map (List.map (· + 1)) ++
          (childPositions rest).map (List.map (· + (span.length + 1)))) := by
  have happart : ∀ s ∈ span, ∀ r ∈ rest.head?, s.path.covers r.path = false :=
    fun s hs r hr => Path.covers_eq_false_of_covers (hspan s hs) (hrest r hr)
  rw [childPositions, childPositionsFrom, childrenFrom_append _ hrest,
    childPositionsFrom_append _ happart, childPositionsFrom_add 0 1 span, Nat.add_assoc 0,
    childPositionsFrom_add 0 _ rest, Nat.add_comm 1]
  rfl

/-- Children in a list are those of its first element, those in its span, and those behind. -/
theorem isChildAt_cons_append {i j : Nat} :
    IsChildAt (e :: (span ++ rest)) i j ↔
      (i = 0 ∧ ∃ k c, j = k + 1 ∧ span[k]? = some c ∧ e.path.isParentOf c.path = true) ∨
      (∃ i' j', i = i' + 1 ∧ j = j' + 1 ∧ IsChildAt span i' j') ∨
      (∃ i' j', i = i' + (span.length + 1) ∧ j = j' + (span.length + 1) ∧
        IsChildAt rest i' j') := by
  have hlen : ((childPositions span).map (List.map (· + 1))).length = span.length := by
    rw [List.length_map, childPositions, length_childPositionsFrom]
  rw [IsChildAt, childPositions_cons_append hspan hrest]
  constructor
  · rintro ⟨children, hi, hj⟩
    cases i with
    | zero =>
      rw [List.getElem?_cons_zero, Option.some.injEq] at hi
      rw [← hi, mem_childrenFrom_of_covers hspan] at hj
      exact Or.inl ⟨rfl, hj⟩
    | succ i =>
      rw [List.getElem?_cons_succ] at hi
      right
      -- a place in the span, or one behind it
      by_cases hlt : i < span.length
      · rw [List.getElem?_append_left (by rw [hlen]; exact hlt), List.getElem?_map,
          Option.map_eq_some_iff] at hi
        obtain ⟨cs, hcs, rfl⟩ := hi
        obtain ⟨j', hj', rfl⟩ := List.mem_map.1 hj
        exact Or.inl ⟨i, j', rfl, rfl, cs, hcs, hj'⟩
      · rw [List.getElem?_append_right (by rw [hlen]; omega), hlen, List.getElem?_map,
          Option.map_eq_some_iff] at hi
        obtain ⟨cs, hcs, rfl⟩ := hi
        obtain ⟨j', hj', rfl⟩ := List.mem_map.1 hj
        exact Or.inr ⟨i - span.length, j', by omega, rfl, cs, hcs, hj'⟩
  · rintro (⟨rfl, hj⟩ | ⟨i', j', rfl, rfl, cs, hcs, hj⟩ | ⟨i', j', rfl, rfl, cs, hcs, hj⟩)
    · exact ⟨_, List.getElem?_cons_zero, (mem_childrenFrom_of_covers hspan).2 hj⟩
    · have hlt : i' < span.length := by
        obtain ⟨hlt, -⟩ := List.getElem?_eq_some_iff.1 hcs
        rwa [childPositions, length_childPositionsFrom] at hlt
      refine ⟨cs.map (· + 1), ?_, List.mem_map_of_mem hj⟩
      rw [List.getElem?_cons_succ, List.getElem?_append_left (by rw [hlen]; exact hlt),
        List.getElem?_map, hcs]
      rfl
    · refine ⟨cs.map (· + (span.length + 1)), ?_, List.mem_map_of_mem hj⟩
      rw [← Nat.add_assoc, List.getElem?_cons_succ,
        List.getElem?_append_right (by rw [hlen]; omega), hlen, Nat.add_sub_cancel,
        List.getElem?_map, hcs]
      rfl

/-- A place in a span whose chain ends at a child of the first element goes on to that element. -/
theorem Reaches.of_span {top : Path → Bool} (ht : top e.path = true) {k : Nat}
    (h : Reaches e.path.isParentOf span k) : Reaches top (e :: (span ++ rest)) (k + 1) := by
  induction h with
  | here hf hp =>
    exact .step ((isChildAt_cons_append hspan hrest).2 (Or.inl ⟨rfl, _, _, rfl, hf, hp⟩))
      (.here List.getElem?_cons_zero ht)
  | step hc _ ih =>
    exact .step ((isChildAt_cons_append hspan hrest).2 (Or.inr (Or.inl ⟨_, _, rfl, rfl, hc⟩))) ih

theorem Reaches.of_rest {top : Path → Bool} {k : Nat} (h : Reaches top rest k) :
    Reaches top (e :: (span ++ rest)) (k + (span.length + 1)) := by
  induction h with
  | @here j f hf hp =>
    refine .here (e := f) ?_ hp
    rw [← Nat.add_assoc, List.getElem?_cons_succ, List.getElem?_append_right (by omega),
      Nat.add_sub_cancel, hf]
  | step hc _ ih =>
    exact .step ((isChildAt_cons_append hspan hrest).2 (Or.inr (Or.inr ⟨_, _, rfl, rfl, hc⟩))) ih

/-- A chain of parents stays in what follows a span, or ends at the element in front of the span. -/
theorem Reaches.cases_cons_append {top : Path → Bool} (htop : ∀ s ∈ span, top s.path = false)
    {j : Nat} (h : Reaches top (e :: (span ++ rest)) j) :
    (top e.path = true ∧ (j = 0 ∨ ∃ k, j = k + 1 ∧ Reaches e.path.isParentOf span k)) ∨
      (∃ k, j = k + (span.length + 1) ∧ Reaches top rest k) := by
  induction h with
  | @here j f hf ht =>
    cases j with
    | zero =>
      rw [List.getElem?_cons_zero, Option.some.injEq] at hf
      exact Or.inl ⟨hf ▸ ht, Or.inl rfl⟩
    | succ j =>
      rw [List.getElem?_cons_succ] at hf
      by_cases hlt : j < span.length
      · rw [List.getElem?_append_left hlt] at hf
        rw [htop f (List.mem_of_getElem? hf)] at ht
        exact Bool.noConfusion ht
      · rw [List.getElem?_append_right (by omega)] at hf
        exact Or.inr ⟨j - span.length, by omega, .here hf ht⟩
  | @step i j hc _ ih =>
    -- the parent is the first element, or parent and child are in the span, or both are behind it
    rcases (isChildAt_cons_append hspan hrest).1 hc with
      ⟨rfl, k, c, rfl, hk, hp⟩ | ⟨i', j', rfl, rfl, hc'⟩ | ⟨i', j', rfl, rfl, hc'⟩
    · rcases ih with ⟨ht, -⟩ | ⟨k', hk', -⟩
      · exact Or.inl ⟨ht, Or.inr ⟨k, rfl, .here hk hp⟩⟩
      · omega
    · have hlt := hc'.lt_length.1
      rcases ih with ⟨ht, h0 | ⟨k, hk, hr⟩⟩ | ⟨k, hk, hr⟩
      · omega
      · obtain rfl : k = i' := by omega
        exact Or.inl ⟨ht, Or.inr ⟨j', rfl, .step hc' hr⟩⟩
      · omega
    · rcases ih with ⟨ht, h0 | ⟨k, hk, hr⟩⟩ | ⟨k, hk, hr⟩
      · omega
      · have := hr.lt_length
        omega
      · obtain rfl : k = i' := by omega
        exact Or.inr ⟨j', rfl, .step hc' hr⟩

/-- The chain of parents from a place ends at its own element, at the first element by way of one
of its children, or behind the first element's span. -/
theorem reaches_cons_append {top : Path → Bool} (htop : ∀ s ∈ span, top s.path = false) {j : Nat} :
    Reaches top (e :: (span ++ rest)) j ↔
      (top e.path = true ∧ (j = 0 ∨ ∃ k, j = k + 1 ∧ Reaches e.path.isParentOf span k)) ∨
      (∃ k, j = k + (span.length + 1) ∧ Reaches top rest k) := by
  constructor
  · exact Reaches.cases_cons_append hspan hrest htop
  · rintro (⟨ht, rfl | ⟨k, rfl, hr⟩⟩ | ⟨k, rfl, hr⟩)
    · exact .here List.getElem?_cons_zero ht
    · exact hr.of_span hspan hrest ht
    · exact hr.of_rest hspan hrest

end Span

/-! ## Sharing out the places -/

/-- The places of a list shared out between the trees whose root passes `top` and the others. -/
structure Shares (top : Path → Bool) (es : List Element) (kept lost : List Nat) : Prop where
  kept_sorted : kept.Pairwise (· < ·)
  perm_range : (kept ++ lost).Perm (List.range es.length)
  mem_kept_iff : ∀ j, j ∈ kept ↔ Reaches top es j
  listing_kept : listingAll ((trees es).filter fun e => top e.path) = elementsAt es kept
  listing_lost : listingAll ((trees es).filter fun e => !top e.path) = elementsAt es lost

/-- The paths of the trees are paths of the list. -/
theorem path_mem_of_mem_trees {es : List Element} {tree : Element} (h : tree ∈ trees es) :
    ∃ e ∈ es, e.path = tree.path := by
  obtain ⟨spot, hs, ht⟩ := List.mem_filterMap.1 h
  have hm : spot.path ∈ es.map Element.path := map_path_spots es ▸ List.mem_map_of_mem hs
  rw [path_of_mem_spots hs ht]
  exact List.mem_map.1 hm

section Top

variable {es : List Element} {top : Path → Bool} (keep : Element → Bool)
  (h : ∀ e ∈ es, top e.path = false)
include h

/-- What holds of the path of no element holds of the path of no tree. -/
theorem top_of_mem_filter_trees : ∀ tree ∈ (trees es).filter keep, top tree.path = false := by
  intro tree ht
  obtain ⟨e, he, hp⟩ := path_mem_of_mem_trees (List.mem_of_mem_filter ht)
  rw [← hp, h e he]

theorem filter_trees_eq_nil : ((trees es).filter keep).filter (fun e => top e.path) = [] :=
  List.filter_eq_nil_iff.2 fun tree ht => by simp [top_of_mem_filter_trees keep h tree ht]

theorem filter_trees_eq_self :
    ((trees es).filter keep).filter (fun e => !top e.path) = (trees es).filter keep :=
  List.filter_eq_self.2 fun tree ht => by simp [top_of_mem_filter_trees keep h tree ht]

end Top

theorem elementsAt_span (e : Element) {span : List Element} (rest : List Element) {ps : List Nat}
    (h : ∀ p ∈ ps, p < span.length) :
    elementsAt (e :: (span ++ rest)) (ps.map (· + 1)) = elementsAt span ps := by
  rw [elementsAt, elementsAt, List.filterMap_map]
  refine List.filterMap_congr fun p hp => ?_
  show (e :: (span ++ rest))[p + 1]? = span[p]?
  rw [List.getElem?_cons_succ, List.getElem?_append_left (h p hp)]

theorem elementsAt_rest (e : Element) (span rest : List Element) (ps : List Nat) :
    elementsAt (e :: (span ++ rest)) (ps.map (· + (span.length + 1))) = elementsAt rest ps := by
  rw [elementsAt, elementsAt, List.filterMap_map]
  refine List.filterMap_congr fun p _ => ?_
  show (e :: (span ++ rest))[p + (span.length + 1)]? = rest[p]?
  rw [← Nat.add_assoc, List.getElem?_cons_succ, List.getElem?_append_right (by omega),
    Nat.add_sub_cancel]

theorem range_add_succ (n m : Nat) :
    List.range (n + m + 1) =
      0 :: ((List.range n).map (· + 1) ++ (List.range m).map (· + (n + 1))) := by
  rw [List.range_succ_eq_map, List.range_add, List.map_append, List.map_map]
  refine congrArg (0 :: ·) (congrArg (_ ++ ·) (List.map_congr_left fun i _ => ?_))
  show n + i + 1 = i + (n + 1)
  omega

/-- The places kept of a list whose first element has a span of length `n`: those of the first
element's tree, if it is kept, and those kept behind the span. -/
def keptPlaces (keep : Bool) (n : Nat) (ks kr : List Nat) : List Nat :=
  (if keep then 0 :: ks.map (· + 1) else []) ++ kr.map (· + (n + 1))

/-- The other places of such a list. -/
def lostPlaces (keep : Bool) (n : Nat) (ks ls lr : List Nat) : List Nat :=
  (if keep then [] else 0 :: ks.map (· + 1)) ++ (ls.map (· + 1) ++ lr.map (· + (n + 1)))

/-- The kept places stand in the order of the list, if they do so in its two parts. -/
theorem pairwise_keptPlaces (keep : Bool) {n : Nat} {ks kr : List Nat} (hn : ∀ p ∈ ks, p < n)
    (hks : ks.Pairwise (· < ·)) (hkr : kr.Pairwise (· < ·)) :
    (keptPlaces keep n ks kr).Pairwise (· < ·) := by
  refine List.pairwise_append.2 ⟨?_, ?_, ?_⟩
  · split
    · refine List.pairwise_cons.2 ⟨by simp, ?_⟩
      exact List.pairwise_map.2 (hks.imp fun h => by omega)
    · exact List.Pairwise.nil
  · exact List.pairwise_map.2 (hkr.imp fun h => by omega)
  · intro p hp q hq
    obtain ⟨q', -, rfl⟩ := List.mem_map.1 hq
    split at hp
    · rcases List.mem_cons.1 hp with rfl | hp
      · omega
      · obtain ⟨p', hp', rfl⟩ := List.mem_map.1 hp
        have := hn p' hp'
        omega
    · simp at hp

/-- No place is lost or doubled, if none is in the two parts. -/
theorem perm_keptPlaces_lostPlaces (keep : Bool) {n m : Nat} {ks ls kr lr : List Nat}
    (hs : (ks ++ ls).Perm (List.range n)) (hr : (kr ++ lr).Perm (List.range m)) :
    (keptPlaces keep n ks kr ++ lostPlaces keep n ks ls lr).Perm (List.range (n + m + 1)) := by
  rw [range_add_succ, List.perm_iff_count]
  intro a
  have h₁ := ((hs.map (· + 1)).count_eq a).symm
  have h₂ := ((hr.map (· + (n + 1))).count_eq a).symm
  rw [List.map_append, List.count_append] at h₁ h₂
  cases keep with
  | true =>
    simp only [keptPlaces, lostPlaces, if_true, List.count_append, List.count_cons,
      List.count_nil, h₁, h₂]
    omega
  | false =>
    simp only [keptPlaces, lostPlaces, Bool.false_eq_true, if_false, List.count_append,
      List.count_cons, List.count_nil, h₁, h₂]
    omega

theorem Shares.lt_length {top : Path → Bool} {es : List Element} {kept lost : List Nat}
    (h : Shares top es kept lost) : ∀ p ∈ kept ++ lost, p < es.length :=
  fun _ hp => List.mem_range.1 (h.perm_range.mem_iff.1 hp)

/-- The tree of an element with the trees of its children below it. -/
theorem Shares.listing_tree {e : Element} {span : List Element} {ks ls : List Nat}
    (hs : Shares e.path.isParentOf span ks ls) (he : e.children = []) (rest : List Element) :
    listing { e with children := (trees span).filter fun s => e.path.isParentOf s.path } =
      elementsAt (e :: (span ++ rest)) (0 :: ks.map (· + 1)) := by
  have hks : ∀ p ∈ ks, p < span.length := fun p hp => hs.lt_length p (by simp [hp])
  rw [listing_eq, hs.listing_kept, ← elementsAt_span e rest hks]
  show e.bare :: _ = e :: _
  rw [bare_of_children_eq_nil he]
  rfl

/-- The places of a list are shared out as those of its first element's span and those behind it
are; the first element goes with its children, and the rest of the span is lost. -/
theorem Shares.cons_append {top : Path → Bool} {e : Element} {span rest : List Element}
    {ks ls kr lr : List Nat} (hspan : ∀ s ∈ span, e.path.covers s.path = true)
    (hrest : ∀ r ∈ rest.head?, e.path.covers r.path = false)
    (htop : ∀ s ∈ span, top s.path = false) (he : e.children = [])
    (hs : Shares e.path.isParentOf span ks ls) (hr : Shares top rest kr lr) :
    Shares top (e :: (span ++ rest)) (keptPlaces (top e.path) span.length ks kr)
      (lostPlaces (top e.path) span.length ks ls lr) := by
  have hks : ∀ p ∈ ks, p < span.length := fun p hp => hs.lt_length p (by simp [hp])
  have hls : ∀ p ∈ ls, p < span.length := fun p hp => hs.lt_length p (by simp [hp])
  have htree := hs.listing_tree he rest
  refine ⟨pairwise_keptPlaces _ hks hs.kept_sorted hr.kept_sorted, ?perm, ?mem, ?kept, ?lost⟩
  case perm =>
    rw [List.length_cons, List.length_append]
    exact perm_keptPlaces_lostPlaces _ hs.perm_range hr.perm_range
  case mem =>
    intro j
    rw [reaches_cons_append hspan hrest htop, keptPlaces, List.mem_append]
    refine or_congr ?_ ?_
    · by_cases ht : top e.path = true
      · simp only [ht, if_true, List.mem_cons, List.mem_map, true_and, hs.mem_kept_iff, and_comm,
          eq_comm]
      · simp [ht]
    · simp only [List.mem_map, hr.mem_kept_iff, and_comm, eq_comm]
  -- of the span only what hangs on the first element is kept, as part of its tree
  case kept =>
    rw [trees_cons_append hspan hrest, keptPlaces, elementsAt_append, elementsAt_rest,
      ← hr.listing_kept]
    by_cases ht : top e.path = true
    · rw [List.filter_cons_of_pos (by simpa using ht), List.filter_append,
        filter_trees_eq_nil _ htop, List.nil_append, listingAll, htree, if_pos ht]
    · rw [List.filter_cons_of_neg (by simpa using ht), List.filter_append,
        filter_trees_eq_nil _ htop, if_neg ht]
      rfl
  case lost =>
    rw [trees_cons_append hspan hrest, lostPlaces, elementsAt_append, elementsAt_append,
      elementsAt_rest, elementsAt_span e rest hls, ← hr.listing_lost, ← hs.listing_lost]
    by_cases ht : top e.path = true
    · rw [List.filter_cons_of_neg (by simp [ht]), List.filter_append,
        filter_trees_eq_self _ htop, listingAll_append, if_pos ht]
      rfl
    · rw [List.filter_cons_of_pos (by simp [ht]), List.filter_append,
        filter_trees_eq_self _ htop, listingAll, listingAll_append, htree, if_neg ht]

/-- The places of every list can be shared out, by induction along its spans. -/
theorem exists_shares (es : List Element) : ∀ (top : Path → Bool), (∀ e ∈ es, e.Fresh) →
    (∀ s ∈ es, ∀ x ∈ es, s.path.covers x.path = true → top x.path = false) →
    ∃ kept lost, Shares top es kept lost := by
  induction es using span_induction with
  | nil =>
    intro top _ _
    refine ⟨[], [], ⟨List.Pairwise.nil, List.Perm.refl _, fun j => ?_, rfl, rfl⟩⟩
    refine ⟨fun h => absurd h (by simp), fun h => absurd h.lt_length (by simp)⟩
  | cons e span rest hspan hrest ihs ihr =>
    intro top hfresh htop
    have hmem : ∀ s ∈ span, s ∈ e :: (span ++ rest) := fun s hs => by simp [hs]
    obtain ⟨ks, ls, hs⟩ := ihs e.path.isParentOf (fun s hs => hfresh s (hmem s hs))
      fun s hs x _ hsx =>
        Path.not_isParentOf_of_covers (hfresh s (hmem s hs)).full_ne_nil (hspan s hs) hsx
    obtain ⟨kr, lr, hr⟩ := ihr top (fun r hr => hfresh r (by simp [hr]))
      fun s hs x hx => htop s (by simp [hs]) x (by simp [hx])
    exact ⟨_, _, hs.cons_append hspan hrest
      (fun s hs => htop e (List.mem_cons_self ..) s (hmem s hs) (hspan s hs))
      (hfresh e (List.mem_cons_self ..)).children_eq_nil hr⟩

/-! ## Roots -/

/-- The roots of a page are the elements whose path is one segment, in order. -/
theorem map_bare_nest (es : List Element) : (∀ e ∈ es, e.Fresh) →
    (nest es).map bare = es.filter fun e => !e.path.full.contains ' ' := by
  induction es using span_induction with
  | nil => intro _; rfl
  | cons e span rest hspan hrest _ ihr =>
    intro hfresh
    have ihr := ihr fun r hr => hfresh r (by simp [hr])
    have he := hfresh e (List.mem_cons_self ..)
    have hroot : ∀ s ∈ span, s.path.isRoot = false :=
      fun s hs => Path.isRoot_of_covers he.full_ne_nil (hspan s hs)
    -- what may lie below another element has a space in its path
    have hspaces : span.filter (fun s => !s.path.full.contains ' ') = [] := by
      rw [List.filter_eq_nil_iff]
      intro s hs
      have := mt (Path.isRoot_of_notMem (p := s.path)) (by simp [hroot s hs])
      simpa using this
    have hiff := Path.isRoot_iff he.head_ne_space
    rw [nest] at ihr ⊢
    rw [trees_cons_append hspan hrest]
    by_cases hspace : ' ' ∈ e.path.full
    · rw [List.filter_cons_of_neg (by simp [hiff, hspace]), List.filter_append,
        filter_trees_eq_nil _ hroot, List.nil_append, ihr,
        List.filter_cons_of_neg (by simp [hspace]), List.filter_append, hspaces, List.nil_append]
    · rw [List.filter_cons_of_pos (by simp [hiff, hspace]), List.filter_append,
        filter_trees_eq_nil _ hroot, List.nil_append, List.map_cons, ihr,
        List.filter_cons_of_pos (by simp [hspace]), List.filter_append, hspaces, List.nil_append]
      refine congrArg (· :: _) ?_
      exact bare_of_children_eq_nil he.children_eq_nil

/-! ## Elements of a style sheet -/

/-- The selectors of every style rule come from a list of selectors. -/
theorem selectors_of_mem_readItems (c : Css.Cursor) {selectors : List Text}
    {items : List Css.BlockItem} (h : Css.Item.style selectors items ∈ (Css.readItems c).1) :
    ∃ list, selectors = Css.splitSelectors list := by
  fun_induction Css.readItems c with
  | case1 => simp at h
  | case2 _ _ _ ih => exact ih h
  | case3 _ _ _ ih => exact ih h
  | case4 _ _ _ ih => exact ih h
  | case5 _ _ _ _ ih => exact ih (by simpa using h)
  | case6 _ _ _ _ ih => exact ih (by simpa using h)
  | case7 => simp at h
  | case8 c _ _ _ _ _ _ _ _ _ _ _ _ ih =>
    rcases List.mem_cons.1 h with h | h
    · exact ⟨_, (Css.Item.style.inj h).1⟩
    · exact ih h

theorem selector_of_mem_parse {css : Text} {rules : List Css.Rule} {rule : Css.Rule}
    (h : Css.parse css = .ok rules) (hr : rule ∈ rules) (hk : rule.kind = .style) :
    ∃ list, rule.selectors = Css.splitSelectors list := by
  rw [Css.parse] at h
  split at h
  · next items heq =>
    rw [Except.ok.injEq] at h
    have hitems : (Css.readItems (.start css)).1 = items := congrArg Prod.fst heq
    rw [← h, ← hitems] at hr
    obtain ⟨item, hi, rfl⟩ := List.mem_map.1 hr
    cases item with
    | comment body => simp [Css.Item.rule] at hk
    | atRule name => simp [Css.Item.rule] at hk
    | style selectors items => exact selectors_of_mem_readItems _ hi
  · exact absurd h (by simp)

/-- A style sheet lists elements with nothing under them yet. -/
theorem fresh_of_mem_elements {css : Text} {rules : List Css.Rule} {e : Element}
    (h : Css.parse css = .ok rules) (he : e ∈ elements rules) : e.Fresh := by
  obtain ⟨rule, hr, hrule⟩ := List.mem_filterMap.1 he
  obtain ⟨hr, hs⟩ := List.mem_filter.1 hr
  obtain ⟨selector, hsel, rfl⟩ := Option.map_eq_some_iff.1 hrule
  have hk : rule.kind = .style := by
    rw [Css.Rule.isSupported, Css.Rule.verdict] at hs
    by_contra hk
    rw [if_neg hk] at hs
    exact absurd hs (by simp)
  obtain ⟨list, hlist⟩ := selector_of_mem_parse h hr hk
  have hmem : selector ∈ Css.splitSelectors list := hlist ▸ List.mem_of_mem_head? hsel
  have hne : selector ≠ [] := Css.ne_nil_of_mem_splitSelectors hmem
  refine ⟨hne, fun hspace => ?_, rfl⟩
  obtain ⟨piece, -, rfl⟩ := List.mem_map.1 (List.mem_of_mem_filter hmem)
  have := (trimmed_trim piece).1 ' ' hspace
  exact absurd this (by decide)

/-! ## The partition -/

theorem elementsAt_range (es : List Element) : elementsAt es (List.range es.length) = es := by
  induction es with
  | nil => rfl
  | cons e es ih =>
    rw [List.length_cons, List.range_succ_eq_map, elementsAt]
    show e :: ((List.range es.length).map Nat.succ).filterMap (fun i => (e :: es)[i]?) = e :: es
    rw [List.filterMap_map]
    exact congrArg (e :: ·) ih

/-- The kept elements stand in the list in the order of their trees. -/
theorem Shares.sublist {top : Path → Bool} {es : List Element} {kept lost : List Nat}
    (h : Shares top es kept lost) : (elementsAt es kept).Sublist es := by
  have hsub : kept.Sublist (List.range es.length) :=
    List.sublist_of_subperm_of_pairwise (r := (· < ·))
      ((List.sublist_append_left kept lost).subperm.trans h.perm_range.subperm)
      h.kept_sorted List.pairwise_lt_range
  have := hsub.filterMap fun i => es[i]?
  rwa [← elementsAt, ← elementsAt, elementsAt_range] at this

/-- Nesting loses nothing, doubles nothing and moves nothing.  The places of the list are shared
out between the page and the trees that are dropped; the page has those from which the chain of
parents ends at a root, in the order of the list, and its roots are the elements whose path is a
single segment.  The elements of a style sheet are always such a list. -/
theorem nest_partition :
    (∀ css rules, Css.parse css = .ok rules → ∀ e ∈ elements rules, e.Fresh) ∧
    ∀ es : List Element, (∀ e ∈ es, e.Fresh) →
      ∃ kept lost : List Nat,
        (kept ++ lost).Perm (List.range es.length) ∧
        listingAll (nest es) = elementsAt es kept ∧
        listingAll (orphans es) = elementsAt es lost ∧
        (nest es).map bare = es.filter (fun e => !e.path.full.contains ' ') ∧
        (∀ j, j ∈ kept ↔ Reaches Path.isRoot es j) ∧
        kept.Pairwise (· < ·) ∧
        (listingAll (nest es)).Sublist es := by
  refine ⟨fun css rules h e he => fresh_of_mem_elements h he, fun es hfresh => ?_⟩
  obtain ⟨kept, lost, h⟩ := exists_shares es Path.isRoot hfresh
    fun s hs _ _ hsx => Path.isRoot_of_covers (hfresh s hs).full_ne_nil hsx
  refine ⟨kept, lost, h.perm_range, h.listing_kept, h.listing_lost, map_bare_nest es hfresh,
    h.mem_kept_iff, h.kept_sorted, ?_⟩
  rw [nest, h.listing_kept]
  exact h.sublist

/-- A page in which a path stands twice, one path is the start of another's text, and two elements
have nobody to nest under. -/
def tangledPage : List Element :=
  (["a", "a b", "a bc d", "a b e", "a b", "x y"].map String.toList).filterMap fun selector =>
    ofRule? (.style selector [])

theorem nest_partition_tangledPage :
    (∀ e ∈ tangledPage, e.Fresh) ∧
      ∃ kept lost : List Nat,
        (kept ++ lost).Perm (List.range tangledPage.length) ∧
        listingAll (nest tangledPage) = elementsAt tangledPage kept ∧
        listingAll (orphans tangledPage) = elementsAt tangledPage lost ∧
        (nest tangledPage).map bare =
          tangledPage.filter (fun e => !e.path.full.contains ' ') ∧
        (∀ j, j ∈ kept ↔ Reaches Path.isRoot tangledPage j) ∧
        kept.Pairwise (· < ·) ∧
        (listingAll (nest tangledPage)).Sublist tangledPage := by
  have hfresh : ∀ e ∈ tangledPage, e.Fresh := by
    have hselectors : ∀ selector ∈ ["a", "a b", "a bc d", "a b e", "a b", "x y"].map String.toList,
        selector ≠ [] ∧ selector.head? ≠ some ' ' := by
      decide
    intro e he
    obtain ⟨selector, hs, hrule⟩ := List.mem_filterMap.1 he
    obtain rfl := Option.some.inj hrule
    exact ⟨(hselectors selector hs).1, (hselectors selector hs).2, rfl⟩
  exact ⟨hfresh, nest_partition.2 tangledPage hfresh⟩

end Scaffold
