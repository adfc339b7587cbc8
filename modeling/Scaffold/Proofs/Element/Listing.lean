import Scaffold.Element.Forest
import Scaffold.Proofs.Selector.Path

/-!
# How a list of elements grows into trees

Every element looks forward over a *span*: the elements behind it that may lie below it, up to
the first one that cannot.  Nothing in the span looks further than the span does, so the trees of
a list are put together from those of the first element's span and those of what follows it
(`trees_cons_append`).  `span_induction` is the induction along this cut, and everything said about
nesting goes by it.

The other direction is `trees_listing_append`: a tree whose paths say what its shape is grows
again from its listing.
-/

namespace Scaffold

open Scaffold.Selector

/-! ## Listings -/

namespace Element

/-- An element without the elements below it. -/
def bare (e : Element) : Element :=
  { e with children := [] }

mutual

/-- The elements of a tree, parents first, each without the elements below it. -/
def listing : Element → List Element
  | ⟨path, tag, id, classes, attributes, slots, children, rendered⟩ =>
    ⟨path, tag, id, classes, attributes, slots, [], rendered⟩ :: listingAll children

/-- The listings of a list of trees, one behind the other. -/
def listingAll : List Element → List Element
  | [] => []
  | e :: es => e.listing ++ listingAll es

end

theorem listing_eq (e : Element) : e.listing = e.bare :: listingAll e.children := by
  cases e
  rw [listing]
  rfl

@[simp] theorem bare_path (e : Element) : e.bare.path = e.path := rfl

theorem bare_of_children_eq_nil {e : Element} (h : e.children = []) : e.bare = e := by
  cases e
  simp only at h
  rw [h]
  rfl

theorem listingAll_append (es fs : List Element) :
    listingAll (es ++ fs) = listingAll es ++ listingAll fs := by
  induction es with
  | nil => rfl
  | cons e es ih => rw [List.cons_append, listingAll, listingAll, ih, List.append_assoc]

end Element

open Element

/-! ## Taking children from a span -/

/-- A place after a parent took the tree that grew there, if it is the parent's child. -/
def Spot.cleared (parent : Path) (spot : Spot) : Spot :=
  if parent.isParentOf spot.path then { spot with tree := none } else spot

/-- Where nothing ends the search, a parent takes every tree one segment below it. -/
theorem takeChildren_of_covers {parent : Path} {spots : List Spot}
    (h : ∀ spot ∈ spots, parent.covers spot.path = true) :
    takeChildren parent spots =
      ((spots.filter fun spot => parent.isParentOf spot.path).filterMap Spot.tree,
        spots.map (Spot.cleared parent)) := by
  induction spots with
  | nil => rfl
  | cons spot spots ih =>
    have ih := ih fun s hs => h s (List.mem_cons_of_mem _ hs)
    rw [takeChildren, ih]
    by_cases hp : parent.isParentOf spot.path = true
    · rw [if_pos hp, List.filter_cons_of_pos (by simpa using hp), List.map_cons, Spot.cleared,
        if_pos hp]
      cases ht : spot.tree with
      | none => simp [ht]
      | some tree => simp [ht]
    · rw [if_neg hp, if_pos (h spot (List.mem_cons_self ..)),
        List.filter_cons_of_neg (by simpa using hp), List.map_cons, Spot.cleared, if_neg hp]
      rfl

/-- The search for children ends where nothing can lie below the parent any more. -/
theorem takeChildren_append {parent : Path} {spots rest : List Spot}
    (h : ∀ spot ∈ rest.head?, parent.covers spot.path = false) :
    takeChildren parent (spots ++ rest) =
      ((takeChildren parent spots).1, (takeChildren parent spots).2 ++ rest) := by
  induction spots with
  | nil =>
    cases rest with
    | nil => rfl
    | cons spot rest =>
      have hc : parent.covers spot.path = false := h spot (by simp)
      simp [takeChildren, hc, Path.isParentOf_of_not_covers hc]
  | cons spot spots ih =>
    rw [List.cons_append, takeChildren, takeChildren, ih]
    split
    · rfl
    · split
      · rfl
      · rfl

/-! ## The spots of a list -/

/-- The places of a list, each with the tree that grew there if no parent took it. -/
def spots (es : List Element) : List Spot :=
  es.foldr grow []

theorem spots_cons (e : Element) (es : List Element) : spots (e :: es) = grow e (spots es) := rfl

theorem map_path_takeChildren (parent : Path) (ss : List Spot) :
    (takeChildren parent ss).2.map Spot.path = ss.map Spot.path := by
  induction ss with
  | nil => rfl
  | cons spot ss ih =>
    rw [takeChildren]
    split
    · simp [ih]
    · split
      · simp [ih]
      · rfl

/-- Growing trees moves no place. -/
theorem map_path_spots (es : List Element) :
    (spots es).map Spot.path = es.map Element.path := by
  induction es with
  | nil => rfl
  | cons e es ih =>
    rw [spots_cons, grow, List.map_cons, map_path_takeChildren, ih, List.map_cons]

theorem covers_of_mem_spots {parent : Path} {es : List Element}
    (h : ∀ e ∈ es, parent.covers e.path = true) :
    ∀ spot ∈ spots es, parent.covers spot.path = true := by
  intro spot hs
  have hm : spot.path ∈ es.map Element.path := map_path_spots es ▸ List.mem_map_of_mem hs
  obtain ⟨e, he, hp⟩ := List.mem_map.1 hm
  exact hp ▸ h e he

theorem head_spots_of_head {parent : Path} {es : List Element}
    (h : ∀ e ∈ es.head?, parent.covers e.path = false) :
    ∀ spot ∈ (spots es).head?, parent.covers spot.path = false := by
  cases es with
  | nil => simp [spots]
  | cons e es =>
    intro spot hs
    rw [spots_cons, grow] at hs
    simp only [List.head?_cons, Option.mem_def, Option.some.injEq] at hs h
    rw [← hs]
    exact h e rfl

/-- The tree at a place has the path of the place. -/
theorem path_of_mem_takeChildren {parent : Path} {ss : List Spot} {spot : Spot} {tree : Element}
    (h : ∀ spot ∈ ss, ∀ tree ∈ spot.tree, tree.path = spot.path)
    (hs : spot ∈ (takeChildren parent ss).2) (ht : tree ∈ spot.tree) : tree.path = spot.path := by
  induction ss with
  | nil => simp [takeChildren] at hs
  | cons s ss ih =>
    have ih := ih fun s' hs' => h s' (List.mem_cons_of_mem _ hs')
    rw [takeChildren] at hs
    split at hs
    · rcases List.mem_cons.1 hs with rfl | hs
      · simp at ht
      · exact ih hs
    · split at hs
      · rcases List.mem_cons.1 hs with rfl | hs
        · exact h spot (List.mem_cons_self ..) tree ht
        · exact ih hs
      · exact h spot hs tree ht

/-- The tree at a place has the path of the place. -/
theorem path_of_mem_spots {es : List Element} {spot : Spot} {tree : Element}
    (hs : spot ∈ spots es) (ht : tree ∈ spot.tree) : tree.path = spot.path := by
  induction es generalizing spot tree with
  | nil => simp [spots] at hs
  | cons e es ih =>
    rw [spots_cons, grow] at hs
    rcases List.mem_cons.1 hs with rfl | hs
    · simp only [Option.mem_def, Option.some.injEq] at ht
      rw [← ht]
    · exact path_of_mem_takeChildren (fun s hs' t ht' => ih hs' ht') hs ht

/-- Two lists grow apart from each other if nothing of the first looks into the second. -/
theorem spots_append {es fs : List Element}
    (h : ∀ e ∈ es, ∀ f ∈ fs.head?, e.path.covers f.path = false) :
    spots (es ++ fs) = spots es ++ spots fs := by
  induction es with
  | nil => rfl
  | cons e es ih =>
    have ih := ih fun e' he' => h e' (List.mem_cons_of_mem _ he')
    rw [List.cons_append, spots_cons, spots_cons, ih, grow, grow,
      takeChildren_append (head_spots_of_head (h e (List.mem_cons_self ..)))]
    rfl

/-! ## The trees of a list -/

theorem trees_eq (es : List Element) : trees es = (spots es).filterMap Spot.tree := rfl

theorem filterMap_tree_filter (es : List Element) (q : Path → Bool) :
    ((spots es).filter fun spot => q spot.path).filterMap Spot.tree =
      (trees es).filter fun e => q e.path := by
  rw [trees_eq]
  have h : ∀ spot ∈ spots es, ∀ tree ∈ spot.tree, tree.path = spot.path :=
    fun spot hs tree ht => path_of_mem_spots hs ht
  generalize spots es = ss at h
  induction ss with
  | nil => rfl
  | cons spot ss ih =>
    have ih := ih fun s hs => h s (List.mem_cons_of_mem _ hs)
    have hspot := h spot (List.mem_cons_self ..)
    cases ht : spot.tree with
    | none => cases hq : q spot.path <;> simp [hq, ht, ih]
    | some tree =>
      have hpath : tree.path = spot.path := hspot tree ht
      cases hq : q spot.path <;> simp [hq, ht, hpath, ih]

/-- What a parent leaves behind are the trees that are not its children. -/
theorem filterMap_tree_cleared (parent : Path) (ss : List Spot) :
    (ss.map (Spot.cleared parent)).filterMap Spot.tree =
      (ss.filter fun spot => !parent.isParentOf spot.path).filterMap Spot.tree := by
  induction ss with
  | nil => rfl
  | cons spot ss ih =>
    rw [List.map_cons, Spot.cleared]
    by_cases hp : parent.isParentOf spot.path = true
    · rw [if_pos hp, List.filterMap_cons_none rfl, ih, List.filter_cons_of_neg (by simpa using hp)]
    · rw [if_neg hp, List.filter_cons_of_pos (by simpa using hp), List.filterMap_cons,
        List.filterMap_cons, ih]

/-- The trees of a list, from those of its first element's span and of what follows it: the
first element takes its children from the trees of the span. -/
theorem trees_cons_append {e : Element} {span rest : List Element}
    (hspan : ∀ s ∈ span, e.path.covers s.path = true)
    (hrest : ∀ r ∈ rest.head?, e.path.covers r.path = false) :
    trees (e :: (span ++ rest)) =
      { e with children := (trees span).filter fun s => e.path.isParentOf s.path } ::
        ((trees span).filter (fun s => !e.path.isParentOf s.path) ++ trees rest) := by
  have happend : spots (span ++ rest) = spots span ++ spots rest :=
    spots_append fun s hs r hr => Path.covers_eq_false_of_covers (hspan s hs) (hrest r hr)
  rw [trees_eq, spots_cons, happend, grow, takeChildren_append (head_spots_of_head hrest),
    takeChildren_of_covers (covers_of_mem_spots hspan), filterMap_tree_filter]
  show { e with children := (trees span).filter fun s => e.path.isParentOf s.path } ::
    ((spots span).map (Spot.cleared e.path) ++ spots rest).filterMap Spot.tree = _
  rw [List.filterMap_append, filterMap_tree_cleared,
    filterMap_tree_filter span fun p => !e.path.isParentOf p, ← trees_eq]

theorem trees_nil : trees [] = [] := rfl

/-- Induction along the spans of a list. -/
theorem span_induction {motive : List Element → Prop} (nil : motive [])
    (cons : ∀ e span rest, (∀ s ∈ span, e.path.covers s.path = true) →
      (∀ r ∈ rest.head?, e.path.covers r.path = false) → motive span → motive rest →
      motive (e :: (span ++ rest))) :
    ∀ es, motive es
  | [] => nil
  | e :: es => by
    have hcut := List.takeWhile_append_dropWhile (p := fun s : Element => e.path.covers s.path)
      (l := es)
    have hspan := (List.takeWhile_sublist (fun s : Element => e.path.covers s.path)
      (l := es)).length_le
    have hrest := (List.dropWhile_suffix (fun s : Element => e.path.covers s.path)
      (l := es)).length_le
    rw [← hcut]
    refine cons e _ _ (fun s hs => ?_) (fun r hr => ?_) (span_induction nil cons _)
      (span_induction nil cons _)
    · exact List.all_eq_true.1 List.all_takeWhile s hs
    · have := List.head?_dropWhile_not (fun s : Element => e.path.covers s.path) es
      rw [Option.mem_def.1 hr] at this
      exact this
termination_by es => es.length

/-! ## From a listing back to its trees -/

namespace Element

mutual

/-- A tree whose paths tell its shape: every child is one segment below its parent. -/
def Nested : Element → Prop
  | ⟨path, _, _, _, _, _, children, _⟩ => NestedUnder path children

/-- Trees whose paths tell their shape, each of them one segment below `parent`. -/
def NestedUnder (parent : Path) : List Element → Prop
  | [] => True
  | e :: es => parent.isParentOf e.path = true ∧ e.Nested ∧ NestedUnder parent es

end

theorem NestedUnder.isParentOf {parent : Path} {es : List Element} (h : NestedUnder parent es) :
    ∀ e ∈ es, parent.isParentOf e.path = true := by
  induction es with
  | nil => simp
  | cons e es ih =>
    rw [NestedUnder] at h
    intro f hf
    rcases List.mem_cons.1 hf with rfl | hf
    · exact h.1
    · exact ih h.2.2 f hf

mutual

/-- Everything in a tree but its root may lie below the root. -/
theorem covers_of_mem_listing {parent : Path} :
    ∀ (e : Element), parent.isParentOf e.path = true → e.Nested →
      ∀ f ∈ e.listing, parent.covers f.path = true
  | ⟨path, _, _, _, _, _, children, _⟩, hp, h, f, hf => by
    rw [listing] at hf
    rw [Nested] at h
    rcases List.mem_cons.1 hf with rfl | hf
    · exact Path.covers_of_isParentOf hp
    · exact Path.covers_trans (Path.covers_of_isParentOf hp)
        (covers_of_mem_listingAll children h f hf)

/-- All elements of trees below a parent may lie below it. -/
theorem covers_of_mem_listingAll {parent : Path} :
    ∀ (es : List Element), NestedUnder parent es →
      ∀ f ∈ listingAll es, parent.covers f.path = true
  | [], _, f, hf => by simp [listingAll] at hf
  | e :: es, h, f, hf => by
    rw [NestedUnder] at h
    rw [listingAll] at hf
    rcases List.mem_append.1 hf with hf | hf
    · exact covers_of_mem_listing e h.1 h.2.1 f hf
    · exact covers_of_mem_listingAll es h.2.2 f hf

end

/-- A child does not reach over its next sibling, nor over what its parent does not reach over. -/
theorem head_listingAll_append {parent : Path} {e : Element} {es rest : List Element}
    (hp : parent.isParentOf e.path = true) (h : NestedUnder parent es)
    (hrest : ∀ r ∈ rest.head?, parent.covers r.path = false) :
    ∀ r ∈ (listingAll es ++ rest).head?, e.path.covers r.path = false := by
  intro r hr
  cases es with
  | nil =>
    rw [listingAll, List.nil_append] at hr
    exact Path.covers_eq_false_of_covers (Path.covers_of_isParentOf hp) (hrest r hr)
  | cons f fs =>
    rw [Bool.eq_false_iff]
    intro hc
    rw [NestedUnder] at h
    rw [listingAll, listing_eq] at hr
    simp only [List.cons_append, List.head?_cons, Option.mem_def, Option.some.injEq] at hr
    have hr : r.path = f.path := by rw [← hr]; rfl
    have hlen := (Path.covers_iff.1 hc).length_le
    rw [hr, Path.parent_eq_of_isParentOf h.1] at hlen
    have hspace := (Path.isParentOf_iff.1 hp).1
    have := Path.length_parent_lt (p := e.path) (List.ne_nil_of_mem hspace)
    rw [Path.parent_eq_of_isParentOf hp] at this
    omega

mutual

/-- A tree whose paths tell its shape grows again from its listing. -/
theorem trees_listing_append (rest : List Element) :
    ∀ (e : Element), e.Nested → (∀ r ∈ rest.head?, e.path.covers r.path = false) →
      trees (e.listing ++ rest) = e :: trees rest
  | ⟨path, tag, id, classes, attributes, slots, children, rendered⟩, h, hrest => by
    rw [Nested] at h
    have hrest : ∀ r ∈ rest.head?, path.covers r.path = false := hrest
    have hgrown : trees (listingAll children) = children := by
      have := trees_listingAll_append path [] children h (by simp)
      rwa [List.append_nil, trees_nil, List.append_nil] at this
    have hall : ∀ c ∈ children, path.isParentOf c.path = true := h.isParentOf
    rw [listing, List.cons_append,
      trees_cons_append (e := ⟨path, tag, id, classes, attributes, slots, [], rendered⟩)
        (covers_of_mem_listingAll children h) hrest, hgrown,
      List.filter_eq_self.2 hall, List.filter_eq_nil_iff.2 fun c hc => by simp [hall c hc],
      List.nil_append]

theorem trees_listingAll_append (parent : Path) (rest : List Element) :
    ∀ (es : List Element), NestedUnder parent es →
      (∀ r ∈ rest.head?, parent.covers r.path = false) →
      trees (listingAll es ++ rest) = es ++ trees rest
  | [], _, _ => rfl
  | e :: es, h, hrest => by
    rw [NestedUnder] at h
    rw [listingAll, List.append_assoc,
      trees_listing_append _ e h.2.1 (head_listingAll_append h.1 h.2.2 hrest),
      trees_listingAll_append parent rest es h.2.2 hrest, List.cons_append]

end

end Element

/-- A page is described by the listing of its trees. -/
theorem nest_listingAll {roots : List Element}
    (h : ∀ e ∈ roots, e.Nested ∧ e.path.full ≠ [] ∧ ' ' ∉ e.path.full) :
    nest (listingAll roots) = roots := by
  have hroot : ∀ e ∈ roots, e.path.isRoot = true := fun e he => Path.isRoot_of_notMem (h e he).2.2
  have hgrown : trees (listingAll roots) = roots := by
    clear hroot
    induction roots with
    | nil => rfl
    | cons e es ih =>
      have ih := ih fun f hf => h f (List.mem_cons_of_mem _ hf)
      obtain ⟨hn, hne, -⟩ := h e (List.mem_cons_self ..)
      rw [listingAll, trees_listing_append _ e hn, ih]
      intro r hr
      cases es with
      | nil => simp [listingAll] at hr
      | cons f fs =>
        rw [listingAll, listing_eq] at hr
        simp only [List.cons_append, List.head?_cons, Option.mem_def, Option.some.injEq] at hr
        rw [← hr, bare_path]
        exact Path.covers_eq_false_of_notMem hne (h f (by simp)).2.2
  rw [nest, hgrown, List.filter_eq_self.2 hroot]

end Scaffold
