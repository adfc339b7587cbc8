import Scaffold.Proofs.Element.Partition

/-!
# A page grows again from its listing

The listing of a forest names every element by its path and says nothing of its shape.  If every
child is one segment below its parent the shape comes back (`nest_listing`), however often a path
stands in the forest.  What `nest` makes of a list is always such a forest, whatever the paths of
the list are: a second round changes nothing.

For paths that hold a text this is the argument of `nest_listingAll`, since a root ends the search
of everything in front of it.  The empty path needs an argument of its own.  Its search never ends,
so it takes every child that stands anywhere behind it, and no such child is left among the roots
(`pairwise_trees`).
-/

namespace Scaffold

open Scaffold.Selector

namespace Element

/-! ## Forests that are nested by segments -/

/-- A tree in which the path of every child is its parent's with one segment more. -/
inductive Segmented : Element → Prop
  | intro {e : Element}
      (path : ∀ c ∈ e.children, ∃ segment, segment ≠ [] ∧ ' ' ∉ segment ∧
        c.path.full = e.path.full ++ ' ' :: segment)
      (children : ∀ c ∈ e.children, Segmented c) : Segmented e

theorem nestedUnder_iff {parent : Path} {es : List Element} :
    NestedUnder parent es ↔ ∀ e ∈ es, parent.isParentOf e.path = true ∧ e.Nested := by
  induction es with
  | nil => simp [NestedUnder]
  | cons e es ih => rw [NestedUnder, ih, List.forall_mem_cons, and_assoc]

theorem nested_iff {e : Element} : e.Nested ↔ NestedUnder e.path e.children := by
  cases e
  rw [Nested]

theorem Segmented.nested {e : Element} (h : e.Segmented) : e.Nested := by
  induction h with
  | @intro e path _ ih =>
    rw [nested_iff, nestedUnder_iff]
    intro c hc
    obtain ⟨segment, -, hspace, hfull⟩ := path c hc
    refine ⟨?_, ih c hc⟩
    rw [Path.isParentOf, hfull, beq_iff_eq]
    have hown : c.path.own = segment := by
      rw [← Path.own_append e.path.full segment hspace, ← hfull]
    rw [hown]

end Element

open Element

/-! ## What nesting gives -/

/-- In every tree that grows the children are those of their parent. -/
theorem nested_of_mem_trees (es : List Element) : ∀ tree ∈ trees es, tree.Nested := by
  induction es using span_induction with
  | nil => simp [trees_nil]
  | cons e span rest hspan hrest ihspan ihrest =>
    rw [trees_cons_append hspan hrest]
    intro tree htree
    rcases List.mem_cons.1 htree with rfl | htree
    · rw [nested_iff, nestedUnder_iff]
      intro c hc
      obtain ⟨hc, hp⟩ := List.mem_filter.1 hc
      exact ⟨hp, ihspan c hc⟩
    · rcases List.mem_append.1 htree with htree | htree
      · exact ihspan tree (List.mem_of_mem_filter htree)
      · exact ihrest tree htree

theorem covers_of_full_eq_nil {p : Path} (h : p.full = []) (q : Path) : p.covers q = true := by
  rw [Path.covers_iff, h]
  exact List.nil_prefix

/-- A tree with an empty path leaves none of its children behind it. -/
theorem pairwise_trees (es : List Element) :
    (trees es).Pairwise fun e f => e.path.full = [] → e.path.isParentOf f.path = false := by
  induction es using span_induction with
  | nil => exact List.Pairwise.nil
  | cons e span rest hspan hrest ihspan ihrest =>
    rw [trees_cons_append hspan hrest]
    by_cases he : e.path.full = []
    · -- the span is all that follows
      have hnil : rest = [] := by
        cases rest with
        | nil => rfl
        | cons r rest =>
          have := hrest r rfl
          rw [covers_of_full_eq_nil he] at this
          cases this
      subst hnil
      rw [trees_nil, List.append_nil]
      refine List.pairwise_cons.2 ⟨?_, ihspan.filter _⟩
      intro f hf _
      simpa using (List.mem_filter.1 hf).2
    · refine List.pairwise_cons.2 ⟨fun f _ hnil => absurd hnil he, ?_⟩
      refine List.pairwise_append.2 ⟨ihspan.filter _, ihrest, ?_⟩
      -- nothing in the span has an empty path, since the first element may lie above it
      intro s hs f _ hnil
      obtain ⟨g, hg, hpath⟩ := path_mem_of_mem_trees (List.mem_of_mem_filter hs)
      have hlength := (Path.covers_iff.1 (hspan g hg)).length_le
      rw [hpath, Path.parent_of_notMem (by simp [hnil])] at hlength
      exact absurd (List.length_eq_zero_iff.1 (Nat.le_zero.1 hlength)) he

/-! ## From a listing back to the page -/

theorem isRoot_head_listingAll {es : List Element} (hroot : ∀ e ∈ es, e.path.isRoot = true)
    {rest : List Element} (hrest : ∀ r ∈ rest.head?, r.path.isRoot = true) :
    ∀ r ∈ (listingAll es ++ rest).head?, r.path.isRoot = true := by
  cases es with
  | nil => exact hrest
  | cons e es =>
    intro r hr
    rw [listingAll, listing_eq] at hr
    obtain rfl : e.bare = r := by simpa using hr
    exact hroot e (List.mem_cons_self ..)

/-- Roots with a path that holds a text do not look into what a root stands at the head of. -/
theorem trees_roots_append {es rest : List Element} (hnested : ∀ e ∈ es, e.Nested)
    (hfull : ∀ e ∈ es, e.path.full ≠ []) (hroot : ∀ e ∈ es, e.path.isRoot = true)
    (hrest : ∀ r ∈ rest.head?, r.path.isRoot = true) :
    trees (listingAll es ++ rest) = es ++ trees rest := by
  induction es with
  | nil => rfl
  | cons e es ih =>
    rw [List.forall_mem_cons] at hnested hfull hroot
    have happart : ∀ r ∈ (listingAll es ++ rest).head?, e.path.covers r.path = false := by
      intro r hr
      rw [Bool.eq_false_iff]
      intro hcovers
      have := isRoot_head_listingAll hroot.2 hrest r hr
      rw [Path.isRoot_of_covers hfull.1 hcovers] at this
      cases this
    rw [listingAll, List.append_assoc, trees_listing_append _ e hnested.1 happart,
      ih hnested.2 hfull.2 hroot.2, List.cons_append]

/-- An element with an empty path takes its children back from the listing of the page. -/
theorem trees_listing_of_full_eq_nil {e : Element} {es : List Element} (he : e.path.full = [])
    (hnested : e.Nested) (hroot : ∀ f ∈ es, f.path.isRoot = true)
    (hgrown : trees (listingAll es) = es) (hapart : ∀ f ∈ es, e.path.isParentOf f.path = false) :
    trees (e.listing ++ listingAll es) = e :: es := by
  have hchildren := nestedUnder_iff.1 (nested_iff.1 hnested)
  have hhead : ∀ r ∈ (listingAll es).head?, r.path.isRoot = true := by
    simpa using @isRoot_head_listingAll es hroot [] (by simp)
  -- nothing stands above the children, so they end each other's search as roots do
  have hspan : trees (listingAll e.children ++ listingAll es) = e.children ++ es := by
    rw [trees_roots_append (fun c hc => (hchildren c hc).2) ?_ ?_ hhead, hgrown]
    · intro c hc
      exact List.ne_nil_of_mem (Path.isParentOf_iff.1 (hchildren c hc).1).1
    · intro c hc
      rw [Path.isRoot, Path.parent_eq_of_isParentOf (hchildren c hc).1, he]
      rfl
  have htaken : (e.children ++ es).filter (fun s => e.path.isParentOf s.path) = e.children := by
    rw [List.filter_append, List.filter_eq_self.2 fun c hc => (hchildren c hc).1,
      List.filter_eq_nil_iff.2 fun f hf => by simp [hapart f hf], List.append_nil]
  have hleft : (e.children ++ es).filter (fun s => !e.path.isParentOf s.path) = es := by
    rw [List.filter_append, List.filter_eq_nil_iff.2 fun c hc => by simp [(hchildren c hc).1],
      List.filter_eq_self.2 fun f hf => by simp [hapart f hf], List.nil_append]
  have htrees := @trees_cons_append e.bare (listingAll e.children ++ listingAll es) []
    (fun s _ => covers_of_full_eq_nil he s.path) (by simp)
  rw [List.append_nil, hspan, trees_nil, List.append_nil, bare_path, htaken, hleft] at htrees
  have hself : ({ e.bare with children := e.children } : Element) = e := by
    cases e
    rfl
  rw [listing_eq, List.cons_append, htrees]
  exact congrArg (· :: es) hself

/-- Roots grow again from their listing, if those with an empty path have their children. -/
theorem trees_listingAll_of_roots {es : List Element} (hnested : ∀ e ∈ es, e.Nested)
    (hroot : ∀ e ∈ es, e.path.isRoot = true)
    (hapart : es.Pairwise fun e f => e.path.full = [] → e.path.isParentOf f.path = false) :
    trees (listingAll es) = es := by
  induction es with
  | nil => rfl
  | cons e es ih =>
    obtain ⟨hfirst, hapart⟩ := List.pairwise_cons.1 hapart
    rw [List.forall_mem_cons] at hnested hroot
    have hgrown := ih hnested.2 hroot.2 hapart
    rw [listingAll]
    by_cases he : e.path.full = []
    · exact trees_listing_of_full_eq_nil he hnested.1 hroot.2 hgrown fun f hf => hfirst f hf he
    · have hhead : ∀ r ∈ (listingAll es).head?, r.path.isRoot = true := by
        simpa using @isRoot_head_listingAll es hroot.2 [] (by simp)
      have htrees : trees (listingAll [e] ++ listingAll es) = [e] ++ trees (listingAll es) :=
        trees_roots_append (by simpa using hnested.1) (by simpa using he)
          (by simpa using hroot.1) hhead
      rwa [listingAll, listingAll, List.append_nil, hgrown] at htrees

/-- A forest in which every child is one segment below its parent is what its listing describes,
and so is every page: nesting the listing of a page gives the page again. -/
theorem nest_listing :
    (∀ roots : List Element,
      (∀ e ∈ roots, e.path.full ≠ [] ∧ ' ' ∉ e.path.full ∧ e.Segmented) →
        nest (listingAll roots) = roots) ∧
      ∀ es : List Element, nest (listingAll (nest es)) = nest es := by
  refine ⟨fun roots h => nest_listingAll ?_, fun es => ?_⟩
  · intro e he
    obtain ⟨hne, hspace, hsegmented⟩ := h e he
    exact ⟨hsegmented.nested, hne, hspace⟩
  · have hroot : ∀ e ∈ nest es, e.path.isRoot = true := fun e he => (List.mem_filter.1 he).2
    have hnested : ∀ e ∈ nest es, e.Nested :=
      fun e he => nested_of_mem_trees es e (List.mem_of_mem_filter he)
    have hgrown := trees_listingAll_of_roots hnested hroot ((pairwise_trees es).filter _)
    rw [nest, hgrown, List.filter_eq_self.2 hroot]

/-- An element of a path alone, with elements below it. -/
def bough (selector : String) (children : List Element) : Element where
  path := ⟨selector.toList⟩
  tag := defaultTag
  id := none
  classes := []
  attributes := []
  slots := {}
  children := children
  rendered := none

theorem segmented_bough {selector : String} {children : List Element} (segments : List Text)
    (hpath : (children.map fun c => c.path.full) =
      segments.map fun segment => selector.toList ++ ' ' :: segment)
    (hsegments : (segments.all fun segment => !segment.isEmpty && !segment.contains ' ') = true)
    (h : ∀ c ∈ children, c.Segmented) : (bough selector children).Segmented := by
  refine .intro (fun c hc => ?_) h
  have hmem : c.path.full ∈ children.map fun c => c.path.full := List.mem_map_of_mem hc
  rw [hpath] at hmem
  obtain ⟨segment, hsegment, hfull⟩ := List.mem_map.1 hmem
  have hgood := List.all_eq_true.1 hsegments segment hsegment
  refine ⟨segment, ?_, ?_, hfull.symm⟩
  · rintro rfl
    simp at hgood
  · intro hspace
    simp [hspace] at hgood

/-- A forest with twins at every level, in which one segment is the start of another. -/
def twinForest : List Element :=
  [bough "a" [bough "a b" [], bough "a b" [bough "a b c" []], bough "a bc" [bough "a bc b" []]],
    bough "a" [bough "a b" []]]

theorem nest_listing_twinForest :
    (twinForest.map fun e => e.path.full) = [['a'], ['a']] ∧
      nest (listingAll twinForest) = twinForest := by
  have hleaf (selector : String) : (bough selector []).Segmented :=
    segmented_bough [] rfl rfl (by simp)
  have hb : (bough "a b" [bough "a b c" []]).Segmented :=
    segmented_bough ["c".toList] (by decide) (by decide) (by simp [hleaf])
  have hbc : (bough "a bc" [bough "a bc b" []]).Segmented :=
    segmented_bough ["b".toList] (by decide) (by decide) (by simp [hleaf])
  refine ⟨by decide, nest_listing.1 twinForest (List.forall_mem_cons.2 ⟨?_, ?_⟩)⟩
  · refine ⟨by decide, by decide, segmented_bough ["b".toList, "b".toList, "bc".toList] (by decide)
      (by decide) (by simp [hleaf, hb, hbc])⟩
  · rw [List.forall_mem_singleton]
    exact ⟨by decide, by decide, segmented_bough ["b".toList] (by decide) (by decide)
      (by simp [hleaf])⟩

end Scaffold
