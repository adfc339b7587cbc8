import Scaffold.Proofs.Element.Partition

/-!
# A root cuts the page in two

No element looks for children beyond a root, because nothing reaches over a path of one segment
(`Path.covers_eq_false_of_notMem`).  So what stands in front of a root and what starts with it are
nested, dropped and rendered as if the other part were not there.
-/

namespace Scaffold

open Scaffold.Selector Scaffold.Text Element

/-- The page of two lists of rules, when their elements are nested apart: a part without a root
adds nothing to the other. -/
theorem page?_append {rules others : List Css.Rule}
    (h : nest (elements (rules ++ others)) = nest (elements rules) ++ nest (elements others)) :
    page? (rules ++ others) = Option.merge (· ++ ·) (page? rules) (page? others) := by
  rw [page?, page?, page?, h]
  cases nest (elements rules) with
  | nil => cases nest (elements others) <;> rfl
  | cons root roots =>
    cases nest (elements others) with
    | nil => simp
    | cons other others =>
      exact congrArg (fun result => some result.1)
        (renderRoots_append (root :: roots) (other :: others))

section Cut

variable {es fs : List Element} (hes : ∀ e ∈ es, e.path.full ≠ [])
  (hfs : ∀ root ∈ fs.head?, ' ' ∉ root.path.full)

include hes hfs

theorem covers_head_eq_false : ∀ e ∈ es, ∀ root ∈ fs.head?, e.path.covers root.path = false :=
  fun e he root hroot => Path.covers_eq_false_of_notMem (hes e he) (hfs root hroot)

/-- The places in the second part are counted on from the end of the first. -/
theorem childPositions_append :
    childPositions (es ++ fs) =
      childPositions es ++ (childPositions fs).map (List.map (· + es.length)) := by
  rw [childPositions, childPositionsFrom_append 0 (covers_head_eq_false hes hfs),
    childPositionsFrom_add 0 es.length fs]
  rfl

theorem trees_append : trees (es ++ fs) = trees es ++ trees fs := by
  rw [trees_eq, spots_append (covers_head_eq_false hes hfs), List.filterMap_append]
  rfl

end Cut

/-- A root cuts the page in two.  Where a list goes on with a root, the elements in front of it
find their children, make their trees, are dropped and are rendered as they would without what
follows, and the root and what follows it as they would without what is in front.  So rules whose
elements are such a list describe the two pages one behind the other. -/
theorem nest_append_root {es fs : List Element} (hes : ∀ e ∈ es, e.path.full ≠ [])
    (hfs : ∀ root ∈ fs.head?, ' ' ∉ root.path.full) :
    childPositions (es ++ fs) =
        childPositions es ++ (childPositions fs).map (List.map (· + es.length)) ∧
      nest (es ++ fs) = nest es ++ nest fs ∧
      orphans (es ++ fs) = orphans es ++ orphans fs ∧
      (renderRoots (nest (es ++ fs))).1 =
        (renderRoots (nest es)).1 ++ (renderRoots (nest fs)).1 ∧
      ∀ rules others, elements rules = es → elements others = fs →
        page? (rules ++ others) = Option.merge (· ++ ·) (page? rules) (page? others) := by
  have htrees := trees_append hes hfs
  have hnest : nest (es ++ fs) = nest es ++ nest fs := by
    rw [nest, htrees, List.filter_append, nest, nest]
  refine ⟨childPositions_append hes hfs, hnest, ?_, ?_, ?_⟩
  · rw [orphans, htrees, List.filter_append, orphans, orphans]
  · rw [hnest, renderRoots_append]
  · intro rules others hrules hothers
    apply page?_append
    rw [elements_append, hrules, hothers, hnest]

/-- Rules without declarations for the elements of a page in which the second part repeats the
paths of the first. -/
def repeatedRules : List Css.Rule :=
  ["a", "a b", "a bc d"].map fun selector => .style selector.toList []

theorem nest_append_root_repeatedRules :
    (∀ e ∈ elements repeatedRules, e.path.full ≠ []) ∧
      (∀ root ∈ (elements repeatedRules).head?, ' ' ∉ root.path.full) ∧
      childPositions (elements repeatedRules ++ elements repeatedRules) =
        [[1], [], [], [4], [], []] ∧
      page? repeatedRules = some "<a>\n<b></b>\n</a>\n".toList ∧
      page? (repeatedRules ++ repeatedRules) =
        some "<a>\n<b></b>\n</a>\n<a>\n<b></b>\n</a>\n".toList := by
  have hfull : ∀ e ∈ elements repeatedRules, e.path.full ≠ [] := by decide
  have hroot : ∀ root ∈ (elements repeatedRules).head?, ' ' ∉ root.path.full := by decide
  have hpositions : childPositions (elements repeatedRules) = [[1], [], []] := by decide
  have hpage : page? repeatedRules = some "<a>\n<b></b>\n</a>\n".toList := by decide +kernel
  obtain ⟨happend, -, -, -, hpages⟩ := nest_append_root hfull hroot
  refine ⟨hfull, hroot, ?_, hpage, ?_⟩
  · rw [happend, hpositions]
    rfl
  · rw [hpages _ _ rfl rfl, hpage]
    rfl

end Scaffold
