import Scaffold.Proofs.Element.Partition

/-!
# Finding the children in one pass

`childPositions` lets every element look forward on its own, so that the elements behind it are
read again and again.  A single pass with a stack finds the same children: the stack holds the
elements whose span has not ended, the innermost on top, and an element can only be a child of the
one that is on top when its turn comes (`childPositions_eq_onePass`).

What carries the argument is that the open elements form a chain: each may lie below all those under
it on the stack (`Pass.Chained`).  So if one of them goes on, all under it do, and none but the
innermost can be the parent.  `Pass.outlook` says what the forward searches will have found if
given elements follow; a step of the pass does not change it.
-/

namespace Scaffold

open Scaffold.Selector

/-! ## The pass -/

/-- An element that the pass has met and whose span has not ended. -/
structure Opened where
  position : Nat
  path : Path
  deriving DecidableEq, Repr

/-- How far a pass has come: the open elements, the innermost first, and the children found so far
of every element that it has met. -/
structure Pass where
  stack : List Opened
  children : List (List Nat)
  deriving DecidableEq, Repr

namespace Pass

/-- The elements that are still open when an element comes whose text above is `parent`.  The
innermost ones end as long as their text does not start it. -/
def stillOpen (parent : Text) (stack : List Opened) : List Opened :=
  stack.dropWhile fun o => !o.path.full.isPrefixOf parent

/-- Notes the child at `position` for the innermost open element, if that is its parent. -/
def assign (parent : Text) (position : Nat) (stack : List Opened) (children : List (List Nat)) :
    List (List Nat) :=
  match stack with
  | [] => children
  | top :: _ =>
    if top.path.full = parent then children.modify top.position (· ++ [position]) else children

/-- Meets the next element. -/
def step (s : Pass) (e : Element) : Pass :=
  let position := s.children.length
  let stack := stillOpen e.path.parent s.stack
  { stack := { position, path := e.path } :: stack
    children := assign e.path.parent position stack s.children ++ [[]] }

end Pass

/-- For every element of a list, the positions of its children, found in one pass. -/
def onePass (es : List Element) : List (List Nat) :=
  (es.foldl Pass.step { stack := [], children := [] }).children

/-! ## The chain of open elements -/

namespace Pass

/-- The open elements are among those that were met, and each may lie below all those under it. -/
structure Chained (s : Pass) : Prop where
  full_ne_nil : ∀ o ∈ s.stack, o.path.full ≠ []
  position_lt : ∀ o ∈ s.stack, o.position < s.children.length
  covers : s.stack.Pairwise fun inner outer => outer.path.covers inner.path = true

@[simp] theorem length_assign (parent : Text) (position : Nat) (stack : List Opened)
    (children : List (List Nat)) :
    (assign parent position stack children).length = children.length := by
  unfold assign
  split
  · rfl
  · split <;> simp

theorem stillOpen_sublist (parent : Text) (stack : List Opened) :
    (stillOpen parent stack).Sublist stack :=
  (List.dropWhile_suffix _).sublist

/-- Elements of a chain that stay open are those below which the next element may lie. -/
theorem covers_of_mem_stillOpen {s : Pass} (h : s.Chained) {e : Element} {o : Opened}
    (ho : o ∈ stillOpen e.path.parent s.stack) : o.path.covers e.path = true := by
  have hchain := h.covers.sublist (stillOpen_sublist e.path.parent s.stack)
  have hhead := List.head?_dropWhile_not
    (fun o : Opened => !o.path.full.isPrefixOf e.path.parent) s.stack
  cases hopen : stillOpen e.path.parent s.stack with
  | nil =>
    rw [hopen] at ho
    cases ho
  | cons top below =>
    have htop : top.path.covers e.path = true := by
      unfold stillOpen at hopen
      rw [hopen] at hhead
      simpa [Path.covers] using hhead
    rw [hopen] at ho hchain
    rcases List.mem_cons.1 ho with rfl | ho
    · exact htop
    · exact Path.covers_trans (List.rel_of_pairwise_cons hchain ho) htop

/-- A step of the pass leaves the open elements in a chain. -/
theorem Chained.step {s : Pass} (h : s.Chained) {e : Element} (he : e.path.full ≠ []) :
    (s.step e).Chained := by
  have hsub := stillOpen_sublist e.path.parent s.stack
  refine ⟨?_, ?_, ?_⟩
  · intro o ho
    rcases List.mem_cons.1 ho with rfl | ho
    · exact he
    · exact h.full_ne_nil o (hsub.subset ho)
  · intro o ho
    simp only [Pass.step, List.length_append, length_assign, List.length_singleton]
    rcases List.mem_cons.1 ho with rfl | ho
    · simp
    · have := h.position_lt o (hsub.subset ho)
      omega
  · refine List.pairwise_cons.2 ⟨?_, h.covers.sublist hsub⟩
    intro o ho
    exact covers_of_mem_stillOpen h ho

/-! ## What the forward searches will find -/

/-- What the open elements at position `i` will find among elements that start at position
`next`. -/
def pendingAt (stack : List Opened) (next : Nat) (es : List Element) (i : Nat) : List Nat :=
  stack.flatMap fun o => if o.position = i then childrenFrom o.path next es else []

/-- The children of every element if `es` follow: those found so far with those that the open
elements will find, and those of the elements to come. -/
def outlook (s : Pass) (es : List Element) : List (List Nat) :=
  (s.children.mapIdx fun i found => found ++ pendingAt s.stack s.children.length es i) ++
    childPositionsFrom s.children.length es

theorem pendingAt_push (o : Opened) (stack : List Opened) (next : Nat) (es : List Element)
    (i : Nat) :
    pendingAt (o :: stack) next es i =
      (if o.position = i then childrenFrom o.path next es else []) ++
        pendingAt stack next es i :=
  List.flatMap_cons

theorem pendingAt_of_ne {stack : List Opened} {i : Nat} (h : ∀ o ∈ stack, o.position ≠ i)
    (next : Nat) (es : List Element) : pendingAt stack next es i = [] := by
  rw [pendingAt, List.flatMap_eq_nil_iff]
  intro o ho
  rw [if_neg (h o ho)]

theorem pendingAt_nil (stack : List Opened) (next i : Nat) : pendingAt stack next [] i = [] := by
  rw [pendingAt, List.flatMap_eq_nil_iff]
  intro o _
  split <;> rfl

theorem outlook_nil (s : Pass) : s.outlook [] = s.children := by
  rw [outlook, childPositionsFrom, List.append_nil]
  apply List.ext_getElem?
  intro i
  simp [pendingAt_nil]

/-- Elements that end in front of `e` find nothing any more. -/
theorem pendingAt_stillOpen (stack : List Opened) (e : Element) (next : Nat) (es : List Element)
    (i : Nat) :
    pendingAt stack next (e :: es) i =
      pendingAt (stillOpen e.path.parent stack) next (e :: es) i := by
  induction stack with
  | nil => rfl
  | cons o stack ih =>
    cases hc : o.path.covers e.path with
    | true =>
      have hstay : stillOpen e.path.parent (o :: stack) = o :: stack :=
        List.dropWhile_cons_of_neg (by rw [← Path.covers, hc]; decide)
      rw [hstay]
    | false =>
      have hpop : stillOpen e.path.parent (o :: stack) = stillOpen e.path.parent stack :=
        List.dropWhile_cons_of_pos (by rw [← Path.covers, hc]; rfl)
      rw [hpop, ← ih, pendingAt_push, childrenFrom_of_not_covers hc]
      simp

/-- A path with a text is the parent of an element exactly if that is the text above it. -/
theorem isParentOf_eq_decide {p q : Path} (hp : p.full ≠ []) :
    p.isParentOf q = decide (p.full = q.parent) := by
  rw [Bool.eq_iff_iff, Path.isParentOf_iff, decide_eq_true_iff]
  constructor
  · rintro ⟨-, h⟩
    exact h.symm
  · intro h
    refine ⟨?_, h.symm⟩
    by_contra hspace
    rw [Path.parent_of_notMem hspace] at h
    exact hp h

/-- The child that is noted at position `i` when an element is met. -/
def noted (parent : Text) (position : Nat) (stack : List Opened) (i : Nat) : List Nat :=
  match stack with
  | [] => []
  | top :: _ => if top.position = i ∧ top.path.full = parent then [position] else []

theorem assign_eq_mapIdx (parent : Text) (position : Nat) (stack : List Opened)
    (children : List (List Nat)) :
    assign parent position stack children =
      children.mapIdx fun i found => found ++ noted parent position stack i := by
  apply List.ext_getElem?
  intro i
  rw [List.getElem?_mapIdx]
  cases stack with
  | nil => simp [assign, noted]
  | cons top below =>
    rw [assign]
    by_cases hparent : top.path.full = parent
    · rw [if_pos hparent, List.getElem?_modify]
      by_cases hi : top.position = i
      · simp [noted, hi, hparent]
      · simp [noted, hi]
    · rw [if_neg hparent]
      simp [noted, hparent]

/-- Of the elements that stay open only the innermost can find `e`, and it does so exactly if the
pass notes it there. -/
theorem pendingAt_cons {s : Pass} (h : s.Chained) (e : Element) (es : List Element) (i : Nat) :
    pendingAt s.stack s.children.length (e :: es) i =
      noted e.path.parent s.children.length (stillOpen e.path.parent s.stack) i ++
        pendingAt (stillOpen e.path.parent s.stack) (s.children.length + 1) es i := by
  have hsub := stillOpen_sublist e.path.parent s.stack
  have hchain := h.covers.sublist hsub
  have hcovers : ∀ o ∈ stillOpen e.path.parent s.stack, o.path.covers e.path = true :=
    fun o ho => covers_of_mem_stillOpen h ho
  have hfull : ∀ o ∈ stillOpen e.path.parent s.stack, o.path.full ≠ [] :=
    fun o ho => h.full_ne_nil o (hsub.subset ho)
  rw [pendingAt_stillOpen]
  generalize stillOpen e.path.parent s.stack = stack at hchain hcovers hfull
  cases stack with
  | nil => rfl
  | cons top below =>
    -- only the innermost element that is still open can be the parent
    have hbelow : ∀ o ∈ below, childrenFrom o.path s.children.length (e :: es) =
        childrenFrom o.path (s.children.length + 1) es := by
      intro o ho
      have hparent : o.path.isParentOf e.path = false :=
        Path.not_isParentOf_of_covers (hfull top List.mem_cons_self)
          (List.rel_of_pairwise_cons hchain ho) (hcovers top List.mem_cons_self)
      rw [childrenFrom, hparent, hcovers o (List.mem_cons_of_mem _ ho)]
      rfl
    have htop : childrenFrom top.path s.children.length (e :: es) =
        (if top.path.full = e.path.parent then [s.children.length] else []) ++
          childrenFrom top.path (s.children.length + 1) es := by
      rw [childrenFrom, isParentOf_eq_decide (hfull top List.mem_cons_self),
        hcovers top List.mem_cons_self]
      by_cases hparent : top.path.full = e.path.parent <;> simp [hparent]
    have hrest : pendingAt below s.children.length (e :: es) i =
        pendingAt below (s.children.length + 1) es i := by
      unfold pendingAt
      apply List.flatMap_congr
      intro o ho
      rw [hbelow o ho]
    rw [pendingAt_push, hrest, htop, pendingAt_push, noted]
    by_cases hi : top.position = i <;> by_cases hparent : top.path.full = e.path.parent <;>
      simp [hi, hparent]

/-- Meeting an element does not change what will have been found. -/
theorem outlook_step {s : Pass} (h : s.Chained) (e : Element) (es : List Element) :
    (s.step e).outlook es = s.outlook (e :: es) := by
  have hsub := stillOpen_sublist e.path.parent s.stack
  have hlength : (s.step e).children.length = s.children.length + 1 := by
    simp [Pass.step]
  -- the new element has met none of its children yet
  have hlast : pendingAt (s.step e).stack (s.children.length + 1) es s.children.length =
      childrenFrom e.path (s.children.length + 1) es := by
    have hothers : pendingAt (stillOpen e.path.parent s.stack) (s.children.length + 1) es
        s.children.length = [] :=
      pendingAt_of_ne (fun o ho => Nat.ne_of_lt (h.position_lt o (hsub.subset ho))) _ _
    unfold pendingAt at hothers ⊢
    rw [Pass.step, List.flatMap_cons, hothers]
    simp
  have hfound : ∀ i, i < s.children.length →
      pendingAt (s.step e).stack (s.children.length + 1) es i =
        pendingAt (stillOpen e.path.parent s.stack) (s.children.length + 1) es i := by
    intro i hi
    rw [Pass.step, pendingAt_push, if_neg (Nat.ne_of_gt hi), List.nil_append]
  -- what is noted in this step was found by the searches before
  have hmet : ((s.step e).children.mapIdx fun i found =>
        found ++ pendingAt (s.step e).stack (s.children.length + 1) es i) =
      (s.children.mapIdx fun i found =>
        found ++ pendingAt s.stack s.children.length (e :: es) i) ++
          [childrenFrom e.path (s.children.length + 1) es] := by
    have hchildren : (s.step e).children =
        assign e.path.parent s.children.length (stillOpen e.path.parent s.stack) s.children ++
          [[]] := rfl
    rw [hchildren, List.mapIdx_concat, assign_eq_mapIdx, List.mapIdx_mapIdx, List.length_mapIdx,
      hlast, List.nil_append]
    congr 1
    apply List.ext_getElem?
    intro i
    rw [List.getElem?_mapIdx, List.getElem?_mapIdx]
    cases hi : s.children[i]? with
    | none => rfl
    | some found =>
      have hlt := (List.getElem?_eq_some_iff.1 hi).1
      simp [pendingAt_cons h, hfound i hlt]
  rw [outlook, hlength, hmet, List.append_assoc, List.singleton_append, outlook,
    childPositionsFrom]

/-- What the pass notes in the end is what the forward searches find, by induction over the list. -/
theorem outlook_foldl {s : Pass} (h : s.Chained) {es : List Element}
    (hes : ∀ e ∈ es, e.path.full ≠ []) : (es.foldl Pass.step s).children = s.outlook es := by
  induction es generalizing s with
  | nil => exact (outlook_nil s).symm
  | cons e es ih =>
    have he : e.path.full ≠ [] := hes e List.mem_cons_self
    rw [List.foldl_cons, ih (h.step he) fun f hf => hes f (List.mem_cons_of_mem e hf),
      outlook_step h]

end Pass

/-- A single pass with a stack finds the children that every element would find by looking forward
on its own. -/
theorem childPositions_eq_onePass (es : List Element) (h : ∀ e ∈ es, e.path.full ≠ []) :
    childPositions es = onePass es := by
  have hstart : Pass.Chained { stack := [], children := [] } :=
    ⟨by simp, by simp, List.Pairwise.nil⟩
  rw [onePass, Pass.outlook_foldl hstart h]
  rfl

theorem childPositions_eq_onePass_tangledPage :
    (∀ e ∈ tangledPage, e.path.full ≠ []) ∧ childPositions tangledPage = onePass tangledPage ∧
      onePass tangledPage = [[1, 4], [3], [], [], [], []] := by
  have hfull : ∀ e ∈ tangledPage, e.path.full ≠ [] := by
    decide
  exact ⟨hfull, childPositions_eq_onePass tangledPage hfull, by decide⟩

end Scaffold
