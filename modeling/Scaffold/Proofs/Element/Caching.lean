import Mathlib.Data.List.Induction
import Mathlib.Data.List.TakeWhile
import Scaffold.Element.Edit

/-!
# Rendering once

An element keeps the markup of its first rendering, and so does every element below it.  What is
kept can be filled in at different times: a child may be rendered while its parent is still being
changed, and the other way round.

`Element.freshMarkup` is the markup of an element as it stands, with no regard to anything kept, and
`Element.unkept` is the element without anything kept.  Rendering changes nothing else
(`unkept_render`).  An element is *faithful* if everything kept in it is the markup that it stands
for.  The children of an element are always faithful, since no step changes them otherwise
(`faithful_children_after`); the element itself is until it is changed after its first rendering,
and from then on it answers with the markup that it had there (`rendered_after`).
-/

namespace Scaffold

namespace Element

/-! ## Elements without anything kept -/

mutual

/-- The markup of an element as it stands, whatever is kept of earlier renderings. -/
def freshMarkup : Element → Text
  | e@⟨_, _, _, _, _, _, children, _⟩ => (e.plan (freshMarkups children)).markup

/-- The markups of elements as they stand. -/
def freshMarkups : List Element → List Text
  | [] => []
  | e :: es => e.freshMarkup :: freshMarkups es

end

mutual

/-- An element without what is kept of earlier renderings, in it or below it. -/
def unkept : Element → Element
  | ⟨path, tag, id, classes, attributes, slots, children, _⟩ =>
    ⟨path, tag, id, classes, attributes, slots, unkeptAll children, none⟩

/-- Elements without what is kept of earlier renderings. -/
def unkeptAll : List Element → List Element
  | [] => []
  | e :: es => e.unkept :: unkeptAll es

end

theorem freshMarkups_eq_map (es : List Element) : freshMarkups es = es.map freshMarkup := by
  induction es with
  | nil => rw [freshMarkups, List.map_nil]
  | cons e es ih => rw [freshMarkups, ih, List.map_cons]

theorem unkeptAll_eq_map (es : List Element) : unkeptAll es = es.map unkept := by
  induction es with
  | nil => rw [unkeptAll, List.map_nil]
  | cons e es ih => rw [unkeptAll, ih, List.map_cons]

theorem freshMarkup_eq (e : Element) :
    e.freshMarkup = (e.plan (e.children.map freshMarkup)).markup := by
  cases e
  rw [freshMarkup, freshMarkups_eq_map]

theorem unkept_eq (e : Element) :
    e.unkept = { e with children := e.children.map unkept, rendered := none } := by
  cases e
  rw [unkept, unkeptAll_eq_map]

/-- Induction over an element by way of the elements right below it. -/
theorem children_induction {motive : Element → Prop}
    (step : ∀ e : Element, (∀ c ∈ e.children, motive c) → motive e) (e : Element) : motive e := by
  apply step
  intro c hc
  exact children_induction step c
termination_by sizeOf e
decreasing_by
  have hlt := List.sizeOf_lt_of_mem hc
  cases e
  simp at hlt ⊢
  omega

theorem plan_unkept (e : Element) (markups : List Text) :
    e.unkept.plan markups = e.plan markups := by
  have hbefore (c : Element) : c.unkept.hasTextBefore = c.hasTextBefore := by
    rw [unkept_eq]
    rfl
  have hlines : e.unkept.childLines markups = e.childLines markups := by
    simp [unkept_eq e, childLines, Option.any_map, hbefore]
  rw [plan, hlines, unkept_eq]
  rfl

/-- What is kept does not show in the markup of an element as it stands. -/
theorem freshMarkup_unkept (e : Element) : e.unkept.freshMarkup = e.freshMarkup := by
  induction e using children_induction with
  | step e ih =>
    have hchildren : e.unkept.children.map freshMarkup = e.children.map freshMarkup := by
      simpa [unkept_eq] using ih
    rw [freshMarkup_eq, freshMarkup_eq e, hchildren, plan_unkept]

/-- Rendering changes nothing but what is kept. -/
theorem unkept_render (e : Element) : e.render.2.unkept = e.unkept := by
  induction e using children_induction with
  | step e ih =>
    cases hkept : e.rendered with
    | some text => rw [render_of_rendered hkept]
    | none => simpa [render_of_unrendered hkept, unkept_eq] using ih

/-- Rendering does not change what an element stands for. -/
theorem freshMarkup_render (e : Element) : e.render.2.freshMarkup = e.freshMarkup := by
  rw [← freshMarkup_unkept, unkept_render, freshMarkup_unkept]

/-! ## Faithful elements -/

/-- An element in which everything kept is the markup of the element that keeps it. -/
inductive Faithful : Element → Prop
  | intro {e : Element} (kept : ∀ text ∈ e.rendered, text = e.freshMarkup)
      (children : ∀ c ∈ e.children, Faithful c) : Faithful e

/-- A faithful element is rendered as what it stands for, and stays faithful. -/
theorem Faithful.render {e : Element} (h : e.Faithful) :
    e.render.1 = e.freshMarkup ∧ e.render.2.Faithful := by
  induction h with
  | @intro e kept children ih =>
    cases hkept : e.rendered with
    | some text =>
      rw [render_of_rendered hkept]
      exact ⟨kept text hkept, .intro kept children⟩
    | none =>
      have hmarkups : (e.children.map fun c => c.render.1) = e.children.map freshMarkup :=
        List.map_congr_left fun c hc => (ih c hc).1
      have hmarkup : e.render.1 = e.freshMarkup := by
        rw [render_of_unrendered hkept, freshMarkup_eq, hmarkups]
      refine ⟨hmarkup, .intro ?_ ?_⟩
      · intro text htext
        rw [freshMarkup_render, ← hmarkup]
        rw [render_of_unrendered hkept] at htext ⊢
        exact (Option.some.inj htext).symm
      · intro c hc
        rw [render_of_unrendered hkept] at hc
        obtain ⟨d, hd, rfl⟩ := List.mem_map.1 hc
        exact (ih d hd).2

theorem faithful_of_bare {e : Element} (hchildren : e.children = []) (hkept : e.rendered = none) :
    e.Faithful :=
  .intro (by simp [hkept]) (by simp [hchildren])

end Element

/-! ## Steps -/

/-- Whether a step renders the element itself. -/
def Edit.rendersSelf : Edit → Bool
  | .render | .renderRoot => true
  | _ => false

/-- Whether a step renders the element or one of its children. -/
def Edit.renders : Edit → Bool
  | .render | .renderRoot | .renderChild _ => true
  | _ => false

namespace Element

/-- An element after some steps. -/
def after (e : Element) (steps : List Edit) : Element :=
  steps.foldl (fun e step => (e.edit step).2) e

/-- An element as it stands when the steps come to render it for the first time. -/
def beforeRendering (e : Element) (steps : List Edit) : Element :=
  e.after (steps.takeWhile fun step => !step.rendersSelf)

theorem after_concat (e : Element) (steps : List Edit) (step : Edit) :
    e.after (steps ++ [step]) = ((e.after steps).edit step).2 := by
  simp [after]

theorem edit_renderRoot (e : Element) :
    e.edit .renderRoot = (.markup (e.render.1 ++ ['\n']), e.render.2) := by
  simp [edit, renderRoots, renderAll]

theorem edit_renderChild {e c : Element} {i : Nat} (h : e.children[i]? = some c) :
    e.edit (.renderChild i) =
      (.markup c.render.1, { e with children := e.children.set i c.render.2 }) := by
  simp [edit, h]

theorem edit_of_rendersSelf (e : Element) {step : Edit} (h : step.rendersSelf = true) :
    (e.edit step).2 = e.render.2 := by
  cases step with
  | render => rfl
  | renderRoot => rw [edit_renderRoot]
  | _ => cases h

/-- Only a step that renders the element changes what it keeps. -/
theorem rendered_edit_of_not_rendersSelf (e : Element) {step : Edit}
    (h : step.rendersSelf = false) : (e.edit step).2.rendered = e.rendered := by
  cases step with
  | render => cases h
  | renderRoot => cases h
  | renderChild i =>
    cases hchild : e.children[i]? with
    | none => simp [edit, hchild]
    | some c => rw [edit_renderChild hchild]
  | _ => rfl

/-- A step that renders changes nothing but what is kept. -/
theorem unkept_edit_of_renders (e : Element) {step : Edit} (h : step.renders = true) :
    (e.edit step).2.unkept = e.unkept := by
  cases step with
  | render => exact unkept_render e
  | renderRoot => rw [edit_renderRoot, unkept_render]
  | renderChild i =>
    cases hchild : e.children[i]? with
    | none => simp [edit, hchild]
    | some c =>
      have hset : (e.children.set i c.render.2).map unkept = e.children.map unkept := by
        obtain ⟨hi, rfl⟩ := List.getElem?_eq_some_iff.1 hchild
        rw [List.map_set, unkept_render, ← List.map_set, List.set_getElem_self]
      rw [edit_renderChild hchild, unkept_eq, hset, unkept_eq e]
  | _ => cases h

theorem faithful_children_render {e : Element} (h : ∀ c ∈ e.children, c.Faithful) :
    ∀ c ∈ e.render.2.children, c.Faithful := by
  intro c hc
  cases hkept : e.rendered with
  | some text =>
    rw [render_of_rendered hkept] at hc
    exact h c hc
  | none =>
    rw [render_of_unrendered hkept] at hc
    obtain ⟨d, hd, rfl⟩ := List.mem_map.1 hc
    exact (h d hd).render.2

/-- No step changes a child but by rendering it. -/
theorem faithful_children_edit {e : Element} (h : ∀ c ∈ e.children, c.Faithful) (step : Edit) :
    ∀ c ∈ (e.edit step).2.children, c.Faithful := by
  intro c hc
  cases step with
  | render => exact faithful_children_render h c hc
  | renderRoot =>
    rw [edit_renderRoot] at hc
    exact faithful_children_render h c hc
  | addChild rule =>
    rcases List.mem_append.1 hc with hc | hc
    · exact h c hc
    · obtain ⟨hchildren, hkept⟩ := bare_of_ofRule? (Option.mem_toList.1 hc)
      exact faithful_of_bare hchildren hkept
  | removeChild i => exact h c (List.mem_of_mem_eraseIdx hc)
  | renderChild i =>
    cases hchild : e.children[i]? with
    | none =>
      simp only [edit, hchild] at hc
      exact h c hc
    | some d =>
      rw [edit_renderChild hchild] at hc
      rcases List.mem_or_eq_of_mem_set hc with hc | rfl
      · exact h c hc
      · exact (h d (List.mem_of_getElem? hchild)).render.2
  | _ => exact h c hc

/-! ## Whole runs -/

/-- No step makes a child unfaithful. -/
theorem faithful_children_after {e : Element} (h : ∀ c ∈ e.children, c.Faithful)
    (steps : List Edit) : ∀ c ∈ (e.after steps).children, c.Faithful := by
  induction steps using List.reverseRecOn with
  | nil => exact h
  | append_singleton steps step ih =>
    rw [after_concat]
    exact faithful_children_edit ih step

/-- Steps behind the first rendering do not matter. -/
theorem beforeRendering_append_of_any (e : Element) {steps : List Edit}
    (h : steps.any Edit.rendersSelf = true) (more : List Edit) :
    e.beforeRendering (steps ++ more) = e.beforeRendering steps := by
  have hcut : (steps ++ more).takeWhile (fun step => !step.rendersSelf) =
      steps.takeWhile fun step => !step.rendersSelf := by
    rw [List.takeWhile_append, if_neg]
    intro hlength
    have hall := List.takeWhile_eq_self_iff.1 ((List.takeWhile_prefix _).eq_of_length hlength)
    obtain ⟨step, hstep, hrenders⟩ := List.any_eq_true.1 h
    simpa [hrenders] using hall step hstep
  rw [beforeRendering, hcut, beforeRendering]

/-- Steps that do not render the element come before its first rendering. -/
theorem beforeRendering_append_of_not_any (e : Element) {steps : List Edit}
    (h : steps.any Edit.rendersSelf = false) (more : List Edit) :
    e.beforeRendering (steps ++ more) = (e.after steps).beforeRendering more := by
  have hall : ∀ step ∈ steps, (!step.rendersSelf) = true := by
    intro step hstep
    simpa using List.any_eq_false.1 h step hstep
  rw [beforeRendering, List.takeWhile_append_of_pos hall, after, List.foldl_append]
  rfl

theorem beforeRendering_of_not_any (e : Element) {steps : List Edit}
    (h : steps.any Edit.rendersSelf = false) : e.beforeRendering steps = e.after steps := by
  have hnil := e.beforeRendering_append_of_not_any h []
  rw [List.append_nil] at hnil
  exact hnil

/-- What an element keeps after some steps: nothing until it is rendered, and from then on the
markup that it had right before. -/
theorem rendered_after {e : Element} (hchildren : ∀ c ∈ e.children, c.Faithful)
    (hkept : e.rendered = none) (steps : List Edit) :
    (e.after steps).rendered =
      if steps.any Edit.rendersSelf then some (e.beforeRendering steps).freshMarkup else none := by
  induction steps using List.reverseRecOn with
  | nil => exact hkept
  | append_singleton steps step ih =>
    rw [after_concat, List.any_append]
    cases hany : steps.any Edit.rendersSelf with
    | true =>
      -- the markup is kept already, and rendering again leaves it
      rw [hany, if_pos rfl] at ih
      rw [e.beforeRendering_append_of_any hany, Bool.true_or, if_pos rfl]
      cases hstep : step.rendersSelf with
      | true => rw [edit_of_rendersSelf _ hstep, render_of_rendered ih, ih]
      | false => rw [rendered_edit_of_not_rendersSelf _ hstep, ih]
    | false =>
      rw [hany, if_neg (by simp)] at ih
      cases hstep : step.rendersSelf with
      | true =>
        -- this is the first rendering: nothing kept stands in its way
        have hself : (e.after steps).Faithful :=
          .intro (by simp [ih]) (faithful_children_after hchildren steps)
        have hbefore : e.beforeRendering (steps ++ [step]) = e.after steps := by
          rw [e.beforeRendering_append_of_not_any hany]
          simp [beforeRendering, hstep, after]
        rw [edit_of_rendersSelf _ hstep, hbefore, ← hself.render.1]
        simp [hstep, render_of_unrendered ih]
      | false =>
        rw [rendered_edit_of_not_rendersSelf _ hstep, ih]
        simp [hstep]

/-- Whatever was done to an element, it is rendered as it stood when it was rendered first. -/
theorem render_after {e : Element} (hchildren : ∀ c ∈ e.children, c.Faithful)
    (hkept : e.rendered = none) (steps : List Edit) :
    (e.after steps).render.1 = (e.beforeRendering steps).freshMarkup := by
  have hrendered := rendered_after hchildren hkept steps
  cases hany : steps.any Edit.rendersSelf with
  | true =>
    rw [hany, if_pos rfl] at hrendered
    rw [render_of_rendered hrendered]
  | false =>
    rw [hany, if_neg (by simp)] at hrendered
    have hself : (e.after steps).Faithful :=
      .intro (by simp [hrendered]) (faithful_children_after hchildren steps)
    rw [hself.render.1, e.beforeRendering_of_not_any hany]

/-- Whatever steps are taken on the element of a rule, each rendering of it gives the markup that it
had when it was first rendered, and each rendering of a child gives the markup of the child.
Rendering changes nothing but what is kept, and the element counts as rendered from its first
rendering on. -/
theorem markup_after_steps {rule : Css.Rule} {start : Element} (h : ofRule? rule = some start)
    (steps : List Edit) :
    ((start.after steps).edit .render).1 = .markup (start.beforeRendering steps).freshMarkup ∧
      ((start.after steps).edit .renderRoot).1 =
        .markup ((start.beforeRendering steps).freshMarkup ++ ['\n']) ∧
      (∀ i c, (start.after steps).children[i]? = some c →
        ((start.after steps).edit (.renderChild i)).1 = .markup c.freshMarkup) ∧
      (∀ step, step.renders = true →
        ((start.after steps).edit step).2.unkept = (start.after steps).unkept) ∧
      (start.after steps).isRendered = steps.any Edit.rendersSelf := by
  obtain ⟨hbare, hkept⟩ := bare_of_ofRule? h
  have hchildren : ∀ c ∈ start.children, c.Faithful := by simp [hbare]
  have hrender := render_after hchildren hkept steps
  refine ⟨?_, ?_, ?_, fun step => unkept_edit_of_renders _, ?_⟩
  · rw [← hrender]
    rfl
  · rw [edit_renderRoot, hrender]
  · intro i c hc
    have hfaithful := faithful_children_after hchildren steps c (List.mem_of_getElem? hc)
    rw [edit_renderChild hc, hfaithful.render.1]
  · rw [isRendered, rendered_after hchildren hkept]
    cases steps.any Edit.rendersSelf <;> rfl

/-- A list that is renamed around the rendering of a child, rendered, and changed again. -/
def listSteps : List Edit :=
  [.addChild (.style "ul li".toList [.property "--text".toList "'a'".toList]), .renderChild 0,
    .setTag "ol".toList, .renderRoot, .setTag "p".toList, .removeChild 0,
    .addChild (.style "ul b".toList []), .setText .inside (some "c".toList)]

theorem markup_after_steps_listSteps :
    ∃ start, ofRule? (.style "ul".toList []) = some start ∧
      ((start.after listSteps).edit .render).1 =
        .markup (start.beforeRendering listSteps).freshMarkup ∧
      (start.beforeRendering listSteps).freshMarkup = "<ol>\n<li>a</li>\n</ol>".toList ∧
      (start.after listSteps).freshMarkup = "<p>c\n<b></b>\n</p>".toList ∧
      ((start.after listSteps).edit (.renderChild 0)).1 = .markup "<b></b>".toList ∧
      ((start.after listSteps).edit (.renderChild 0)).2.unkept = (start.after listSteps).unkept ∧
      (start.after listSteps).isRendered = true := by
  have hrule : ofRule? (.style "ul".toList []) = some _ := rfl
  obtain ⟨hrender, -, hchild, hunkept, hrendered⟩ := markup_after_steps hrule listSteps
  refine ⟨_, hrule, hrender, by decide +kernel, by decide +kernel, ?_, hunkept (.renderChild 0) rfl,
    hrendered⟩
  exact (hchild 0 _ rfl).trans (by decide +kernel)

end Element

end Scaffold
