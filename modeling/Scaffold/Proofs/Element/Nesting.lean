import Scaffold.Element.Markup
import Scaffold.Proofs.Html.Outline

/-!
# Generated markup nests as it was generated

The markup of elements is not escaped.  It is read back with the nesting of the elements if nothing
in it can be taken for something else: tags and names of attributes are words, values hold no quote
and texts no opening bracket (`Element.Plain`).  Ampersands, closing brackets, line ends and null
characters may stand in values and texts.

By induction over the elements, the markup of each shows its own tags around those of its children
(`exists_shows_render`); the tree of such a text is known from its tags.
-/

namespace Scaffold

open Scaffold.Text Scaffold.Html

namespace Element

/-! ## Elements that can be read back -/

/-- An element that was not rendered and whose own parts are read as what they are. -/
structure Plain (e : Element) : Prop where
  unrendered : e.rendered = none
  tag : isWord e.tag = true
  /-- The content of the element is read as markup. -/
  content : contentOf? e.tag = none
  leaf : e.isSelfClosing = true → e.children = []
  id : ∀ id ∈ e.id, '"' ∉ id
  classes : ∀ name ∈ e.classes, '"' ∉ name
  attributes : ∃ as : List RawAttribute, (∀ a ∈ as, a.isPlain = true) ∧
    e.attributes = as.flatMap RawAttribute.text
  texts : ∀ slot, ∀ text ∈ e.slots.get slot, '<' ∉ text

mutual

/-- An element that can be read back with all that is below it. -/
def Readable : Element → Prop
  | e@⟨_, _, _, _, _, _, children, _⟩ => e.Plain ∧ AllReadable children

/-- Elements that can be read back. -/
def AllReadable : List Element → Prop
  | [] => True
  | e :: es => e.Readable ∧ AllReadable es

end

mutual

/-- The tag of an element, with the tags of all that is below it. -/
def nesting : Element → Outline
  | ⟨_, tag, _, _, _, _, children, _⟩ => .node tag (nestings children)

/-- The tags of elements with all that is below them. -/
def nestings : List Element → List Outline
  | [] => []
  | e :: es => e.nesting :: nestings es

end

/-! ## Opening tags -/

/-- The id and the classes of an element as they are written. -/
def ownAttributes (e : Element) : List RawAttribute :=
  (e.id.map fun id => ⟨"id".toList, some id⟩).toList ++
    if e.classes.isEmpty then [] else [⟨"class".toList, some ([' '].intercalate e.classes)⟩]

/-- The opening tag of an element is a tag that is written without escapes. -/
theorem openTag_eq {e : Element} {as : List RawAttribute}
    (h : e.attributes = as.flatMap RawAttribute.text) :
    e.openTag = rawTag e.tag (e.ownAttributes ++ as) e.isSelfClosing := by
  have htail :
      (if e.isSelfClosing then " />".toList else ">".toList) = tagEnd e.isSelfClosing := rfl
  rw [openTag, rawTag, ownAttributes, h, htail]
  cases e.id with
  | none =>
    by_cases hclasses : e.classes.isEmpty = true
    · simp [hclasses]
    · simp [hclasses, RawAttribute.text, RawAttribute.valueText]
  | some id =>
    by_cases hclasses : e.classes.isEmpty = true
    · simp [hclasses, RawAttribute.text, RawAttribute.valueText]
    · simp [hclasses, RawAttribute.text, RawAttribute.valueText]

theorem notMem_intercalate {names : List Text} (h : ∀ name ∈ names, '"' ∉ name) :
    '"' ∉ [' '].intercalate names := by
  induction names with
  | nil => simp
  | cons name names ih =>
    obtain ⟨hname, hnames⟩ := List.forall_mem_cons.1 h
    cases names with
    | nil => simpa using hname
    | cons next names => simpa using ⟨hname, ih hnames⟩

theorem Plain.isPlain_ownAttributes {e : Element} (h : e.Plain) :
    ∀ a ∈ e.ownAttributes, a.isPlain = true := by
  have hplain {name value : Text} (hname : isWord name = true) (hvalue : '"' ∉ value) :
      RawAttribute.isPlain ⟨name, some value⟩ = true := by
    simp [RawAttribute.isPlain, hname, hvalue]
  intro a ha
  rcases List.mem_append.1 ha with hid | hclass
  · obtain ⟨id, hsome, rfl⟩ := Option.map_eq_some_iff.1 (Option.mem_toList.1 hid)
    exact hplain (by decide) (h.id id hsome)
  · split at hclass
    · cases hclass
    · rw [List.mem_singleton.1 hclass]
      exact hplain (by decide) (notMem_intercalate h.classes)

/-- The opening tag of a plain element is read as a tag of its name. -/
theorem Plain.shows_openTag {e : Element} (h : e.Plain) :
    Shows e.openTag [.startTag e.tag [] e.isSelfClosing] := by
  obtain ⟨as, has, hattributes⟩ := h.attributes
  rw [openTag_eq hattributes]
  apply shows_rawTag h.tag _ _ h.content
  intro a ha
  rcases List.mem_append.1 ha with hown | has'
  · exact h.isPlain_ownAttributes a hown
  · exact has a has'

/-! ## Whole elements -/

/-- The texts of a plain element show no tags. -/
theorem Plain.shows_slot {e : Element} (h : e.Plain) (slot : Slot) :
    Shows ((e.slots.get slot).getD []) [] := by
  cases htext : e.slots.get slot with
  | none => exact shows_nil
  | some text => exact shows_text (h.texts slot text htext)

theorem shows_newline : Shows ['\n'] [] :=
  shows_text (by decide)

/-- Ending a line adds no tags. -/
theorem shows_endLine {x : Text} {ms : List Token} (h : Shows x ms) : Shows (endLine x) ms := by
  rw [endLine]
  split
  · exact h
  · have hline := h.append shows_newline
    rwa [List.append_nil] at hline

/-- The lines of the children show what the markups of the children show. -/
theorem shows_children (e : Element) {markups : List Text} {ms : List Token}
    (h : Shows (markups.flatMap endLine) ms) : Shows ((e.plan markups).children.getD []) ms := by
  cases markups with
  | nil => exact h
  | cons markup markups =>
    have hbreak : Shows (if e.children.head?.any hasTextBefore then [] else ['\n']) [] := by
      split
      · exact shows_nil
      · exact shows_newline
    exact hbreak.append h

theorem Plain.shows_after {e : Element} (h : e.Plain) :
    Shows ((e.slots.after.map fun text => text ++ ['\n']).getD []) [] := by
  cases htext : e.slots.after with
  | none => exact shows_nil
  | some text => exact (shows_text (h.texts .after text htext)).append shows_newline

/-- What an element shows: its opening tag, its children and its closing tag. -/
theorem Plain.shows_markup {e : Element} (h : e.Plain) {markups : List Text} {ms ns : List Token}
    (hchildren : Shows (markups.flatMap endLine) ms) (hclose : Shows (e.closeTag?.getD []) ns) :
    Shows (e.plan markups).markup (.startTag e.tag [] e.isSelfClosing :: (ms ++ ns)) := by
  have hmarkup : (e.plan markups).markup =
      (e.slots.get .before).getD [] ++ (e.openTag ++ ((e.slots.get .inside).getD [] ++
        ((e.plan markups).children.getD [] ++ (e.closeTag?.getD [] ++
          ((e.slots.after.map fun text => text ++ ['\n']).getD [] ++ []))))) := rfl
  have hall := (h.shows_slot .before).append (h.shows_openTag.append ((h.shows_slot .inside).append
    ((e.shows_children hchildren).append (hclose.append (h.shows_after.append shows_nil)))))
  rw [hmarkup]
  simpa using hall

/-- The markup of an element shows its tags around those of its children. -/
theorem Plain.exists_shows_markup {e : Element} (h : e.Plain) {markups : List Text}
    {inner : List Outline} {ms : List Token} (hwrites : Writes inner ms)
    (hchildren : Shows (markups.flatMap endLine) ms)
    (hleaf : e.isSelfClosing = true → inner = []) :
    ∃ ns, Writes [.node e.tag inner] ns ∧ Shows (e.plan markups).markup ns := by
  cases hclosing : e.isSelfClosing with
  | true =>
    have hclose : Shows (e.closeTag?.getD []) [] := by
      rw [closeTag?, if_pos hclosing]
      exact shows_nil
    obtain rfl := hleaf hclosing
    cases hwrites
    have hshows := h.shows_markup hchildren hclose
    rw [hclosing] at hshows
    exact ⟨_, .leaf hclosing .nil, hshows⟩
  | false =>
    have hclose : Shows (e.closeTag?.getD []) [.endTag e.tag] := by
      rw [closeTag?, if_neg (by simp [hclosing])]
      exact shows_closeTag h.tag
    have hshows := h.shows_markup hchildren hclose
    rw [hclosing] at hshows
    exact ⟨_, .element hclosing hwrites .nil, hshows⟩

mutual

theorem exists_shows_render : ∀ e : Element, e.Readable →
    ∃ ms, Writes [e.nesting] ms ∧ Shows e.render.1 ms
  | ⟨path, tag, id, classes, attributes, slots, children, rendered⟩, h => by
    rw [Readable] at h
    obtain ⟨hplain, hchildren⟩ := h
    obtain ⟨ms, hwrites, hshows⟩ := exists_shows_renderAll children hchildren
    have hlines := hshows endLine fun x ms => shows_endLine
    rw [renderAll_eq_map, List.flatMap_map] at hlines
    rw [nesting, render_of_unrendered hplain.unrendered]
    apply hplain.exists_shows_markup hwrites
    · rw [List.flatMap_map]
      exact hlines
    · intro hclosing
      have hnil : children = [] := hplain.leaf hclosing
      rw [hnil, nestings]

/-- The markups of elements show their tags, however the end of a line is put behind each. -/
theorem exists_shows_renderAll : ∀ es : List Element, AllReadable es →
    ∃ ms, Writes (nestings es) ms ∧
      ∀ wrap : Text → Text, (∀ x ms, Shows x ms → Shows (wrap x) ms) →
        Shows ((renderAll es).flatMap fun result => wrap result.1) ms
  | [], _ => ⟨[], .nil, fun _ _ => shows_nil⟩
  | e :: es, h => by
    rw [AllReadable] at h
    obtain ⟨ms, hwrites, hshows⟩ := exists_shows_render e h.1
    obtain ⟨ns, hwrites', hshows'⟩ := exists_shows_renderAll es h.2
    refine ⟨ms ++ ns, hwrites.append hwrites', ?_⟩
    intro wrap hwrap
    rw [renderAll, List.flatMap_cons]
    exact (hwrap _ _ hshows).append (hshows' wrap hwrap)

end

end Element

/-- The markup of readable elements is read as elements of the same tags, nested in the same way
and in the same order, with nothing else between them but text: every element that is not void is
closed, and there is no stray end tag, no comment and no document type. -/
theorem outline_parse_renderRoots {roots : List Element} (h : Element.AllReadable roots) :
    Html.outlineAll (Html.parse (renderRoots roots).1) = Element.nestings roots ∧
      allNeat (Html.parse (renderRoots roots).1) = true := by
  obtain ⟨ms, hwrites, hshows⟩ := Element.exists_shows_renderAll roots h
  apply outlineAll_parse hwrites
  apply hshows fun x => x ++ ['\n']
  intro x ms hx
  have hline := hx.append Element.shows_newline
  rwa [List.append_nil] at hline

/-- An image whose only value holds brackets, line ends and half a reference. -/
def thornyImage : Element where
  path := { full := "main img".toList }
  tag := "img".toList
  id := none
  classes := []
  attributes := " alt=\"<b>\r\n&am\"".toList
  slots := { after := some "p;\x00".toList }
  children := []
  rendered := none

/-- An element around it with references in its id and its texts. -/
def thornyMain : Element where
  path := { full := "main".toList }
  tag := "main".toList
  id := some "a&quot;".toList
  classes := ["x>".toList, "'/".toList]
  attributes := " hidden".toList
  slots := { before := some "&lt;p>".toList, inside := some "&#60".toList }
  children := [thornyImage]
  rendered := none

theorem readable_thornyMain : Element.AllReadable [thornyMain] := by
  have himage : thornyImage.Plain := by
    refine ⟨rfl, by decide, by decide, fun _ => rfl, by decide, by decide, ?_, ?_⟩
    · exact ⟨[⟨"alt".toList, some "<b>\r\n&am".toList⟩], by decide, by decide⟩
    · intro slot
      cases slot <;> decide
  have hmain : thornyMain.Plain := by
    refine ⟨rfl, by decide, by decide, by decide, by decide, by decide, ?_, ?_⟩
    · exact ⟨[⟨"hidden".toList, none⟩], by decide, by decide⟩
    · intro slot
      cases slot <;> decide
  exact ⟨⟨hmain, ⟨himage, trivial⟩, trivial⟩, trivial⟩

theorem outline_parse_renderRoots_thornyMain :
    Element.AllReadable [thornyMain] ∧
      Html.outlineAll (Html.parse (renderRoots [thornyMain]).1) =
        [.node "main".toList [.node "img".toList []]] ∧
      allNeat (Html.parse (renderRoots [thornyMain]).1) = true :=
  ⟨readable_thornyMain, outline_parse_renderRoots readable_thornyMain⟩

end Scaffold
