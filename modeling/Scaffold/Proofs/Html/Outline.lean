import Scaffold.Proofs.Html.Unescaped

/-!
# The outline of a tree

The outline of a tree is its elements by name, and how they nest; texts and attributes do not
count.  `Writes os ms` says that the marks `ms` are the tags of the elements `os`, each of them
closed unless it is void.  Tokens with such marks grow into nodes of that outline, whatever texts
stand between the tags, and nothing in them is left open or stray (`grows_of_writes`).
-/

namespace Scaffold.Html

open Scaffold.Text

/-! ## Outlines -/

/-- An element by its name, with the elements in it. -/
inductive Outline where
  | node (name : Text) (children : List Outline)

mutual

/-- The elements in a node: itself, if it is one. -/
def Node.outline : Node → List Outline
  | .element name _ _ _ children => [.node name (outlineAll children)]
  | _ => []

/-- The elements among nodes. -/
def outlineAll : List Node → List Outline
  | [] => []
  | node :: nodes => node.outline ++ outlineAll nodes

end

mutual

/-- Whether a node is a text, or an element that is closed or void and holds only such nodes. -/
def Node.isNeat : Node → Bool
  | .text _ => true
  | .element name _ _ closed children => (isVoid name || closed) && allNeat children
  | _ => false

/-- Whether nodes are all neat. -/
def allNeat : List Node → Bool
  | [] => true
  | node :: nodes => node.isNeat && allNeat nodes

end

/-- The tags of elements: one for a void element, two for any other. -/
inductive Writes : List Outline → List Token → Prop
  | nil : Writes [] []
  | leaf {name : Text} {os : List Outline} {ms : List Token} (hvoid : isVoid name = true)
      (hmore : Writes os ms) : Writes (.node name [] :: os) (.startTag name [] true :: ms)
  | element {name : Text} {inner os : List Outline} {ms ns : List Token}
      (hvoid : isVoid name = false) (hinner : Writes inner ms) (hmore : Writes os ns) :
      Writes (.node name inner :: os) (.startTag name [] false :: (ms ++ .endTag name :: ns))

/-- The tags of elements side by side. -/
theorem Writes.append {os ps : List Outline} {ms ns : List Token} (h : Writes os ms)
    (h' : Writes ps ns) : Writes (os ++ ps) (ms ++ ns) := by
  induction h with
  | nil => exact h'
  | leaf hvoid _ ih => exact .leaf hvoid ih
  | element hvoid hinner _ _ ih =>
    rw [List.cons_append, List.cons_append, List.append_assoc, List.cons_append]
    exact .element hvoid hinner ih

theorem outlineAll_append (nodes more : List Node) :
    outlineAll (nodes ++ more) = outlineAll nodes ++ outlineAll more := by
  induction nodes with
  | nil => rfl
  | cons node nodes ih =>
    rw [List.cons_append, outlineAll, ih, outlineAll, List.append_assoc]

theorem allNeat_append (nodes more : List Node) :
    allNeat (nodes ++ more) = (allNeat nodes && allNeat more) := by
  induction nodes with
  | nil => rfl
  | cons node nodes ih => rw [List.cons_append, allNeat, ih, allNeat, Bool.and_assoc]

/-! ## Tokens between marks -/

/-- Tokens can be cut where their marks are. -/
theorem exists_split_append {ts ms ns : List Token}
    (h : (marks ts).map Token.bare = ms ++ ns) :
    ∃ us vs, ts = us ++ vs ∧ (marks us).map Token.bare = ms ∧ (marks vs).map Token.bare = ns := by
  obtain ⟨as, bs, hsplit, has, hbs⟩ := List.map_eq_append_iff.1 h
  obtain ⟨us, vs, rfl, rfl, rfl⟩ := List.filter_eq_append_iff.1 hsplit
  exact ⟨us, vs, rfl, has, hbs⟩

/-- In front of the first mark stand tokens that are none. -/
theorem exists_split_cons {ts ms : List Token} {m : Token}
    (h : (marks ts).map Token.bare = m :: ms) :
    ∃ us token vs, ts = us ++ token :: vs ∧ (∀ u ∈ us, u.isMark = false) ∧ token.bare = m ∧
      (marks vs).map Token.bare = ms := by
  obtain ⟨token, more, hcons, hm, hms⟩ := List.map_eq_cons_iff.1 h
  obtain ⟨us, vs, rfl, hus, -, rfl⟩ := List.filter_eq_cons_iff.1 hcons
  exact ⟨us, token, vs, rfl, by simpa using hus, hm, hms⟩

/-! ## Growing -/

namespace Growth

/-- Adds nodes to the innermost open element. -/
def addAll (g : Growth) (nodes : List Node) : Growth :=
  { g with nodes := g.nodes ++ nodes }

theorem addAll_addAll (g : Growth) (nodes more : List Node) :
    (g.addAll nodes).addAll more = g.addAll (nodes ++ more) := by
  rw [addAll, addAll, addAll, List.append_assoc]

/-- `Grows ts os` says that tokens add neat nodes with this outline wherever they stand. -/
def Grows (ts : List Token) (os : List Outline) : Prop :=
  ∀ g : Growth, ∃ nodes, ts.foldl step g = g.addAll nodes ∧ outlineAll nodes = os ∧
    allNeat nodes = true

/-- Tokens that grow into nodes do so one after the other. -/
theorem Grows.append {ts us : List Token} {os ps : List Outline} (hts : Grows ts os)
    (hus : Grows us ps) : Grows (ts ++ us) (os ++ ps) := by
  intro g
  obtain ⟨nodes, hnodes, rfl, hneat⟩ := hts g
  obtain ⟨more, hmore, rfl, hneat'⟩ := hus (g.addAll nodes)
  refine ⟨nodes ++ more, ?_, outlineAll_append nodes more, ?_⟩
  · rw [List.foldl_append, hnodes, hmore, addAll_addAll]
  · rw [allNeat_append, hneat, hneat', Bool.and_self]

/-- Tokens that are no marks add texts only. -/
theorem grows_of_not_isMark {ts : List Token} (h : ∀ token ∈ ts, token.isMark = false) :
    Grows ts [] := by
  induction ts with
  | nil => exact fun g => ⟨[], by simp [addAll], rfl, rfl⟩
  | cons token ts ih =>
    obtain ⟨htoken, hts⟩ := List.forall_mem_cons.1 h
    have hfirst : Grows [token] [] := by
      intro g
      cases token with
      | text s => exact ⟨[.text s], rfl, rfl, rfl⟩
      | null => exact ⟨[], by simp [addAll, step], rfl, rfl⟩
      | problem message => exact ⟨[], by simp [addAll, step], rfl, rfl⟩
      | endOfInput => exact ⟨[], by simp [addAll, step], rfl, rfl⟩
      | _ => cases htoken
    exact hfirst.append (ih hts)

/-- A void tag grows into an element without children. -/
theorem grows_leaf {name : Text} (hvoid : isVoid name = true) (as : List Attribute) :
    Grows [.startTag name as true] [.node name []] := by
  intro g
  refine ⟨[.element name as true true []], rfl, rfl, ?_⟩
  simp [allNeat, Node.isNeat, hvoid]

/-- An element is added when its end tag is read. -/
theorem grows_element {name : Text} (hvoid : isVoid name = false) (as : List Attribute)
    {ts : List Token} {inner : List Outline} (hinner : Grows ts inner) :
    Grows (.startTag name as false :: (ts ++ [.endTag name])) [.node name inner] := by
  intro g
  have hopen : g.step (.startTag name as false) =
      { stack := { name, attributes := as, before := g.nodes } :: g.stack, nodes := [] } := by
    simp [step, hvoid]
  obtain ⟨nodes, hnodes, rfl, hneat⟩ := hinner (g.step (.startTag name as false))
  refine ⟨[.element name as false true nodes], ?_, rfl, ?_⟩
  · rw [List.foldl_cons, List.foldl_append, hnodes, hopen]
    simp [addAll, step, close?, OpenElement.finish]
  · simp [allNeat, Node.isNeat, hneat]

end Growth

theorem eq_of_bare_startTag {token : Token} {name : Text} {selfClosing : Bool}
    (h : token.bare = .startTag name [] selfClosing) :
    ∃ as, token = .startTag name as selfClosing := by
  cases token with
  | startTag name' as selfClosing' =>
    cases h
    exact ⟨as, rfl⟩
  | _ => cases h

theorem eq_of_bare_endTag {token : Token} {name : Text} (h : token.bare = .endTag name) :
    token = .endTag name := by
  cases token with
  | endTag name' => exact h
  | _ => cases h

/-- Tokens whose marks are the tags of elements grow into these elements. -/
theorem grows_of_writes {os : List Outline} {ms ts : List Token} (h : Writes os ms)
    (hts : (marks ts).map Token.bare = ms) : Growth.Grows ts os := by
  induction h generalizing ts with
  | nil =>
    apply Growth.grows_of_not_isMark
    intro token htoken
    have hnil : marks ts = [] := List.map_eq_nil_iff.1 hts
    simpa using List.filter_eq_nil_iff.1 hnil token htoken
  | @leaf name os ms hvoid hmore ih =>
    obtain ⟨us, token, vs, rfl, hus, hbare, hvs⟩ := exists_split_cons hts
    obtain ⟨as, rfl⟩ := eq_of_bare_startTag hbare
    exact (Growth.grows_of_not_isMark hus).append ((Growth.grows_leaf hvoid as).append (ih hvs))
  | @element name inner os ms ns hvoid hinner hmore ihinner ihmore =>
    -- the texts in front of the end tag belong to the element
    obtain ⟨us, token, vs, rfl, hus, hbare, hvs⟩ := exists_split_cons hts
    obtain ⟨as, rfl⟩ := eq_of_bare_startTag hbare
    obtain ⟨within, behind, rfl, hwithin, hbehind⟩ := exists_split_append hvs
    obtain ⟨ws, token, xs, rfl, hws, hbare, hxs⟩ := exists_split_cons hbehind
    obtain rfl := eq_of_bare_endTag hbare
    have hcontent := (ihinner hwithin).append (Growth.grows_of_not_isMark hws)
    rw [List.append_nil] at hcontent
    have hall := (Growth.grows_of_not_isMark hus).append
      ((Growth.grows_element hvoid as hcontent).append (ihmore hxs))
    simpa using hall

/-- A byte order mark in front is no mark of the text. -/
theorem shapes_dropMark (t : Text) : shapes (dropMark t) = shapes t := by
  unfold dropMark
  split
  · next u =>
    have hmark : Shows ['\ufeff'] [] := shows_text (by decide)
    exact (hmark u).symm
  · rfl

/-- A text that shows the tags of elements is read as these elements, among texts. -/
theorem outlineAll_parse {t : Text} {os : List Outline} {ms : List Token} (hwrites : Writes os ms)
    (hshows : Shows t ms) : outlineAll (parse t) = os ∧ allNeat (parse t) = true := by
  have hmarks : (marks (Token.tidy (tokens (prepare t)))).map Token.bare = ms := by
    have hempty : shapes [] = [] := by
      rw [shapes, lineFeeds, tokens]
      rfl
    have hall := hshows []
    rw [List.append_nil, hempty, List.append_nil] at hall
    rw [marks_tidy, ← hall, ← shapes_dropMark]
    rfl
  obtain ⟨nodes, hnodes, houtline, hneat⟩ :=
    grows_of_writes hwrites hmarks { stack := [], nodes := [] }
  have hparse : parse t = nodes := by
    rw [parse, ofTokens, hnodes]
    rfl
  rw [hparse]
  exact ⟨houtline, hneat⟩

end Scaffold.Html
