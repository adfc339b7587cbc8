import Scaffold.Proofs.Html.Trimmed

/-!
# Printing trimmed trees

The layout of a tidy tree can be told from its trimmed tree: `printAll` prints a trimmed tree, and
what it prints is the layout (`layoutAll_eq`).  Nothing else of the tree counts, so trees that
trim to the same have one layout.

The layout of a tree spells the tokens of the tree (`spelled_layoutAll`), as long as no text is
printed as it stands.  Trees for which more is true, so that they are read again as they are laid
out, have `Restorable` nodes.
-/

namespace Scaffold.Html

open Scaffold.Text

/-! ## Printing -/

/-- The text of trimmed nodes that are one line at most. -/
def loneLine? : List Node → Option Text
  | [] => some []
  | [.text l] => some l
  | _ => none

mutual

/-- The lines of a trimmed node at a depth. -/
def Node.print (depth : Nat) (verbatim : Bool) : Node → Text
  | .doctype name => line depth ("<!doctype ".toList ++ name ++ ['>'])
  | .comment t => line depth ("<!--".toList ++ t ++ "-->".toList)
  | .strayEnd name => line depth (closeTag name)
  | .text l => line depth (written verbatim l)
  | .element name attributes selfClosing closed children =>
    if selfClosing then line depth (openTag name attributes ++ " />".toList)
    else
      match if closed then loneLine? children else none with
      | some l =>
        line depth (openTag name attributes ++
          '>' :: written (printsVerbatim name) l ++ closeTag name)
      | none =>
        line depth (openTag name attributes ++ ['>']) ++
          printAll (depth + 1) (printsVerbatim name) children ++
          if closed then line depth (closeTag name) else []

/-- The lines of a list of trimmed nodes at a depth. -/
def printAll (depth : Nat) (verbatim : Bool) : List Node → Text
  | [] => []
  | node :: nodes => node.print depth verbatim ++ printAll depth verbatim nodes

end

theorem printAll_append (depth : Nat) (verbatim : Bool) (nodes others : List Node) :
    printAll depth verbatim (nodes ++ others) =
      printAll depth verbatim nodes ++ printAll depth verbatim others := by
  induction nodes with
  | nil => rfl
  | cons node nodes ih => rw [List.cons_append, printAll, ih, printAll, List.append_assoc]

theorem printAll_singleton (depth : Nat) (verbatim : Bool) (node : Node) :
    printAll depth verbatim [node] = node.print depth verbatim := by
  rw [printAll, printAll, List.append_nil]

theorem printAll_texts (depth : Nat) (verbatim : Bool) (ls : List Text) :
    printAll depth verbatim (ls.map .text) =
      ls.flatMap fun l => line depth (written verbatim l) := by
  induction ls with
  | nil => rfl
  | cons l ls ih =>
    rw [List.map_cons, printAll, ih, List.flatMap_cons]
    rfl

/-! ## The layout is what is printed -/

theorem loneLine?_of_not_isText {node : Node} (h : node.isText = false) (front back : List Node) :
    loneLine? (front ++ node :: back) = none := by
  cases front with
  | nil =>
    cases node with
    | text t => cases h
    | _ => rfl
  | cons first front =>
    cases front with
    | nil => cases first <;> rfl
    | cons second front => cases first <;> rfl

/-- A text stands on one line if no line ends within it. -/
theorem loneLine?_trimmedLines (t : Text) :
    loneLine? ((trimmedLines t).map .text) =
      if '\n' ∈ trim t then none else some (trim t) := by
  split
  · next h =>
    have hlength := one_lt_length_trimmedLines h
    match trimmedLines t, hlength with
    | _ :: _ :: _, _ => rfl
  · next h =>
    rw [trimmedLines_of_trim h]
    split
    · next hnil => rw [hnil]; rfl
    · rfl

/-- A node that is no text is trimmed to one such node. -/
theorem exists_trimmed_of_not_isText {node : Node} (h : node.isText = false) :
    ∃ other : Node, node.trimmed = [other] ∧ other.isText = false := by
  cases node with
  | text t => cases h
  | _ => exact ⟨_, rfl, rfl⟩

theorem plainText?_of_not_isText {node : Node} (h : node.isText = false) (nodes : List Node) :
    plainText? (node :: nodes) = none := by
  cases node with
  | text t => cases h
  | _ => rfl

/-- Content stays on the line of its tags if it trims to one line at most. -/
theorem inlineText?_eq {children : List Node} (h : TidyAll children) (verbatim : Bool) :
    inlineText? verbatim children =
      (loneLine? (trimmedAll children)).map (written verbatim) := by
  have hother : ∀ (front back : List Node) (node : Node), node.isText = false →
      loneLine? (front ++ trimmedAll (node :: back)) = none := by
    intro front back node hnode
    obtain ⟨other, hother, hkind⟩ := exists_trimmed_of_not_isText hnode
    rw [trimmedAll, hother]
    exact loneLine?_of_not_isText hkind front _
  cases children with
  | nil => cases verbatim <;> rfl
  | cons node nodes =>
    cases hnode : node.isText with
    | false =>
      rw [inlineText?, plainText?_of_not_isText hnode, ← List.nil_append (trimmedAll _),
        hother [] nodes node hnode]
      rfl
    | true =>
      obtain ⟨t, rfl⟩ : ∃ t, node = .text t := by
        cases node with
        | text t => exact ⟨t, rfl⟩
        | _ => cases hnode
      rw [inlineText?, plainText?]
      cases nodes with
      | nil =>
        rw [trimmedAll_singleton, Node.trimmed, loneLine?_trimmedLines]
        simp only [plainText?, Option.map_some, List.append_nil, List.contains_iff_mem]
        split <;> rfl
      | cons next nodes =>
        -- the next node is no text, as the tree is tidy
        have hnext : next.isText = false := h.2.1 rfl next rfl
        rw [plainText?_of_not_isText hnext, trimmedAll, hother _ nodes next hnext]
        rfl

mutual

/-- The layout of a tidy node is what is printed of the trimmed one. -/
theorem Node.layout_eq {node : Node} (h : node.Tidy) (depth : Nat) (verbatim : Bool) :
    node.layout depth verbatim = printAll depth verbatim node.trimmed := by
  cases node with
  | doctype | comment | strayEnd => simp [Node.layout, Node.trimmed, printAll, Node.print]
  | text t => rw [Node.layout, Node.trimmed, printAll_texts]
  | element name attributes selfClosing closed children =>
    rw [Node.layout, Node.trimmed, printAll_singleton, Node.print, inlineText?_eq h.2,
      layoutAll_eq h.2]
    cases closed with
    | false => rfl
    | true =>
      simp only [if_true]
      cases loneLine? (trimmedAll children) <;> rfl

/-- The layout of tidy nodes is told from the trimmed nodes. -/
theorem layoutAll_eq {nodes : List Node} (h : TidyAll nodes) (depth : Nat) (verbatim : Bool) :
    layoutAll depth verbatim nodes = printAll depth verbatim (trimmedAll nodes) := by
  cases nodes with
  | nil => rfl
  | cons node nodes =>
    rw [layoutAll, trimmedAll, printAll_append, Node.layout_eq h.1, layoutAll_eq h.2.2]

end

/-! ## Lines that spell tokens -/

/-- A piece on a line of its own spells what it spells, for blanks do not count. -/
theorem spelled_line {ts : List Token} {x t : Text} (depth : Nat)
    (h : Spelled ts (x ++ '\n' :: t)) : Spelled ts (line depth x ++ t) := by
  have hline : line depth x ++ t =
      (List.replicate depth "  ".toList).flatten ++ (x ++ '\n' :: t) := by
    simp [line]
  rw [hline]
  clear hline
  induction depth with
  | zero => exact h
  | succ depth ih =>
    rw [List.replicate_succ, List.flatten_cons]
    exact .blank (Or.inl rfl) (.blank (Or.inl rfl) ih)

/-- The texts of a trimmed tree are lines. -/
theorem isLine_of_mem_trimmedAll {nodes : List Node} {l : Text} (h : .text l ∈ trimmedAll nodes) :
    IsLine l := by
  induction nodes with
  | nil => cases h
  | cons node nodes ih =>
    rw [trimmedAll] at h
    rcases List.mem_append.1 h with h | h
    · cases node with
      | text t =>
        obtain ⟨l', hl', heq⟩ := List.mem_map.1 h
        rw [← Node.text.inj heq]
        exact (isLine_of_mem_trimmedLines hl').1
      | _ => cases List.mem_singleton.1 h
    · exact ih h

theorem loneLine?_cases {nodes : List Node} {l : Text} (h : loneLine? nodes = some l) :
    nodes = [] ∧ l = [] ∨ nodes = [.text l] := by
  unfold loneLine? at h
  split at h
  · exact Or.inl ⟨rfl, (Option.some.inj h).symm⟩
  · rw [Option.some.inj h]
    exact Or.inr rfl
  · cases h

/-- Lines that were escaped spell themselves. -/
theorem spelled_texts {ls : List Text} (hls : ∀ l ∈ ls, IsLine l) (depth : Nat) {ts : List Token}
    {t : Text} (h : Spelled ts t) :
    Spelled (ls.map .text ++ ts)
      ((ls.flatMap fun l => line depth (written false l)) ++ t) := by
  induction ls with
  | nil => exact h
  | cons l ls ih =>
    obtain ⟨hl, hls⟩ := List.forall_mem_cons.1 hls
    rw [List.flatMap_cons, List.append_assoc]
    exact spelled_line depth (.line hl (ih hls))

/-! ## Restorable nodes -/

mutual

/-- A node and the nodes below it, in order. -/
def Node.listing : Node → List Node
  | .element name attributes selfClosing closed children =>
    .element name attributes selfClosing closed children :: listingAll children
  | node => [node]

/-- The nodes of a list and the nodes below them, in order. -/
def listingAll : List Node → List Node
  | [] => []
  | node :: nodes => node.listing ++ listingAll nodes

end

/-- The tags whose content is read neither as markup nor as text with references. -/
def rawTags : List Text :=
  ["script", "style", "xmp", "iframe", "noembed", "noframes"].map String.toList

/-- A node that is read again as it is laid out. -/
def Node.Restorable : Node → Prop
  | .text t => '\r' ∉ t
  | .element name attributes _ _ _ =>
    name ∉ rawTags ∧ ∀ a ∈ attributes, a.name.head? ≠ some '=' ∧ '\r' ∉ a.value
  | _ => True

instance : DecidablePred Node.Restorable
  | .text t => inferInstanceAs (Decidable ('\r' ∉ t))
  | .element name attributes _ _ _ =>
    inferInstanceAs (Decidable
      (name ∉ rawTags ∧ ∀ a ∈ attributes, a.name.head? ≠ some '=' ∧ '\r' ∉ a.value))
  | .doctype _ | .comment _ | .strayEnd _ => inferInstanceAs (Decidable True)

/-- The content of an element outside of this list is markup or escapable. -/
theorem contentOf?_of_notMem {name : Text} (h : name ∉ rawTags) :
    contentOf? name = none ∨ contentOf? name = some .escapable := by
  simp only [rawTags, List.map_cons, List.map_nil, List.mem_cons, List.not_mem_nil, or_false,
    not_or] at h
  rw [contentOf?, if_neg h.1, if_neg (by simpa using h.2)]
  split
  · exact Or.inr rfl
  · exact Or.inl rfl

theorem printsVerbatim_of_notMem {name : Text} (h : name ∉ rawTags) :
    printsVerbatim name = false := by
  simp only [rawTags, List.map_cons, List.map_nil, List.mem_cons, not_or] at h
  rw [printsVerbatim, Bool.or_eq_false_iff]
  exact ⟨beq_eq_false_iff_ne.2 h.1, beq_eq_false_iff_ne.2 h.2.1⟩

/-! ## The layout spells the tokens -/

theorem spelled_closeTag (name : Text) (depth : Nat) {ts : List Token} {t : Text}
    (h : Spelled ts t) : Spelled (.endTag name :: ts) (line depth (closeTag name) ++ t) :=
  spelled_line depth (.endTag name (.blank (Or.inr rfl) h))

/-- A start tag spells itself. -/
theorem spelled_openTag (name : Text) (attributes : List Attribute) {ts : List Token} {t : Text}
    (h : Spelled ts t) :
    Spelled (.startTag name attributes false :: ts) (openTag name attributes ++ ['>'] ++ t) := by
  rw [List.append_assoc]
  exact .startTag name attributes false h

/-- An element that is written on one line. -/
theorem spelled_inline {name l : Text} {attributes : List Attribute} {nodes : List Node}
    (hlone : loneLine? (trimmedAll nodes) = some l) (depth : Nat) {ts : List Token} {t : Text}
    (h : Spelled ts t) :
    Spelled
      (.startTag name attributes false :: ((flattenAll nodes).flatMap Token.lines ++
        .endTag name :: ts))
      (line depth (openTag name attributes ++ '>' :: escapeText l ++ closeTag name) ++ t) := by
  have hend : Spelled (.endTag name :: ts) (closeTag name ++ '\n' :: t) :=
    .endTag name (.blank (Or.inr rfl) h)
  have htext : openTag name attributes ++ '>' :: escapeText l ++ closeTag name ++ '\n' :: t =
      openTag name attributes ++ ['>'] ++ (escapeText l ++ (closeTag name ++ '\n' :: t)) := by
    simp
  refine spelled_line depth ?_
  rw [htext, ← flattenAll_trimmedAll]
  refine spelled_openTag name attributes ?_
  rcases loneLine?_cases hlone with ⟨hnil, rfl⟩ | hsingle
  · rw [hnil]
    exact hend
  · have hl : IsLine l := isLine_of_mem_trimmedAll (hsingle ▸ List.mem_singleton.2 rfl)
    rw [hsingle]
    exact .lastLine hl name (.blank (Or.inr rfl) h)

/-- The layout of an element spells its tokens if the layout of its children does. -/
theorem spelled_element {name : Text} {attributes : List Attribute} {selfClosing closed : Bool}
    {children : List Node} (htidy : (Node.element name attributes selfClosing closed children).Tidy)
    (hname : name ∉ rawTags) (depth : Nat)
    (hchildren : ∀ {us : List Token} {u : Text}, Spelled us u →
      Spelled ((flattenAll children).flatMap Token.lines ++ us)
        (layoutAll (depth + 1) false children ++ u))
    {ts : List Token} {t : Text} (h : Spelled ts t) :
    Spelled
      ((Node.element name attributes selfClosing closed children).flatten.flatMap Token.lines ++ ts)
      ((Node.element name attributes selfClosing closed children).layout depth false ++ t) := by
  cases selfClosing with
  | true =>
    obtain rfl := htidy.1 rfl
    have hflatten : (Node.element name attributes true closed []).flatten.flatMap Token.lines =
        [.startTag name attributes true] := by
      simp [Node.flatten, flattenAll, Token.lines]
    have htag := Spelled.startTag name attributes true (.blank (Or.inr rfl) h)
    rw [← List.append_assoc] at htag
    rw [hflatten]
    exact spelled_line depth htag
  | false =>
    have hflatten : (Node.element name attributes false closed children).flatten.flatMap
        Token.lines ++ ts = .startTag name attributes false ::
          ((flattenAll children).flatMap Token.lines ++
            ((if closed then [.endTag name] else []) ++ ts)) := by
      cases closed <;> simp [Node.flatten, Token.lines, List.flatMap_append]
    have hblock : ∀ {us : List Token} {u : Text}, Spelled us u →
        Spelled (.startTag name attributes false :: ((flattenAll children).flatMap Token.lines ++
          us)) (line depth (openTag name attributes ++ ['>']) ++
            (layoutAll (depth + 1) false children ++ u)) := fun hu =>
      spelled_line depth (spelled_openTag name attributes (.blank (Or.inr rfl) (hchildren hu)))
    rw [hflatten, Node.layout, printsVerbatim_of_notMem hname, inlineText?_eq htidy.2]
    -- a lone line stands between the tags, anything else on lines of its own
    cases closed with
    | false => simpa using hblock h
    | true =>
      cases hlone : loneLine? (trimmedAll children) with
      | some l => exact spelled_inline hlone depth h
      | none => simpa using hblock (spelled_closeTag name depth h)

mutual

/-- The layout of a node spells its tokens, with those of what follows behind them. -/
theorem Node.spelled_layout {node : Node} (htidy : node.Tidy)
    (hnode : ∀ sub ∈ node.listing, sub.Restorable) (depth : Nat) {ts : List Token} {t : Text}
    (h : Spelled ts t) :
    Spelled (node.flatten.flatMap Token.lines ++ ts) (node.layout depth false ++ t) := by
  cases node with
  | doctype name => exact spelled_line depth (.doctype name (.blank (Or.inr rfl) h))
  | comment s => exact spelled_line depth (.comment s (.blank (Or.inr rfl) h))
  | strayEnd name => exact spelled_closeTag name depth h
  | text s =>
    have hlines : ∀ l ∈ trimmedLines s, IsLine l := fun l hl => (isLine_of_mem_trimmedLines hl).1
    rw [Node.flatten, List.flatMap_singleton, Node.layout]
    exact spelled_texts hlines depth h
  | element name attributes selfClosing closed children =>
    obtain ⟨helement, hchildren⟩ := List.forall_mem_cons.1 hnode
    exact spelled_element htidy helement.1 depth
      (fun hu => spelled_layoutAll htidy.2 hchildren (depth + 1) hu) h

/-- The layout of a list of nodes spells the lines of their tokens. -/
theorem spelled_layoutAll {nodes : List Node} (htidy : TidyAll nodes)
    (hnodes : ∀ sub ∈ listingAll nodes, sub.Restorable) (depth : Nat) {ts : List Token} {t : Text}
    (h : Spelled ts t) :
    Spelled ((flattenAll nodes).flatMap Token.lines ++ ts) (layoutAll depth false nodes ++ t) := by
  cases nodes with
  | nil => exact h
  | cons node nodes =>
    obtain ⟨hnode, hnodes⟩ := List.forall_mem_append.1 hnodes
    rw [flattenAll, List.flatMap_append, List.append_assoc, layoutAll, List.append_assoc]
    exact Node.spelled_layout htidy.1 hnode depth (spelled_layoutAll htidy.2.2 hnodes depth h)

end

end Scaffold.Html
