import Scaffold.Proofs.Html.HeldText

/-!
# A layout keeps the tags

A text that is laid out has the same start and end tags as before, in the same order
(`tagsOf_format`), if each of its nodes keeps its tags (`Node.KeepsTags`).  This asks two things of
an element.  Behind a bare attribute there is none whose name starts with an equals sign, which
would make it the value of the bare one.  And the text of a script or a style sheet keeps its end:
blanks are trimmed from its lines, but only some of them end the name of a tag, so that trimming may
finish a closing tag or take the end from one.  Neither condition can be left out
(`tagsOf_format_brokenOff`).

The induction is over the tree.  Its invariant is that an element that holds text has nothing else
in it and is closed, unless it is the last of all; behind an unclosed one nothing could be read.
-/

namespace Scaffold.Html

open Scaffold.Text

/-! ## Nodes -/

instance (as : List Attribute) : Decidable (Apart as) :=
  inferInstanceAs (Decidable (List.IsChain _ as))

/-- A node whose tags are read again when it is laid out: no attribute is taken for the value of a
bare one, and the text of a script or a style sheet ends where it did. -/
def Node.KeepsTags : Node → Prop
  | .element name attributes _ closed children =>
    Apart attributes ∧
      (printsVerbatim name = true → keepsEnd name closed ((plainText? children).getD []) = true)
  | _ => True

instance : DecidablePred Node.KeepsTags
  | .element _ _ _ _ _ => inferInstanceAs (Decidable (_ ∧ _))
  | .doctype _ | .comment _ | .text _ | .strayEnd _ => inferInstanceAs (Decidable True)

/-- The tags of a closed element that holds text. -/
theorem reads_closed {name : Text} {as : List Attribute} {content : Content} {x : Text}
    (hsound : Token.Sound (.startTag name as false)) (hapart : Apart as)
    (hcontent : contentOf? name = some content)
    (h : ∀ t, (readContent content name (lineFeeds (x ++ (closeTag name ++ t)))).2 =
      closeTag name ++ lineFeeds t) :
    Reads (openTag name as ++ '>' :: (x ++ closeTag name)) [.opening name, .closing name] := by
  intro t
  rw [List.append_assoc, List.cons_append, List.append_assoc,
    tagsRead_content hsound hapart hcontent, h, tokens_closeTag hsound.1]
  rfl

/-- The text between the tags of an element is read up to the closing tag, if it keeps its end or
was escaped. -/
theorem readContent_inside {name s : Text} {content : Content} (hname : IsTagName name)
    (hcontent : contentOf? name = some content) (hs : HoldsText name true s) (hnul : nul ∉ s)
    (hkeeps : printsVerbatim name = true → keepsEnd name true s = true) (depth : Nat) (t : Text) :
    (readContent content name
      (lineFeeds (inside depth (printsVerbatim name) s ++ (closeTag name ++ t)))).2 =
        closeTag name ++ lineFeeds t := by
  have hclose := return_notMem_closeTag hname
  cases hprints : printsVerbatim name with
  | true =>
    have hlower := (facts_of_contentOf? (Option.isSome_of_eq_some hcontent)).1
    rw [lineFeeds_append_of_notMem (return_notMem_inside (hs hprints).no_return depth),
      lineFeeds_append_of_notMem hclose,
      readContent_eq hcontent (ne_escapable_of_printsVerbatim hcontent hprints),
      readVerbatim_inside hlower (hs hprints) (hkeeps hprints)]
  | false =>
    rw [passes_inside hcontent hprints hnul, lineFeeds_append_of_notMem hclose,
      readContent_closeTag hcontent]

/-- An unclosed element that holds text has no tags but its own. -/
theorem tagsRead_unclosed {name s : Text} {as : List Attribute} {content : Content}
    (hsound : Token.Sound (.startTag name as false)) (hapart : Apart as)
    (hcontent : contentOf? name = some content) (hs : HoldsText name false s) (hnul : nul ∉ s)
    (hkeeps : printsVerbatim name = true → keepsEnd name false s = true) (depth : Nat) :
    tagsRead (openTag name as ++ '>' :: textLines depth (printsVerbatim name) s) =
      [.opening name] := by
  obtain ⟨hlower, hne, -⟩ := facts_of_contentOf? (Option.isSome_of_eq_some hcontent)
  rw [tagsRead_content hsound hapart hcontent]
  congr 1
  cases hprints : printsVerbatim name with
  | true =>
    rw [lineFeeds_eq_self (return_notMem_textLines (hs hprints).no_return depth),
      readContent_eq hcontent (ne_escapable_of_printsVerbatim hcontent hprints)]
    exact tags_textLines hlower hne (hs hprints) (hkeeps hprints) depth
  | false =>
    have hread := passes_textLines hcontent hprints hnul depth []
    have hnil : (readContent content name (lineFeeds [])).2 = [] := by
      cases content with
      | script | raw => rfl
      | escapable =>
        show (readEscapable name []).2 = []
        rw [readEscapable, readResolved]
    rw [List.append_nil, hnil] at hread
    rw [hread, tokens]
    rfl

theorem printsVerbatim_of_contentOf? {name : Text} (h : contentOf? name = none) :
    printsVerbatim name = false := by
  rw [Bool.eq_false_iff]
  intro hprints
  simp only [printsVerbatim, Bool.or_eq_true, beq_iff_eq] at hprints
  rcases hprints with rfl | rfl <;> exact absurd h (by decide)

/-- Nodes that are all text have no tags. -/
theorem tags_of_plainText? {nodes : List Node} {s : Text} (h : plainText? nodes = some s)
    (hsound : ∀ token ∈ flattenAll nodes, token.Sound) :
    nul ∉ s ∧ tags (flattenAll nodes) = [] := by
  induction nodes generalizing s with
  | nil =>
    obtain rfl := Option.some.inj h
    exact ⟨List.not_mem_nil, rfl⟩
  | cons node nodes ih =>
    cases node with
    | text u =>
      obtain ⟨v, hv, rfl⟩ := Option.map_eq_some_iff.1 h
      obtain ⟨hu, hnodes⟩ := List.forall_mem_cons.1 hsound
      obtain ⟨hnul, htags⟩ := ih hv hnodes
      exact ⟨fun hmem => (List.mem_append.1 hmem).elim hu hnul, htags⟩
    | doctype | comment | strayEnd | element => cases h

theorem exists_of_inlineText? {verbatim : Bool} {children : List Node} {x : Text}
    (h : inlineText? verbatim children = some x) :
    ∃ s, plainText? children = some s ∧ x = written verbatim (trim s) := by
  unfold inlineText? at h
  split at h
  · cases h
  · next s hs =>
    split at h
    · cases h
    · exact ⟨s, hs, (Option.some.inj h).symm⟩

/-- The tags of an element: its own around those inside. -/
theorem tags_element (name : Text) (as : List Attribute) (selfClosing closed : Bool)
    (children : List Node) :
    tags (Node.flatten (.element name as selfClosing closed children)) =
      .opening name :: tags (flattenAll children) ++
        if closed && !selfClosing then [.closing name] else [] := by
  rw [Node.flatten, tags_append]
  split <;> rfl

/-- An element that holds one line of text reads as its two tags. -/
theorem reads_inline {name x : Text} {as : List Attribute} {closed : Bool} {children : List Node}
    (htag : Token.Sound (.startTag name as false)) (hapart : Apart as)
    (hcontent : contentOf? name = none) (hchildren : ∀ token ∈ flattenAll children, token.Sound)
    (h : (if closed then inlineText? false children else none) = some x) :
    Reads (openTag name as ++ '>' :: x ++ closeTag name)
      (tags (Node.flatten (.element name as false closed children))) := by
  cases closed with
  | false => cases h
  | true =>
    obtain ⟨s, hs, rfl⟩ := exists_of_inlineText? h
    obtain ⟨hnul, htags⟩ := tags_of_plainText? hs hchildren
    have hopen : Reads (openTag name as ++ tagEnd false) [.opening name] :=
      reads_openTag htag hapart (Or.inl hcontent)
    have htext : Reads (escapeText (trim s)) [] :=
      reads_escapeText (fun hmem => hnul (mem_of_mem_trim hmem)) (trimmed_trim s)
    have hlayout : openTag name as ++ '>' :: written false (trim s) ++ closeTag name =
        openTag name as ++ tagEnd false ++ escapeText (trim s) ++ closeTag name := by
      simp [tagEnd, written]
    rw [hlayout, tags_element, htags]
    exact (hopen.append htext).append (reads_closeTag htag.1)

/-- The tags of an element that holds markup, from those of its children. -/
theorem tagsRead_markup {name : Text} {as : List Attribute} {closed last : Bool}
    {children : List Node} (htag : Token.Sound (.startTag name as false)) (hapart : Apart as)
    (hcontent : contentOf? name = none) (hsound : ∀ token ∈ flattenAll children, token.Sound)
    (depth : Nat)
    (hchildren : ∀ u : Text, ((last && !closed) = true → u = []) →
      tagsRead (layoutAll (depth + 1) false children ++ u) =
        tags (flattenAll children) ++ tagsRead u)
    {t : Text} (ht : last = true → t = []) :
    tagsRead (Node.layout depth false (.element name as false closed children) ++ t) =
      tags (Node.flatten (.element name as false closed children)) ++ tagsRead t := by
  have hopen : Reads (openTag name as ++ ['>']) [.opening name] :=
    reads_openTag htag hapart (Or.inl hcontent)
  rw [Node.layout, printsVerbatim_of_contentOf? hcontent, if_neg (by decide)]
  split
  · next x hinline => exact (reads_inline htag hapart hcontent hsound hinline).line depth t
  · rw [tags_element, List.append_assoc, List.append_assoc, hopen.line depth]
    cases closed with
    | true =>
      rw [hchildren _ fun hlast => absurd hlast (by simp), if_pos rfl,
        (reads_closeTag htag.1).line depth]
      simp
    | false =>
      rw [hchildren _ fun hlast => by simpa using ht (by simpa using hlast)]
      simp

/-- The tags of an element that holds text. -/
theorem tagsRead_text {name s : Text} {as : List Attribute} {closed last : Bool}
    (htag : Token.Sound (.startTag name as false)) (hapart : Apart as)
    (hcontent : (contentOf? name).isSome = true) (hs : HoldsText name closed s) (hnul : nul ∉ s)
    (hkeeps : printsVerbatim name = true → keepsEnd name closed s = true)
    (hlast : closed = false → last = true) (depth : Nat) {t : Text} (ht : last = true → t = []) :
    tagsRead (Node.layout depth false (.element name as false closed (textNodes s)) ++ t) =
      tags (Node.flatten (.element name as false closed (textNodes s))) ++ tagsRead t := by
  obtain ⟨content, hcontent⟩ := Option.isSome_iff_exists.1 hcontent
  have htags : tags (flattenAll (textNodes s)) = [] := by
    unfold textNodes
    split <;> rfl
  rw [tags_element, htags]
  cases closed with
  | true =>
    rw [layout_closed]
    exact (reads_closed htag hapart hcontent
      (readContent_inside htag.1 hcontent hs hnul hkeeps depth)).line depth t
  | false =>
    have hindent : Reads (List.replicate depth "  ".toList).flatten [] :=
      reads_blanks fun c hc => Or.inl (eq_space_of_mem_indent hc)
    obtain rfl := ht (hlast rfl)
    rw [layout_unclosed, List.append_assoc, hindent, List.append_nil,
      tagsRead_unclosed htag hapart hcontent hs hnul hkeeps]
    rw [tagsRead, lineFeeds, tokens]
    rfl

/-- The case of an element: its tag, its content or its children, and its closing tag if it has one.
-/
theorem tagsRead_element {name : Text} {as : List Attribute} {selfClosing closed last : Bool}
    {children : List Node}
    (hcontained : (Node.element name as selfClosing closed children).Contained last)
    (hsound : ∀ token ∈ (Node.element name as selfClosing closed children).flatten, token.Sound)
    (hkeeps : (Node.element name as selfClosing closed children).KeepsTags) (depth : Nat)
    (hchildren : ContainedAll (last && !closed) children → ∀ u : Text,
      ((last && !closed) = true → u = []) →
        tagsRead (layoutAll (depth + 1) false children ++ u) =
          tags (flattenAll children) ++ tagsRead u)
    {t : Text} (ht : last = true → t = []) :
    tagsRead ((Node.element name as selfClosing closed children).layout depth false ++ t) =
      tags (Node.element name as selfClosing closed children).flatten ++ tagsRead t := by
  obtain ⟨hself, hmarkup, htext⟩ := hcontained
  rw [Node.flatten, List.cons_append] at hsound
  obtain ⟨htag, hrest⟩ := List.forall_mem_cons.1 hsound
  obtain ⟨hbelow, -⟩ := List.forall_mem_append.1 hrest
  cases selfClosing with
  | true =>
    obtain rfl := hself rfl
    have hopen : Reads (openTag name as ++ " />".toList) [.opening name] :=
      reads_openTag htag hkeeps.1 (Or.inr rfl)
    rw [tags_element, Node.layout, if_pos rfl, hopen.line depth]
    simp [flattenAll, tags]
  | false =>
    -- markup is read by what is known of the children, a text up to the closing tag
    cases hcontent : contentOf? name with
    | none =>
      exact tagsRead_markup htag hkeeps.1 hcontent hbelow depth
        (hchildren (hmarkup rfl hcontent)) ht
    | some content =>
      have hsome := Option.isSome_of_eq_some hcontent
      obtain ⟨hlast, s, rfl, hs⟩ := htext rfl hsome
      have hplain := plainText?_textNodes s
      have hends := hkeeps.2
      rw [hplain] at hends
      exact tagsRead_text htag hkeeps.1 hsome hs (tags_of_plainText? hplain hbelow).1 hends hlast
        depth ht

mutual

/-- The layout of a node reads as the tags of the node. -/
theorem Node.tagsRead_layout {node : Node} {last : Bool} (hcontained : node.Contained last)
    (hsound : ∀ token ∈ node.flatten, token.Sound)
    (hkeeps : ∀ sub ∈ node.listing, sub.KeepsTags) (depth : Nat) {t : Text}
    (ht : last = true → t = []) :
    tagsRead (node.layout depth false ++ t) = tags node.flatten ++ tagsRead t := by
  cases node with
  | doctype name => exact (reads_doctype (hsound _ List.mem_cons_self)).line depth t
  | comment s => exact (reads_comment (hsound _ List.mem_cons_self)).line depth t
  | strayEnd name => exact (reads_closeTag (hsound _ List.mem_cons_self)).line depth t
  | text s =>
    have hnul : nul ∉ s := hsound _ List.mem_cons_self
    exact reads_lines (isLine_and_nul_notMem hnul) depth t
  | element name attributes selfClosing closed children =>
    obtain ⟨helement, hchildren⟩ := List.forall_mem_cons.1 hkeeps
    have hbelow : ∀ token ∈ flattenAll children, token.Sound := fun token hmem =>
      hsound token (List.mem_append_left _ (List.mem_cons_of_mem _ hmem))
    exact tagsRead_element hcontained hsound helement depth
      (fun hall u hu => tagsRead_layoutAll hall hbelow hchildren (depth + 1) hu) ht

/-- The layout of nodes has their tags, in front of those of a text that may stand behind it. -/
theorem tagsRead_layoutAll {nodes : List Node} {last : Bool} (hcontained : ContainedAll last nodes)
    (hsound : ∀ token ∈ flattenAll nodes, token.Sound)
    (hkeeps : ∀ sub ∈ listingAll nodes, sub.KeepsTags) (depth : Nat) {t : Text}
    (ht : last = true → t = []) :
    tagsRead (layoutAll depth false nodes ++ t) = tags (flattenAll nodes) ++ tagsRead t := by
  cases nodes with
  | nil => rfl
  | cons node nodes =>
    obtain ⟨hnode, hnodes⟩ := List.forall_mem_append.1 hkeeps
    obtain ⟨hfirst, hrest⟩ := List.forall_mem_append.1 hsound
    have hbehind : (last && nodes.isEmpty) = true → layoutAll depth false nodes ++ t = [] := by
      intro hlast
      obtain ⟨hlast, hempty⟩ := Bool.and_eq_true_iff.1 hlast
      rw [List.isEmpty_iff.1 hempty, ht hlast]
      rfl
    rw [layoutAll, List.append_assoc,
      Node.tagsRead_layout hcontained.1 hfirst hnode depth hbehind,
      tagsRead_layoutAll hcontained.2 hrest hnodes depth ht, flattenAll, tags_append,
      List.append_assoc]

end

/-! ## The whole text -/

/-- A byte order mark in front is no tag. -/
theorem tagsOf_eq (t : Text) : tagsOf t = tagsRead t := by
  rw [tagsOf, prepare]
  unfold dropMark
  split
  · next u =>
    have hmark : '\r' ∉ ['\ufeff'] := by decide
    show _ = tagsRead (['\ufeff'] ++ u)
    rw [tagsRead, lineFeeds_append_of_notMem hmark, List.singleton_append, tokens,
      if_neg (by decide), if_neg (by decide), if_neg (by decide)]
    rfl
  · rfl

/-- A layout has the tags of the text, in the same order. -/
theorem tagsOf_format {t : Text} (h : ∀ node ∈ listingAll (parse t), node.KeepsTags) :
    tagsOf (format t) = tagsOf t := by
  obtain ⟨last, hcontained⟩ := exists_containedAll_ofTokens (return_notMem_prepare t)
  have hread := tagsRead_layoutAll hcontained (sound_of_mem_flattenAll t) h 0 fun _ => rfl
  have hnil : tagsRead [] = [] := by
    rw [tagsRead, lineFeeds, tokens]
    rfl
  rw [List.append_nil, hnil, List.append_nil] at hread
  rw [tagsOf_eq, ← tags_flattenAll_parse]
  exact hread

/-- A page on which text looks like tags: a script in the comment of a script, end tags in text that
is not markup, and a style sheet that breaks off within its closing tag. -/
def tagsInText : Text :=
  ["<p a=1 =b c='&#13;'>", "<script><!--<script>\n", "x </script>\n--></script>",
    "<title>&#13;</b></title>", "<xmp></xm <b></xmp></i>",
    "<style>a\n</style"].flatMap String.toList

theorem tagsOf_format_tagsInText :
    (∀ node ∈ listingAll (parse tagsInText), node.KeepsTags) ∧
      tagsOf tagsInText = [.opening "p".toList, .opening "script".toList,
        .closing "script".toList, .opening "title".toList, .closing "title".toList,
        .opening "xmp".toList, .closing "xmp".toList, .closing "i".toList,
        .opening "style".toList] ∧
      tagsOf (format tagsInText) = tagsOf tagsInText := by
  have hnodes : ∀ node ∈ listingAll (parse tagsInText), node.KeepsTags := by decide +kernel
  exact ⟨hnodes, by decide +kernel, tagsOf_format hnodes⟩

/-- Texts that are laid out with other tags.  A line end finishes the closing tag of a style sheet;
a blank is lost behind the closing tag of an inner script; a line end finishes the tag of an inner
script; and an attribute becomes the value of a bare one. -/
def brokenOff : List Text :=
  ["<style>\n</style\u00a0\n></style>".toList, "<script><!--<script></script </script>".toList,
    "<script><!--\n<script</script>".toList, "<a b=\"\" =\"><c>".toList]

theorem tagsOf_format_brokenOff :
    brokenOff.map tagsOf =
        [[.opening "style".toList, .closing "style".toList],
          [.opening "script".toList, .closing "script".toList],
          [.opening "script".toList, .closing "script".toList],
          [.opening "a".toList, .opening "c".toList]] ∧
      (brokenOff.map fun t => tagsOf (format t)) =
        [[.opening "style".toList, .closing "style".toList, .closing "style".toList],
          [.opening "script".toList], [.opening "script".toList], []] := by
  decide +kernel

end Scaffold.Html
