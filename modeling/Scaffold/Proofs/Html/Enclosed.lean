import Scaffold.Proofs.Html.Verbatim

/-!
# Elements that hold text

An element whose content is not read as markup holds one text or nothing.  Its end tag stands right
behind that text, or else nothing stands behind it at all (`Enclosed`).  So in the tree such an
element has no children but that text, and it is closed unless it is the last of all
(`exists_containedAll_ofTokens`).

Of a text that is printed as it stands it is also known that no closing tag stands in it, and that
the closing tag behind it was read as such (`Verbatim`).
-/

namespace Scaffold.Html

open Scaffold.Text

/-! ## Tokens -/

/-- What is known of the text of a script or a style sheet. -/
structure Verbatim (name : Text) (closed : Bool) (s : Text) : Prop where
  no_return : '\r' ∉ s
  stays_open : ScriptPlace.plain.staysOpen name [] s = true
  can_close : closed = true → (ScriptPlace.plain.across name [] s).canClose = true

/-- What is known of the text of an element. -/
def HoldsText (name : Text) (closed : Bool) (s : Text) : Prop :=
  printsVerbatim name = true → Verbatim name closed s

/-- The tokens of a text, of which there is none if it is empty. -/
def textTokens (s : Text) : List Token :=
  if s.isEmpty then [] else [.text s]

/-- Whether a token opens an element whose content is not read as markup. -/
def Token.opensText : Token → Bool
  | .startTag name _ selfClosing => !selfClosing && (contentOf? name).isSome
  | _ => false

/-- Tokens among which every tag that opens a text is followed by this text, and then by its end tag
or by nothing. -/
inductive Enclosed : List Token → Prop
  | nil : Enclosed []
  | cons {token : Token} (htoken : token.opensText = false) {ts : List Token} (h : Enclosed ts) :
      Enclosed (token :: ts)
  | closed {name : Text} (as : List Attribute) (hcontent : (contentOf? name).isSome = true)
      {s : Text} (hs : HoldsText name true s) {ts : List Token} (h : Enclosed ts) :
      Enclosed (.startTag name as false :: (textTokens s ++ .endTag name :: ts))
  | unclosed {name : Text} (as : List Attribute) (hcontent : (contentOf? name).isSome = true)
      {s : Text} (hs : HoldsText name false s) :
      Enclosed (.startTag name as false :: textTokens s)

/-- Behind a token that is no start tag, the tokens are enclosed by themselves. -/
theorem Enclosed.tail {token : Token} {ts : List Token} (h : Enclosed (token :: ts))
    (htoken : token.isStart = false) : Enclosed ts := by
  cases h with
  | cons _ h => exact h
  | closed => cases htoken
  | unclosed => cases htoken

theorem Token.opensText_of_not_isStart {token : Token} (h : token.isStart = false) :
    token.opensText = false := by
  cases token with
  | startTag => cases h
  | _ => rfl

/-- A token that opens no text may be put in front, and joined with the text there. -/
theorem Enclosed.join {token : Token} (htoken : token.opensText = false) {ts : List Token}
    (h : Enclosed ts) : Enclosed (token.join ts) := by
  unfold Token.join
  split
  · exact .cons rfl (h.tail rfl)
  · exact .cons htoken h

theorem enclosed_tidy_cons {token : Token} (htoken : token.opensText = false) {ts : List Token}
    (h : Enclosed (Token.tidy ts)) : Enclosed (Token.tidy (token :: ts)) := by
  cases hcontent : token.hasContent with
  | true =>
    rw [Token.tidy_cons_of_hasContent hcontent]
    exact h.join htoken
  | false =>
    rw [Token.tidy_cons_of_not_hasContent hcontent]
    exact h

/-- Tokens among which there is no start tag may be put in front. -/
theorem enclosed_tidy_append {ts us : List Token} (hts : ∀ token ∈ ts, token.isStart = false)
    (hus : Enclosed (Token.tidy us)) : Enclosed (Token.tidy (ts ++ us)) := by
  induction ts with
  | nil => exact hus
  | cons token ts ih =>
    obtain ⟨htoken, hts⟩ := List.forall_mem_cons.1 hts
    exact enclosed_tidy_cons (Token.opensText_of_not_isStart htoken) (ih hts)

/-! ## Reading the content -/

/-- The tags of the elements that hold text. -/
def textTags : List Text :=
  "script".toList :: (["style", "xmp", "iframe", "noembed", "noframes"].map String.toList ++
    ["title", "textarea"].map String.toList)

theorem mem_textTags {name : Text} (h : (contentOf? name).isSome = true) : name ∈ textTags := by
  unfold contentOf? at h
  split at h
  · next hname =>
    rw [hname]
    exact List.mem_cons_self
  · refine List.mem_cons_of_mem _ (List.mem_append.2 ?_)
    split at h
    · next hname => exact Or.inl (List.contains_iff_mem.1 hname)
    · split at h
      · next hname => exact Or.inr (List.contains_iff_mem.1 hname)
      · cases h

/-- The elements that hold text have names of lower-case letters, and none is void. -/
theorem facts_of_contentOf? {name : Text} (h : (contentOf? name).isSome = true) :
    (∀ c ∈ name, c.isLower = true) ∧ name ≠ [] ∧ isVoid name = false := by
  have hall : ∀ name ∈ textTags,
      (name.all Char.isLower && !name.isEmpty && !isVoid name) = true :=
    List.all_eq_true.1 (by decide)
  have hname := hall name (mem_textTags h)
  simp only [Bool.and_eq_true, Bool.not_eq_true', List.all_eq_true,
    List.isEmpty_eq_false_iff] at hname
  exact ⟨hname.1.1, hname.1.2, hname.2⟩

/-- Text in which references are not resolved is read by one reader. -/
theorem readContent_eq {name : Text} {content : Content}
    (hcontent : contentOf? name = some content) (h : content ≠ .escapable) (t : Text) :
    readContent content name t = readVerbatim name .plain t := by
  unfold contentOf? at hcontent
  split at hcontent
  · next hname =>
    obtain rfl := Option.some.inj hcontent
    subst hname
    exact readScript_eq .plain t
  · next hname =>
    split at hcontent
    · obtain rfl := Option.some.inj hcontent
      exact readRaw_eq hname t
    · split at hcontent
      · exact absurd (Option.some.inj hcontent).symm h
      · cases hcontent

/-- Behind a content nothing is left, or the closing tag of its element. -/
theorem readContent_rest {name : Text} {content : Content}
    (hcontent : contentOf? name = some content) (t : Text) :
    (readContent content name t).2 = [] ∨
      ∃ u, (readContent content name t).2 = '<' :: u ∧ closes name u = true := by
  by_cases h : content = .escapable
  · subst h
    exact readEscapable_rest name t
  · rw [readContent_eq hcontent h]
    obtain ⟨u, rest, -, hread, -, hrest⟩ := readVerbatim_spec name .plain t
    rw [hread]
    rcases hrest with hrest | ⟨v, hrest, hcloses, -⟩
    · exact Or.inl hrest
    · exact Or.inr ⟨v, hrest, hcloses⟩

theorem ne_escapable_of_printsVerbatim {name : Text} {content : Content}
    (hcontent : contentOf? name = some content) (h : printsVerbatim name = true) :
    content ≠ .escapable := by
  rintro rfl
  rcases escapable_cases hcontent with rfl | rfl <;> exact absurd h (by decide)

/-- A text that is read as it stands holds no closing tag, and is closed if anything is left behind
it. -/
theorem verbatim_of_readVerbatim {name t : Text} (hname : ∀ c ∈ name, c.isLower = true)
    (hcr : '\r' ∉ t) :
    Verbatim name (!(readVerbatim name .plain t).2.isEmpty) (readVerbatim name .plain t).1 := by
  obtain ⟨u, rest, rfl, hread, hopen, hrest⟩ := readVerbatim_spec name .plain t
  have hcr : '\r' ∉ u := fun hmem => hcr (List.mem_append_left _ hmem)
  have hkept := notMem_map_kept hcr (by decide)
  rw [hread]
  rcases hrest with rfl | ⟨v, rfl, -, hcan⟩
  · refine ⟨hkept, ?_, fun hclosed => absurd hclosed Bool.false_ne_true⟩
    rw [ScriptPlace.staysOpen_map_kept hname]
    exact hopen
  · have halike := alike_bracket name u v
    refine ⟨hkept, ?_, fun _ => ?_⟩
    · rw [ScriptPlace.staysOpen_map_kept hname, ← halike.staysOpen_eq hname]
      exact hopen
    · rw [ScriptPlace.across_map_kept, ← halike.across_eq hname]
      exact hcan

/-- What is read as the content of an element is what such an element may hold. -/
theorem holdsText_readContent {name t : Text} {content : Content}
    (hcontent : contentOf? name = some content) (hcr : '\r' ∉ t) :
    HoldsText name (!(readContent content name t).2.isEmpty) (readContent content name t).1 := by
  intro hverbatim
  have hname := facts_of_contentOf? (Option.isSome_of_eq_some hcontent)
  rw [readContent_eq hcontent (ne_escapable_of_printsVerbatim hcontent hverbatim)]
  exact verbatim_of_readVerbatim hname.1 hcr

/-- A text that an element may hold and be closed, it may hold and be left open. -/
theorem HoldsText.unclosed {name s : Text} {closed : Bool} (h : HoldsText name closed s) :
    HoldsText name false s := fun hverbatim =>
  ⟨(h hverbatim).no_return, (h hverbatim).stays_open, fun hclosed => absurd hclosed (by decide)⟩

theorem tidy_textTokens (s : Text) {ts : List Token} (h : Token.tidy ts = []) :
    Token.tidy (textTokens s ++ ts) = textTokens s := by
  unfold textTokens
  split
  · exact h
  · rw [List.singleton_append, Token.tidy_cons_of_hasContent rfl, h]
    rfl

theorem tidy_textTokens_endTag (s name : Text) (ts : List Token) :
    Token.tidy (textTokens s ++ .endTag name :: ts) =
      textTokens s ++ .endTag name :: Token.tidy ts := by
  have htag : Token.tidy (.endTag name :: ts) = .endTag name :: Token.tidy ts := by
    rw [Token.tidy_cons_of_hasContent rfl]
    rfl
  unfold textTokens
  split
  · exact htag
  · rw [List.singleton_append, Token.tidy_cons_of_hasContent rfl, htag]
    rfl

/-- The text of an element with what is read behind it. -/
theorem enclosed_content {name t : Text} {content : Content}
    (hcontent : contentOf? name = some content) (hcr : '\r' ∉ t) (as : List Attribute)
    (h : Enclosed (Token.tidy (tokens (readContent content name t).2))) :
    Enclosed (.startTag name as false :: Token.tidy
      (textTokens (readContent content name t).1 ++ tokens (readContent content name t).2)) := by
  have hsome := Option.isSome_of_eq_some hcontent
  obtain ⟨hname, hne, -⟩ := facts_of_contentOf? hsome
  have hs := holdsText_readContent hcontent hcr
  rcases readContent_rest hcontent t with hrest | ⟨u, hrest, hcloses⟩
  · have hnil : Token.tidy (tokens []) = [] := by
      rw [tokens]
      rfl
    rw [hrest, tidy_textTokens _ hnil]
    exact .unclosed as hsome hs.unclosed
  · rw [hrest] at h hs ⊢
    rcases tokens_of_closes hname hne hcloses with ht | ⟨rest, ht⟩
    · rw [ht, tidy_textTokens _ rfl]
      exact .unclosed as hsome hs.unclosed
    · rw [ht, Token.tidy_cons_of_hasContent rfl] at h
      rw [ht, tidy_textTokens_endTag]
      exact .closed as hsome hs (Enclosed.tail h rfl)

/-- A start tag and its content are enclosed, with what is read behind them. -/
theorem enclosed_startTag {t : Text} (hcr : '\r' ∉ t)
    (h : Enclosed (Token.tidy (tokens (startTag t).2))) :
    Enclosed (Token.tidy ((startTag t).1 ++ tokens (startTag t).2)) := by
  rcases startTag_cases t with ht | ⟨tag, htag, ⟨hopen, ht⟩ | ⟨content, hself, hcontent, ht⟩⟩ <;>
    rw [ht] at h ⊢
  · exact enclosed_tidy_cons rfl h
  · refine enclosed_tidy_cons ?_ h
    rw [Token.opensText, Bool.and_eq_false_iff, Bool.not_eq_false']
    rcases hopen with hvoid | hmarkup
    · rcases Bool.or_eq_true_iff.1 hvoid with hself | hvoid
      · exact Or.inl hself
      · refine Or.inr (Bool.eq_false_iff.2 fun hsome => ?_)
        rw [(facts_of_contentOf? hsome).2.2] at hvoid
        cases hvoid
    · rw [hmarkup]
      exact Or.inr rfl
  · have hrest : '\r' ∉ tag.rest := fun hmem => hcr ((suffix_of_readTag? htag).subset hmem)
    rw [List.cons_append, Token.tidy_cons_of_hasContent rfl, hself]
    exact enclosed_content hcontent hrest tag.attributes h

/-- In the tokens of a text every element that holds text is enclosed. -/
theorem enclosed_tokens {t : Text} (hcr : '\r' ∉ t) : Enclosed (Token.tidy (tokens t)) := by
  fun_induction tokens t with
  | case1 => exact .nil
  | case2 t ih =>
    have hcr : '\r' ∉ t := fun hmem => hcr (List.mem_cons_of_mem _ hmem)
    have ih := ih fun hmem => hcr ((markup_suffix t).subset hmem)
    rcases markup_cases t with hstart | ht
    · exact enclosed_tidy_append hstart ih
    · rw [ht] at ih ⊢
      exact enclosed_startTag hcr ih
  | case3 t _ ih =>
    refine enclosed_tidy_cons rfl (ih fun hmem => hcr ?_)
    exact List.mem_cons_of_mem _ ((reference_suffix false t).subset hmem)
  | case4 t _ _ ih =>
    exact enclosed_tidy_cons rfl (ih fun hmem => hcr (List.mem_cons_of_mem _ hmem))
  | case5 c t _ _ _ ih =>
    exact enclosed_tidy_cons rfl (ih fun hmem => hcr (List.mem_cons_of_mem _ hmem))

/-! ## The tree -/

/-- The nodes of a text, of which there is none if it is empty. -/
def textNodes (s : Text) : List Node :=
  if s.isEmpty then [] else [.text s]

mutual

/-- A node in which every element that holds text has no other children, and is closed unless it is
the last of all; self-closing elements are empty.  If `last` is true, nothing may stand behind the
node. -/
def Node.Contained (last : Bool) : Node → Prop
  | .element name _ selfClosing closed children =>
    (selfClosing = true → children = []) ∧
      (selfClosing = false → contentOf? name = none → ContainedAll (last && !closed) children) ∧
        (selfClosing = false → (contentOf? name).isSome = true →
          (closed = false → last = true) ∧ ∃ s, children = textNodes s ∧ HoldsText name closed s)
  | _ => True

/-- Nodes of which this is true. -/
def ContainedAll (last : Bool) : List Node → Prop
  | [] => True
  | node :: nodes => node.Contained (last && nodes.isEmpty) ∧ ContainedAll last nodes

end

theorem containedAll_concat {last : Bool} {nodes : List Node} {node : Node} :
    ContainedAll last (nodes ++ [node]) ↔ ContainedAll false nodes ∧ node.Contained last := by
  induction nodes with
  | nil => simp [ContainedAll]
  | cons first nodes ih =>
    have hempty : (nodes ++ [node]).isEmpty = false := by simp
    rw [List.cons_append, ContainedAll, ih, ContainedAll, hempty, Bool.and_false, Bool.false_and,
      and_assoc]

namespace Growth

/-- A tree in the making whose open elements all hold markup. -/
structure Contained (g : Growth) : Prop where
  stack : ∀ e ∈ g.stack, contentOf? e.name = none ∧ ContainedAll false e.before
  nodes : ContainedAll false g.nodes

theorem Contained.add {g : Growth} (h : g.Contained) {node : Node}
    (hnode : node.Contained false) : (g.add node).Contained :=
  ⟨h.stack, containedAll_concat.2 ⟨h.nodes, hnode⟩⟩

/-- An element that holds markup is contained if its children are. -/
theorem containedAll_finish_element {e : OpenElement} {last closed : Bool} {children : List Node}
    (he : contentOf? e.name = none ∧ ContainedAll false e.before)
    (h : ContainedAll (last && !closed) children) :
    ContainedAll last (e.finish closed children) := by
  refine containedAll_concat.2 ⟨he.2, fun hself => absurd hself (by decide), fun _ _ => h,
    fun _ hsome => ?_⟩
  rw [he.1] at hsome
  cases hsome

/-- Closing an element leaves a tree in which texts are contained. -/
theorem contained_of_close? {name : Text} {stack : List OpenElement} {nodes : List Node}
    {g : Growth} (h : Contained ⟨stack, nodes⟩) (hclose : close? name stack nodes = some g) :
    g.Contained := by
  induction stack generalizing nodes with
  | nil => cases hclose
  | cons e stack ih =>
    obtain ⟨he, hstack⟩ := List.forall_mem_cons.1 h.stack
    rw [close?] at hclose
    split at hclose
    · obtain rfl := Option.some.inj hclose
      exact ⟨hstack, containedAll_finish_element he h.nodes⟩
    · exact ih ⟨hstack, containedAll_finish_element he h.nodes⟩ hclose

/-- A token that opens no text leaves a tree in which texts are contained. -/
theorem Contained.step {g : Growth} (h : g.Contained) {token : Token}
    (htoken : token.opensText = false) : (g.step token).Contained := by
  cases token with
  | startTag name attributes selfClosing =>
    rw [Growth.step]
    split
    · exact h.add ⟨fun _ => rfl, fun hself => absurd hself (by decide),
        fun hself => absurd hself (by decide)⟩
    · next hopen =>
      simp only [Bool.or_eq_true, not_or, Bool.not_eq_true] at hopen
      -- the element that is opened holds markup, since no start of a text is fed here
      rw [Token.opensText, hopen.1, Bool.not_false, Bool.true_and, Option.isSome_eq_false_iff,
        Option.isNone_iff_eq_none] at htoken
      exact ⟨List.forall_mem_cons.2 ⟨⟨htoken, h.nodes⟩, h.stack⟩, trivial⟩
  | endTag name =>
    rw [Growth.step]
    cases hclose : close? name g.stack g.nodes with
    | none => exact h.add trivial
    | some g' => exact contained_of_close? h hclose
  | text t => exact h.add trivial
  | comment t => exact h.add trivial
  | doctype name => exact h.add trivial
  | null => exact h
  | problem message => exact h
  | endOfInput => exact h

/-- The tree after the tag and the text of an element that holds text. -/
theorem foldl_step_text (g : Growth) {name : Text} (as : List Attribute)
    (hcontent : (contentOf? name).isSome = true) (s : Text) (ts : List Token) :
    (Token.startTag name as false :: (textTokens s ++ ts)).foldl Growth.step g =
      ts.foldl Growth.step ⟨⟨name, as, g.nodes⟩ :: g.stack, textNodes s⟩ := by
  have hopen : g.step (.startTag name as false) = ⟨⟨name, as, g.nodes⟩ :: g.stack, []⟩ := by
    rw [Growth.step, (facts_of_contentOf? hcontent).2.2]
    rfl
  rw [List.foldl_cons, hopen, List.foldl_append]
  unfold textTokens textNodes
  split <;> rfl

/-- Ending what is still open leaves texts contained: only markup can be left open around them. -/
theorem containedAll_finish {stack : List OpenElement} {nodes : List Node} {last : Bool}
    (hstack : ∀ e ∈ stack, contentOf? e.name = none ∧ ContainedAll false e.before)
    (hnodes : ContainedAll last nodes) : ContainedAll last (finish ⟨stack, nodes⟩) := by
  induction stack generalizing nodes with
  | nil => exact hnodes
  | cons e stack ih =>
    obtain ⟨he, hstack⟩ := List.forall_mem_cons.1 hstack
    refine ih hstack (containedAll_finish_element he ?_)
    rw [Bool.not_false, Bool.and_true]
    exact hnodes

/-- An element that holds one text is contained, as the last of all if it is not closed. -/
theorem contained_text {name : Text} (as : List Attribute)
    (hcontent : (contentOf? name).isSome = true) {s : Text} {closed : Bool}
    (hs : HoldsText name closed s) :
    Node.Contained (!closed) (.element name as false closed (textNodes s)) := by
  refine ⟨fun hself => absurd hself (by decide), fun _ hnone => ?_,
    fun _ _ => ⟨fun hclosed => ?_, s, rfl, hs⟩⟩
  · rw [hnone] at hcontent
    cases hcontent
  · rw [hclosed]
    rfl

/-- Enclosed tokens make a tree that is contained. -/
theorem exists_containedAll_foldl {ts : List Token} (hts : Enclosed ts) {g : Growth}
    (h : g.Contained) : ∃ last, ContainedAll last (ts.foldl Growth.step g).finish := by
  induction hts generalizing g with
  | nil => exact ⟨false, containedAll_finish h.stack h.nodes⟩
  | cons htoken _ ih => exact ih (h.step htoken)
  | @closed name as hcontent s hs ts _ ih =>
    rw [foldl_step_text g as hcontent, List.foldl_cons]
    have hclose : Growth.step ⟨⟨name, as, g.nodes⟩ :: g.stack, textNodes s⟩ (.endTag name) =
        g.add (.element name as false true (textNodes s)) := by
      simp [Growth.step, close?, OpenElement.finish, add]
    rw [hclose]
    exact ih (h.add (contained_text as hcontent hs))
  | @unclosed name as hcontent s hs =>
    rw [← List.append_nil (textTokens s), foldl_step_text g as hcontent, List.foldl_nil]
    refine ⟨true, ?_⟩
    show ContainedAll true
      (finish ⟨g.stack, g.nodes ++ [.element name as false false (textNodes s)]⟩)
    exact containedAll_finish h.stack
      (containedAll_concat.2 ⟨h.nodes, contained_text as hcontent hs⟩)

end Growth

/-- In the tree of a text every element that holds text has nothing else in it, and is closed
unless it is the last of all. -/
theorem exists_containedAll_ofTokens {t : Text} (hcr : '\r' ∉ t) :
    ∃ last, ContainedAll last (ofTokens (tokens t)) :=
  Growth.exists_containedAll_foldl (enclosed_tokens hcr)
    ⟨fun _ h => absurd h List.not_mem_nil, trivial⟩

end Scaffold.Html
