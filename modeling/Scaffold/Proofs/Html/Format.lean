import Scaffold.Proofs.Html.Printing

/-!
# Formatting twice

A text that was laid out is read as the tree that was laid out, but for the blanks around the lines
of its texts, and so laying it out again changes nothing (`parse_format`).

The tokens of a tree that was read can be written (`writable_of_mem_essence`) and are sealed
(`sealed_essence`), so that what spells them is read as them.
-/

namespace Scaffold.Html

open Scaffold.Text

/-! ## Texts that are ready to be read -/

theorem return_notMem_lineFeeds (t : Text) : '\r' ∉ lineFeeds t := by
  fun_induction lineFeeds t with
  | case1 => exact List.not_mem_nil
  | case2 t ih => simpa using ih
  | case3 c t _ ih =>
    rw [List.mem_cons, not_or]
    refine ⟨?_, ih⟩
    split
    · decide
    · next hc => exact Ne.symm hc

/-- No carriage return is left in a text that is ready to be read. -/
theorem return_notMem_prepare (t : Text) : '\r' ∉ prepare t :=
  return_notMem_lineFeeds _

theorem lineFeeds_eq_self {t : Text} (h : '\r' ∉ t) : lineFeeds t = t := by
  fun_induction lineFeeds t with
  | case1 => rfl
  | case2 t ih => exact absurd List.mem_cons_self h
  | case3 c t _ ih =>
    rw [List.mem_cons, not_or] at h
    rw [if_neg (Ne.symm h.1), ih h.2]

/-- A text without carriage returns and without a byte order mark is ready as it stands. -/
theorem prepare_eq_self {t : Text} (h : '\r' ∉ t) (hmark : t.head? ≠ some '\ufeff') :
    prepare t = t := by
  have hdrop : dropMark t = t := by
    unfold dropMark
    split
    · exact absurd rfl hmark
    · rfl
  rw [prepare, hdrop, lineFeeds_eq_self h]

/-! ## The tokens of a tree can be written -/

/-- The token with which a node starts. -/
def Node.token : Node → Token
  | .doctype name => .doctype (some name)
  | .comment t => .comment t
  | .text t => .text t
  | .strayEnd name => .endTag name
  | .element name attributes selfClosing _ _ => .startTag name attributes selfClosing

mutual

/-- A token of a node is the one that some node in it starts with, or an end tag. -/
theorem Node.mem_flatten {node : Node} {token : Token} (h : token ∈ node.flatten) :
    (∃ sub ∈ node.listing, token = sub.token) ∨ ∃ name, token = .endTag name := by
  cases node with
  | doctype | comment | text | strayEnd =>
    exact Or.inl ⟨_, List.mem_singleton.2 rfl, List.mem_singleton.1 h⟩
  | element name attributes selfClosing closed children =>
    rw [Node.flatten] at h
    rcases List.mem_append.1 h with h | h
    · rcases List.mem_cons.1 h with h | h
      · exact Or.inl ⟨_, List.mem_cons_self, h⟩
      · rcases mem_flattenAll h with ⟨sub, hsub, heq⟩ | hend
        · exact Or.inl ⟨sub, List.mem_cons_of_mem _ hsub, heq⟩
        · exact Or.inr hend
    · split at h
      · exact Or.inr ⟨name, List.mem_singleton.1 h⟩
      · cases h

/-- A token of a tree is the start of a node or an end tag. -/
theorem mem_flattenAll {nodes : List Node} {token : Token} (h : token ∈ flattenAll nodes) :
    (∃ sub ∈ listingAll nodes, token = sub.token) ∨ ∃ name, token = .endTag name := by
  cases nodes with
  | nil => cases h
  | cons node nodes =>
    rcases List.mem_append.1 h with h | h
    · rcases Node.mem_flatten h with ⟨sub, hsub, heq⟩ | hend
      · exact Or.inl ⟨sub, List.mem_append_left _ hsub, heq⟩
      · exact Or.inr hend
    · rcases mem_flattenAll h with ⟨sub, hsub, heq⟩ | hend
      · exact Or.inl ⟨sub, List.mem_append_right _ hsub, heq⟩
      · exact Or.inr hend

end

theorem Token.plain_plain (token : Token) : token.plain.plain = token.plain := by
  cases token with
  | startTag name attributes selfClosing => simp [plain]
  | _ => rfl

theorem Token.sound_plain {token : Token} (h : token.Sound) : token.plain.Sound := by
  cases token with
  | doctype name => cases name <;> exact h
  | _ => exact h

/-- Joining two texts gives a text that can be read if both could. -/
theorem Token.sound_of_mem_join {token other : Token} {tokens : List Token}
    (h : other ∈ join token tokens) (htoken : token.Sound)
    (htokens : ∀ other ∈ tokens, other.Sound) : other.Sound := by
  unfold join at h
  split at h
  · obtain ⟨hfirst, htokens⟩ := List.forall_mem_cons.1 htokens
    rcases List.mem_cons.1 h with rfl | h
    · exact fun hmem => (List.mem_append.1 hmem).elim htoken hfirst
    · exact htokens other h
  · exact List.forall_mem_cons.2 ⟨htoken, htokens⟩ other h

/-- Tidying tokens keeps them sound. -/
theorem Token.sound_of_mem_tidy {tokens : List Token} (h : ∀ token ∈ tokens, token.Sound) :
    ∀ token ∈ tidy tokens, token.Sound := by
  induction tokens with
  | nil =>
    intro token hmem
    exact absurd hmem List.not_mem_nil
  | cons first tokens ih =>
    obtain ⟨hfirst, htokens⟩ := List.forall_mem_cons.1 h
    intro token hmem
    cases hcontent : first.hasContent with
    | true =>
      rw [tidy_cons_of_hasContent hcontent] at hmem
      exact sound_of_mem_join hmem hfirst (ih htokens)
    | false =>
      rw [tidy_cons_of_not_hasContent hcontent] at hmem
      exact ih htokens token hmem

/-- The tokens of a tree that was read from a text are sound. -/
theorem sound_of_mem_flattenAll (t : Text) : ∀ token ∈ flattenAll (parse t), token.Sound := by
  intro token hmem
  rw [parse, flattenAll_ofTokens] at hmem
  obtain ⟨first, hfirst, rfl⟩ := List.mem_map.1 hmem
  exact Token.sound_plain
    (Token.sound_of_mem_tidy (sound_of_mem_tokens (return_notMem_prepare t)) first hfirst)

/-- A node that can be restored starts with a token that can be written. -/
theorem Node.writable_token {node : Node} (h : node.Restorable) (hsound : node.token.Sound)
    (hplain : node.token.plain = node.token) : node.token.Writable := by
  cases node with
  | text t => exact ⟨hsound, h⟩
  | element name attributes selfClosing closed children =>
    refine ⟨hsound.1, fun a ha => ?_, hsound.2.2, contentOf?_of_notMem h.1, ?_⟩
    · exact ⟨hsound.2.1 a ha, (h.2 a ha).1, (h.2 a ha).2⟩
    · exact (Token.startTag.inj hplain).2.2
  | doctype | comment | strayEnd => exact hsound

/-- All tokens of a tree whose nodes can be restored can be written. -/
theorem writable_of_mem_flattenAll {t : Text} (h : ∀ node ∈ listingAll (parse t), node.Restorable) :
    ∀ token ∈ flattenAll (parse t), token.Writable := by
  intro token hmem
  have hread := hmem
  rw [parse, flattenAll_ofTokens] at hread
  obtain ⟨first, -, hplain⟩ := List.mem_map.1 hread
  have hsound := sound_of_mem_flattenAll t token hmem
  have hself : token.plain = token := hplain ▸ first.plain_plain
  rcases mem_flattenAll hmem with ⟨sub, hsub, rfl⟩ | ⟨name, rfl⟩
  · exact Node.writable_token (h sub hsub) hsound hself
  · exact hsound

theorem Token.writable_of_mem_lines {token other : Token} (h : token.Writable)
    (hmem : other ∈ token.lines) : other.Writable := by
  cases token with
  | text t =>
    obtain ⟨l, hl, rfl⟩ := List.mem_map.1 hmem
    have hsub := (isLine_of_mem_trimmedLines hl).2
    exact ⟨fun hnul => h.1 (hsub _ hnul), fun hreturn => h.2 (hsub _ hreturn)⟩
  | _ => exact List.mem_singleton.1 hmem ▸ h

/-- The tokens of a tree, cut into lines, are the essence of the tokens that it was read from. -/
theorem flatMap_lines_flattenAll_parse (t : Text) :
    (flattenAll (parse t)).flatMap Token.lines = Token.essence (tokens (prepare t)) := by
  rw [← flattenAll_trimmedAll, parse, flattenAll_trimmedAll_ofTokens]

/-- The essence of what was read from a text can be written, if the nodes of its tree can be
restored. -/
theorem writable_of_mem_essence {t : Text} (h : ∀ node ∈ listingAll (parse t), node.Restorable) :
    ∀ token ∈ Token.essence (tokens (prepare t)), token.Writable := by
  intro token hmem
  rw [← flatMap_lines_flattenAll_parse] at hmem
  obtain ⟨first, hfirst, hmem⟩ := List.mem_flatMap.1 hmem
  exact Token.writable_of_mem_lines (writable_of_mem_flattenAll h first hfirst) hmem

/-! ## The tokens of a tree are sealed -/

theorem marks_flatMap_lines (ts : List Token) : marks (ts.flatMap Token.lines) = marks ts := by
  induction ts with
  | nil => rfl
  | cons token ts ih =>
    have happend : ∀ us vs : List Token, marks (us ++ vs) = marks us ++ marks vs := fun us vs =>
      List.filter_append us vs
    rw [List.flatMap_cons, happend, ih]
    cases token with
    | text t =>
      have htexts : marks ((trimmedLines t).map .text) = [] :=
        List.filter_eq_nil_iff.2 fun other hother => by
          obtain ⟨l, -, rfl⟩ := List.mem_map.1 hother
          exact Bool.false_ne_true
      rw [Token.lines, htexts, marks_cons_of_not_isMark rfl]
      rfl
    | _ => rfl

/-- The essence of what was read is sealed, since it has the marks of the tokens. -/
theorem sealed_essence (t : Text) : Sealed (Token.essence (tokens t)) := by
  have htokens : Sealed (Token.tidy (tokens t)) := (sealed_tokens t).of_marks_eq (marks_tidy _)
  exact sealed_map_plain (htokens.of_marks_eq (marks_flatMap_lines _))

/-! ## Formatting -/

/-- The layout of a text spells the essence of the text's tokens. -/
theorem spelled_format {t : Text} (h : ∀ node ∈ listingAll (parse t), node.Restorable) :
    Spelled (Token.essence (tokens (prepare t))) (format t) := by
  have hspelled := spelled_layoutAll (tidyAll_ofTokens (tokens (prepare t))) h 0 .nil
  rw [List.append_nil, List.append_nil] at hspelled
  rwa [← flatMap_lines_flattenAll_parse]

/-- Laying out a text prints its tree, trimmed. -/
theorem format_eq (t : Text) : format t = printAll 0 false (trimmedAll (parse t)) :=
  layoutAll_eq (tidyAll_ofTokens _) 0 false

/-- A text that was laid out is read as the tree that was laid out, up to the lines of its texts,
and is laid out as it stands. -/
theorem parse_format {t : Text} (h : ∀ node ∈ listingAll (parse t), node.Restorable)
    (hmark : (format t).head? ≠ some '\ufeff') :
    trimmedAll (parse (format t)) = trimmedAll (parse t) ∧ format (format t) = format t := by
  have hwritable := writable_of_mem_essence h
  have hspelled := spelled_format h
  have hprepare : prepare (format t) = format t :=
    prepare_eq_self (return_notMem_of_spelled hspelled hwritable) hmark
  have hread : Token.essence (tokens (format t)) = Token.essence (tokens (prepare t)) :=
    (essence_tokens hspelled hwritable (sealed_essence _)).1
  have htree : trimmedAll (parse (format t)) = trimmedAll (parse t) := by
    rw [parse, hprepare, trimmedAll_ofTokens, hread, ← trimmedAll_ofTokens, parse]
  refine ⟨htree, ?_⟩
  rw [format_eq (format t), htree, ← format_eq]

/-- A page with unclosed elements, an end tag that closes nothing, and characters to escape. -/
def looseEnds : Text :=
  ["<!DOCTYPE html><ul class=a>", "<li>x &lt; y", "<li>two\n lines</ul>", "</p><!-- a - b -->",
    "<title>T &amp; <b></title>", "<br>"].flatMap String.toList

/-- The layout of this page. -/
def looseEndsLayout : Text :=
  ["<!doctype html>", "<ul class=\"a\">", "  <li>", "    x &lt; y", "    <li>", "      two",
    "      lines", "</ul>", "</p>", "<!-- a - b -->", "<title>T &amp; &lt;b&gt;</title>",
    "<br />"].flatMap fun l => l.toList ++ ['\n']

theorem parse_format_looseEnds :
    (∀ node ∈ listingAll (parse looseEnds), node.Restorable) ∧
      (format looseEnds).head? ≠ some '\ufeff' ∧
      format looseEnds = looseEndsLayout ∧
      trimmedAll (parse (format looseEnds)) = trimmedAll (parse looseEnds) ∧
      format (format looseEnds) = format looseEnds := by
  have hnodes : ∀ node ∈ listingAll (parse looseEnds), node.Restorable := by decide +kernel
  have hformat : format looseEnds = looseEndsLayout := by decide +kernel
  have hmark : (format looseEnds).head? ≠ some '\ufeff' := by
    rw [hformat]
    decide
  exact ⟨hnodes, hmark, hformat, parse_format hnodes hmark⟩

end Scaffold.Html
