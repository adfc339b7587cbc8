import Scaffold.Proofs.Html.Flatten
import Scaffold.Proofs.Html.Lexing
import Scaffold.Proofs.Text.Cut

/-!
# Content that is not markup

The content of an element that is not read as markup ends with the end tag of the element or with
the text.  So among the tokens that are no text, the tag of such an element is followed by its own
end tag or by nothing: a list of tokens of which this is true is *sealed*, and every text has such
tokens (`sealed_tokens`).  Here this is needed of the elements in whose content references are
resolved.
-/

namespace Scaffold.Html

open Scaffold.Text

/-! ## Sealed tokens -/

/-- Whether a token is a tag, a comment or a document type. -/
def Token.isMark : Token → Bool
  | .text _ | .null | .problem _ | .endOfInput => false
  | _ => true

/-- Whether a token is a start tag. -/
def Token.isStart : Token → Bool
  | .startTag _ _ _ => true
  | _ => false

/-- The tags, comments and document types among tokens. -/
def marks (ts : List Token) : List Token :=
  ts.filter Token.isMark

/-- Tokens whose first mark, if there is one, is the end tag of an element. -/
def ClosedBy (name : Text) (ts : List Token) : Prop :=
  ∀ token ∈ (marks ts).head?, token = .endTag name

/-- A token whose content, if it is escapable, is closed in the tokens behind it. -/
def Token.Seals (ts : List Token) : Token → Prop
  | .startTag name _ selfClosing =>
    selfClosing = false → contentOf? name = some .escapable → ClosedBy name ts
  | _ => True

/-- Tokens among which every tag with escapable content is closed before another mark stands. -/
def Sealed : List Token → Prop
  | [] => True
  | token :: ts => token.Seals ts ∧ Sealed ts

theorem marks_cons_of_isMark {token : Token} (h : token.isMark = true) (ts : List Token) :
    marks (token :: ts) = token :: marks ts :=
  List.filter_cons_of_pos h

theorem marks_cons_of_not_isMark {token : Token} (h : token.isMark = false) (ts : List Token) :
    marks (token :: ts) = marks ts :=
  List.filter_cons_of_neg (by simp [h])

theorem Token.seals_of_not_isStart {token : Token} (h : token.isStart = false)
    (ts : List Token) : token.Seals ts := by
  cases token with
  | startTag => cases h
  | _ => trivial

/-- Whether a token is sealed is told from the marks behind it alone. -/
theorem Token.seals_congr {ts us : List Token} (h : marks ts = marks us) (token : Token) :
    token.Seals ts ↔ token.Seals us := by
  cases token with
  | startTag name => rw [Seals, Seals, ClosedBy, ClosedBy, h]
  | _ => exact Iff.rfl

theorem sealed_cons_of_not_isMark {token : Token} (h : token.isMark = false) {ts : List Token} :
    Sealed (token :: ts) ↔ Sealed ts := by
  have hstart : token.isStart = false := by
    cases token with
    | startTag => cases h
    | _ => rfl
  rw [Sealed]
  exact and_iff_right (token.seals_of_not_isStart hstart ts)

/-- Whether tokens are sealed is told from the marks among them. -/
theorem sealed_marks {ts : List Token} : Sealed (marks ts) ↔ Sealed ts := by
  induction ts with
  | nil => exact Iff.rfl
  | cons token ts ih =>
    cases h : token.isMark with
    | true =>
      have hmarks : marks (marks ts) = marks ts := by simp [marks]
      rw [marks_cons_of_isMark h, Sealed, Sealed, ih, token.seals_congr hmarks]
    | false => rw [marks_cons_of_not_isMark h, ih, sealed_cons_of_not_isMark h]

/-- Tokens with the same marks are sealed alike, whatever texts stand between these. -/
theorem Sealed.of_marks_eq {ts us : List Token} (h : Sealed ts) (hmarks : marks us = marks ts) :
    Sealed us := by
  rw [← sealed_marks, hmarks, sealed_marks]
  exact h

theorem marks_join (token : Token) (ts : List Token) :
    marks (token.join ts) = marks (token :: ts) := by
  unfold Token.join
  split
  · rw [marks_cons_of_not_isMark rfl, marks_cons_of_not_isMark rfl, marks_cons_of_not_isMark rfl]
  · rfl

/-- Tidying tokens leaves their marks as they are. -/
theorem marks_tidy (ts : List Token) : marks (Token.tidy ts) = marks ts := by
  induction ts with
  | nil => rfl
  | cons token ts ih =>
    cases hcontent : token.hasContent with
    | true =>
      rw [Token.tidy_cons_of_hasContent hcontent, marks_join]
      cases hmark : token.isMark with
      | true => rw [marks_cons_of_isMark hmark, marks_cons_of_isMark hmark, ih]
      | false => rw [marks_cons_of_not_isMark hmark, marks_cons_of_not_isMark hmark, ih]
    | false =>
      have hmark : token.isMark = false := by
        cases token with
        | null | problem | endOfInput => rfl
        | _ => cases hcontent
      rw [Token.tidy_cons_of_not_hasContent hcontent, marks_cons_of_not_isMark hmark, ih]

theorem Token.isMark_plain (token : Token) : token.plain.isMark = token.isMark := by
  cases token <;> rfl

theorem marks_map_plain (ts : List Token) :
    marks (ts.map Token.plain) = (marks ts).map Token.plain := by
  rw [marks, marks, List.filter_map]
  congr 2
  funext token
  exact token.isMark_plain

/-- Tokens stay sealed when the tree keeps them. -/
theorem sealed_map_plain {ts : List Token} (h : Sealed ts) : Sealed (ts.map Token.plain) := by
  induction ts with
  | nil => trivial
  | cons token ts ih =>
    rw [Sealed] at h
    refine ⟨?_, ih h.2⟩
    cases token with
    | startTag name attributes selfClosing =>
      intro hself hcontent other hother
      simp only [Bool.or_eq_false_iff] at hself
      rw [marks_map_plain, List.head?_map, Option.mem_def, Option.map_eq_some_iff] at hother
      obtain ⟨first, hfirst, rfl⟩ := hother
      rw [h.1 hself.1 hcontent first hfirst]
      rfl
    | _ => trivial

/-! ## Escapable content -/

theorem escapable_cases {name : Text} (h : contentOf? name = some .escapable) :
    name = "title".toList ∨ name = "textarea".toList := by
  unfold contentOf? at h
  split at h
  · cases h
  · split at h
    · cases h
    · split at h
      · next hname => simpa using hname
      · cases h

/-- Reading stops at the end of the text or where it was told to. -/
theorem readResolved_rest (stops : Char → Text → Bool) (inAttribute : Bool) (t : Text) :
    (readResolved stops inAttribute t).2 = [] ∨
      ∃ c u, (readResolved stops inAttribute t).2 = c :: u ∧ stops c u = true := by
  fun_induction readResolved stops inAttribute t with
  | case1 => exact Or.inl rfl
  | case2 c t h => exact Or.inr ⟨c, t, rfl, h⟩
  | case3 t _ ih => exact ih
  | case4 c t _ _ ih => exact ih

/-- What is left behind escapable content is empty or starts with the closing tag. -/
theorem readEscapable_rest (name t : Text) :
    (readEscapable name t).2 = [] ∨
      ∃ u, (readEscapable name t).2 = '<' :: u ∧ closes name u = true := by
  rcases readResolved_rest (fun c t => c == '<' && closes name t) false t with
    hrest | ⟨c, u, hrest, hstops⟩
  · exact Or.inl hrest
  · obtain ⟨hc, hcloses⟩ := Bool.and_eq_true_iff.1 hstops
    exact Or.inr ⟨u, by rw [readEscapable, hrest, eq_of_beq hc], hcloses⟩

/-- A tag that a text starts with is spelled out in it, in whatever case, up to a character that
ends its name. -/
theorem exists_of_startsTag {name t : Text} (hname : ∀ c ∈ name, c.isLower = true)
    (h : startsTag name t = true) :
    ∃ front c rest, t = front ++ c :: rest ∧ front.map Char.toLower = name ∧
      endsTagName c = true := by
  unfold startsTag at h
  split at h
  · next c rest hword =>
    obtain ⟨front, ht, hfront⟩ := exists_of_dropWord? hword
    have hself : name.map Char.toLower = name :=
      (List.map_congr_left fun c hc => Char.toLower_eq_of_not_isUpper
        (Char.not_isUpper_of_isLower (hname c hc))).trans (List.map_id name)
    exact ⟨front, c, rest, ht, hfront.trans hself, h⟩
  · cases h

/-- A closing tag is read as the end tag of its name, or as a remark if it has no bracket. -/
theorem tokens_closing {front : Text} (hlower : ∀ c ∈ front, c.toLower.isLower = true)
    (hne : front ≠ []) {d : Char} (hd : endsTagName d = true) (rest : Text) :
    tokens ('<' :: '/' :: (front ++ d :: rest)) =
      (readTagRest? (d :: rest)).elim [openTagProblem, .endOfInput] fun tag =>
        .endTag (lower front) :: tokens tag.rest := by
  have halpha : ∀ e ∈ front, e.isAlpha = true := fun e he => by
    rw [← Char.isLower_toLower_eq_isAlpha]
    exact hlower e he
  have hends : ∀ e ∈ front, endsTagName e = false := fun e he =>
    endsTagName_of_isAlpha (halpha e he)
  obtain ⟨htake, hdrop⟩ := cut_at_end (t := d :: rest) hends (by simp [hd])
  have hname : front.map nameChar = lower front :=
    List.map_congr_left fun e he => kept_of_isAlpha (isAlpha_of_isLower (hlower e he))
  have hread := readTag?.eq_1 (front ++ d :: rest)
  rw [htake, hdrop, hname] at hread
  have hmarkup : markup ('/' :: (front ++ d :: rest)) = endTag (front ++ d :: rest) := rfl
  rw [tokens, if_pos rfl, hmarkup]
  obtain ⟨c, front, rfl⟩ := List.exists_cons_of_ne_nil hne
  rw [List.cons_append] at hread ⊢
  rw [endTag_of_isAlpha (halpha c List.mem_cons_self), hread]
  cases readTagRest? (d :: rest) with
  | none =>
    show [openTagProblem] ++ tokens [] = _
    rw [tokens]
    rfl
  | some tag => rfl

/-- A closing tag that ends a content is read as the end tag of the element, if it is read. -/
theorem tokens_of_closes {name t : Text} (hname : ∀ c ∈ name, c.isLower = true)
    (hne : name ≠ []) (h : closes name t = true) :
    tokens ('<' :: t) = [openTagProblem, .endOfInput] ∨
      ∃ rest, tokens ('<' :: t) = .endTag name :: tokens rest := by
  unfold closes at h
  split at h
  · next u =>
    obtain ⟨front, d, rest, rfl, rfl, hd⟩ := exists_of_startsTag hname h
    have hlower : ∀ c ∈ front, c.toLower.isLower = true := fun c hc =>
      hname _ (List.mem_map_of_mem hc)
    rw [tokens_closing hlower (by rintro rfl; exact hne rfl) hd]
    cases readTagRest? (d :: rest) with
    | none => exact Or.inl rfl
    | some tag => exact Or.inr ⟨tag.rest, rfl⟩
  · cases h

/-- The first mark behind a content that is closed is the end tag of its element. -/
theorem closedBy_tokens {name t : Text} (hname : ∀ c ∈ name, c.isLower = true)
    (hne : name ≠ []) (h : closes name t = true) : ClosedBy name (tokens ('<' :: t)) := by
  rcases tokens_of_closes hname hne h with ht | ⟨rest, ht⟩
  · rw [ht]
    simp [ClosedBy, marks, openTagProblem, Token.isMark]
  · rw [ht]
    intro token htoken
    rw [marks_cons_of_isMark rfl] at htoken
    exact (Option.some.inj htoken).symm

/-- Behind escapable content no mark comes before the end tag of the element. -/
theorem closedBy_content {name t : Text} (h : contentOf? name = some .escapable) :
    ClosedBy name (tokens (readEscapable name t).2) := by
  have hname : (∀ c ∈ name, c.isLower = true) ∧ name ≠ [] := by
    rcases escapable_cases h with rfl | rfl <;>
      exact ⟨List.all_eq_true.1 (by decide), by decide⟩
  rcases readEscapable_rest name t with hrest | ⟨u, hrest, hcloses⟩
  · rw [hrest, tokens]
    simp [ClosedBy, marks, Token.isMark]
  · rw [hrest]
    exact closedBy_tokens hname.1 hname.2 hcloses

theorem marks_optionalText (s : Text) (ts : List Token) :
    marks ((if s.isEmpty then [] else [.text s]) ++ ts) = marks ts := by
  split
  · rfl
  · exact marks_cons_of_not_isMark rfl ts

/-- A start tag is sealed by what is read behind its content. -/
theorem sealed_startTag {t : Text} (h : Sealed (tokens (startTag t).2)) :
    Sealed ((startTag t).1 ++ tokens (startTag t).2) := by
  rcases startTag_cases t with ht | ⟨tag, -, ⟨hopen, ht⟩ | ⟨content, -, hcontent, ht⟩⟩ <;>
    rw [ht] at h ⊢
  · exact (sealed_cons_of_not_isMark rfl).2 h
  · refine ⟨fun hself hescapable => ?_, h⟩
    rcases hopen with hvoid | hmarkup
    · -- a tag with escapable content is not void
      rw [hself, Bool.false_or] at hvoid
      rcases escapable_cases hescapable with hname | hname <;> rw [hname] at hvoid <;>
        exact absurd hvoid (by decide)
    · rw [hescapable] at hmarkup
      cases hmarkup
  · rw [List.cons_append]
    refine ⟨fun _ hescapable => ?_, h.of_marks_eq (marks_optionalText _ _)⟩
    obtain rfl : content = .escapable := by
      rw [hcontent] at hescapable
      exact Option.some.inj hescapable
    rw [ClosedBy, marks_optionalText]
    exact closedBy_content hcontent

/-- Tokens that need no closing can be put in front of sealed ones. -/
theorem sealed_append {ts us : List Token} (hts : ∀ token ∈ ts, ∀ others, token.Seals others)
    (hus : Sealed us) : Sealed (ts ++ us) := by
  induction ts with
  | nil => exact hus
  | cons token ts ih =>
    exact ⟨hts token List.mem_cons_self _,
      ih fun other hother => hts other (List.mem_cons_of_mem _ hother)⟩

theorem not_isStart_of_mem_declaration (t : Text) :
    ∀ token ∈ (declaration t).1, token.isStart = false := by
  intro token h
  unfold declaration at h
  split at h
  · obtain rfl := List.mem_singleton.1 h
    rfl
  · split at h <;>
    · obtain rfl := List.mem_singleton.1 h
      rfl

theorem not_isStart_of_mem_endTag (t : Text) :
    ∀ token ∈ (endTag t).1, token.isStart = false := by
  intro token h
  unfold endTag at h
  split at h
  · obtain rfl := List.mem_singleton.1 h
    rfl
  · cases h
  · split at h
    · split at h <;>
      · obtain rfl := List.mem_singleton.1 h
        rfl
    · obtain rfl := List.mem_singleton.1 h
      rfl

/-- What stands behind an opening bracket gives no start tag, or is read as one. -/
theorem markup_cases (t : Text) :
    (∀ token ∈ (markup t).1, token.isStart = false) ∨ markup t = startTag t := by
  have hsingle : ∀ {token : Token}, token.isStart = false → ∀ other ∈ [token],
      other.isStart = false := by
    intro token htoken other hother
    rwa [List.mem_singleton.1 hother]
  unfold markup
  split
  · exact Or.inl (hsingle rfl)
  · exact Or.inl (not_isStart_of_mem_declaration _)
  · exact Or.inl (not_isStart_of_mem_endTag _)
  · exact Or.inl (hsingle rfl)
  · split
    · exact Or.inr rfl
    · exact Or.inl (hsingle rfl)

/-- Whatever follows an opening bracket, the tokens stay sealed. -/
theorem sealed_markup {t : Text} (h : Sealed (tokens (markup t).2)) :
    Sealed ((markup t).1 ++ tokens (markup t).2) := by
  rcases markup_cases t with hstart | ht
  · exact sealed_append (fun token htoken => token.seals_of_not_isStart (hstart token htoken)) h
  · rw [ht] at h ⊢
    exact sealed_startTag h

/-- The tokens of a text are sealed. -/
theorem sealed_tokens (t : Text) : Sealed (tokens t) := by
  fun_induction tokens t with
  | case1 => exact ⟨trivial, trivial⟩
  | case2 t ih => exact sealed_markup ih
  | case3 t _ ih => exact ⟨trivial, ih⟩
  | case4 t _ _ ih => exact ⟨trivial, ih⟩
  | case5 c t _ _ _ ih => exact ⟨trivial, ih⟩

end Scaffold.Html
