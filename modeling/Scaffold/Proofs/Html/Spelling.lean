import Scaffold.Proofs.Html.Content
import Scaffold.Proofs.Html.Writing
import Scaffold.Proofs.Text.Trim

/-!
# Spellings

The *essence* of tokens is what a layout keeps of them: the marks, and the trimmed lines of the
texts between them.  A text *spells* tokens if it is put together from their pieces, with blanks
between them and an end of line behind text (`Spelled`).  Reading a text that spells tokens gives
these tokens, up to the essence (`essence_tokens`).

The one place where reading does not go token by token is escapable content.  There text is
collected up to the closing tag, and the statement has a second part for it; that the closing tag
comes before any other mark is what it means for the tokens to be sealed.
-/

namespace Scaffold.Html

open Scaffold.Text

/-! ## The essence of tokens -/

namespace Token

/-- The trimmed lines of a text; any other token as it is. -/
def lines : Token → List Token
  | .text t => (trimmedLines t).map .text
  | token => [token]

/-- What a layout keeps of tokens. -/
def essence (ts : List Token) : List Token :=
  ((tidy ts).flatMap lines).map plain

theorem facts_of_isMark {token : Token} (h : token.isMark = true) :
    token.hasContent = true ∧ (∀ t, token ≠ .text t) ∧ token.lines = [token] := by
  cases token with
  | text | null | problem | endOfInput => cases h
  | _ => exact ⟨rfl, fun _ => Token.noConfusion, rfl⟩

/-- A mark is kept, and texts on its two sides are not joined. -/
theorem essence_cons_of_isMark {token : Token} (h : token.isMark = true) (ts : List Token) :
    essence (token :: ts) = token.plain :: essence ts := by
  obtain ⟨hcontent, htext, hlines⟩ := facts_of_isMark h
  rw [essence, tidy_cons_of_hasContent hcontent, join_of_ne_text htext, List.flatMap_cons, hlines]
  rfl

/-- Two texts side by side count as one. -/
theorem essence_text_text (s t : Text) (ts : List Token) :
    essence (.text s :: .text t :: ts) = essence (.text (s ++ t) :: ts) := by
  rw [essence, tidy_cons_of_hasContent rfl, tidy_cons_of_hasContent rfl, join_text_join_text,
    essence, tidy_cons_of_hasContent rfl]

/-- A text that gives the same lines whatever follows it gives these lines. -/
theorem essence_text {s : Text} {ls : List Text}
    (h : ∀ t, trimmedLines (s ++ t) = ls ++ trimmedLines t) (ts : List Token) :
    essence (.text s :: ts) = ls.map .text ++ essence ts := by
  have hs : trimmedLines s = ls := by
    have := h []
    rwa [List.append_nil, show trimmedLines [] = [] from rfl, List.append_nil] at this
  have hplain : ∀ ls : List Text, (ls.map Token.text).map plain = ls.map .text := by
    intro ls
    rw [List.map_map]
    rfl
  rw [essence, tidy_cons_of_hasContent rfl, essence]
  cases hts : tidy ts with
  | nil =>
    show ((trimmedLines s).map Token.text ++ []).map plain = _
    rw [hs, List.append_nil, hplain]
    exact (List.append_nil _).symm
  | cons token ts' =>
    by_cases htext : ∃ t, token = .text t
    · obtain ⟨t, rfl⟩ := htext
      have hlines : ∀ u, (lines (.text u)).map plain = (trimmedLines u).map .text :=
        fun u => hplain _
      show ((Token.text (s ++ t) :: ts').flatMap lines).map plain = _
      rw [List.flatMap_cons, List.map_append, hlines, h t, List.map_append, List.append_assoc,
        List.flatMap_cons, List.map_append, hlines]
    · rw [join_text_of_ne_text s fun t ht => htext ⟨t, ht⟩, List.flatMap_cons, List.map_append]
      show ((trimmedLines s).map Token.text).map plain ++ _ = _
      rw [hs, hplain]

/-- A text that gives no line whatever follows it leaves no trace. -/
theorem essence_text_nil {s : Text} (h : ∀ t, trimmedLines (s ++ t) = trimmedLines t)
    (ts : List Token) : essence (.text s :: ts) = essence ts := by
  have h' : ∀ t, trimmedLines (s ++ t) = [] ++ trimmedLines t := h
  rw [essence_text h', List.map_nil, List.nil_append]

/-- A blank in front of a text does not count. -/
theorem essence_blank {c : Char} (h : isBlank c = true) (t : Text) (ts : List Token) :
    essence (.text (c :: t) :: ts) = essence (.text t :: ts) := by
  show essence (.text ([c] ++ t) :: ts) = _
  rw [← essence_text_text, essence_text_nil (trimmedLines_cons_of_blank h)]

/-- A line at the front of a text counts by itself. -/
theorem essence_line {l : Text} (h : IsLine l) (t : Text) (ts : List Token) :
    essence (.text (l ++ '\n' :: t) :: ts) = .text l :: essence (.text t :: ts) := by
  have hlines : ∀ u, trimmedLines (l ++ ['\n'] ++ u) = [l] ++ trimmedLines u := by
    intro u
    rw [List.append_assoc, List.singleton_append, trimmedLines_append_newline,
      trimmedLines_self h]
  have htext : l ++ '\n' :: t = l ++ ['\n'] ++ t := by
    rw [List.append_assoc, List.singleton_append]
  rw [htext, ← essence_text_text, essence_text hlines]
  rfl

theorem essence_last_line {l : Text} (h : IsLine l) {token : Token} (hmark : token.isMark = true)
    (ts : List Token) :
    essence (.text l :: token :: ts) = .text l :: token.plain :: essence ts := by
  obtain ⟨hcontent, htext, -⟩ := facts_of_isMark hmark
  have hlines : (lines (.text l)).map plain = [.text l] := by
    show ((trimmedLines l).map Token.text).map plain = _
    rw [trimmedLines_self h]
    rfl
  rw [← essence_cons_of_isMark hmark, essence, essence, tidy_cons_of_hasContent rfl,
    tidy_cons_of_hasContent hcontent, join_of_ne_text htext, join_text_of_ne_text l htext,
    List.flatMap_cons, List.map_append, hlines]
  rfl

/-- Characters that are read one by one make up one text. -/
theorem tidy_characters {s : Text} (h : s ≠ []) (ts : List Token) :
    tidy (s.map (fun c => .text [c]) ++ ts) = tidy (.text s :: ts) := by
  induction s with
  | nil => exact absurd rfl h
  | cons c s ih =>
    cases s with
    | nil => rfl
    | cons d s =>
      rw [List.map_cons, List.cons_append, tidy_cons_of_hasContent rfl,
        ih (List.cons_ne_nil d s), tidy_cons_of_hasContent rfl, join_text_join_text,
        tidy_cons_of_hasContent rfl]
      rfl

end Token

/-! ## Spelled tokens -/

/-- `Spelled ts t` says that `t` is put together from the pieces of `ts`.  Blanks may stand between
pieces; behind text there is the end of a line or a closing tag. -/
inductive Spelled : List Token → Text → Prop
  | nil : Spelled [] []
  | blank {c : Char} {ts : List Token} {t : Text} (hc : c = ' ' ∨ c = '\n') (h : Spelled ts t) :
      Spelled ts (c :: t)
  | startTag (name : Text) (as : List Attribute) (selfClosing : Bool) {ts : List Token}
      {t : Text} (h : Spelled ts t) :
      Spelled (.startTag name as selfClosing :: ts) (openTag name as ++ (tagEnd selfClosing ++ t))
  | endTag (name : Text) {ts : List Token} {t : Text} (h : Spelled ts t) :
      Spelled (.endTag name :: ts) (closeTag name ++ t)
  | comment (s : Text) {ts : List Token} {t : Text} (h : Spelled ts t) :
      Spelled (.comment s :: ts) ("<!--".toList ++ s ++ "-->".toList ++ t)
  | doctype (name : Text) {ts : List Token} {t : Text} (h : Spelled ts t) :
      Spelled (.doctype (some name) :: ts) ("<!doctype ".toList ++ name ++ ['>'] ++ t)
  | line {l : Text} (hl : IsLine l) {ts : List Token} {t : Text} (h : Spelled ts t) :
      Spelled (.text l :: ts) (escapeText l ++ '\n' :: t)
  | lastLine {l : Text} (hl : IsLine l) (name : Text) {ts : List Token} {t : Text}
      (h : Spelled ts t) :
      Spelled (.text l :: .endTag name :: ts) (escapeText l ++ (closeTag name ++ t))

/-- A token that can be written and is read again.  Besides being sound, a tag has attributes that
can be written and content that is read as markup or escapable, and is self-closing if void; and a
text holds no carriage return, which would be read as the end of a line. -/
def Token.Writable : Token → Prop
  | .startTag name as selfClosing =>
    IsTagName name ∧ (∀ a ∈ as, a.Writable) ∧ (as.map Attribute.name).Nodup ∧
      (contentOf? name = none ∨ contentOf? name = some .escapable) ∧
      (selfClosing || isVoid name) = selfClosing
  | .text t => nul ∉ t ∧ '\r' ∉ t
  | token => token.Sound

theorem tokens_blank {c : Char} (h : c = ' ' ∨ c = '\n') (t : Text) :
    tokens (c :: t) = .text [c] :: tokens t := by
  rcases h with rfl | rfl
  · rw [tokens, if_neg (by decide), if_neg (by decide), if_neg (by decide)]
  · rw [tokens, if_neg (by decide), if_neg (by decide), if_neg (by decide)]

/-- A blank is read as itself in escapable content. -/
theorem readEscapable_blank {c : Char} (h : c = ' ' ∨ c = '\n') (name t : Text) :
    readEscapable name (c :: t) = Prod.map (c :: ·) id (readEscapable name t) := by
  rcases h with rfl | rfl
  · exact readEscapable_escapeTextChar (c := ' ') (by decide) name t
  · exact readEscapable_escapeTextChar (c := '\n') (by decide) name t

/-- The essence of what is read from a text in the content of an element: the text up to the
closing tag, and the tokens behind it. -/
def essenceIn (name t : Text) : List Token :=
  Token.essence (.text (readEscapable name t).1 :: tokens (readEscapable name t).2)

theorem essenceIn_blank {c : Char} (h : c = ' ' ∨ c = '\n') (name t : Text) :
    essenceIn name (c :: t) = essenceIn name t := by
  have hblank : isBlank c = true := by rcases h with rfl | rfl <;> decide
  rw [essenceIn, readEscapable_blank h]
  exact Token.essence_blank hblank _ _

/-- At the closing tag escapable content is over, and what follows is read as markup. -/
theorem essenceIn_closeTag (name t : Text) :
    essenceIn name (closeTag name ++ t) = Token.essence (tokens (closeTag name ++ t)) := by
  rw [essenceIn, readEscapable_closeTag]
  exact Token.essence_text_nil (fun _ => rfl) _

/-- A line in escapable content is read back as a line. -/
theorem essenceIn_line {l : Text} (hl : IsLine l) (hnul : nul ∉ l) (name t : Text) :
    essenceIn name (escapeText l ++ '\n' :: t) = .text l :: essenceIn name t := by
  rw [essenceIn, readEscapable_escapeText hnul, readEscapable_blank (Or.inr rfl)]
  exact Token.essence_line hl _ _

/-- A line between tags is read back as a line. -/
theorem essence_tokens_line {l : Text} (hl : IsLine l) (hnul : nul ∉ l) (t : Text) :
    Token.essence (tokens (escapeText l ++ '\n' :: t)) = .text l :: Token.essence (tokens t) := by
  have hread : tokens ('\n' :: t) = .text ['\n'] :: tokens t := tokens_blank (Or.inr rfl) t
  rw [tokens_escapeText hnul, Token.essence, Token.tidy_characters hl.ne_nil, ← Token.essence,
    hread, Token.essence_text_text, Token.essence_line hl,
    Token.essence_text_nil (fun _ => rfl)]

/-- A line in front of a closing tag is read back without the end of a line. -/
theorem essence_tokens_lastLine {l name : Text} (hl : IsLine l) (hnul : nul ∉ l)
    (hname : IsTagName name) (t : Text) :
    Token.essence (tokens (escapeText l ++ (closeTag name ++ t))) =
      .text l :: .endTag name :: Token.essence (tokens t) := by
  rw [tokens_escapeText hnul, Token.essence, Token.tidy_characters hl.ne_nil, ← Token.essence,
    tokens_closeTag hname, Token.essence_last_line hl rfl]
  rfl

theorem essenceIn_lastLine {l name : Text} (hl : IsLine l) (hnul : nul ∉ l)
    (hname : IsTagName name) (t : Text) :
    essenceIn name (escapeText l ++ (closeTag name ++ t)) =
      .text l :: .endTag name :: Token.essence (tokens t) := by
  rw [essenceIn, readEscapable_escapeText hnul, readEscapable_closeTag]
  show Token.essence (.text (l ++ []) :: tokens (closeTag name ++ t)) = _
  rw [List.append_nil, tokens_closeTag hname, Token.essence_last_line hl rfl]
  rfl

/-- A start tag is read back; what follows is read as its content if that is escapable, and as
markup if not. -/
theorem essence_startTag {name : Text} {as : List Attribute} {selfClosing : Bool}
    (h : Token.Writable (.startTag name as selfClosing)) (t : Text) :
    Token.essence (tokens (openTag name as ++ (tagEnd selfClosing ++ t))) =
      .startTag name as selfClosing ::
        if selfClosing = false ∧ contentOf? name = some .escapable then essenceIn name t
        else Token.essence (tokens t) := by
  obtain ⟨hname, has, hnodup, hcontent, hself⟩ := h
  have hapart := apart_of_writable has
  have has := fun a ha => (has a ha).toSound
  have hplain : (Token.startTag name as selfClosing).plain = .startTag name as selfClosing := by
    rw [Token.plain, hself]
  split
  · next hopen =>
    obtain ⟨rfl, hescapable⟩ := hopen
    have hvoid : isVoid name = false := hself
    rw [tokens_openTag_content hname has hapart hnodup hescapable hvoid,
      Token.essence_cons_of_isMark rfl, hplain, essenceIn]
    show _ :: Token.essence ((if (readEscapable name t).1.isEmpty then []
      else [.text (readEscapable name t).1]) ++ tokens (readEscapable name t).2) = _
    split
    · next hempty =>
      rw [List.isEmpty_iff.1 hempty, Token.essence_text_nil (fun _ => rfl)]
      rfl
    · rfl
  · next hopen =>
    have hmarkup : contentOf? name = none ∨ (selfClosing || isVoid name) = true := by
      rcases hcontent with h | h
      · exact Or.inl h
      · cases selfClosing with
        | true => exact Or.inr rfl
        | false => exact absurd ⟨rfl, h⟩ hopen
    rw [tokens_openTag hname has hapart hnodup hmarkup, Token.essence_cons_of_isMark rfl, hplain]

theorem ClosedBy.eq_of_isMark {name : Text} {token : Token} {ts : List Token}
    (h : ClosedBy name (token :: ts)) (hmark : token.isMark = true) : token = .endTag name := by
  rw [ClosedBy, marks_cons_of_isMark hmark] at h
  exact h token rfl

/-- Reading a text that spells tokens gives these tokens, up to the essence.  In escapable content
it does so if the first mark is the end tag of the element. -/
theorem essence_tokens {ts : List Token} {t : Text} (h : Spelled ts t)
    (hwritable : ∀ token ∈ ts, token.Writable) (hsealed : Sealed ts) :
    Token.essence (tokens t) = ts ∧ ∀ name, ClosedBy name ts → essenceIn name t = ts := by
  -- escapable content goes up to a closing tag, so both readings need one induction
  induction h with
  | nil =>
    have hnil : Token.essence (tokens []) = [] := by
      rw [tokens]
      rfl
    refine ⟨hnil, fun name _ => ?_⟩
    rw [essenceIn, readEscapable, readResolved, Token.essence_text_nil (fun _ => rfl), hnil]
  | @blank c ts t hc h ih =>
    obtain ⟨hread, hreadIn⟩ := ih hwritable hsealed
    have hblank : isBlank c = true := by rcases hc with rfl | rfl <;> decide
    refine ⟨?_, fun name hclosed => ?_⟩
    · rw [tokens_blank hc, Token.essence_text_nil (trimmedLines_cons_of_blank hblank), hread]
    · rw [essenceIn_blank hc, hreadIn name hclosed]
  | startTag name as selfClosing h ih =>
    obtain ⟨htoken, hrest⟩ := List.forall_mem_cons.1 hwritable
    obtain ⟨hread, hreadIn⟩ := ih hrest hsealed.2
    refine ⟨?_, fun other hclosed => absurd (hclosed.eq_of_isMark rfl) Token.noConfusion⟩
    rw [essence_startTag htoken]
    split
    · next hopen => rw [hreadIn name (hsealed.1 hopen.1 hopen.2)]
    · rw [hread]
  | @endTag name ts t h ih =>
    obtain ⟨htoken, hrest⟩ := List.forall_mem_cons.1 hwritable
    have hread : Token.essence (tokens (closeTag name ++ t)) = .endTag name :: ts := by
      rw [tokens_closeTag htoken, Token.essence_cons_of_isMark rfl, (ih hrest hsealed.2).1]
      rfl
    refine ⟨hread, fun other hclosed => ?_⟩
    obtain rfl : name = other := Token.endTag.inj (hclosed.eq_of_isMark rfl)
    rw [essenceIn_closeTag, hread]
  | comment s h ih =>
    obtain ⟨htoken, hrest⟩ := List.forall_mem_cons.1 hwritable
    refine ⟨?_, fun other hclosed => absurd (hclosed.eq_of_isMark rfl) Token.noConfusion⟩
    rw [tokens_comment htoken, Token.essence_cons_of_isMark rfl, (ih hrest hsealed.2).1]
    rfl
  | doctype name h ih =>
    obtain ⟨htoken, hrest⟩ := List.forall_mem_cons.1 hwritable
    refine ⟨?_, fun other hclosed => absurd (hclosed.eq_of_isMark rfl) Token.noConfusion⟩
    rw [tokens_doctype htoken, Token.essence_cons_of_isMark rfl, (ih hrest hsealed.2).1]
    cases name <;> rfl
  | line hl h ih =>
    obtain ⟨htoken, hrest⟩ := List.forall_mem_cons.1 hwritable
    obtain ⟨hread, hreadIn⟩ := ih hrest hsealed.2
    refine ⟨?_, fun name hclosed => ?_⟩
    · rw [essence_tokens_line hl htoken.1, hread]
    · rw [essenceIn_line hl htoken.1, hreadIn name hclosed]
  | lastLine hl name h ih =>
    obtain ⟨htext, hrest⟩ := List.forall_mem_cons.1 hwritable
    obtain ⟨htag, hrest⟩ := List.forall_mem_cons.1 hrest
    obtain ⟨hread, -⟩ := ih hrest hsealed.2.2
    refine ⟨?_, fun other hclosed => ?_⟩
    · rw [essence_tokens_lastLine hl htext.1 htag, hread]
    · obtain rfl : name = other := Token.endTag.inj (ClosedBy.eq_of_isMark hclosed rfl)
      rw [essenceIn_lastLine hl htext.1 htag, hread]

/-! ## Line ends -/

theorem return_notMem_escapeValueChar {c : Char} (h : c ≠ '\r') : '\r' ∉ escapeValueChar c := by
  intro hmem
  unfold escapeValueChar at hmem
  split at hmem
  · exact absurd hmem (by decide)
  · split at hmem
    · exact absurd hmem (by decide)
    · exact h (List.mem_singleton.1 hmem).symm

theorem return_notMem_escapeValue {v : Text} (h : '\r' ∉ v) : '\r' ∉ escapeValue v := by
  intro hmem
  obtain ⟨c, hc, hmem⟩ := List.mem_flatMap.1 hmem
  exact return_notMem_escapeValueChar (fun hreturn => h (hreturn ▸ hc)) hmem

theorem IsTagName.return_notMem {name : Text} (h : IsTagName name) : '\r' ∉ name :=
  fun hmem => (h.kept _ hmem).2 rfl

theorem return_notMem_closeTag {name : Text} (h : IsTagName name) : '\r' ∉ closeTag name := by
  simpa [closeTag] using h.return_notMem

theorem return_notMem_layout {a : Attribute} (h : a.Writable) : '\r' ∉ a.layout := by
  have hname : '\r' ∉ a.name := fun hmem => (h.kept _ hmem).2 rfl
  have hvalue := return_notMem_escapeValue h.no_return
  rw [Attribute.layout]
  split <;> simp [hname, hvalue]

/-- No carriage return stands in a tag that can be written. -/
theorem return_notMem_openTag {name : Text} {as : List Attribute} (hname : '\r' ∉ name)
    (has : ∀ a ∈ as, a.Writable) : '\r' ∉ openTag name as := by
  have hattributes : '\r' ∉ as.flatMap Attribute.layout := by
    intro hmem
    obtain ⟨a, ha, hmem⟩ := List.mem_flatMap.1 hmem
    exact return_notMem_layout (has a ha) hmem
  rw [openTag]
  simp [hname, hattributes]

/-- No carriage return stands in a text that spells tokens that can be written. -/
theorem return_notMem_of_spelled {ts : List Token} {t : Text} (h : Spelled ts t)
    (hwritable : ∀ token ∈ ts, token.Writable) : '\r' ∉ t := by
  induction h with
  | nil => exact List.not_mem_nil
  | blank hc h ih =>
    have := ih hwritable
    rcases hc with rfl | rfl <;> simpa using this
  | startTag name as selfClosing h ih =>
    obtain ⟨htoken, hrest⟩ := List.forall_mem_cons.1 hwritable
    have htag := return_notMem_openTag htoken.1.return_notMem htoken.2.1
    have hend : '\r' ∉ tagEnd selfClosing := by cases selfClosing <;> decide
    simp [htag, hend, ih hrest]
  | endTag name h ih =>
    obtain ⟨htoken, hrest⟩ := List.forall_mem_cons.1 hwritable
    simp [return_notMem_closeTag htoken, ih hrest]
  | comment s h ih =>
    obtain ⟨htoken, hrest⟩ := List.forall_mem_cons.1 hwritable
    simp [htoken.2.2, ih hrest]
  | doctype name h ih =>
    obtain ⟨htoken, hrest⟩ := List.forall_mem_cons.1 hwritable
    have hname : '\r' ∉ name := fun hmem => (htoken _ hmem).2.2 rfl
    simp [hname, ih hrest]
  | line hl h ih =>
    obtain ⟨htoken, hrest⟩ := List.forall_mem_cons.1 hwritable
    simp [notMem_escapeText (d := '\r') (by decide) (absurd · htoken.2), ih hrest]
  | lastLine hl name h ih =>
    obtain ⟨htext, hrest⟩ := List.forall_mem_cons.1 hwritable
    obtain ⟨htag, hrest⟩ := List.forall_mem_cons.1 hrest
    simp [notMem_escapeText (d := '\r') (by decide) (absurd · htext.2),
      return_notMem_closeTag htag, ih hrest]

end Scaffold.Html
