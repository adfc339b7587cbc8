import Scaffold.Proofs.Html.Block
import Scaffold.Proofs.Html.Enclosed
import Scaffold.Proofs.Html.Format

/-!
# The tags of a text

The tags of a text are its start and end tags, by name and in order (`tagsOf`).  A text *reads* as
tags if it gives them wherever it stands, with the tags of what follows behind them (`Reads`).  Here
this is shown of every piece of a layout.  A carriage return in a piece is read as the end of a
line, which changes a value or a text, but no tag.
-/

namespace Scaffold.Html

open Scaffold.Text

/-! ## Tags -/

/-- A start tag or an end tag, by its name. -/
inductive TagMark where
  | opening (name : Text)
  | closing (name : Text)
  deriving DecidableEq, Repr

/-- The tag that a token is. -/
def Token.tag? : Token → Option TagMark
  | .startTag name _ _ => some (.opening name)
  | .endTag name => some (.closing name)
  | _ => none

/-- The tags among tokens. -/
def tags (ts : List Token) : List TagMark :=
  ts.filterMap Token.tag?

/-- The tags of a text. -/
def tagsOf (t : Text) : List TagMark :=
  tags (tokens (prepare t))

theorem tags_append (ts us : List Token) : tags (ts ++ us) = tags ts ++ tags us :=
  List.filterMap_append

theorem tags_cons_of_isMark_false {token : Token} (h : token.isMark = false) (ts : List Token) :
    tags (token :: ts) = tags ts := by
  cases token with
  | text | null | problem | endOfInput => rfl
  | _ => cases h

/-- All tags are among the marks. -/
theorem tags_marks (ts : List Token) : tags (marks ts) = tags ts := by
  induction ts with
  | nil => rfl
  | cons token ts ih =>
    cases hmark : token.isMark with
    | true =>
      rw [marks_cons_of_isMark hmark]
      show tags ([token] ++ marks ts) = tags ([token] ++ ts)
      rw [tags_append, ih, tags_append]
    | false => rw [marks_cons_of_not_isMark hmark, ih, tags_cons_of_isMark_false hmark]

/-- Tidying tokens leaves their tags as they are. -/
theorem tags_tidy (ts : List Token) : tags (Token.tidy ts) = tags ts := by
  rw [← tags_marks, marks_tidy, tags_marks]

theorem Token.tag?_plain (token : Token) : token.plain.tag? = token.tag? := by
  cases token <;> rfl

theorem tags_map_plain (ts : List Token) : tags (ts.map Token.plain) = tags ts := by
  rw [tags, List.filterMap_map]
  exact List.filterMap_congr fun token _ => token.tag?_plain

/-- The tree of a text has its tags. -/
theorem tags_flattenAll_parse (t : Text) : tags (flattenAll (parse t)) = tagsOf t := by
  rw [parse, flattenAll_ofTokens, tags_map_plain, tags_tidy, tagsOf]

/-! ## Line ends -/

theorem lineFeeds_cons {c : Char} {t : Text} (h : c = '\r' → t.head? ≠ some '\n') :
    lineFeeds (c :: t) = (if c = '\r' then '\n' else c) :: lineFeeds t := by
  rw [lineFeeds]
  rintro u rfl rfl
  exact h rfl rfl

/-- A text without carriage returns is left as it is, whatever stands behind it. -/
theorem lineFeeds_append_of_notMem {x : Text} (h : '\r' ∉ x) (t : Text) :
    lineFeeds (x ++ t) = x ++ lineFeeds t := by
  induction x with
  | nil => rfl
  | cons c x ih =>
    simp only [List.mem_cons, not_or] at h
    rw [List.cons_append, lineFeeds_cons fun hc => absurd hc.symm h.1, if_neg (Ne.symm h.1), ih h.2,
      List.cons_append]

/-- Line ends may be written as line feeds before or after a text is escaped. -/
theorem lineFeeds_flatMap {f : Char → Text} (hreturn : f '\r' = ['\r'])
    (hnewline : f '\n' = ['\n']) (hfree : ∀ c, c ≠ '\r' → '\r' ∉ f c)
    (hhead : ∀ c, c ≠ '\n' → ∃ d u, f c = d :: u ∧ d ≠ '\n') {s t : Text}
    (h : s.getLast? = some '\r' → t.head? ≠ some '\n') :
    lineFeeds (s.flatMap f ++ t) = (lineFeeds s).flatMap f ++ lineFeeds t := by
  fun_induction lineFeeds s with
  | case1 => rfl
  | case2 s ih =>
    have ih := ih fun hlast => h (by simp [List.getLast?_cons, hlast])
    rw [List.flatMap_cons, List.flatMap_cons, hreturn, hnewline, List.flatMap_cons, hnewline,
      List.append_assoc, List.singleton_append, List.append_assoc, List.singleton_append, lineFeeds,
      ih]
    rfl
  | case3 c s hpair ih =>
    have ih := ih fun hlast => h (by simp [List.getLast?_cons, hlast])
    rw [List.flatMap_cons, List.append_assoc, List.flatMap_cons, List.append_assoc, ← ih]
    split
    · next hc =>
      subst hc
      -- what is written for the next character does not start with a line feed either
      have hnext : (s.flatMap f ++ t).head? ≠ some '\n' := by
        cases s with
        | nil => exact h rfl
        | cons d s =>
          obtain ⟨e, u, he, hne⟩ := hhead d fun hd => hpair s rfl (by rw [hd])
          rw [List.flatMap_cons, he]
          simpa using hne
      rw [hreturn, hnewline, List.singleton_append, lineFeeds_cons fun _ => hnext]
      rfl
    · next hc => rw [lineFeeds_append_of_notMem (hfree c hc)]

/-- Line ends may be written as line feeds before a text is escaped or after, unless a line end is
cut in two behind it. -/
theorem lineFeeds_escapeText {s t : Text} (h : s.getLast? = some '\r' → t.head? ≠ some '\n') :
    lineFeeds (escapeText s ++ t) = escapeText (lineFeeds s) ++ lineFeeds t := by
  refine lineFeeds_flatMap rfl rfl
    (fun c hc => notMem_escapeTextChar (by decide) fun heq => absurd heq.symm hc)
    (fun c hc => ?_) h
  rcases escapeTextChar_cases c with ⟨hself, -⟩ | ⟨name, hreference, -⟩
  · exact ⟨c, [], hself, hc⟩
  · exact ⟨'&', name, hreference, by decide⟩

/-- The same holds of a value, behind which there is always a quote. -/
theorem lineFeeds_escapeValue {s t : Text} (h : t.head? ≠ some '\n') :
    lineFeeds (escapeValue s ++ t) = escapeValue (lineFeeds s) ++ lineFeeds t := by
  refine lineFeeds_flatMap rfl rfl (fun c => return_notMem_escapeValueChar) (fun c hc => ?_)
    fun _ => h
  unfold escapeValueChar
  split
  · exact ⟨'&', _, rfl, by decide⟩
  · split
    · exact ⟨'&', _, rfl, by decide⟩
    · exact ⟨c, [], rfl, hc⟩

/-- Nothing but line feeds comes into a text by writing line ends as line feeds. -/
theorem notMem_lineFeeds {s : Text} {c : Char} (h : c ∉ s) (hc : c ≠ '\n') : c ∉ lineFeeds s := by
  fun_induction lineFeeds s with
  | case1 => exact h
  | case2 s ih => simp_all
  | case3 d s _ ih =>
    simp only [List.mem_cons, not_or] at h ⊢
    refine ⟨?_, ih h.2⟩
    split
    · exact hc
    · exact h.1

theorem lineFeeds_eq_nil {s : Text} : lineFeeds s = [] ↔ s = [] := by
  fun_cases lineFeeds s <;> simp

/-- An attribute as it is read behind its value was written. -/
def Attribute.fed (a : Attribute) : Attribute :=
  { a with value := lineFeeds a.value }

/-- An attribute stays sound when the line ends in its value are read. -/
theorem Attribute.Sound.fed {a : Attribute} (h : a.Sound) : a.fed.Sound :=
  ⟨h.starts, h.kept, notMem_lineFeeds h.value (by decide)⟩

/-- Attributes stay apart when the line ends in their values are read, since no value becomes empty.
-/
theorem apart_fed {as : List Attribute} (h : Apart as) : Apart (as.map Attribute.fed) := by
  refine (List.isChain_map Attribute.fed).2 (h.imp fun a b hab hvalue => ?_)
  exact hab (lineFeeds_eq_nil.1 hvalue)

/-- Reading the line ends of an attribute changes its value only. -/
theorem Attribute.lineFeeds_layout {a : Attribute} (h : a.Sound) (t : Text) :
    lineFeeds (a.layout ++ t) = a.fed.layout ++ lineFeeds t := by
  have hname : '\r' ∉ ' ' :: a.name := by
    simpa using fun hmem => (h.kept _ hmem).2 rfl
  rw [a.layout_append, a.fed.layout_append, ← List.cons_append, lineFeeds_append_of_notMem hname,
    List.cons_append]
  cases hvalue : a.value with
  | nil =>
    have hfed : a.fed.value = [] := lineFeeds_eq_nil.2 hvalue
    rw [hfed]
    rfl
  | cons c value =>
    have hfed : a.fed.value.isEmpty = false := by
      rw [List.isEmpty_eq_false_iff, Attribute.fed, ne_eq, lineFeeds_eq_nil, hvalue]
      exact List.cons_ne_nil c value
    have hquote : '\r' ∉ "=\"".toList := by decide
    rw [hfed, ← hvalue, if_neg (by simp [hvalue]), if_neg (by decide), List.append_assoc,
      List.append_assoc, lineFeeds_append_of_notMem hquote, lineFeeds_escapeValue (by simp),
      List.append_assoc, List.append_assoc]
    rfl

/-- Reading the line ends of a tag changes the values of its attributes only. -/
theorem lineFeeds_openTag {name : Text} {as : List Attribute} (hname : IsTagName name)
    (has : ∀ a ∈ as, a.Sound) (t : Text) :
    lineFeeds (openTag name as ++ t) = openTag name (as.map Attribute.fed) ++ lineFeeds t := by
  have hfront : '\r' ∉ '<' :: name := by
    simpa using hname.return_notMem
  have hattributes : lineFeeds (as.flatMap Attribute.layout ++ t) =
      (as.map Attribute.fed).flatMap Attribute.layout ++ lineFeeds t := by
    induction as with
    | nil => rfl
    | cons a as ih =>
      obtain ⟨ha, has⟩ := List.forall_mem_cons.1 has
      rw [List.flatMap_cons, List.append_assoc, a.lineFeeds_layout ha, ih has, List.map_cons,
        List.flatMap_cons, List.append_assoc]
  rw [openTag, List.append_assoc, lineFeeds_append_of_notMem hfront, hattributes, openTag,
    List.append_assoc]

/-! ## Pieces that read as tags -/

/-- The tags that are read from a text behind others. -/
def tagsRead (t : Text) : List TagMark :=
  tags (tokens (lineFeeds t))

/-- `Reads x ms` says that `x` gives the tags `ms` wherever it stands. -/
def Reads (x : Text) (ms : List TagMark) : Prop :=
  ∀ t, tagsRead (x ++ t) = ms ++ tagsRead t

/-- Pieces that read as tags read as them one after the other. -/
theorem Reads.append {x y : Text} {ms ns : List TagMark} (hx : Reads x ms) (hy : Reads y ns) :
    Reads (x ++ y) (ms ++ ns) := by
  intro t
  rw [List.append_assoc, hx, hy, List.append_assoc]

/-- A piece without carriage returns reads as the tags among its tokens. -/
theorem reads_of_tokens {x : Text} {ms : List TagMark} (hx : '\r' ∉ x)
    (h : ∀ t, tags (tokens (x ++ t)) = ms ++ tags (tokens t)) : Reads x ms := by
  intro t
  rw [tagsRead, lineFeeds_append_of_notMem hx, h, tagsRead]

theorem reads_blanks {x : Text} (h : ∀ c ∈ x, c = ' ' ∨ c = '\n') : Reads x [] := by
  induction x with
  | nil => exact fun t => rfl
  | cons c x ih =>
    obtain ⟨hc, hx⟩ := List.forall_mem_cons.1 h
    have hfree : '\r' ∉ [c] := by rcases hc with rfl | rfl <;> decide
    have hfirst : Reads [c] [] := reads_of_tokens hfree fun t => by
      rw [List.singleton_append, tokens_blank hc]
      rfl
    exact hfirst.append (ih hx)

/-- A piece on a line of its own reads as the same tags. -/
theorem Reads.line {x : Text} {ms : List TagMark} (h : Reads x ms) (depth : Nat) :
    Reads (line depth x) ms := by
  have hindent : Reads (List.replicate depth "  ".toList).flatten [] :=
    reads_blanks fun c hc => Or.inl (eq_space_of_mem_indent hc)
  have hnewline : Reads ['\n'] [] := reads_blanks fun c hc => Or.inr (List.mem_singleton.1 hc)
  have hall := (hindent.append h).append hnewline
  rwa [List.nil_append, List.append_nil] at hall

/-- A line end behind a trimmed text is not taken for part of one in the text. -/
theorem lineFeeds_escapeText_trimmed {s : Text} (h : Trimmed s) (t : Text) :
    lineFeeds (escapeText s ++ t) = escapeText (lineFeeds s) ++ lineFeeds t :=
  lineFeeds_escapeText fun hlast => absurd (h.2 _ hlast) (by decide)

theorem isLine_and_nul_notMem {s : Text} (hnul : nul ∉ s) :
    ∀ l ∈ trimmedLines s, IsLine l ∧ nul ∉ l := by
  intro l hl
  obtain ⟨hline, hmem⟩ := isLine_of_mem_trimmedLines hl
  exact ⟨hline, fun h => hnul (hmem _ h)⟩

/-- A text that was escaped reads as no tag. -/
theorem reads_escapeText {s : Text} (hnul : nul ∉ s) (htrimmed : Trimmed s) :
    Reads (escapeText s) [] := by
  intro t
  rw [tagsRead, lineFeeds_escapeText_trimmed htrimmed,
    tokens_escapeText (notMem_lineFeeds hnul (by decide)), tags_append, tags, List.filterMap_map]
  simp [Token.tag?, tagsRead]

/-- Lines that were escaped read as no tag. -/
theorem reads_lines {ls : List Text} (hls : ∀ l ∈ ls, IsLine l ∧ nul ∉ l) (depth : Nat) :
    Reads (ls.flatMap fun l => line depth (escapeText l)) [] := by
  induction ls with
  | nil => exact fun t => rfl
  | cons l ls ih =>
    obtain ⟨⟨hl, hnul⟩, hls⟩ := List.forall_mem_cons.1 hls
    rw [List.flatMap_cons]
    exact ((reads_escapeText hnul hl.trimmed).line depth).append (ih hls)

theorem reads_closeTag {name : Text} (h : IsTagName name) :
    Reads (closeTag name) [.closing name] := by
  refine reads_of_tokens (return_notMem_closeTag h) fun t => ?_
  rw [tokens_closeTag h]
  rfl

theorem reads_comment {s : Text} (h : Token.Sound (.comment s)) :
    Reads ("<!--".toList ++ s ++ "-->".toList) [] := by
  refine reads_of_tokens (by simpa using h.2.2) fun t => ?_
  rw [tokens_comment h]
  rfl

theorem reads_doctype {name : Text} (h : Token.Sound (.doctype (some name))) :
    Reads ("<!doctype ".toList ++ name ++ ['>']) [] := by
  have hreturn : '\r' ∉ name := fun hmem => (h _ hmem).2.2 rfl
  refine reads_of_tokens (by simpa using hreturn) fun t => ?_
  rw [tokens_doctype h]
  rfl

theorem nodup_fed {as : List Attribute} (h : (as.map Attribute.name).Nodup) :
    ((as.map Attribute.fed).map Attribute.name).Nodup := by
  rw [List.map_map]
  exact h

theorem sound_of_mem_fed {as : List Attribute} (h : ∀ a ∈ as, a.Sound) :
    ∀ a ∈ as.map Attribute.fed, a.Sound := by
  intro a ha
  obtain ⟨b, hb, rfl⟩ := List.mem_map.1 ha
  exact (h b hb).fed

/-- A start tag whose content is read as markup reads as itself. -/
theorem reads_openTag {name : Text} {as : List Attribute} {selfClosing : Bool}
    (h : Token.Sound (.startTag name as selfClosing)) (hapart : Apart as)
    (hcontent : contentOf? name = none ∨ (selfClosing || isVoid name) = true) :
    Reads (openTag name as ++ tagEnd selfClosing) [.opening name] := by
  obtain ⟨hname, has, hnodup⟩ := h
  intro t
  have hend : '\r' ∉ tagEnd selfClosing := by cases selfClosing <;> decide
  rw [tagsRead, List.append_assoc, lineFeeds_openTag hname has, lineFeeds_append_of_notMem hend,
    tokens_openTag hname (sound_of_mem_fed has) (apart_fed hapart) (nodup_fed hnodup) hcontent]
  rfl

/-- The tags of an element that holds text are its own and those that are read behind the text. -/
theorem tagsRead_content {name : Text} {as : List Attribute}
    (h : Token.Sound (.startTag name as false)) (hapart : Apart as) {content : Content}
    (hcontent : contentOf? name = some content) (x : Text) :
    tagsRead (openTag name as ++ '>' :: x) =
      .opening name :: tags (tokens (readContent content name (lineFeeds x)).2) := by
  obtain ⟨hname, has, hnodup⟩ := h
  have hvoid := (facts_of_contentOf? (Option.isSome_of_eq_some hcontent)).2.2
  have hend : lineFeeds ('>' :: x) = tagEnd false ++ lineFeeds x :=
    lineFeeds_append_of_notMem (x := ['>']) (by decide) x
  rw [tagsRead, lineFeeds_openTag hname has, hend, tokens_openTag_content hname
    (sound_of_mem_fed has) (apart_fed hapart) (nodup_fed hnodup) hcontent hvoid]
  show TagMark.opening name :: tags (textTokens _ ++ _) = _
  rw [tags_append]
  unfold textTokens
  split <;> rfl

end Scaffold.Html
