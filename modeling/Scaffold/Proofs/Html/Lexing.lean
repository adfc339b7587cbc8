import Mathlib
import Scaffold.Html.Token.Lexer
import Scaffold.Proofs.Html.Comment
import Scaffold.Proofs.Html.Reference

/-!
# What is read can be written

The tokens of a text satisfy what is needed to write them so that they are read again.  Names are
kept as they are, texts and values hold no null character, and a comment does not end before its
last character: such a token is *sound* (`sound_of_mem_tokens`).
-/

namespace Scaffold.Html

open Scaffold.Text

/-! ## Characters of names -/

theorem isAlpha_of_isLower {c : Char} (h : c.isLower = true) : c.isAlpha = true := by
  rw [Char.isAlpha, h, Bool.or_true]

theorem kept_of_isAlpha {c : Char} (h : c.isAlpha = true) : kept c = c :=
  kept_eq (ne_of_apply_ne Char.isAlpha (h.trans_ne (by decide)))

theorem nameChar_of_isLower {c : Char} (h : c.isLower = true) : nameChar c = c := by
  have hlower : c.toLower = c := Char.toLower_eq_of_not_isUpper (Char.not_isUpper_of_isLower h)
  rw [nameChar, hlower, kept_of_isAlpha (isAlpha_of_isLower h)]

/-- A character of a name stays as it is, is replaced or becomes a lower-case letter. -/
theorem nameChar_cases (c : Char) :
    nameChar c = c ∨ nameChar c = replacement ∨ (nameChar c).isLower = true := by
  by_cases hupper : c.isUpper = true
  · have hlower : c.toLower.isLower = true := by
      rw [Char.isLower_toLower_eq_isAlpha, Char.isAlpha, hupper, Bool.true_or]
    rw [nameChar, kept_of_isAlpha (isAlpha_of_isLower hlower)]
    exact Or.inr (Or.inr hlower)
  · rw [nameChar, Char.toLower_eq_of_not_isUpper hupper, kept]
    split
    · exact Or.inr (Or.inl rfl)
    · exact Or.inl rfl

/-- A name that was kept is kept as it is. -/
theorem nameChar_nameChar (c : Char) : nameChar (nameChar c) = nameChar c := by
  rcases nameChar_cases c with h | h | h
  · rw [h, h]
  · rw [h]
    decide
  · exact nameChar_of_isLower h

/-- What is true of no letter, nor of a character, is not true of the character in a name. -/
theorem nameChar_eq_false {p : Char → Bool} (hreplacement : p replacement = false)
    (hlower : ∀ c : Char, c.isLower = true → p c = false) {c : Char} (h : p c = false) :
    p (nameChar c) = false := by
  rcases nameChar_cases c with hc | hc | hc
  · rwa [hc]
  · rwa [hc]
  · exact hlower _ hc

/-- No letter ends the name of a tag. -/
theorem endsTagName_of_isAlpha {c : Char} (h : c.isAlpha = true) : endsTagName c = false := by
  simp only [endsTagName, isSpace, Bool.or_eq_false_iff, beq_eq_false_iff_ne]
  refine ⟨⟨⟨⟨⟨?_, ?_⟩, ?_⟩, ?_⟩, ?_⟩, ?_⟩ <;>
    exact ne_of_apply_ne Char.isAlpha (h.trans_ne (by decide))

theorem endsTagName_of_isLower {c : Char} (h : c.isLower = true) : endsTagName c = false :=
  endsTagName_of_isAlpha (isAlpha_of_isLower h)

theorem endsAttributeName_of_isLower {c : Char} (h : c.isLower = true) :
    endsAttributeName c = false := by
  rw [endsAttributeName, endsTagName_of_isLower h, Bool.false_or, beq_eq_false_iff_ne]
  exact ne_of_apply_ne Char.isLower (h.trans_ne (by decide))

/-- A letter in a name stays a letter. -/
theorem isAlpha_nameChar {c : Char} (h : c.isAlpha = true) : (nameChar c).isAlpha = true := by
  rw [← Char.isAlpha_toLower_eq_isAlpha] at h
  rwa [nameChar, kept_of_isAlpha h]

/-! ## Tags -/

theorem nul_notMem_of_quotedValue? {quote : Char} {t value rest : Text}
    (h : quotedValue? quote t = some (value, rest)) : nul ∉ value := by
  fun_induction quotedValue? quote t generalizing value rest with
  | case1 => cases h
  | case2 t =>
    obtain ⟨rfl, -⟩ := Prod.mk.inj (Option.some.inj h)
    exact List.not_mem_nil
  | case3 t _ ih =>
    obtain ⟨⟨value', rest'⟩, hv, he⟩ := Option.map_eq_some_iff.1 h
    obtain ⟨rfl, -⟩ := Prod.mk.inj he
    rw [List.mem_append, not_or]
    exact ⟨nul_notMem_reference true t, ih hv⟩
  | case4 c t _ _ ih =>
    obtain ⟨⟨value', rest'⟩, hv, he⟩ := Option.map_eq_some_iff.1 h
    obtain ⟨rfl, -⟩ := Prod.mk.inj he
    rw [List.mem_cons, not_or]
    exact ⟨(kept_ne_nul c).symm, ih hv⟩

/-- Text with its references resolved holds no null character, wherever it stops. -/
theorem nul_notMem_readResolved (stops : Char → Text → Bool) (inAttribute : Bool) (t : Text) :
    nul ∉ (readResolved stops inAttribute t).1 := by
  fun_induction readResolved stops inAttribute t with
  | case1 => exact List.not_mem_nil
  | case2 => exact List.not_mem_nil
  | case3 t _ ih =>
    rw [Prod.map_fst, List.mem_append, not_or]
    exact ⟨nul_notMem_reference inAttribute t, ih⟩
  | case4 c t _ _ ih =>
    rw [Prod.map_fst, List.mem_cons, not_or]
    exact ⟨(kept_ne_nul c).symm, ih⟩

/-- No value of an attribute holds a null character. -/
theorem nul_notMem_of_readValue? {t value rest : Text}
    (h : readValue? t = some (value, rest)) : nul ∉ value := by
  unfold readValue? at h
  split at h
  · exact nul_notMem_of_quotedValue? h
  · exact nul_notMem_of_quotedValue? h
  · have : nul ∉ (bareValue t).1 := nul_notMem_readResolved _ _ t
    rwa [Option.some.inj h] at this

/-- An attribute that is read: its name ends nowhere but at its end, though it may start with an
equals sign, and is kept as it is. -/
structure Attribute.Sound (a : Attribute) : Prop where
  starts : ∃ c t, a.name = c :: t ∧ endsTagName c = false ∧
    ∀ d ∈ t, endsAttributeName d = false
  kept : ∀ c ∈ a.name, nameChar c = c ∧ c ≠ '\r'
  value : nul ∉ a.value

/-- The characters of a name that is read are kept as they are when it is read again. -/
theorem kept_of_mem_map_nameChar {t : Text} (h : '\r' ∉ t) :
    ∀ c ∈ t.map nameChar, nameChar c = c ∧ c ≠ '\r' := by
  intro c hc
  obtain ⟨d, hd, rfl⟩ := List.mem_map.1 hc
  refine ⟨nameChar_nameChar d, beq_eq_false_iff_ne.1 ?_⟩
  refine nameChar_eq_false (p := (· == '\r')) (by decide) (fun c hc => ?_) ?_
  · exact beq_eq_false_iff_ne.2 (ne_of_apply_ne Char.isLower (hc.trans_ne (by decide)))
  · exact beq_eq_false_iff_ne.2 fun heq => h (heq ▸ hd)

/-- An attribute that is read is sound. -/
theorem sound_of_readAttribute? {c : Char} {t rest : Text} {a : Attribute}
    (hc : endsTagName c = false) (hcr : '\r' ∉ c :: t)
    (h : readAttribute? c t = some (a, rest)) : a.Sound := by
  have hname : a.name = (c :: t.takeWhile fun d => !endsAttributeName d).map nameChar := by
    unfold readAttribute? at h
    dsimp only at h
    split at h
    · obtain ⟨⟨value', rest'⟩, -, he⟩ := Option.map_eq_some_iff.1 h
      obtain ⟨rfl, -⟩ := Prod.mk.inj he
      rfl
    · obtain ⟨rfl, -⟩ := Prod.mk.inj (Option.some.inj h)
      rfl
  refine ⟨⟨nameChar c, _, hname, ?_, fun d hd => ?_⟩, ?_, ?_⟩
  · exact nameChar_eq_false (by decide) (fun _ => endsTagName_of_isLower) hc
  · obtain ⟨e, he, rfl⟩ := List.mem_map.1 hd
    refine nameChar_eq_false (by decide) (fun _ => endsAttributeName_of_isLower) ?_
    simpa using List.all_eq_true.1 List.all_takeWhile e he
  · rw [hname]
    refine kept_of_mem_map_nameChar fun hmem => hcr ?_
    rcases List.mem_cons.1 hmem with heq | hmem
    · exact heq ▸ List.mem_cons_self
    · exact List.mem_cons_of_mem _ ((List.takeWhile_prefix _).subset hmem)
  · unfold readAttribute? at h
    dsimp only at h
    split at h
    · obtain ⟨⟨value', rest'⟩, hv, he⟩ := Option.map_eq_some_iff.1 h
      obtain ⟨rfl, -⟩ := Prod.mk.inj he
      exact nul_notMem_of_readValue? hv
    · obtain ⟨rfl, -⟩ := Prod.mk.inj (Option.some.inj h)
      exact List.not_mem_nil

/-- All attributes of a tag are sound. -/
theorem sound_of_readTagRest? {t : Text} {tag : TagRest} (hcr : '\r' ∉ t)
    (h : readTagRest? t = some tag) : ∀ a ∈ tag.attributes, a.Sound := by
  fun_induction readTagRest? t generalizing tag with
  | case1 => cases h
  | case2 c t _ ih => exact ih (fun hmem => hcr (List.mem_cons_of_mem _ hmem)) h
  | case3 =>
    obtain rfl := Option.some.inj h
    simp
  | case4 =>
    obtain rfl := Option.some.inj h
    simp
  | case5 t _ _ _ ih => exact ih (fun hmem => hcr (List.mem_cons_of_mem _ hmem)) h
  | case6 => cases h
  | case7 c t hspace hbracket hslash a rest ha ih =>
    obtain ⟨tag', ht, rfl⟩ := Option.map_eq_some_iff.1 h
    have hc : endsTagName c = false := by simp [endsTagName, hspace, hbracket, hslash]
    intro b hb
    rcases List.mem_cons.1 hb with rfl | hb
    · exact sound_of_readAttribute? hc hcr ha
    · refine ih (fun hmem => hcr ?_) ht b hb
      exact List.mem_cons_of_mem _ ((suffix_of_readAttribute? ha).subset hmem)

theorem mem_of_mem_distinct {a : Attribute} {as : List Attribute} (h : a ∈ distinct as) :
    a ∈ as := by
  induction as with
  | nil => exact h
  | cons b as ih =>
    rw [distinct] at h
    rcases List.mem_cons.1 h with rfl | h
    · exact List.mem_cons_self
    · exact List.mem_cons_of_mem _ (ih (List.mem_filter.1 h).1)

/-- No two attributes of a tag that is read have the same name. -/
theorem nodup_distinct (as : List Attribute) : ((distinct as).map Attribute.name).Nodup := by
  induction as with
  | nil => exact List.nodup_nil
  | cons a as ih =>
    rw [distinct, List.map_cons, List.nodup_cons]
    refine ⟨?_, ih.sublist (List.filter_sublist.map _)⟩
    intro h
    obtain ⟨b, hb, hname⟩ := List.mem_map.1 h
    simpa [hname] using (List.mem_filter.1 hb).2

/-- The name of a tag as it is read. -/
structure IsTagName (name : Text) : Prop where
  starts : ∃ c t, name = c :: t ∧ c.isAlpha = true
  ends : ∀ c ∈ name, endsTagName c = false
  kept : ∀ c ∈ name, nameChar c = c ∧ c ≠ '\r'

/-- The name of a tag that is read can be read again as a name. -/
theorem isTagName_of_readTag? {c : Char} {t : Text} {tag : Tag} (hc : c.isAlpha = true)
    (hcr : '\r' ∉ c :: t) (h : readTag? (c :: t) = some tag) : IsTagName tag.name := by
  obtain ⟨tag', -, rfl⟩ := Option.map_eq_some_iff.1 h
  refine ⟨⟨nameChar c, (t.takeWhile fun d => !endsTagName d).map nameChar, ?_,
    isAlpha_nameChar hc⟩, ?_, ?_⟩
  · show ((c :: t).takeWhile fun d => !endsTagName d).map nameChar = _
    rw [List.takeWhile_cons_of_pos (by rw [endsTagName_of_isAlpha hc]; rfl), List.map_cons]
  · intro d hd
    obtain ⟨e, he, rfl⟩ := List.mem_map.1 hd
    refine nameChar_eq_false (by decide) (fun _ => endsTagName_of_isLower) ?_
    simpa using List.all_eq_true.1 List.all_takeWhile e he
  · exact kept_of_mem_map_nameChar fun hmem => hcr ((List.takeWhile_prefix _).subset hmem)

theorem sound_attributes_of_readTag? {t : Text} {tag : Tag} (hcr : '\r' ∉ t)
    (h : readTag? t = some tag) :
    (∀ a ∈ tag.attributes, a.Sound) ∧ (tag.attributes.map Attribute.name).Nodup := by
  obtain ⟨tag', ht, rfl⟩ := Option.map_eq_some_iff.1 h
  refine ⟨fun a ha => ?_, nodup_distinct _⟩
  exact sound_of_readTagRest? (fun hmem => hcr ((List.dropWhile_suffix _).subset hmem)) ht a
    (mem_of_mem_distinct ha)

/-! ## Content -/

theorem nul_notMem_readRaw (name t : Text) : nul ∉ (readRaw name t).1 := by
  induction t with
  | nil => exact List.not_mem_nil
  | cons c t ih =>
    rw [readRaw]
    split
    · exact List.not_mem_nil
    · rw [Prod.map_fst, List.mem_cons, not_or]
      exact ⟨(kept_ne_nul c).symm, ih⟩

theorem nul_notMem_readScript (place : ScriptPlace) (t : Text) :
    nul ∉ (readScript place t).1 := by
  induction t generalizing place with
  | nil => exact List.not_mem_nil
  | cons c t ih =>
    rw [readScript]
    split
    · next hc =>
      split
      · exact List.not_mem_nil
      · rw [Prod.map_fst, List.mem_cons, not_or]
        exact ⟨by rw [hc]; decide, ih _⟩
    · rw [Prod.map_fst, List.mem_cons, not_or]
      exact ⟨(kept_ne_nul c).symm, ih _⟩

/-- No content holds a null character, however it is read. -/
theorem nul_notMem_readContent (content : Content) (name t : Text) :
    nul ∉ (readContent content name t).1 := by
  cases content with
  | script => exact nul_notMem_readScript _ _
  | raw => exact nul_notMem_readRaw _ _
  | escapable => exact nul_notMem_readResolved _ _ _

/-! ## Tokens -/

/-- A token that can be read. -/
def Token.Sound : Token → Prop
  | .startTag name attributes _ =>
    IsTagName name ∧ (∀ a ∈ attributes, a.Sound) ∧ (attributes.map Attribute.name).Nodup
  | .endTag name => IsTagName name
  | .text t => nul ∉ t
  | .comment t => (CommentEnd.run .start t).isSome = true ∧ nul ∉ t ∧ '\r' ∉ t
  | .doctype name =>
    ∀ c ∈ name.getD [], (isSpace c || c == '>') = false ∧ nameChar c = c ∧ c ≠ '\r'
  | .null | .problem _ | .endOfInput => True

theorem notMem_map_kept {t : Text} {d : Char} (h : d ∉ t) (hd : d ≠ replacement) :
    d ∉ t.map kept := by
  intro hmem
  obtain ⟨c, hc, heq⟩ := List.mem_map.1 hmem
  have hne : c ≠ d := fun hcd => h (hcd ▸ hc)
  exact kept_ne hne hd heq

theorem nul_notMem_map_kept (t : Text) : nul ∉ t.map kept := by
  intro hmem
  obtain ⟨c, -, heq⟩ := List.mem_map.1 hmem
  exact kept_ne_nul c heq

/-- What is read as a comment for want of anything better is a sound comment: it holds no closing
bracket. -/
theorem sound_of_mem_bogusComment {t : Text} (hcr : '\r' ∉ t) :
    ∀ token ∈ (bogusComment t).1, token.Sound := by
  intro token h
  obtain rfl := List.mem_singleton.1 h
  refine ⟨CommentEnd.run_of_notMem (notMem_map_kept ?_ (by decide)) _, nul_notMem_map_kept _,
    notMem_map_kept (fun hmem => hcr ((List.takeWhile_prefix _).subset hmem)) (by decide)⟩
  intro hmem
  exact absurd (List.all_eq_true.1 List.all_takeWhile '>' hmem) (by decide)

/-- A comment that is read does not end before its last character. -/
theorem sound_comment {t : Text} (hcr : '\r' ∉ t) :
    Token.Sound (.comment (readComment .start t).1) := by
  refine ⟨run_readComment t .start .start rfl, fun hmem => ?_, fun hmem => ?_⟩
  · rcases mem_readComment hmem with h | h | h
    · exact absurd h (by decide)
    · exact absurd h (by decide)
    · exact nul_notMem_map_kept t h
  · rcases mem_readComment hmem with h | h | h
    · exact absurd h (by decide)
    · exact absurd h (by decide)
    · exact notMem_map_kept hcr (by decide) h

theorem sound_of_mem_doctype {t : Text} (hcr : '\r' ∉ t) :
    ∀ token ∈ (doctype t).1, token.Sound := by
  intro token h
  obtain rfl := List.mem_singleton.1 h
  intro c hc
  split at hc
  · cases hc
  · rw [Option.getD_some] at hc
    refine ⟨?_, kept_of_mem_map_nameChar (fun hmem => hcr ?_) c hc⟩
    · obtain ⟨d, hd, rfl⟩ := List.mem_map.1 hc
      refine nameChar_eq_false (p := fun c => isSpace c || c == '>') (by decide) ?_ ?_
      · intro c hlower
        have := endsTagName_of_isLower hlower
        simp only [endsTagName, Bool.or_eq_false_iff] at this ⊢
        exact ⟨this.1.1, this.2⟩
      · simpa using List.all_eq_true.1 List.all_takeWhile d hd
    · exact (List.dropWhile_suffix _).subset ((List.takeWhile_prefix _).subset hmem)

theorem sound_of_mem_declaration {t : Text} (hcr : '\r' ∉ t) :
    ∀ token ∈ (declaration t).1, token.Sound := by
  unfold declaration
  split
  · intro token h
    obtain rfl := List.mem_singleton.1 h
    exact sound_comment fun hmem => hcr (by simp [hmem])
  · split
    · next h => exact sound_of_mem_doctype fun hmem => hcr ((suffix_of_dropWord? h).subset hmem)
    · exact sound_of_mem_bogusComment hcr

/-- Behind a bracket and a slash, a letter starts an end tag. -/
theorem endTag_of_isAlpha {c : Char} (hc : c.isAlpha = true) (t : Text) :
    endTag (c :: t) =
      match readTag? (c :: t) with
      | none => ([openTagProblem], [])
      | some tag => ([.endTag tag.name], tag.rest) := by
  unfold endTag
  split
  · next h => cases h
  · next h =>
    obtain rfl := (List.cons.inj h).1
    exact absurd hc (by decide)
  · next h =>
    obtain ⟨rfl, rfl⟩ := List.cons.inj h
    exact if_pos hc

theorem sound_of_mem_endTag {t : Text} (hcr : '\r' ∉ t) : ∀ token ∈ (endTag t).1, token.Sound := by
  unfold endTag
  split
  · intro token h
    obtain rfl := List.mem_singleton.1 h
    show nul ∉ "</".toList
    decide
  · simp
  · split
    · next halpha =>
      split
      · intro token h
        obtain rfl := List.mem_singleton.1 h
        trivial
      · next htag =>
        intro token h
        obtain rfl := List.mem_singleton.1 h
        exact isTagName_of_readTag? halpha hcr htag
    · exact sound_of_mem_bogusComment hcr

/-- What a start tag is read as: a remark if it has no end, the tag alone if what follows is read
as markup, and otherwise the tag with the text of its content. -/
theorem startTag_cases (t : Text) :
    startTag t = ([openTagProblem], []) ∨
      ∃ tag, readTag? t = some tag ∧
        (((tag.selfClosing || isVoid tag.name) = true ∨ contentOf? tag.name = none) ∧
            startTag t = ([.startTag tag.name tag.attributes tag.selfClosing], tag.rest) ∨
          ∃ content, tag.selfClosing = false ∧ contentOf? tag.name = some content ∧
            startTag t =
              (.startTag tag.name tag.attributes tag.selfClosing ::
                (if (readContent content tag.name tag.rest).1.isEmpty then []
                  else [.text (readContent content tag.name tag.rest).1]),
                (readContent content tag.name tag.rest).2)) := by
  unfold startTag
  cases htag : readTag? t with
  | none => exact Or.inl rfl
  | some tag =>
    refine Or.inr ⟨tag, rfl, ?_⟩
    dsimp only
    cases hself : tag.selfClosing || isVoid tag.name with
    | true => exact Or.inl ⟨Or.inl rfl, rfl⟩
    | false =>
      cases hcontent : contentOf? tag.name with
      | none => exact Or.inl ⟨Or.inr rfl, rfl⟩
      | some content => exact Or.inr ⟨content, (Bool.or_eq_false_iff.1 hself).1, rfl, rfl⟩

/-- A start tag is read as sound tokens, with the text of its content if that is not markup. -/
theorem sound_of_mem_startTag {c : Char} {t : Text} (hc : c.isAlpha = true)
    (hcr : '\r' ∉ c :: t) : ∀ token ∈ (startTag (c :: t)).1, token.Sound := by
  have htoken : ∀ {tag : Tag}, readTag? (c :: t) = some tag →
      (Token.startTag tag.name tag.attributes tag.selfClosing).Sound := fun htag =>
    ⟨isTagName_of_readTag? hc hcr htag, sound_attributes_of_readTag? hcr htag⟩
  intro token h
  rcases startTag_cases (c :: t) with ht | ⟨tag, htag, ⟨-, ht⟩ | ⟨content, -, -, ht⟩⟩ <;>
    rw [ht] at h
  · obtain rfl := List.mem_singleton.1 h
    trivial
  · obtain rfl := List.mem_singleton.1 h
    exact htoken htag
  · rcases List.mem_cons.1 h with rfl | h
    · exact htoken htag
    · split at h
      · cases h
      · obtain rfl := List.mem_singleton.1 h
        exact nul_notMem_readContent content tag.name tag.rest

/-- What follows an opening bracket is read as sound tokens. -/
theorem sound_of_mem_markup {t : Text} (hcr : '\r' ∉ t) : ∀ token ∈ (markup t).1, token.Sound := by
  have hbracket : Token.Sound (.text ['<']) := by
    show nul ∉ ['<']
    decide
  unfold markup
  split
  · simpa using hbracket
  · exact sound_of_mem_declaration fun hmem => hcr (List.mem_cons_of_mem _ hmem)
  · exact sound_of_mem_endTag fun hmem => hcr (List.mem_cons_of_mem _ hmem)
  · exact sound_of_mem_bogusComment hcr
  · split
    · next hc => exact sound_of_mem_startTag hc hcr
    · simpa using hbracket

/-- Every token of a text is sound. -/
theorem sound_of_mem_tokens {t : Text} (hcr : '\r' ∉ t) : ∀ token ∈ tokens t, token.Sound := by
  fun_induction tokens t with
  | case1 =>
    intro token h
    obtain rfl := List.mem_singleton.1 h
    trivial
  | case2 t ih =>
    have hcr := fun hmem => hcr (List.mem_cons_of_mem _ hmem)
    intro token h
    rcases List.mem_append.1 h with h | h
    · exact sound_of_mem_markup hcr token h
    · exact ih (fun hmem => hcr ((markup_suffix t).subset hmem)) token h
  | case3 t _ ih =>
    have hcr := fun hmem => hcr (List.mem_cons_of_mem _ hmem)
    intro token h
    rcases List.mem_cons.1 h with rfl | h
    · exact nul_notMem_reference false t
    · exact ih (fun hmem => hcr ((reference_suffix false t).subset hmem)) token h
  | case4 t _ _ ih =>
    intro token h
    rcases List.mem_cons.1 h with rfl | h
    · trivial
    · exact ih (fun hmem => hcr (List.mem_cons_of_mem _ hmem)) token h
  | case5 c t _ _ hnul ih =>
    intro token h
    rcases List.mem_cons.1 h with rfl | h
    · simpa [Token.Sound] using Ne.symm hnul
    · exact ih (fun hmem => hcr (List.mem_cons_of_mem _ hmem)) token h

end Scaffold.Html
