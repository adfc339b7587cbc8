import Scaffold.Proofs.Css.Prelude

/-!
# The value of a declaration

The value of a declaration is the text between its colon and its semicolon, without comments and
with no blanks around it.  It is put together from the stretches of text between the comments, and
each stretch is kept as it is written, unless it ends in a block: the inside of that block is then
missing, with its closing bracket (`parse_declaration`).
-/

namespace Scaffold.Css

open Scaffold.Text

/-! ## Stretches between comments -/

/-- A comment among components. -/
def Component.isComment : Component → Bool
  | .token (.comment _) => true
  | _ => false

/-- A component in front of which a value ends, unless it stands in a block. -/
def Component.endsValue : Component → Bool
  | .token .semicolon => true
  | .token (.closing .curly) => true
  | _ => false

/-- The stretches of parts between comments. -/
def splitComments (ps : List Part) : List (List Part) :=
  ps.splitOnP fun part => part.component.isComment

theorem splitComments_of_forall {ps : List Part}
    (h : ∀ part ∈ ps, part.component.isComment = false) : splitComments ps = [ps] :=
  List.splitOnP_eq_singleton h

/-- The first comment ends the first stretch. -/
theorem splitComments_append_cons {ps : List Part}
    (h : ∀ part ∈ ps, part.component.isComment = false) {part : Part}
    (hpart : part.component.isComment = true) (more : List Part) :
    splitComments (ps ++ part :: more) = ps :: splitComments more :=
  List.splitOnP_append_cons_of_forall_mem h part hpart more

/-- Between comments stand all parts that are no comments. -/
theorem flatten_splitComments (ps : List Part) :
    (splitComments ps).flatten = ps.filter fun part => !part.component.isComment := by
  induction ps with
  | nil => rfl
  | cons part ps ih =>
    rw [splitComments] at ih ⊢
    rw [List.splitOnP_cons_eq_if_modifyHead]
    by_cases hpart : part.component.isComment = true
    · simp [hpart, ih]
    · obtain ⟨stretch, more, hsplit⟩ := List.exists_cons_of_ne_nil
        (List.splitOnP_ne_nil (fun part : Part => part.component.isComment) ps)
      rw [hsplit] at ih ⊢
      simpa [hpart] using ih

/-- What is kept of a text that is read between comments. -/
def keptValue (v : Text) : Text :=
  (splitComments (parts v)).flatMap kept

theorem isComment_ofToken {token : Token} (h : ∀ body, token ≠ .comment body) (behind : Text) :
    (Component.ofToken token behind).isComment = false := by
  cases token with
  | comment body => exact absurd rfl (h body)
  | _ => rfl

/-- A text that can be the value of a declaration: complete tokens with all brackets closed, and
nothing outside blocks that ends it. -/
structure IsValueText (v : Text) : Prop where
  ends : EndsTokens v
  closed : ∀ k ∈ components v, k.isClosed = true
  inside : ∀ k ∈ components v, k.endsValue = false

/-! ## Reading a value -/

/-- A token that ends neither a value nor a chunk of it is passed over. -/
theorem readChunks_skip {c c' : Cursor} {token : Token} (h : c.nextInBlock? = some (token, c'))
    (hsemicolon : token ≠ .semicolon) (hcomment : ∀ body, token ≠ .comment body) (chunk : Text) :
    readChunks chunk c = readChunks chunk c' := by
  rw [readChunks_eq, h]
  cases token with
  | semicolon => exact absurd rfl hsemicolon
  | comment body => exact absurd rfl (hcomment body)
  | _ => rfl

namespace Cursor.Facing

variable {c : Cursor} {inside ahead back : Text}

/-- A cursor in a block goes on in front of components that do not end a value. -/
theorem nextInBlock?_eq {token : Token} {rest : Text} (h : c.Facing inside ahead [] back)
    (hlex : lex ahead = some (token, rest)) (htoken : token ≠ .closing .curly) :
    c.nextInBlock? = c.next? := by
  rw [nextInBlock?, if_neg]
  intro hhead
  rw [h.settled] at hhead
  cases ahead with
  | nil => cases hlex
  | cons d ahead =>
    obtain rfl := Option.some.inj hhead
    exact htoken (Prod.mk.inj (Option.some.inj hlex)).1.symm

/-- A value is read up to the semicolon behind its components.  The chunk at hand starts with
`front` and the parts `before`, which were read since the last comment. -/
theorem readChunks_eq (front : Text) (before : List Part)
    (h : c.Facing (lastBody before) ahead [] (';' :: back))
    (hinside : ∀ k ∈ Css.components ahead, k.endsValue = false)
    (hbefore : ∀ part ∈ before, part.component.isComment = false) :
    readChunks (front ++ (kept before ++ c.rest)) c =
      (front ++ (splitComments (before ++ parts ahead)).flatMap kept, .start back) := by
  have hfront {front t rest : Text} : upTo (front ++ (t ++ rest)) rest = front ++ t := by
    rw [← List.append_assoc, upTo_append]
  induction ahead using lex_induction generalizing c before front with
  | nil =>
    have hnext : c.nextInBlock? = some (.semicolon, .start back) := by
      rw [nextInBlock?, next?, h.settled]
      rfl
    rw [Css.readChunks_eq, hnext, parts_nil, List.append_nil, splitComments_of_forall hbefore,
      List.flatMap_singleton]
    exact Prod.ext hfront rfl
  | step ahead token rest hlex ih =>
    obtain ⟨part, c', pad', hparts, hcomponent, htext, hnext, hfacing, hpad⟩ := h.next?_cons hlex
    obtain rfl : pad' = [] := by
      rcases hpad with hpad | ⟨-, -, hpad⟩ <;> exact hpad
    rw [components_of_lex hlex, List.forall_mem_cons] at hinside
    have hcurly : token ≠ .closing .curly := by
      rintro rfl
      cases hinside.1
    have hsemicolon : token ≠ .semicolon := by
      rintro rfl
      cases hinside.1
    have hnext' := (h.nextInBlock?_eq hlex hcurly).trans hnext
    rw [hparts]
    by_cases hcomment : ∃ body, token = .comment body
    · -- a comment ends the chunk, without the block that is pending
      obtain ⟨body, rfl⟩ := hcomment
      have hbody : part.body = [] :=
        body_eq_nil_of_token (hparts ▸ List.mem_cons_self) hcomponent
      rw [hbody] at hfacing
      have hread : readChunks c'.rest c' = _ :=
        ih _ (skipBlocks_suffix _ _).length_le [] [] hfacing hinside.2 (by simp)
      rw [Css.readChunks_eq, hnext', splitComments_append_cons hbefore (by rw [hcomponent]; rfl)]
      simp [hfront, hread]
    · have hother : ∀ body, token ≠ .comment body := fun body hbody => hcomment ⟨body, hbody⟩
      have hpart : part.component.isComment = false := by
        rw [hcomponent, isComment_ofToken hother]
      have hchunk : front ++ (kept before ++ c.rest) =
          front ++ (kept (before ++ [part]) ++ c'.rest) := by
        rw [h.rest, hfacing.rest, kept_concat, ← kept_append_lastBody, htext, Part.text]
        simp
      rw [← lastBody_concat before part] at hfacing
      rw [readChunks_skip hnext' hsemicolon hother, hchunk,
        ih _ (skipBlocks_suffix _ _).length_le front (before ++ [part]) hfacing hinside.2
          (by simpa [or_imp, forall_and] using ⟨hbefore, hpart⟩),
        List.append_assoc, List.singleton_append]

end Cursor.Facing

/-- A space in front of a value makes no difference to how it is read. -/
theorem readChunks_space (chunk t : Text) :
    readChunks chunk (.start (' ' :: t)) = readChunks chunk (.start t) := by
  have hread {c : Char} (hc : isSpace c = true) (u : Text) :
      readChunks chunk (.start (c :: u)) = readChunks chunk (.start (u.dropWhile isSpace)) := by
    have hlex : lex (c :: u) = some (.space, u.dropWhile isSpace) :=
      congrArg some (lexFrom_space hc u)
    have hhead : (c :: u).head? ≠ some '}' := by
      rintro ⟨rfl⟩
      cases hc
    exact readChunks_skip (Cursor.nextInBlock?_start hlex rfl hhead) (by simp) (by simp) chunk
  rw [hread rfl]
  cases t with
  | nil => rfl
  | cons c t =>
    by_cases hc : isSpace c = true
    · rw [hread hc, List.dropWhile_cons_of_pos hc]
    · rw [List.dropWhile_cons_of_neg hc]

/-- What stands between a colon and a semicolon is read as a value. -/
theorem IsValueText.readValue_eq {v : Text} (h : IsValueText v) (back : Text) :
    readValue (.start (':' :: ' ' :: (v ++ ';' :: back))) =
      (some (trim (keptValue v)), .start back) := by
  have hlex : lex (':' :: ' ' :: (v ++ ';' :: back)) = some (.colon, ' ' :: (v ++ ';' :: back)) :=
    rfl
  have hseam : Seam [] (';' :: back) := ⟨Or.inl rfl, by simp; rfl⟩
  have hchunks := (Cursor.Facing.start h.ends h.closed hseam).readChunks_eq [' '] [] h.inside
    (by simp)
  have hblank : trim (' ' :: keptValue v) = trim (keptValue v) :=
    trim_append_left (w := [' ']) (by simp; decide)
  rw [Css.readValue_eq, Cursor.nextInBlock?_start hlex rfl (by simp)]
  show Prod.map (fun value => some (trim value)) id
    (readChunks (' ' :: (v ++ ';' :: back)) (.start (' ' :: (v ++ ';' :: back)))) = _
  rw [readChunks_space, ← hblank]
  exact congrArg (Prod.map (fun value => some (trim value)) id) hchunks

/-! ## Declarations -/

/-- Where no stretch ends in a block, all the text between comments is kept. -/
theorem keptValue_of_not_block {v : Text}
    (h : ∀ stretch ∈ splitComments (parts v), ∀ part ∈ stretch.getLast?,
      part.component.isBlock = false) :
    keptValue v =
      ((parts v).filter fun part => !part.component.isComment).flatMap Part.text := by
  have hparts : ∀ stretch ∈ splitComments (parts v), ∀ part ∈ stretch, part ∈ parts v := by
    intro stretch hstretch part hpart
    have hmem := List.mem_flatten_of_mem hstretch hpart
    rw [flatten_splitComments] at hmem
    exact (List.mem_filter.1 hmem).1
  have hkept : ∀ stretch ∈ splitComments (parts v), kept stretch = stretch.flatMap Part.text :=
    fun stretch hstretch => kept_of_not_block (hparts stretch hstretch) (h stretch hstretch)
  rw [← flatten_splitComments, keptValue, List.flatMap_def, List.map_congr_left hkept,
    ← List.flatMap_def, ← List.flatMap_id, List.flatMap_assoc]
  rfl

/-- Without comments, a text is kept whole if it does not end in a block. -/
theorem keptValue_eq_self {v : Text} (hcomment : ∀ k ∈ components v, k.isComment = false)
    (hlast : ∀ k ∈ (components v).getLast?, k.isBlock = false) : keptValue v = v := by
  have hsplit : splitComments (parts v) = [parts v] := by
    refine splitComments_of_forall fun part hpart => hcomment _ ?_
    rw [← map_component_parts]
    exact List.mem_map_of_mem hpart
  rw [keptValue, hsplit, List.flatMap_singleton, kept_parts hlast]

/-- A name starts with neither a blank nor the end of a block. -/
theorem IsIdent.exists_cons {n : Text} (h : IsIdent n) :
    ∃ c word, n = c :: word ∧ isSpace c = false ∧ c ≠ '}' := by
  cases n with
  | nil => cases h.starts
  | cons c word =>
    have hc := h.plain c List.mem_cons_self
    refine ⟨c, word, rfl, ?_, ?_⟩
    · simp only [isSpace, isNewline, Bool.or_eq_false_iff, beq_eq_false_iff_ne]
      refine ⟨⟨?_, ?_⟩, ⟨?_, ?_⟩, ?_⟩ <;> rintro rfl <;> exact absurd hc (by decide)
    · rintro rfl
      exact absurd hc (by decide)

/-- A block with one declaration in it. -/
theorem readBlock_name_value {n v : Text} (hn : IsIdent n) (hv : IsValueText v) (back : Text) :
    readBlock (.start (' ' :: (n ++ ':' :: ' ' :: (v ++ ';' :: ' ' :: '}' :: back)))) =
      ([.declaration (.property n (trim (keptValue v)))], '}' :: back) := by
  have hlex := hn.lex_eq (' ' :: (v ++ ';' :: ' ' :: '}' :: back))
  have hvalue := hv.readValue_eq (' ' :: '}' :: back)
  generalize ':' :: ' ' :: (v ++ ';' :: ' ' :: '}' :: back) = rest at hlex hvalue ⊢
  obtain ⟨c, word, rfl, hspace, hcurly⟩ := hn.exists_cons
  rw [readBlock_space (lex_space (by simpa using hspace)) (by simp),
    readBlock_property hlex (by simpa using hcurly) hvalue, readBlock_end]
  rfl

/-- A declaration in the block of a style rule has as its value what is kept of the text between
comments, trimmed.  That is all of this text if it does not end in a block in front of a comment or
the semicolon, and all of the value if there are no comments. -/
theorem parse_declaration {p n v : Text} (hp : IsPrelude p) (hn : IsIdent n) (hv : IsValueText v) :
    parse (p ++ " \x7b ".toList ++ n ++ ": ".toList ++ v ++ "; \x7d".toList) =
        .ok [⟨.style, splitSelectors p, [.property n (trim (keptValue v))]⟩] ∧
      ((∀ stretch ∈ splitComments (parts v), ∀ part ∈ stretch.getLast?,
          part.component.isBlock = false) →
        keptValue v =
          ((parts v).filter fun part => !part.component.isComment).flatMap Part.text) ∧
      ((∀ k ∈ components v, k.isComment = false) →
        (∀ k ∈ (components v).getLast?, k.isBlock = false) → keptValue v = v) := by
  refine ⟨?_, keptValue_of_not_block, keptValue_eq_self⟩
  let body := ' ' :: (n ++ ':' :: ' ' :: (v ++ ';' :: ' ' :: '}' :: []))
  have htext : p ++ " \x7b ".toList ++ n ++ ": ".toList ++ v ++ "; \x7d".toList =
      p ++ ([' '] ++ '{' :: body) := by
    simp [body]
  have hblock : readBlock (.start body) = _ := readBlock_name_value hn hv []
  have hbehind : skipBlocks [.curly] body = [] := by
    have htail := tail_readBlock (.start body)
    rw [hblock, Cursor.behindBlock, Cursor.settled_start] at htail
    exact htail.symm
  have hread := hp.readItems_eq (Or.inr rfl) body
  rw [hblock, hbehind, readItems_nil, if_neg (by simp)] at hread
  rw [htext]
  exact parse_eq_ok_iff.2 ⟨_, hread, rfl⟩

/-- A value with blocks, semicolons and brackets in them, and comments. -/
def crookedValue : Text :=
  "f(a;b) /*;*/c/*\x7d*/ \x7bd;e\x7d \"\x7d\" ".toList

theorem isPrelude_s : IsPrelude "s".toList :=
  ⟨by decide +kernel, by decide +kernel, by decide +kernel⟩

theorem isValueText_crookedValue : IsValueText crookedValue :=
  ⟨by decide +kernel, by decide +kernel, by decide +kernel⟩

theorem isIdent_custom : IsIdent "--n".toList :=
  ⟨rfl, List.all_eq_true.1 rfl⟩

theorem parse_declaration_crookedValue :
    IsPrelude "s".toList ∧ IsIdent "--n".toList ∧ IsValueText crookedValue ∧
      parse ("s \x7b --n: ".toList ++ crookedValue ++ "; \x7d".toList) =
        .ok [Rule.style "s".toList
          [.property "--n".toList "f(a;b) c \x7bd;e\x7d \"\x7d\"".toList]] := by
  obtain ⟨hparse, hkept, -⟩ :=
    parse_declaration isPrelude_s isIdent_custom isValueText_crookedValue
  rw [hkept (by decide +kernel)] at hparse
  have hvalue : trim (((parts crookedValue).filter fun part =>
      !part.component.isComment).flatMap Part.text) =
      "f(a;b) c \x7bd;e\x7d \"\x7d\"".toList := by
    decide +kernel
  rw [hvalue] at hparse
  exact ⟨isPrelude_s, isIdent_custom, isValueText_crookedValue, hparse⟩

/-- A value that ends in a block. -/
def functionValue : Text :=
  "f(a)".toList

/-- The inside of the block at the end of a value is missing. -/
theorem parse_functionValue :
    IsIdent "n".toList ∧ IsValueText functionValue ∧
      (components functionValue).any Component.isComment = false ∧
      parse ("s \x7b n: ".toList ++ functionValue ++ "; \x7d".toList) =
        .ok [Rule.style "s".toList [.property "n".toList "f(".toList]] :=
  ⟨⟨rfl, List.all_eq_true.1 rfl⟩, ⟨by decide +kernel, by decide +kernel, by decide +kernel⟩,
    by decide +kernel⟩

end Scaffold.Css
