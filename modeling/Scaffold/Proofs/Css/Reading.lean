import Scaffold.Css.Sheet
import Scaffold.Proofs.Text.Trim

/-!
# Reading a style sheet token by token

A token is read off the front of a text whatever follows it, as long as what follows cannot be
part of it (`NameEnds`).  From such facts about single tokens come the steps of the readers: a
token that opens nothing moves the search for a rule's block along, a comment in a block becomes
one of its items, and a rule whose block was found is the first item of its sheet.
-/

namespace Scaffold.Css

open Scaffold.Text

/-! ## Names -/

/-- A text at whose front no name goes on. -/
def NameEnds (t : Text) : Prop :=
  ∀ c ∈ t.head?, c ≠ '\\' ∧ c ≠ nul ∧ isNameChar c = false

theorem name_of_nameEnds {t : Text} (h : NameEnds t) : name t = ([], t) := by
  cases t with
  | nil => rw [name]
  | cons c t =>
    obtain ⟨hb, hn, hc⟩ := h c (by simp)
    rw [name, if_neg hb, if_neg hn, hc]
    rfl

/-- A name is read whole and nothing behind it. -/
theorem name_append {n t : Text} (hn : ∀ c ∈ n, isNameChar c = true) (ht : NameEnds t) :
    name (n ++ t) = (n, t) := by
  induction n with
  | nil => exact name_of_nameEnds ht
  | cons c n ih =>
    have hc : isNameChar c = true := hn c (List.mem_cons_self ..)
    have hb : c ≠ '\\' := by
      rintro rfl
      exact absurd hc (by decide)
    have hz : c ≠ nul := by
      rintro rfl
      exact absurd hc (by decide)
    rw [List.cons_append, name, if_neg hb, if_neg hz, if_pos hc,
      ih fun d hd => hn d (List.mem_cons_of_mem _ hd)]
    rfl

/-- A name is read up to its end, if no bracket follows. -/
theorem identLike_append {n t : Text} (hn : ∀ c ∈ n, isNameChar c = true) (ht : NameEnds t)
    (hbracket : t.head? ≠ some '(') : identLike (n ++ t) = (.ident n, t) := by
  unfold identLike
  rw [name_append hn ht]
  split
  · next m rest heq =>
    obtain ⟨-, rfl⟩ := Prod.mk.inj heq
    exact absurd rfl hbracket
  · next m rest _ heq =>
    obtain ⟨rfl, rfl⟩ := Prod.mk.inj heq
    rfl

theorem isDigit_of_isNameStart {c : Char} (h : isNameStart c = true) : c.isDigit = false := by
  have h : (decide (c.val ≥ 'A'.val ∧ c.val ≤ 'Z'.val) || (c.val ≥ 'a'.val && c.val ≤ 'z'.val) ||
      c == '_' || c == nul || 0x80 ≤ c.toNat) = true := h
  have hA : 'A'.val.toNat = 65 := rfl
  have ha : 'a'.val.toNat = 97 := rfl
  have hvalue : c.val.toNat = c.toNat := rfl
  rw [Bool.eq_false_iff]
  intro hdigit
  simp only [Char.isDigit, Bool.and_eq_true, decide_eq_true_eq, ge_iff_le,
    UInt32.le_iff_toNat_le] at hdigit
  have hle : c.toNat ≤ 57 := hdigit.2
  simp only [Bool.or_eq_true, Bool.and_eq_true, decide_eq_true_eq, ge_iff_le, beq_iff_eq,
    UInt32.le_iff_toNat_le] at h
  rcases h with (((h | h) | rfl) | rfl) | h
  · omega
  · omega
  · exact absurd hdigit (by decide)
  · exact absurd hdigit (by decide)
  · omega

theorem isSpace_of_isNameStart {c : Char} (h : isNameStart c = true) : isSpace c = false := by
  simp only [isSpace, isNewline, Bool.or_eq_false_iff, beq_eq_false_iff_ne]
  refine ⟨⟨?_, ?_⟩, ⟨?_, ?_⟩, ?_⟩ <;> rintro rfl <;> exact absurd h (by decide)

theorem startsIdent_of_isNameStart {c : Char} (h : isNameStart c = true) (t : Text) :
    startsIdent (c :: t) = true := by
  have hdash : c ≠ '-' := ne_of_apply_ne isNameStart (h.trans_ne (by decide))
  have hescape : c ≠ '\\' := ne_of_apply_ne isNameStart (h.trans_ne (by decide))
  rw [startsIdent]
  · exact h
  all_goals simp [hdash, hescape]

/-- A name that starts with a character of its own is read whole. -/
theorem lex_ident {c : Char} {n t : Text} (hstart : isNameStart c = true)
    (hn : ∀ d ∈ c :: n, isNameChar d = true) (ht : NameEnds t) (hbracket : t.head? ≠ some '(') :
    lex (c :: n ++ t) = some (.ident (c :: n), t) := by
  have hquote : ¬ (c = '"' ∨ c = '\x27') := by
    rintro (rfl | rfl) <;> exact absurd hstart (by decide)
  show some (lexFrom c (n ++ t)) = _
  unfold lexFrom
  rw [isSpace_of_isNameStart hstart, if_neg (by decide), if_neg hquote,
    isDigit_of_isNameStart hstart, if_neg (by decide), if_pos hstart, ← List.cons_append,
    identLike_append hn ht hbracket]

/-- A hyphen that does not close a comment of the other kind. -/
theorem lexFrom_dash {t : Text} (h : ¬ ['-', '>'] <+: t) : lexFrom '-' t =
    if startsNumber t then (.number, afterNumber t)
    else if startsIdent ('-' :: t) then identLike ('-' :: t) else (.delim '-', t) := by
  unfold lexFrom
  rw [if_neg (by decide), if_neg (by decide), if_neg (by decide), if_neg (by decide)]
  split
  case h_6 =>
    split
    · rfl
    · split
      · next u _ => exact absurd ⟨u, rfl⟩ h
      · rfl
  all_goals simp_all

/-- A name of a property that is written without escapes. -/
structure IsIdent (n : Text) : Prop where
  starts : startsIdent n = true
  plain : ∀ c ∈ n, isNameChar c = true

theorem nameEnds_colon (t : Text) : NameEnds (':' :: t) := by
  rintro _ ⟨rfl⟩
  decide

/-- A name behind a hyphen is read as neither a number nor the end of a comment. -/
theorem IsIdent.lex_dash {n : Text} (h : IsIdent ('-' :: n)) (t : Text) :
    lex ('-' :: n ++ ':' :: t) = some (.ident ('-' :: n), ':' :: t) := by
  cases n with
  | nil => cases h.starts
  | cons d n =>
    have hplain := h.plain
    rw [List.forall_mem_cons, List.forall_mem_cons] at hplain
    have hdigit : d.isDigit = false := by
      have hstarts : (isNameStart d || d == '-' || d == '\\') = true := h.starts
      simp only [Bool.or_eq_true, beq_iff_eq] at hstarts
      rcases hstarts with (hstart | rfl) | rfl
      · exact isDigit_of_isNameStart hstart
      · rfl
      · rfl
    have hnumber : startsNumber (d :: (n ++ ':' :: t)) = false := by
      rw [startsNumber]
      · exact hdigit
      · rintro u ⟨rfl, -⟩
        exact absurd hplain.2.1 (by decide)
    have hmark : ¬ ['-', '>'] <+: d :: (n ++ ':' :: t) := by
      rintro ⟨u, heq⟩
      cases n with
      | nil => simp at heq
      | cons e n =>
        obtain rfl : '>' = e := (List.cons.inj (List.cons.inj heq).2).1
        exact absurd (hplain.2.2 _ List.mem_cons_self) (by decide)
    have hident : startsIdent ('-' :: d :: (n ++ ':' :: t)) = true := h.starts
    show some (lexFrom '-' (d :: (n ++ ':' :: t))) = _
    rw [lexFrom_dash hmark, hnumber, if_neg Bool.false_ne_true, if_pos hident]
    exact congrArg some (identLike_append h.plain (nameEnds_colon t) (by simp))

/-- A name in front of a colon is read as that name. -/
theorem IsIdent.lex_eq {n : Text} (h : IsIdent n) (t : Text) :
    lex (n ++ ':' :: t) = some (.ident n, ':' :: t) := by
  cases n with
  | nil => cases h.starts
  | cons c n =>
    by_cases hdash : c = '-'
    · subst hdash
      exact h.lex_dash t
    · have hescape : c ≠ '\\' := by
        rintro rfl
        exact absurd (h.plain _ List.mem_cons_self) (by decide)
      have hstart : isNameStart c = true := by
        have hstarts := h.starts
        rw [startsIdent] at hstarts
        · exact hstarts
        all_goals simp [hdash, hescape]
      exact lex_ident hstart h.plain (nameEnds_colon t) (by simp)

/-! ## Comments -/

/-- A comment is read up to the first mark that ends it. -/
theorem comment_append {body : Text} (h : ¬ "*/".toList <:+: body) (t : Text) :
    comment (body ++ '*' :: '/' :: t) = (body, t) := by
  induction body with
  | nil => simp [comment]
  | cons c body ih =>
    have hbody : ¬ "*/".toList <:+: body := fun hi => h (hi.trans (List.suffix_cons c body).isInfix)
    have hne : ∀ rest, c = '*' → body ++ '*' :: '/' :: t = '/' :: rest → False := by
      rintro rest rfl heq
      cases body with
      | nil => simp at heq
      | cons d body =>
        obtain ⟨rfl, -⟩ := List.cons.inj heq
        exact h ⟨[], body, rfl⟩
    rw [List.cons_append, comment, ih hbody]
    · rfl
    · exact hne

/-- A comment is read up to the mark that closes it. -/
theorem lex_comment {body : Text} (h : ¬ "*/".toList <:+: body) (t : Text) :
    lex ("/*".toList ++ body ++ "*/".toList ++ t) = some (.comment body, t) := by
  have hread := comment_append h t
  show lex ('/' :: '*' :: (body ++ ['*', '/'] ++ t)) = _
  rw [List.append_assoc]
  show some (Token.comment (comment (body ++ '*' :: '/' :: t)).1,
    (comment (body ++ '*' :: '/' :: t)).2) = _
  rw [hread]

/-! ## Single characters -/

theorem lex_space {t : Text} (h : ∀ c ∈ t.head?, isSpace c = false) :
    lex (' ' :: t) = some (.space, t) := by
  show some (Token.space, t.dropWhile isSpace) = _
  cases t with
  | nil => rfl
  | cons c t => rw [List.dropWhile_cons_of_neg (by simp [h c (by simp)])]

theorem lex_openCurly (t : Text) : lex ('{' :: t) = some (.opening .curly, t) := rfl

/-! ## Steps of the readers -/

namespace Cursor

@[simp] theorem settled_start (t : Text) : (start t).settled = t := by
  show skipBlocks [] t = t
  rw [skipBlocks]

/-- A token that opens no block leaves a cursor right behind it. -/
theorem next?_start {t rest : Text} {token : Token} (h : lex t = some (token, rest))
    (ho : token.opens? = none) : (start t).next? = some (token, start rest) := by
  rw [next?, settled_start, h]
  show some (token, ({ rest, pending := token.opens? } : Cursor)) = _
  rw [ho]
  rfl

theorem next?_openCurly {t rest : Text} (h : lex t = some (.opening .curly, rest)) :
    (start t).next? = some (.opening .curly, { rest, pending := some .curly }) := by
  rw [next?, settled_start, h]
  rfl

/-- A token that opens nothing is read in a block, up to the bracket that closes the block. -/
theorem nextInBlock?_start {t rest : Text} {token : Token} (h : lex t = some (token, rest))
    (ho : token.opens? = none) (hc : t.head? ≠ some '}') :
    (start t).nextInBlock? = some (token, start rest) := by
  rw [nextInBlock?, settled_start, if_neg hc, next?_start h ho]

theorem nextInBlock?_closeCurly (t : Text) : (start ('}' :: t)).nextInBlock? = none := by
  rw [nextInBlock?, settled_start]
  rfl

end Cursor

/-! The readers with the token as an ordinary case, without the proof that reading ends. -/

theorem skipBlocks_eq (b : Bracket) (outer : List Bracket) (t : Text) :
    skipBlocks (b :: outer) t =
      match lex t with
      | none => []
      | some (.closing b', rest) =>
        if b' = b then skipBlocks outer rest else skipBlocks (b :: outer) rest
      | some (token, rest) => skipBlocks (token.opens?.toList ++ b :: outer) rest := by
  rw [skipBlocks]
  split <;> simp_all [lex]

theorem findBlock?_eq (c : Cursor) : findBlock? c =
    match c.next? with
    | none => none
    | some (.opening .curly, c') => some (c.rest, c'.rest)
    | some (_, c') => findBlock? c' := by
  rw [findBlock?]
  split <;> simp_all

theorem skipAtRule_eq (c : Cursor) : skipAtRule c =
    match c.next? with
    | none => c.settle
    | some (.semicolon, c') => c'
    | some (.opening .curly, c') => c'
    | some (_, c') => skipAtRule c' := by
  rw [skipAtRule]
  split <;> simp_all

theorem skipToSemicolon_eq (c : Cursor) : skipToSemicolon c =
    match c.nextInBlock? with
    | none => c.settle
    | some (.semicolon, c') => c'
    | some (_, c') => skipToSemicolon c' := by
  rw [skipToSemicolon]
  split <;> simp_all

theorem readChunks_eq (chunk : Text) (c : Cursor) : readChunks chunk c =
    match c.nextInBlock? with
    | none => (upTo chunk c.rest, c.settle)
    | some (.semicolon, c') => (upTo chunk c.rest, c')
    | some (.comment _, c') => Prod.map (upTo chunk c.rest ++ ·) id (readChunks c'.rest c')
    | some (_, c') => readChunks chunk c' := by
  rw [readChunks]
  split <;> simp_all

theorem readValue_eq (c : Cursor) : readValue c =
    match c.nextInBlock? with
    | none => (none, c.settle)
    | some (.space, c') => readValue c'
    | some (.comment _, c') => readValue c'
    | some (.colon, c') => Prod.map (fun value => some (trim value)) id (readChunks c'.rest c')
    | some (.semicolon, c') => (none, c')
    | some (.opening .curly, c') => (none, c')
    | some (_, c') => (none, skipToSemicolon c') := by
  rw [readValue]
  split <;> simp_all

theorem readBlock_eq (c : Cursor) : readBlock c =
    match c.nextInBlock? with
    | none => ([], c.settled)
    | some (.space, c') => readBlock c'
    | some (.semicolon, c') => readBlock c'
    | some (.comment body, c') => Prod.map (.declaration (.comment body) :: ·) id (readBlock c')
    | some (.ident name, c') =>
      Prod.map (BlockItem.ofValue name (readValue c').1 :: ·) id (readBlock (readValue c').2)
    | some (.opening .curly, c') => Prod.map (.nested :: ·) id (readBlock c')
    | some (_, c') => readBlock (skipToSemicolon c') := by
  rw [readBlock]
  split <;> simp_all

theorem readItems_eq (c : Cursor) : readItems c =
    match c.next? with
    | none => ([], none)
    | some (.space, c') => readItems c'
    | some (.commentOpen, c') => readItems c'
    | some (.commentClose, c') => readItems c'
    | some (.comment body, c') => Prod.map (.comment body :: ·) id (readItems c')
    | some (.atKeyword name, c') => Prod.map (.atRule name :: ·) id (readItems (skipAtRule c'))
    | some (_, _) =>
      match findBlock? c with
      | none => ([], some c.rest)
      | some (stop, body) =>
        Prod.map (.style (splitSelectors (upTo c.rest stop)) (readBlock (.start body)).1 :: ·) id
          (readItems (.start (readBlock (.start body)).2.tail)) := by
  rw [readItems]
  split <;> simp_all
  split <;> simp_all

/-- The search for a block goes past a token that opens none. -/
theorem findBlock?_skip {t rest : Text} {token : Token} (h : lex t = some (token, rest))
    (ho : token.opens? = none) : findBlock? (.start t) = findBlock? (.start rest) := by
  rw [findBlock?_eq, Cursor.next?_start h ho]
  cases token with
  | opening bracket => simp [Token.opens?] at ho
  | _ => rfl

/-- The search for a block ends at the bracket that opens it. -/
theorem findBlock?_openCurly (t : Text) :
    findBlock? (.start ('{' :: t)) = some ('{' :: t, t) := by
  rw [findBlock?_eq, Cursor.next?_openCurly (lex_openCurly t)]
  rfl

/-- A comment in a block is one of its items. -/
theorem readBlock_comment {t rest body : Text} (h : lex t = some (.comment body, rest))
    (hc : t.head? ≠ some '}') :
    readBlock (.start t) =
      Prod.map (.declaration (.comment body) :: ·) id (readBlock (.start rest)) := by
  rw [readBlock_eq, Cursor.nextInBlock?_start h rfl hc]

/-- So is a name with the value that is read behind it. -/
theorem readBlock_property {t rest name value back : Text} (h : lex t = some (.ident name, rest))
    (hc : t.head? ≠ some '}') (hvalue : readValue (.start rest) = (some value, .start back)) :
    readBlock (.start t) =
      Prod.map (.declaration (.property name value) :: ·) id (readBlock (.start back)) := by
  rw [readBlock_eq, Cursor.nextInBlock?_start h rfl hc]
  simp only [hvalue]
  rfl

theorem readBlock_space {t rest : Text} (h : lex t = some (.space, rest))
    (hc : t.head? ≠ some '}') : readBlock (.start t) = readBlock (.start rest) := by
  rw [readBlock_eq, Cursor.nextInBlock?_start h rfl hc]

theorem readBlock_closeCurly (t : Text) : readBlock (.start ('}' :: t)) = ([], '}' :: t) := by
  rw [readBlock_eq, Cursor.nextInBlock?_closeCurly, Cursor.settled_start]

/-- The end of a block, with the space that is written before its bracket. -/
theorem readBlock_end (t : Text) : readBlock (.start (' ' :: '}' :: t)) = ([], '}' :: t) := by
  rw [readBlock_space (lex_space (by simp; decide)) (by simp), readBlock_closeCurly]

theorem readItems_nil : readItems (.start []) = ([], none) := by
  rw [readItems_eq, Cursor.next?, Cursor.settled_start]
  rfl

/-- A token with which a style rule can start. -/
def Token.startsStyle : Token → Bool
  | .space | .comment _ | .commentOpen | .commentClose | .atKeyword _ => false
  | _ => true

/-- A rule whose block is found is the first item of its sheet. -/
theorem readItems_style {t rest stop body back : Text} {token : Token} {items : List BlockItem}
    (h : lex t = some (token, rest)) (hstyle : token.startsStyle = true)
    (ho : token.opens? = none) (hblock : findBlock? (.start t) = some (stop, body))
    (hread : readBlock (.start body) = (items, '}' :: back)) :
    readItems (.start t) =
      Prod.map (.style (splitSelectors (upTo t stop)) items :: ·) id (readItems (.start back)) := by
  rw [readItems_eq, Cursor.next?_start h ho, hblock]
  cases token with
  | space => cases hstyle
  | comment body => cases hstyle
  | commentOpen => cases hstyle
  | commentClose => cases hstyle
  | atKeyword name => cases hstyle
  | _ =>
    simp only [hread]
    rfl

/-! ## Selector lists -/

/-- A character that a selector list keeps as it is, outside brackets and quotes. -/
def isPlainSelectorChar (c : Char) : Bool :=
  !(c == '/' || c == '"' || c == '\x27' || c == '[' || c == '(' || c == ']' || c == ')' ||
    c == ',' || isBlank c)

/-- Plain characters are kept as they are. -/
theorem pieces_append {w : Text} (depth : Nat) (current t : Text)
    (h : ∀ c ∈ w, isPlainSelectorChar c = true) :
    pieces (.outside depth) current (w ++ t) =
      pieces (.outside depth) (w.reverse ++ current) t := by
  induction w generalizing current with
  | nil => rfl
  | cons c w ih =>
    have hc : isPlainSelectorChar c = true := h c (List.mem_cons_self ..)
    simp only [isPlainSelectorChar, Bool.not_eq_true', Bool.or_eq_false_iff, beq_eq_false_iff_ne,
      ne_eq] at hc
    rw [List.cons_append, pieces]
    · simp only [hc, or_self, false_and, if_false, Bool.false_eq_true,
        ih _ fun d hd => h d (List.mem_cons_of_mem _ hd), List.reverse_cons, List.append_assoc,
        List.singleton_append]
    · intro rest hslash
      exact absurd hslash hc.1.1.1.1.1.1.1.1

/-- A single space between other characters is kept. -/
theorem pieces_space {current : Text} (t : Text) (hne : current ≠ [])
    (hhead : current.head? ≠ some ' ') :
    pieces (.outside 0) current (' ' :: t) = pieces (.outside 0) (' ' :: current) t := by
  rw [pieces]
  · simp [hne, hhead, show isBlank ' ' = true from rfl]
  · simp

/-- The space behind a comma is dropped, as nothing of the next selector stands before it. -/
theorem pieces_comma_space (current t : Text) :
    pieces (.outside 0) current (", ".toList ++ t) =
      current.reverse :: pieces (.outside 0) [] t := by
  show pieces (.outside 0) current (',' :: ' ' :: t) = _
  rw [pieces]
  · simp [pieces, show isBlank ' ' = true from rfl]
  · simp

end Scaffold.Css
