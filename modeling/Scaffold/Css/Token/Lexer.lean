import Scaffold.Css.Token

/-!
# Reading the next token

`lex` takes the first token off a text and returns what is left, which is always shorter
(`length_lt_of_lex`).  The text is read as it stands: no character is replaced beforehand, and
whatever is left open at the end of the text (a comment, a string, an address) ends there.
-/

namespace Scaffold.Css

open Scaffold.Text

/-! ## Character classes -/

/-- A line ends at a line feed, a carriage return or a form feed. -/
def isNewline (c : Char) : Bool :=
  c == '\n' || c == '\r' || c == '\x0c'

/-- The whitespace of style sheets. -/
def isSpace (c : Char) : Bool :=
  c == ' ' || c == '\t' || isNewline c

/-- A character with which a name can start, a hyphen or an escape apart. -/
def isNameStart (c : Char) : Bool :=
  c.isAlpha || c == '_' || c == nul || 0x80 ≤ c.toNat

/-- A character that stands for itself inside a name. -/
def isNameChar (c : Char) : Bool :=
  c.isAlphanum || c == '_' || c == '-' || 0x80 ≤ c.toNat

/-- A character that spoils an address without quotes. -/
def spoilsUrl (c : Char) : Bool :=
  let n := c.toNat
  (1 ≤ n && n ≤ 8) || n == 0x0b || (0x0e ≤ n && n ≤ 0x1f) || n == 0x7f ||
    c == '"' || c == '\x27' || c == '('

/-- Whether a text starts with the end of a line. -/
def startsNewline : Text → Bool
  | [] => false
  | c :: _ => isNewline c

/-- Whether a text starts with a digit. -/
def startsDigit : Text → Bool
  | [] => false
  | c :: _ => c.isDigit

/-- Whether a text starts with the unsigned part of a number. -/
def startsNumber : Text → Bool
  | '.' :: t => startsDigit t
  | t => startsDigit t

/-- Whether a text starts with an identifier.  A hyphen and a backslash start one whatever
follows. -/
def startsIdent : Text → Bool
  | [] => false
  | '-' :: [] => false
  | '-' :: c :: _ => isNameStart c || c == '-' || c == '\\'
  | '\\' :: t => !startsNewline t
  | c :: _ => isNameStart c

/-! ## Escapes and names -/

/-- Drops one whitespace character; a carriage return and a line feed count as one. -/
def dropSpace : Text → Text
  | '\r' :: '\n' :: t => t
  | c :: t => if isSpace c then t else c :: t
  | [] => []

/-- The character that an escaped code stands for. -/
def ofCode (n : Nat) : Char :=
  if n ≠ 0 ∧ n.isValidChar then Char.ofNat n else replacement

/-- Reads what follows a backslash: up to six hexadecimal digits and one whitespace character
behind them, or any one character. -/
def escape : Text → Char × Text
  | [] => (replacement, [])
  | c :: t =>
    if isHexDigit c then
      let digits := ((c :: t).take 6).takeWhile isHexDigit
      (ofCode (number 16 digits), dropSpace ((c :: t).drop digits.length))
    else if c = nul then (replacement, t)
    else (c, t)

theorem dropSpace_suffix (t : Text) : dropSpace t <:+ t := by
  unfold dropSpace
  split
  · exact (List.suffix_cons _ _).trans (List.suffix_cons _ _)
  · split
    · exact List.suffix_cons _ _
    · exact List.suffix_rfl
  · exact List.suffix_rfl

theorem escape_suffix (t : Text) : (escape t).2 <:+ t := by
  unfold escape
  split
  · exact List.suffix_rfl
  · split
    · exact (dropSpace_suffix _).trans (List.drop_suffix _ _)
    · split
      · exact List.suffix_cons _ _
      · exact List.suffix_cons _ _

/-- Reads a name, resolving its escapes; returns it with what is left. -/
def name (t : Text) : Text × Text :=
  match t with
  | [] => ([], [])
  | c :: t =>
    if c = '\\' then
      if startsNewline t then ([], c :: t)
      else Prod.map ((escape t).1 :: ·) id (name (escape t).2)
    else if c = nul then Prod.map (replacement :: ·) id (name t)
    else if isNameChar c then Prod.map (c :: ·) id (name t)
    else ([], c :: t)
termination_by t.length
decreasing_by
  all_goals
    have := (escape_suffix t).length_le
    simp only [List.length_cons]
    omega

theorem name_suffix (t : Text) : (name t).2 <:+ t := by
  fun_induction name t with
  | case1 => exact List.suffix_rfl
  | case2 t _ => exact List.suffix_rfl
  | case3 t _ ih => exact (ih.trans (escape_suffix t)).trans (List.suffix_cons _ _)
  | case4 t _ ih => exact ih.trans (List.suffix_cons _ _)
  | case5 c t _ _ _ ih => exact ih.trans (List.suffix_cons _ _)
  | case6 c t => exact List.suffix_rfl

/-- A name that starts with a character of its own takes at least that one. -/
theorem name_cons_suffix {c : Char} {t : Text}
    (h : c = '\\' ∧ startsNewline t = false ∨ c = nul ∨ isNameChar c = true) :
    (name (c :: t)).2 <:+ t := by
  have hescape : (name (escape t).2).2 <:+ t := (name_suffix _).trans (escape_suffix t)
  rw [name]
  split
  · next hc =>
    rcases h with ⟨-, hn⟩ | hn | hn
    · rw [hn]
      exact hescape
    · exact absurd (hc.symm.trans hn) (by decide)
    · subst hc
      exact absurd hn (by decide)
  · next hc =>
    split
    · exact name_suffix t
    · next hz =>
      rcases h with ⟨h, -⟩ | h | h
      · exact absurd h hc
      · exact absurd h hz
      · rw [if_pos h]
        exact name_suffix t

/-! ## Comments, strings, addresses, numbers -/

/-- Reads a comment behind its opening mark: its body, and what is left. -/
def comment : Text → Text × Text
  | [] => ([], [])
  | '*' :: '/' :: t => ([], t)
  | c :: t => Prod.map (c :: ·) id (comment t)

theorem comment_suffix (t : Text) : (comment t).2 <:+ t := by
  fun_induction comment t with
  | case1 => exact List.suffix_rfl
  | case2 t => exact (List.suffix_cons _ _).trans (List.suffix_cons _ _)
  | case3 c t _ ih => exact ih.trans (List.suffix_cons _ _)

/-- Reads a string behind its opening quote.  A line that ends before the string does leaves a
bad string, which ends before the end of the line. -/
def quoted (quote : Char) (t : Text) : Token × Text :=
  match t with
  | [] => (.string, [])
  | c :: t =>
    if c = quote then (.string, t)
    else if isNewline c then (.badString, c :: t)
    else if c = '\\' then
      if startsNewline t then quoted quote (dropSpace t) else quoted quote (escape t).2
    else quoted quote t
termination_by t.length
decreasing_by
  all_goals
    have := (escape_suffix t).length_le
    have := (dropSpace_suffix t).length_le
    simp only [List.length_cons]
    omega

theorem quoted_suffix (quote : Char) (t : Text) : (quoted quote t).2 <:+ t := by
  fun_induction quoted quote t with
  | case1 => exact List.suffix_rfl
  | case2 t => exact List.suffix_cons _ _
  | case3 c t _ _ => exact List.suffix_rfl
  | case4 t _ _ _ ih => exact (ih.trans (dropSpace_suffix t)).trans (List.suffix_cons _ _)
  | case5 t _ _ _ ih => exact (ih.trans (escape_suffix t)).trans (List.suffix_cons _ _)
  | case6 c t _ _ _ ih => exact ih.trans (List.suffix_cons _ _)

/-- What is left behind an address that was spoiled: it runs up to its closing bracket, and an
escaped bracket or backslash does not close it. -/
def afterBadUrl : Text → Text
  | [] => []
  | ')' :: t => t
  | '\\' :: ')' :: t => afterBadUrl t
  | '\\' :: '\\' :: t => afterBadUrl t
  | _ :: t => afterBadUrl t

theorem afterBadUrl_suffix (t : Text) : afterBadUrl t <:+ t := by
  fun_induction afterBadUrl t with
  | case1 => exact List.suffix_rfl
  | case2 t => exact List.suffix_cons _ _
  | case3 t ih => exact (ih.trans (List.suffix_cons _ _)).trans (List.suffix_cons _ _)
  | case4 t ih => exact (ih.trans (List.suffix_cons _ _)).trans (List.suffix_cons _ _)
  | case5 c t _ _ _ ih => exact ih.trans (List.suffix_cons _ _)

/-- Reads the whitespace behind an address without quotes, and its closing bracket. -/
def urlEnd (t : Text) : Token × Text :=
  match t.dropWhile isSpace with
  | [] => (.url, [])
  | ')' :: t => (.url, t)
  | _ :: t => (.badUrl, afterBadUrl t)

theorem urlEnd_suffix (t : Text) : (urlEnd t).2 <:+ t := by
  have hdrop := List.dropWhile_suffix isSpace (l := t)
  unfold urlEnd
  split
  · exact List.nil_suffix
  · next heq =>
    rw [heq] at hdrop
    exact (List.suffix_cons _ _).trans hdrop
  · next heq =>
    rw [heq] at hdrop
    exact ((afterBadUrl_suffix _).trans (List.suffix_cons _ _)).trans hdrop

/-- Reads an address without quotes, from its first character. -/
def urlBody (t : Text) : Token × Text :=
  match t with
  | [] => (.url, [])
  | c :: t =>
    if isSpace c then urlEnd (c :: t)
    else if c = ')' then (.url, t)
    else if spoilsUrl c then (.badUrl, afterBadUrl t)
    else if c = '\\' then
      if startsNewline t then (.badUrl, afterBadUrl t) else urlBody (escape t).2
    else urlBody t
termination_by t.length
decreasing_by
  all_goals
    have := (escape_suffix t).length_le
    simp only [List.length_cons]
    omega

theorem urlBody_suffix (t : Text) : (urlBody t).2 <:+ t := by
  fun_induction urlBody t with
  | case1 => exact List.suffix_rfl
  | case2 c t _ => exact urlEnd_suffix _
  | case3 t => exact List.suffix_cons _ _
  | case4 c t _ _ _ => exact (afterBadUrl_suffix t).trans (List.suffix_cons _ _)
  | case5 t _ _ _ _ => exact (afterBadUrl_suffix t).trans (List.suffix_cons _ _)
  | case6 t _ _ _ _ ih => exact (ih.trans (escape_suffix t)).trans (List.suffix_cons _ _)
  | case7 c t _ _ _ _ ih => exact ih.trans (List.suffix_cons _ _)

/-- Reads what follows `url(`.  With a quoted argument it is an ordinary function, whose block
is left unread. -/
def url (functionName t : Text) : Token × Text :=
  match t.dropWhile isSpace with
  | [] => (.url, [])
  | c :: rest =>
    if c = '"' ∨ c = '\x27' then (.function functionName, t) else urlBody (c :: rest)

theorem url_suffix (functionName t : Text) : (url functionName t).2 <:+ t := by
  have hdrop := List.dropWhile_suffix isSpace (l := t)
  unfold url
  split
  · exact List.nil_suffix
  · next heq =>
    rw [heq] at hdrop
    split
    · exact List.suffix_rfl
    · exact (urlBody_suffix _).trans hdrop

/-- Reads an identifier, a function's name with its bracket, or an address. -/
def identLike (t : Text) : Token × Text :=
  match name t with
  | (n, '(' :: rest) => if lower n = "url".toList then url n rest else (.function n, rest)
  | (n, rest) => (.ident n, rest)

theorem identLike_suffix (t : Text) : (identLike t).2 <:+ (name t).2 := by
  unfold identLike
  split
  · next n rest heq =>
    rw [heq]
    split
    · exact (url_suffix n rest).trans (List.suffix_cons _ _)
    · exact List.suffix_cons _ _
  · next heq => simp only [heq, List.suffix_refl]

/-- What is left behind the digits after a decimal point, if there are any. -/
def afterFraction : Text → Text
  | '.' :: d :: t => if d.isDigit then t.dropWhile Char.isDigit else '.' :: d :: t
  | t => t

/-- What is left behind an exponent, if there is one. -/
def afterExponent : Text → Text
  | e :: d :: t =>
    if e = 'e' ∨ e = 'E' then
      if d.isDigit then t.dropWhile Char.isDigit
      else if (d = '+' ∨ d = '-') ∧ startsDigit t then t.dropWhile Char.isDigit
      else e :: d :: t
    else e :: d :: t
  | t => t

/-- What is left behind the unit of a number, if there is one. -/
def afterUnit : Text → Text
  | '%' :: t => t
  | t => if startsIdent t then (name t).2 else t

/-- What is left behind a number, read from inside its leading digits. -/
def afterNumber (t : Text) : Text :=
  afterUnit (afterExponent (afterFraction (t.dropWhile Char.isDigit)))

theorem afterFraction_suffix (t : Text) : afterFraction t <:+ t := by
  unfold afterFraction
  split
  · split
    · exact ((List.dropWhile_suffix _).trans (List.suffix_cons _ _)).trans (List.suffix_cons _ _)
    · exact List.suffix_rfl
  · exact List.suffix_rfl

theorem afterExponent_suffix (t : Text) : afterExponent t <:+ t := by
  unfold afterExponent
  split
  · next e d u =>
    have hdigits : u.dropWhile Char.isDigit <:+ e :: d :: u :=
      ((List.dropWhile_suffix _).trans (List.suffix_cons _ _)).trans (List.suffix_cons _ _)
    split
    · split
      · exact hdigits
      · split
        · exact hdigits
        · exact List.suffix_rfl
    · exact List.suffix_rfl
  · exact List.suffix_rfl

theorem afterUnit_suffix (t : Text) : afterUnit t <:+ t := by
  unfold afterUnit
  split
  · exact List.suffix_cons _ _
  · split
    · exact name_suffix _
    · exact List.suffix_rfl

theorem afterNumber_suffix (t : Text) : afterNumber t <:+ t :=
  ((afterUnit_suffix _).trans (afterExponent_suffix _)).trans
    ((afterFraction_suffix _).trans (List.dropWhile_suffix _))

/-! ## The next token -/

/-- Reads the token that starts with `c` and goes on in `t`. -/
def lexFrom (c : Char) (t : Text) : Token × Text :=
  if isSpace c then (.space, t.dropWhile isSpace)
  else if c = '"' ∨ c = '\x27' then quoted c t
  else if c.isDigit then (.number, afterNumber t)
  else if isNameStart c then identLike (c :: t)
  else match c, t with
    | '\\', t => if startsNewline t then (.delim '\\', t) else identLike ('\\' :: t)
    | '#', t =>
      if startsIdent t || startsDigit t || t.head? == some '-' then
        (.hash (name t).1, (name t).2)
      else (.delim '#', t)
    | '@', t => if startsIdent t then (.atKeyword (name t).1, (name t).2) else (.delim '@', t)
    | '+', t => if startsNumber t then (.number, afterNumber t) else (.delim '+', t)
    | '.', t =>
      if startsDigit t then (.number, afterUnit (afterExponent (t.dropWhile Char.isDigit)))
      else (.delim '.', t)
    | '-', t =>
      if startsNumber t then (.number, afterNumber t)
      else match t with
        | '-' :: '>' :: t => (.commentClose, t)
        | t => if startsIdent ('-' :: t) then identLike ('-' :: t) else (.delim '-', t)
    | '/', '*' :: t => (.comment (comment t).1, (comment t).2)
    | '<', '!' :: '-' :: '-' :: t => (.commentOpen, t)
    | '(', t => (.opening .round, t)
    | ')', t => (.closing .round, t)
    | '[', t => (.opening .square, t)
    | ']', t => (.closing .square, t)
    | '{', t => (.opening .curly, t)
    | '}', t => (.closing .curly, t)
    | ':', t => (.colon, t)
    | ';', t => (.semicolon, t)
    | ',', t => (.comma, t)
    | c, t => (.delim c, t)

/-- Reads the first token of a text; nothing is left to read only at its end. -/
def lex : Text → Option (Token × Text)
  | [] => none
  | c :: t => some (lexFrom c t)

/-- What a token leaves is an end of what stands behind its first character. -/
theorem lexFrom_suffix (c : Char) (t : Text) : (lexFrom c t).2 <:+ t := by
  unfold lexFrom
  split
  · exact List.dropWhile_suffix _
  split
  · exact quoted_suffix _ _
  split
  · exact afterNumber_suffix _
  split
  · next h =>
    refine (identLike_suffix _).trans (name_cons_suffix ?_)
    simp only [isNameStart, isNameChar, Char.isAlphanum, Bool.or_eq_true, beq_iff_eq] at h ⊢
    grind
  split
  · split
    · exact List.suffix_rfl
    · next h => exact (identLike_suffix _).trans (name_cons_suffix (Or.inl ⟨rfl, by simpa using h⟩))
  · split
    · exact name_suffix _
    · exact List.suffix_rfl
  · split
    · exact name_suffix _
    · exact List.suffix_rfl
  · split
    · exact afterNumber_suffix _
    · exact List.suffix_rfl
  · split
    · exact ((afterUnit_suffix _).trans (afterExponent_suffix _)).trans (List.dropWhile_suffix _)
    · exact List.suffix_rfl
  · split
    · exact afterNumber_suffix _
    · split
      · exact (List.suffix_cons _ _).trans (List.suffix_cons _ _)
      · split
        · exact (identLike_suffix _).trans (name_cons_suffix (Or.inr (Or.inr (by decide))))
        · exact List.suffix_rfl
  · exact (comment_suffix _).trans (List.suffix_cons _ _)
  · exact ((List.suffix_cons _ _).trans (List.suffix_cons _ _)).trans (List.suffix_cons _ _)
  all_goals exact List.suffix_rfl

theorem suffix_of_lex {t rest : Text} {token : Token} (h : lex t = some (token, rest)) :
    rest <:+ t := by
  cases t with
  | nil => cases h
  | cons c t =>
    have hrest := (lexFrom_suffix c t).trans (List.suffix_cons c t)
    rwa [Option.some.inj h] at hrest

/-- Reading a token always takes something off the text. -/
theorem length_lt_of_lex {t rest : Text} {token : Token} (h : lex t = some (token, rest)) :
    rest.length < t.length := by
  cases t with
  | nil => cases h
  | cons c t =>
    have hlength := (lexFrom_suffix c t).length_le
    rw [Option.some.inj h] at hlength
    exact Nat.lt_succ_of_le hlength

@[simp] theorem lex_eq_none_iff {t : Text} : lex t = none ↔ t = [] := by
  cases t <;> simp [lex]

end Scaffold.Css
