import Scaffold.Html.Reference
import Scaffold.Html.Token
import Scaffold.Html.Token.Comment

/-!
# Tags

Reads a tag from the first character of its name: the name, the attributes, whether the tag
closes itself, and what is left.  A tag that is still open at the end of the text is none.
-/

namespace Scaffold.Html

open Scaffold.Text

/-- The whitespace of markup; line ends are line feeds here. -/
def isSpace (c : Char) : Bool :=
  c == ' ' || c == '\t' || c == '\n' || c == '\x0c'

/-- A character of a name as it is kept. -/
def nameChar (c : Char) : Char :=
  kept c.toLower

/-- A character that ends the name of a tag. -/
def endsTagName (c : Char) : Bool :=
  isSpace c || c == '/' || c == '>'

/-- A character that ends the name of an attribute. -/
def endsAttributeName (c : Char) : Bool :=
  endsTagName c || c == '='

/-! ## Values -/

/-- Reads a value behind its opening quote. -/
def quotedValue? (quote : Char) (t : Text) : Option (Text × Text) :=
  match t with
  | [] => none
  | c :: t =>
    if c = quote then some ([], t)
    else if c = '&' then
      (quotedValue? quote (reference true t).2).map (Prod.map ((reference true t).1 ++ ·) id)
    else (quotedValue? quote t).map (Prod.map (kept c :: ·) id)
termination_by t.length
decreasing_by
  all_goals
    have := (reference_suffix true t).length_le
    simp only [List.length_cons]
    omega

/-- Reads text up to where it `stops`, told from a character and what follows it, with its
references resolved. -/
def readResolved (stops : Char → Text → Bool) (inAttribute : Bool) (t : Text) : Text × Text :=
  match t with
  | [] => ([], [])
  | c :: t =>
    if stops c t then ([], c :: t)
    else if c = '&' then
      Prod.map ((reference inAttribute t).1 ++ ·) id
        (readResolved stops inAttribute (reference inAttribute t).2)
    else Prod.map (kept c :: ·) id (readResolved stops inAttribute t)
termination_by t.length
decreasing_by
  · have := (reference_suffix inAttribute t).length_le
    simp only [List.length_cons]
    omega
  · simp

/-- Reads a value without quotes. -/
def bareValue (t : Text) : Text × Text :=
  readResolved (fun c _ => isSpace c || c == '>') true t

/-- Reads a value; what it starts with tells which kind it is. -/
def readValue? : Text → Option (Text × Text)
  | '"' :: t => quotedValue? '"' t
  | '\x27' :: t => quotedValue? '\x27' t
  | t => some (bareValue t)

theorem suffix_of_quotedValue? {quote : Char} {t value rest : Text}
    (h : quotedValue? quote t = some (value, rest)) : rest <:+ t := by
  fun_induction quotedValue? quote t generalizing value rest with
  | case1 => cases h
  | case2 t =>
    obtain ⟨-, rfl⟩ := Prod.mk.inj (Option.some.inj h)
    exact List.suffix_cons _ _
  | case3 t _ ih =>
    obtain ⟨⟨value', rest'⟩, hv, he⟩ := Option.map_eq_some_iff.1 h
    obtain ⟨-, rfl⟩ := Prod.mk.inj he
    exact ((ih hv).trans (reference_suffix true t)).trans (List.suffix_cons _ _)
  | case4 c t _ _ ih =>
    obtain ⟨⟨value', rest'⟩, hv, he⟩ := Option.map_eq_some_iff.1 h
    obtain ⟨-, rfl⟩ := Prod.mk.inj he
    exact (ih hv).trans (List.suffix_cons _ _)

theorem readResolved_suffix (stops : Char → Text → Bool) (inAttribute : Bool) (t : Text) :
    (readResolved stops inAttribute t).2 <:+ t := by
  fun_induction readResolved stops inAttribute t with
  | case1 => exact List.suffix_rfl
  | case2 => exact List.suffix_rfl
  | case3 t _ ih => exact (ih.trans (reference_suffix inAttribute t)).trans (List.suffix_cons _ _)
  | case4 c t _ _ ih => exact ih.trans (List.suffix_cons _ _)

theorem suffix_of_readValue? {t value rest : Text} (h : readValue? t = some (value, rest)) :
    rest <:+ t := by
  unfold readValue? at h
  split at h
  · exact (suffix_of_quotedValue? h).trans (List.suffix_cons _ _)
  · exact (suffix_of_quotedValue? h).trans (List.suffix_cons _ _)
  · have : (bareValue t).2 <:+ t := readResolved_suffix _ _ t
    rwa [Option.some.inj h] at this

/-! ## Attributes -/

/-- Reads the attribute whose name starts with `c` and goes on in `t`.  The first character
always belongs to the name. -/
def readAttribute? (c : Char) (t : Text) : Option (Attribute × Text) :=
  let name := nameChar c :: (t.takeWhile fun d => !endsAttributeName d).map nameChar
  let rest := t.dropWhile fun d => !endsAttributeName d
  match rest.dropWhile isSpace with
  | '=' :: value =>
    (readValue? (value.dropWhile isSpace)).map (Prod.map (fun value => { name, value }) id)
  | _ => some ({ name, value := [] }, rest)

theorem suffix_of_readAttribute? {c : Char} {t rest : Text} {a : Attribute}
    (h : readAttribute? c t = some (a, rest)) : rest <:+ t := by
  unfold readAttribute? at h
  dsimp only at h
  split at h
  · next value heq =>
    obtain ⟨⟨value', rest'⟩, hv, he⟩ := Option.map_eq_some_iff.1 h
    obtain ⟨-, rfl⟩ := Prod.mk.inj he
    have hvalue : value <:+ t.dropWhile fun d => !endsAttributeName d :=
      (List.suffix_cons '=' value).trans (heq ▸ List.dropWhile_suffix isSpace)
    exact (((suffix_of_readValue? hv).trans (List.dropWhile_suffix _)).trans hvalue).trans
      (List.dropWhile_suffix _)
  · obtain ⟨-, rfl⟩ := Prod.mk.inj (Option.some.inj h)
    exact List.dropWhile_suffix _

/-- What follows the name of a tag. -/
structure TagRest where
  attributes : List Attribute
  selfClosing : Bool
  /-- What is left behind the tag. -/
  rest : Text
  deriving DecidableEq, Repr

/-- Reads what follows the name of a tag. -/
def readTagRest? (t : Text) : Option TagRest :=
  match t with
  | [] => none
  | c :: t =>
    if isSpace c then readTagRest? t
    else if c = '>' then some { attributes := [], selfClosing := false, rest := t }
    else if c = '/' then
      match t with
      | '>' :: t => some { attributes := [], selfClosing := true, rest := t }
      | t => readTagRest? t
    else
      match _h : readAttribute? c t with
      | none => none
      | some (a, rest) =>
        (readTagRest? rest).map fun tag => { tag with attributes := a :: tag.attributes }
termination_by t.length
decreasing_by
  · simp
  · simp
  · have := (suffix_of_readAttribute? _h).length_le
    simp only [List.length_cons]
    omega

theorem suffix_of_readTagRest? {t : Text} {tag : TagRest} (h : readTagRest? t = some tag) :
    tag.rest <:+ t := by
  fun_induction readTagRest? t generalizing tag with
  | case1 => cases h
  | case2 c t _ ih => exact (ih h).trans (List.suffix_cons _ _)
  | case3 =>
    obtain rfl := Option.some.inj h
    exact List.suffix_cons _ _
  | case4 =>
    obtain rfl := Option.some.inj h
    exact (List.suffix_cons _ _).trans (List.suffix_cons _ _)
  | case5 t _ _ _ ih => exact (ih h).trans (List.suffix_cons _ _)
  | case6 => cases h
  | case7 c t _ _ _ a rest ha ih =>
    obtain ⟨tag', ht, rfl⟩ := Option.map_eq_some_iff.1 h
    exact ((ih ht).trans (suffix_of_readAttribute? ha)).trans (List.suffix_cons _ _)

/-- Of attributes of one name the first stays. -/
def distinct : List Attribute → List Attribute
  | [] => []
  | a :: as => a :: (distinct as).filter fun b => b.name != a.name

/-- A tag with what is left behind it. -/
structure Tag where
  name : Text
  attributes : List Attribute
  selfClosing : Bool
  rest : Text
  deriving DecidableEq, Repr

/-- Reads a tag from the first character of its name. -/
def readTag? (t : Text) : Option Tag :=
  (readTagRest? (t.dropWhile fun c => !endsTagName c)).map fun tag =>
    { name := (t.takeWhile fun c => !endsTagName c).map nameChar
      attributes := distinct tag.attributes
      selfClosing := tag.selfClosing
      rest := tag.rest }

theorem suffix_of_readTag? {t : Text} {tag : Tag} (h : readTag? t = some tag) :
    tag.rest <:+ t := by
  obtain ⟨tag', ht, rfl⟩ := Option.map_eq_some_iff.1 h
  exact (suffix_of_readTagRest? ht).trans (List.dropWhile_suffix _)

end Scaffold.Html
