import Scaffold.Proofs.Html.Content

/-!
# Looking ahead for a tag

A reader of text that is not markup looks ahead for the closing tag, and in a script also for the
tags of inner scripts.  What it finds can be told from the stretch that it reads and from one fact
about the text behind it: whether that starts with something that ends the name of a tag
(`endsNameAhead`).  Even this matters only where the stretch breaks off right behind the name
(`cutsName`, `breaksOff`).
-/

namespace Scaffold.Html

open Scaffold.Text

/-! ## Looking ahead -/

/-- A text with which neither a name nor a mark goes on. -/
def Severs (t : Text) : Prop :=
  ∀ c ∈ t.head?, c.isAlpha = false ∧ c ≠ '!' ∧ c ≠ '-' ∧ c ≠ '/'

/-- Whether a text starts with something that ends the name of a tag. -/
def endsNameAhead (t : Text) : Bool :=
  t.head?.any endsTagName

theorem severs_nil : Severs [] :=
  fun c hc => absurd hc (Option.not_mem_none c)

/-- A word that stands at the front of a text stands there with more behind it. -/
theorem dropWord?_append_of_some {word u rest : Text} (h : dropWord? word u = some rest)
    (t : Text) : dropWord? word (u ++ t) = some (rest ++ t) := by
  obtain ⟨front, rfl, hfront⟩ := exists_of_dropWord? h
  rw [List.append_assoc]
  exact dropWord?_append_of_lower_eq hfront (rest ++ t)

/-- A word that is not at the front does not come about by a text behind that no name goes on with.
-/
theorem dropWord?_append_of_none {word u t : Text} (hword : ∀ c ∈ word, c.isLower = true)
    (ht : Severs t) (h : dropWord? word u = none) : dropWord? word (u ++ t) = none := by
  induction word generalizing u with
  | nil => cases h
  | cons w word ih =>
    obtain ⟨hw, hword⟩ := List.forall_mem_cons.1 hword
    cases u with
    | nil =>
      cases t with
      | nil => rfl
      | cons c t =>
        rw [List.nil_append, dropWord?, if_neg]
        -- no letter of a word stands where the text was cut
        intro heq
        have hc := (ht c rfl).1
        rw [← Char.isAlpha_toLower_eq_isAlpha, ← heq, Char.isAlpha_toLower_eq_isAlpha,
          Char.isAlpha, hw, Bool.or_true] at hc
        cases hc
    | cons c u =>
      rw [dropWord?] at h
      rw [List.cons_append, dropWord?]
      split at h
      · next heq => rw [if_pos heq, ih hword h]
      · next heq => rw [if_neg heq]

/-- Whether a tag starts in front of a text is told from what stands before that text, but for a
name that is complete and has nothing behind it. -/
theorem startsTag_append {word t : Text} (hword : ∀ c ∈ word, c.isLower = true) (ht : Severs t)
    (u : Text) :
    startsTag word (u ++ t) =
      (startsTag word u || (dropWord? word u == some [] && endsNameAhead t)) := by
  unfold startsTag
  cases hdrop : dropWord? word u with
  | none =>
    rw [dropWord?_append_of_none hword ht hdrop]
    rfl
  | some rest =>
    rw [dropWord?_append_of_some hdrop]
    cases rest with
    | nil => cases t <;> rfl
    | cons c rest => simp

/-- Whether a text is the beginning of a closing tag, up to the end of the name. -/
def namesEnd (name : Text) : Text → Bool
  | '/' :: t => dropWord? name t == some []
  | _ => false

/-- A closing tag is found in the stretch, or begins there and has its name ended by what stands
behind. -/
theorem closes_append {name t : Text} (hname : ∀ c ∈ name, c.isLower = true) (ht : Severs t)
    (u : Text) :
    closes name (u ++ t) = (closes name u || (namesEnd name u && endsNameAhead t)) := by
  cases u with
  | nil =>
    cases t with
    | nil => rfl
    | cons c t =>
      have hc := (ht c rfl).2.2.2
      rw [List.nil_append, closes]
      · rfl
      · intro rest heq
        exact absurd (List.cons.inj heq).1 hc
  | cons d u =>
    by_cases hd : d = '/'
    · subst hd
      exact startsTag_append hname ht u
    · have hfalse : ∀ v : Text, closes name (d :: v) = false := by
        intro v
        rw [closes]
        intro rest heq
        exact absurd (List.cons.inj heq).1 hd
      have hnames : namesEnd name (d :: u) = false := by
        rw [namesEnd]
        intro rest heq
        exact absurd (List.cons.inj heq).1 hd
      rw [List.cons_append, hfalse, hfalse, hnames]
      rfl

/-- The mark of a comment is not finished by a text that no mark goes on with. -/
theorem isPrefixOf_dashes_append {t : Text} (ht : Severs t) (u : Text) :
    "!--".toList.isPrefixOf (u ++ t) = "!--".toList.isPrefixOf u := by
  have hne : ∀ d ∈ ['!', '-'], ∀ mark : Text, (d :: mark).isPrefixOf t = false := by
    intro d hd mark
    cases t with
    | nil => rfl
    | cons c t =>
      have hc : (d == c) = false := by
        rw [beq_eq_false_iff_ne]
        rintro rfl
        obtain ⟨-, h₁, h₂, -⟩ := ht d rfl
        simp only [List.mem_cons, List.not_mem_nil, or_false] at hd
        rcases hd with rfl | rfl
        · exact h₁ rfl
        · exact h₂ rfl
      rw [List.isPrefixOf, hc, Bool.false_and]
  show ['!', '-', '-'].isPrefixOf (u ++ t) = ['!', '-', '-'].isPrefixOf u
  rcases u with _ | ⟨a, _ | ⟨b, _ | ⟨c, u⟩⟩⟩
  · exact hne '!' (by simp) _
  · simp [List.isPrefixOf, hne '-' (by simp)]
  · simp [List.isPrefixOf, hne '-' (by simp)]
  · simp [List.isPrefixOf]

/-! ## Breaking off within a tag -/

/-- Whether a text ends right behind the name in a tag that counts in the content of `name`: the
closing tag, and in a script the tag of another script. -/
def breaksOff (name t : Text) : Bool :=
  ("</".toList ++ name).isSuffixOf (lower t) ||
    (name == scriptTag && ('<' :: name).isSuffixOf (lower t))

/-- A text breaks off within a tag if an end of it does. -/
theorem breaksOff_of_suffix {name u t : Text} (h : u <:+ t) (hu : breaksOff name u = true) :
    breaksOff name t = true := by
  have hlower : lower u <:+ lower t := by
    obtain ⟨front, rfl⟩ := h
    exact ⟨lower front, by simp [lower]⟩
  simp only [breaksOff, Bool.or_eq_true, Bool.and_eq_true, List.isSuffixOf_iff_suffix] at hu ⊢
  rcases hu with hu | ⟨hname, hu⟩
  · exact Or.inl (hu.trans hlower)
  · exact Or.inr ⟨hname, hu.trans hlower⟩

theorem lower_of_dropWord? {name t : Text} (hname : ∀ c ∈ name, c.isLower = true)
    (h : dropWord? name t = some []) : lower t = name := by
  obtain ⟨front, rfl, hfront⟩ := exists_of_dropWord? h
  have hself : name.map Char.toLower = name :=
    (List.map_congr_left fun c hc => Char.toLower_eq_of_not_isUpper
      (Char.not_isUpper_of_isLower (hname c hc))).trans (List.map_id name)
  rw [List.append_nil, hfront, lower, hself]

theorem isLower_of_mem_scriptTag : ∀ c ∈ scriptTag, c.isLower = true :=
  List.all_eq_true.1 (by decide)

/-- Whether a text, behind an opening bracket, is a tag that counts up to the end of its name. -/
def cutsName (name u : Text) : Bool :=
  namesEnd name u || (name == scriptTag && dropWord? name u == some [])

/-- What is cut at the end of a name is a closing tag, or in a script the tag of another script. -/
theorem lower_of_cutsName {name u : Text} (hname : ∀ c ∈ name, c.isLower = true)
    (h : cutsName name u = true) : lower u = '/' :: name ∨ (name = scriptTag ∧ lower u = name) := by
  simp only [cutsName, Bool.or_eq_true, Bool.and_eq_true, beq_iff_eq] at h
  rcases h with h | ⟨hscript, hword⟩
  · unfold namesEnd at h
    split at h
    · next t =>
      rw [← lower_of_dropWord? hname (beq_iff_eq.1 h)]
      exact Or.inl rfl
    · cases h
  · exact Or.inr ⟨hscript, lower_of_dropWord? hname hword⟩

/-- A text that is cut at the end of a name breaks off within the tag. -/
theorem breaksOff_of_cutsName {name u : Text} (hname : ∀ c ∈ name, c.isLower = true)
    (h : cutsName name u = true) : breaksOff name ('<' :: u) = true := by
  have htext : lower ('<' :: u) = '<' :: lower u := rfl
  rw [breaksOff, htext, Bool.or_eq_true, Bool.and_eq_true, List.isSuffixOf_iff_suffix,
    List.isSuffixOf_iff_suffix, beq_iff_eq]
  rcases lower_of_cutsName hname h with hlower | ⟨hscript, hlower⟩
  · rw [hlower]
    exact Or.inl List.suffix_rfl
  · rw [hlower]
    exact Or.inr ⟨hscript, List.suffix_rfl⟩

theorem bracket_notMem_of_cutsName {name u : Text} (hname : ∀ c ∈ name, c.isLower = true)
    (h : cutsName name u = true) : '<' ∉ u := by
  intro hmem
  have hlower : '<' ∈ lower u := List.mem_map_of_mem (f := Char.toLower) hmem
  rcases lower_of_cutsName hname h with hu | ⟨-, hu⟩
  · rw [hu] at hlower
    rcases List.mem_cons.1 hlower with heq | hlower
    · exact absurd heq (by decide)
    · exact absurd (hname _ hlower) (by decide)
  · rw [hu] at hlower
    exact absurd (hname _ hlower) (by decide)

/-- Two texts behind a stretch are the same to a closing tag, if they are to the name that the
stretch is cut at. -/
theorem closes_congr {name u s t : Text} (hname : ∀ c ∈ name, c.isLower = true) (hs : Severs s)
    (ht : Severs t) (h : cutsName name u = true → endsNameAhead s = endsNameAhead t) :
    closes name (u ++ s) = closes name (u ++ t) := by
  rw [closes_append hname hs, closes_append hname ht]
  cases hends : namesEnd name u with
  | false => rfl
  | true => rw [h (by rw [cutsName, hends, Bool.true_or])]

/-- Two texts behind a stretch lead to the same place in a script, if they are the same to the name
that the stretch is cut at. -/
theorem afterBracket_congr {u s t : Text} (hs : Severs s) (ht : Severs t)
    (h : cutsName scriptTag u = true → endsNameAhead s = endsNameAhead t) (place : ScriptPlace) :
    place.afterBracket (u ++ s) = place.afterBracket (u ++ t) := by
  cases place with
  | plain =>
    rw [ScriptPlace.afterBracket, ScriptPlace.afterBracket, isPrefixOf_dashes_append hs,
      isPrefixOf_dashes_append ht]
  | escaped dashes =>
    rw [ScriptPlace.afterBracket, ScriptPlace.afterBracket,
      startsTag_append isLower_of_mem_scriptTag hs, startsTag_append isLower_of_mem_scriptTag ht]
    cases hword : dropWord? scriptTag u == some [] with
    | false => rfl
    | true => rw [h (by rw [cutsName, hword, beq_self_eq_true, Bool.true_and, Bool.or_true])]
  | nested dashes =>
    rw [ScriptPlace.afterBracket, ScriptPlace.afterBracket,
      closes_congr isLower_of_mem_scriptTag hs ht h]

end Scaffold.Html
