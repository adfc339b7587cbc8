import Scaffold.Proofs.Html.Lookahead
import Scaffold.Proofs.Html.Writing

/-!
# Text that is printed as it stands

The text of scripts and style sheets is printed without escapes, so where it ends when it is read
again is up to what it says.  `readVerbatim` reads both kinds of text.  A stretch of such a text
takes the reader from one place to another (`across`) unless it holds the closing tag (`staysOpen`),
and does the same in front of another text that looks the same to an unfinished tag (`Alike`).
-/

namespace Scaffold.Html

open Scaffold.Text

/-! ## Reading verbatim text -/

namespace ScriptPlace

/-- A place at which no hyphen was read. -/
def calm : ScriptPlace → ScriptPlace
  | .plain => .plain
  | .escaped _ => .escaped 0
  | .nested _ => .nested 0

/-- The place behind a character with `rest` behind it.  Text other than a script has but one. -/
def next (name : Text) (c : Char) (rest : Text) (place : ScriptPlace) : ScriptPlace :=
  if name = scriptTag then if c = '<' then place.afterBracket rest else place.after c
  else place.calm

/-- The place at the end of a stretch that `behind` stands behind. -/
def across (name behind : Text) : ScriptPlace → Text → ScriptPlace
  | place, [] => place
  | place, c :: t => (place.next name c (t ++ behind)).across name behind t

/-- Whether no closing tag ends the text within a stretch that `behind` stands behind. -/
def staysOpen (name behind : Text) : ScriptPlace → Text → Bool
  | _, [] => true
  | place, c :: t =>
    !(c == '<' && place.canClose && closes name (t ++ behind)) &&
      (place.next name c (t ++ behind)).staysOpen name behind t

end ScriptPlace

/-- Reads text up to the closing tag of `name`, from a place in a script or in any other text. -/
def readVerbatim (name : Text) (place : ScriptPlace) : Text → Text × Text
  | [] => ([], [])
  | c :: t =>
    if c == '<' && place.canClose && closes name t then ([], c :: t)
    else Prod.map (kept c :: ·) id (readVerbatim name (place.next name c t) t)

/-- Raw text is read as verbatim text at the one place that it has. -/
theorem readRaw_eq {name : Text} (h : name ≠ scriptTag) (t : Text) :
    readRaw name t = readVerbatim name .plain t := by
  induction t with
  | nil => rfl
  | cons c t ih =>
    rw [readRaw, readVerbatim, ScriptPlace.next, if_neg h, ih]
    simp [ScriptPlace.canClose, ScriptPlace.calm]

/-- The text of a script is read as verbatim text of that name. -/
theorem readScript_eq (place : ScriptPlace) (t : Text) :
    readScript place t = readVerbatim scriptTag place t := by
  induction t generalizing place with
  | nil => rfl
  | cons c t ih =>
    rw [readScript, readVerbatim, ScriptPlace.next, if_pos rfl, ih, ih]
    by_cases hc : c = '<'
    · subst hc
      simp [kept, nul]
    · simp [hc]

namespace ScriptPlace

/-- The place at the end of a text is reached stretch by stretch. -/
theorem across_append (name y : Text) (place : ScriptPlace) (u v : Text) :
    place.across name y (u ++ v) = (place.across name (v ++ y) u).across name y v := by
  induction u generalizing place with
  | nil => rfl
  | cons c u ih => rw [List.cons_append, across, ih, across, List.append_assoc]

/-- A text holds no closing tag if neither of its stretches does, each read from its place. -/
theorem staysOpen_append (name y : Text) (place : ScriptPlace) (u v : Text) :
    place.staysOpen name y (u ++ v) =
      (place.staysOpen name (v ++ y) u && (place.across name (v ++ y) u).staysOpen name y v) := by
  induction u generalizing place with
  | nil => rfl
  | cons c u ih =>
    rw [List.cons_append, staysOpen, ih, staysOpen, across, List.append_assoc]
    exact (Bool.and_assoc _ _ _).symm

/-- A text without an opening bracket holds no closing tag. -/
theorem staysOpen_of_notMem {u : Text} (h : '<' ∉ u) (name y : Text) (place : ScriptPlace) :
    place.staysOpen name y u = true := by
  induction u generalizing place with
  | nil => rfl
  | cons c u ih =>
    simp only [List.mem_cons, not_or] at h
    rw [staysOpen, ih h.2, beq_false_of_ne (Ne.symm h.1)]
    rfl

end ScriptPlace

/-- A stretch without the closing tag is read on to what stands behind it. -/
theorem readVerbatim_append {name u y : Text} {place : ScriptPlace}
    (h : place.staysOpen name y u = true) :
    (readVerbatim name place (u ++ y)).2 = (readVerbatim name (place.across name y u) y).2 := by
  induction u generalizing place with
  | nil => rfl
  | cons c u ih =>
    rw [ScriptPlace.staysOpen, Bool.and_eq_true, Bool.not_eq_true'] at h
    rw [List.cons_append, readVerbatim, h.1, ScriptPlace.across, ← ih h.2]
    rfl

/-- A text that holds no closing tag is read to its end. -/
theorem readVerbatim_of_staysOpen {name u : Text} {place : ScriptPlace}
    (h : place.staysOpen name [] u = true) : (readVerbatim name place u).2 = [] := by
  have hread := readVerbatim_append h
  rwa [List.append_nil] at hread

/-- Reading stops at the closing tag, where one can end the text. -/
theorem readVerbatim_closeTag {place : ScriptPlace} (h : place.canClose = true) (name t : Text) :
    (readVerbatim name place (closeTag name ++ t)).2 = closeTag name ++ t := by
  have htext : closeTag name ++ t = '<' :: '/' :: (name ++ '>' :: t) := by
    simp [closeTag]
  rw [htext, readVerbatim, h, closes_closeTag]
  rfl

/-- What is read is the text in front of what is left.  It has no closing tag in it; what is left is
empty or starts with one. -/
theorem readVerbatim_spec (name : Text) (place : ScriptPlace) (t : Text) :
    ∃ u rest, t = u ++ rest ∧ readVerbatim name place t = (u.map kept, rest) ∧
      place.staysOpen name rest u = true ∧
      (rest = [] ∨ ∃ v, rest = '<' :: v ∧ closes name v = true ∧
        (place.across name rest u).canClose = true) := by
  induction t generalizing place with
  | nil => exact ⟨[], [], rfl, rfl, rfl, Or.inl rfl⟩
  | cons c t ih =>
    rw [readVerbatim]
    split
    · next h =>
      simp only [Bool.and_eq_true, beq_iff_eq] at h
      obtain ⟨⟨rfl, hcan⟩, hcloses⟩ := h
      exact ⟨[], '<' :: t, rfl, rfl, rfl, Or.inr ⟨t, rfl, hcloses, hcan⟩⟩
    · next h =>
      obtain ⟨u, rest, rfl, hread, hopen, hrest⟩ := ih (place.next name c t)
      refine ⟨c :: u, rest, rfl, by rw [hread]; rfl, ?_, hrest⟩
      rw [ScriptPlace.staysOpen, hopen, Bool.and_true, Bool.eq_false_iff.2 h]
      rfl

/-! ## The same text elsewhere -/

/-- A character leads to the same place in front of two texts that look the same to a name that is
cut there. -/
theorem ScriptPlace.next_congr {name u s t : Text} {c : Char} (hs : Severs s) (ht : Severs t)
    (h : c = '<' → cutsName name u = true → endsNameAhead s = endsNameAhead t)
    (place : ScriptPlace) : place.next name c (u ++ s) = place.next name c (u ++ t) := by
  unfold next
  split
  · next hname =>
    subst hname
    split
    · next hc => exact afterBracket_congr hs ht (h hc) place
    · rfl
  · rfl

/-- Two texts behind `u` that look the same to a tag that is unfinished in `u`, if there is one. -/
structure Alike (name u s t : Text) : Prop where
  left : Severs s
  right : Severs t
  ahead : breaksOff name u = true → endsNameAhead s = endsNameAhead t

namespace Alike

variable {name u s t : Text}

theorem tail {c : Char} (h : Alike name (c :: u) s t) : Alike name u s t :=
  ⟨h.left, h.right, fun hu => h.ahead (breaksOff_of_suffix (List.suffix_cons c u) hu)⟩

theorem ahead_of_cutsName (hname : ∀ c ∈ name, c.isLower = true) (h : Alike name ('<' :: u) s t)
    (hu : cutsName name u = true) : endsNameAhead s = endsNameAhead t :=
  h.ahead (breaksOff_of_cutsName hname hu)

theorem next_eq (hname : ∀ c ∈ name, c.isLower = true) {c : Char} (h : Alike name (c :: u) s t)
    (place : ScriptPlace) : place.next name c (u ++ s) = place.next name c (u ++ t) := by
  refine ScriptPlace.next_congr h.left h.right (fun hc => ?_) place
  subst hc
  exact h.ahead_of_cutsName hname

/-- A stretch leads to the same place in front of texts that are alike. -/
theorem across_eq (hname : ∀ c ∈ name, c.isLower = true) (h : Alike name u s t)
    (place : ScriptPlace) : place.across name s u = place.across name t u := by
  induction u generalizing place with
  | nil => rfl
  | cons c u ih => rw [ScriptPlace.across, ScriptPlace.across, h.next_eq hname, ih h.tail]

/-- A stretch holds a closing tag in front of one text just if it does in front of a text that is
alike. -/
theorem staysOpen_eq (hname : ∀ c ∈ name, c.isLower = true) (h : Alike name u s t)
    (place : ScriptPlace) : place.staysOpen name s u = place.staysOpen name t u := by
  induction u generalizing place with
  | nil => rfl
  | cons c u ih =>
    rw [ScriptPlace.staysOpen, ScriptPlace.staysOpen, h.next_eq hname, ih h.tail]
    by_cases hc : c = '<'
    · subst hc
      rw [closes_congr hname h.left h.right (h.ahead_of_cutsName hname)]
    · rw [beq_false_of_ne hc]
      rfl

end Alike

/-- Nothing and a bracket look the same to an unfinished tag. -/
theorem alike_bracket (name u t : Text) : Alike name u ('<' :: t) [] :=
  ⟨fun c hc => by
      obtain rfl := Option.some.inj hc
      decide,
    severs_nil, fun _ => rfl⟩

/-! ## Characters that cannot be kept -/

theorem kept_eq_iff {c d : Char} (hd : d ≠ replacement) (hd' : d ≠ nul) : kept c = d ↔ c = d := by
  constructor
  · intro h
    by_contra hne
    exact kept_ne hne hd h
  · rintro rfl
    exact kept_eq hd'

/-- Replacing null characters neither makes nor breaks a word of letters. -/
theorem dropWord?_map_kept {word : Text} (hword : ∀ c ∈ word, c.isLower = true) (t : Text) :
    dropWord? word (t.map kept) = (dropWord? word t).map (List.map kept) := by
  induction word generalizing t with
  | nil => rfl
  | cons w word ih =>
    obtain ⟨hw, hword⟩ := List.forall_mem_cons.1 hword
    cases t with
    | nil => rfl
    | cons c t =>
      have hiff : w.toLower = (kept c).toLower ↔ w.toLower = c.toLower := by
        by_cases hc : c = nul
        · subst hc
          have hself := Char.toLower_eq_of_not_isUpper (Char.not_isUpper_of_isLower hw)
          rw [hself]
          apply iff_of_false <;> exact ne_of_apply_ne Char.isLower (hw.trans_ne (by decide))
        · rw [kept_eq hc]
      rw [List.map_cons, dropWord?, dropWord?, ih hword]
      simp only [hiff]
      split <;> rfl

theorem endsTagName_kept (c : Char) : endsTagName (kept c) = endsTagName c := by
  by_cases hc : c = nul
  · subst hc
    rfl
  · rw [kept_eq hc]

theorem startsTag_map_kept {word : Text} (hword : ∀ c ∈ word, c.isLower = true) (t : Text) :
    startsTag word (t.map kept) = startsTag word t := by
  rw [startsTag, startsTag, dropWord?_map_kept hword]
  cases dropWord? word t with
  | none => rfl
  | some rest =>
    cases rest with
    | nil => rfl
    | cons c rest => exact endsTagName_kept c

/-- Replacing null characters neither makes nor breaks a closing tag. -/
theorem closes_map_kept {name : Text} (hname : ∀ c ∈ name, c.isLower = true) (t : Text) :
    closes name (t.map kept) = closes name t := by
  cases t with
  | nil => rfl
  | cons c t =>
    by_cases hc : c = '/'
    · subst hc
      exact startsTag_map_kept hname t
    · have hc' : kept c ≠ '/' := kept_ne hc (by decide)
      rw [List.map_cons, closes, closes]
      · intro rest heq
        exact absurd (List.cons.inj heq).1 hc
      · intro rest heq
        exact absurd (List.cons.inj heq).1 hc'

theorem isPrefixOf_map_kept {mark : Text} (h : ∀ d ∈ mark, d ≠ replacement ∧ d ≠ nul) (t : Text) :
    mark.isPrefixOf (t.map kept) = mark.isPrefixOf t := by
  induction mark generalizing t with
  | nil => rfl
  | cons d mark ih =>
    obtain ⟨⟨hd, hd'⟩, hmark⟩ := List.forall_mem_cons.1 h
    cases t with
    | nil => rfl
    | cons c t =>
      have hbeq : (d == kept c) = (d == c) := by
        rw [Bool.eq_iff_iff, beq_iff_eq, beq_iff_eq, eq_comm, kept_eq_iff hd hd', eq_comm]
      rw [List.map_cons, List.isPrefixOf, List.isPrefixOf, ih hmark, hbeq]

namespace ScriptPlace

theorem next_kept (name : Text) (c : Char) (t : Text) (place : ScriptPlace) :
    place.next name (kept c) (t.map kept) = place.next name c t := by
  have hmark : "!--".toList.isPrefixOf (t.map kept) = "!--".toList.isPrefixOf t :=
    isPrefixOf_map_kept (fun d hd => by
      have hd : d = '!' ∨ d = '-' := by simpa using hd
      rcases hd with rfl | rfl <;> decide) t
  have hafter : place.afterBracket (t.map kept) = place.afterBracket t := by
    cases place with
    | plain => rw [afterBracket, afterBracket, hmark]
    | escaped => rw [afterBracket, afterBracket, startsTag_map_kept isLower_of_mem_scriptTag]
    | nested => rw [afterBracket, afterBracket, closes_map_kept isLower_of_mem_scriptTag]
  have hchar : place.after (kept c) = place.after c := by
    have hdash := kept_eq_iff (c := c) (d := '-') (by decide) (by decide)
    have hbracket := kept_eq_iff (c := c) (d := '>') (by decide) (by decide)
    cases place <;> simp only [after, hdash, hbracket]
  simp only [next, hafter, hchar, kept_eq_iff (c := c) (d := '<') (by decide) (by decide)]

/-- Replacing null characters makes no difference to the place behind a text. -/
theorem across_map_kept (name : Text) (place : ScriptPlace) (u : Text) :
    place.across name [] (u.map kept) = place.across name [] u := by
  induction u generalizing place with
  | nil => rfl
  | cons c u ih =>
    rw [List.map_cons, across, across, ih, List.append_nil, List.append_nil, next_kept]

/-- Replacing null characters makes no difference to where a text ends. -/
theorem staysOpen_map_kept {name : Text} (hname : ∀ c ∈ name, c.isLower = true)
    (place : ScriptPlace) (u : Text) :
    place.staysOpen name [] (u.map kept) = place.staysOpen name [] u := by
  induction u generalizing place with
  | nil => rfl
  | cons c u ih =>
    have hc : (kept c == '<') = (c == '<') := by
      rw [Bool.eq_iff_iff, beq_iff_eq, beq_iff_eq, kept_eq_iff (by decide) (by decide)]
    rw [List.map_cons, staysOpen, staysOpen, ih, List.append_nil, List.append_nil, next_kept,
      closes_map_kept hname, hc]

end ScriptPlace

end Scaffold.Html
