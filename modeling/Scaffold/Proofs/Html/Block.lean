import Scaffold.Proofs.Html.Verbatim
import Scaffold.Proofs.Text.Trim

/-!
# Verbatim text in lines

A text that is printed as it stands is laid out with its lines trimmed and moved.  This does not
change where it ends when it is read again, if no line that breaks off gets a blank behind it that
was not there (`staysOpen_block`).  In a text without a closing tag the last line may break off: the
closing tag that it becomes has no bracket (`readVerbatim_block`).
-/

namespace Scaffold.Html

open Scaffold.Text

/-! ## Blanks -/

theorem isAlpha_of_isBlank {c : Char} (h : isBlank c = true) : c.isAlpha = false := by
  have hval : c.val.toNat = c.toNat := rfl
  have hbounds : 'A'.val.toNat = 65 ∧ 'Z'.val.toNat = 90 ∧ 'a'.val.toNat = 97 ∧
      'z'.val.toNat = 122 := ⟨rfl, rfl, rfl, rfl⟩
  simp only [isBlank, Bool.or_eq_true, Bool.and_eq_true, decide_eq_true_eq, beq_iff_eq] at h
  simp only [Char.isAlpha, Char.isUpper, Char.isLower, Bool.or_eq_false_iff,
    Bool.and_eq_false_iff, decide_eq_false_iff_not, ge_iff_le, UInt32.le_iff_toNat_le, hval]
  omega

theorem blank_of_mem_newline : ∀ c ∈ ['\n'], isBlank c = true :=
  List.all_eq_true.1 (by decide)

/-- No name and no mark goes on with a blank. -/
theorem severs_of_blank {c : Char} (h : isBlank c = true) (t : Text) : Severs (c :: t) := by
  intro d hd
  obtain rfl := Option.some.inj hd
  refine ⟨isAlpha_of_isBlank h, ?_, ?_, ?_⟩ <;>
    exact ne_of_apply_ne isBlank (h.trans_ne (by decide))

theorem severs_trailing (t : Text) {s : Text} (hs : Severs s) : Severs (trailing t ++ s) := by
  cases htrailing : trailing t with
  | nil => exact hs
  | cons c u =>
    exact severs_of_blank (blank_of_mem_trailing t c (htrailing ▸ List.mem_cons_self)) _

namespace ScriptPlace

theorem calm_calm (place : ScriptPlace) : place.calm.calm = place.calm := by
  cases place <;> rfl

theorem canClose_calm (place : ScriptPlace) : place.calm.canClose = place.canClose := by
  cases place <;> rfl

/-- A blank leads from every place to the calm one: it is no bracket and no hyphen. -/
theorem next_blank {c : Char} (h : isBlank c = true) (name t : Text) (place : ScriptPlace) :
    place.next name c t = place.calm := by
  have hne : c ≠ '<' ∧ c ≠ '-' ∧ c ≠ '>' := by
    refine ⟨?_, ?_, ?_⟩ <;> exact ne_of_apply_ne isBlank (h.trans_ne (by decide))
  cases place <;> simp [next, after, calm, hne]

theorem calm_across_blank {u : Text} (h : ∀ c ∈ u, isBlank c = true) (name y : Text)
    (place : ScriptPlace) : (place.across name y u).calm = place.calm := by
  induction u generalizing place with
  | nil => rfl
  | cons c u ih =>
    obtain ⟨hc, hu⟩ := List.forall_mem_cons.1 h
    rw [across, ih hu, next_blank hc, calm_calm]

/-- Blanks do not lead away from a calm place. -/
theorem across_blank {u : Text} (h : ∀ c ∈ u, isBlank c = true) (name y : Text)
    {place : ScriptPlace} (hcalm : place.calm = place) : place.across name y u = place := by
  induction u with
  | nil => rfl
  | cons c u ih =>
    obtain ⟨hc, hu⟩ := List.forall_mem_cons.1 h
    rw [across, next_blank hc, hcalm, ih hu]

/-- Blanks hold no closing tag. -/
theorem staysOpen_blank {u : Text} (h : ∀ c ∈ u, isBlank c = true) (name y : Text)
    (place : ScriptPlace) : place.staysOpen name y u = true :=
  staysOpen_of_notMem (fun hmem => absurd (h _ hmem) (by decide)) name y place

variable {name s y z : Text} {place : ScriptPlace}

/-- Blanks at the ends of a text do not matter, as long as what stands behind it looks the same. -/
theorem staysOpen_trim (hname : ∀ c ∈ name, c.isLower = true) (hcalm : place.calm = place)
    (h : Alike name (trim s) (trailing s ++ y) z) :
    place.staysOpen name y s = place.staysOpen name z (trim s) := by
  have hfront : ∀ c ∈ s.takeWhile isBlank, isBlank c = true := List.all_eq_true.1 List.all_takeWhile
  conv_lhs => rw [← leading_append_trim s]
  rw [staysOpen_append, staysOpen_append, staysOpen_blank hfront, across_blank hfront _ _ hcalm,
    staysOpen_blank (blank_of_mem_trailing s), h.staysOpen_eq hname, Bool.true_and, Bool.and_true]

/-- Trimming a text makes no difference to the place behind it, but for hyphens that were just read.
-/
theorem calm_across_trim (hname : ∀ c ∈ name, c.isLower = true) (hcalm : place.calm = place)
    (h : Alike name (trim s) (trailing s ++ y) z) :
    (place.across name y s).calm = (place.across name z (trim s)).calm := by
  have hfront : ∀ c ∈ s.takeWhile isBlank, isBlank c = true := List.all_eq_true.1 List.all_takeWhile
  conv_lhs => rw [← leading_append_trim s]
  rw [across_append, across_append, across_blank hfront _ _ hcalm,
    calm_across_blank (blank_of_mem_trailing s), h.across_eq hname]

end ScriptPlace

/-! ## Lines -/

/-- The lines of a text between its line ends, as they are laid out. -/
def block (depth : Nat) (parts : List Text) : Text :=
  ((parts.map trim).filter fun l => !l.isEmpty).flatMap (line depth)

/-- The lines of a block are laid out one by one. -/
theorem block_cons (depth : Nat) (part : Text) (parts : List Text) :
    block depth (part :: parts) = block depth [part] ++ block depth parts := by
  rw [block, block, block, ← List.flatMap_append, ← List.filter_append, ← List.map_append]
  rfl

theorem block_of_trim_eq_nil (depth : Nat) {part : Text} (h : trim part = []) :
    block depth [part] = [] := by
  simp [block, h]

theorem block_of_trim_ne_nil (depth : Nat) {part : Text} (h : trim part ≠ []) :
    block depth [part] = line depth (trim part) := by
  simp [block, h]

theorem eq_space_of_mem_indent {depth : Nat} {c : Char}
    (h : c ∈ (List.replicate depth "  ".toList).flatten) : c = ' ' := by
  obtain ⟨piece, hpiece, hc⟩ := List.mem_flatten.1 h
  rw [(List.mem_replicate.1 hpiece).2] at hc
  simpa using hc

theorem blank_of_mem_indent {depth : Nat} :
    ∀ c ∈ (List.replicate depth "  ".toList).flatten, isBlank c = true := by
  intro c hc
  rw [eq_space_of_mem_indent hc]
  decide

/-- A line keeps its place in the text, if it does not break off or something that ends a name
stands behind it. -/
theorem staysOpen_line {name part y : Text} {place : ScriptPlace}
    (hname : ∀ c ∈ name, c.isLower = true) (hcalm : place.calm = place) (hy : Severs y)
    (h : breaksOff name (trim part) = true → endsNameAhead (trailing part ++ y) = true)
    (depth : Nat) (z : Text) :
    place.staysOpen name z (block depth [part]) = place.staysOpen name y part ∧
      place.across name z (block depth [part]) = (place.across name y part).calm := by
  by_cases hempty : trim part = []
  · have hblank := blank_of_trim_eq_nil hempty
    rw [block_of_trim_eq_nil depth hempty, ScriptPlace.staysOpen_blank hblank,
      ScriptPlace.calm_across_blank hblank, hcalm]
    exact ⟨rfl, rfl⟩
  · have halike : Alike name (trim part) (trailing part ++ y) ('\n' :: z) :=
      ⟨severs_trailing part hy, severs_of_blank (by decide) z, h⟩
    rw [block_of_trim_ne_nil depth hempty, line, List.append_assoc, ScriptPlace.staysOpen_append,
      ScriptPlace.staysOpen_append, ScriptPlace.across_append, ScriptPlace.across_append,
      ScriptPlace.staysOpen_blank blank_of_mem_indent,
      ScriptPlace.staysOpen_blank blank_of_mem_newline,
      ScriptPlace.across_blank blank_of_mem_indent _ _ hcalm,
      ScriptPlace.staysOpen_trim hname hcalm halike,
      ScriptPlace.calm_across_trim hname hcalm halike, Bool.true_and, Bool.and_true]
    refine ⟨rfl, ?_⟩
    rw [ScriptPlace.across, ScriptPlace.next_blank (by decide)]
    rfl

/-- Behind a text in which nothing closed, a blank can only end a closing tag at its very end. -/
theorem staysOpen_or_namesEnd {name u y z : Text} {place : ScriptPlace}
    (hname : ∀ c ∈ name, c.isLower = true) (hy : Severs y) (hz : Severs z)
    (h : place.staysOpen name y u = true) :
    place.staysOpen name z u = true ∨
      ∃ v, namesEnd name v = true ∧ (readVerbatim name place (u ++ z)).2 = '<' :: (v ++ z) := by
  induction u generalizing place with
  | nil => exact Or.inl rfl
  | cons c u ih =>
    rw [ScriptPlace.staysOpen, Bool.and_eq_true, Bool.not_eq_true'] at h
    cases hstop : c == '<' && place.canClose && closes name (u ++ z) with
    | true =>
      refine Or.inr ⟨u, ?_, ?_⟩
      · simp only [Bool.and_eq_true] at hstop
        obtain ⟨⟨hc, hcan⟩, hcloses⟩ := hstop
        rw [hc, hcan, Bool.true_and, Bool.true_and, closes_append hname hy,
          Bool.or_eq_false_iff] at h
        rw [closes_append hname hz, h.1.1, Bool.false_or, Bool.and_eq_true] at hcloses
        exact hcloses.1
      · rw [List.cons_append, readVerbatim, if_pos hstop]
        simp only [Bool.and_eq_true, beq_iff_eq] at hstop
        rw [hstop.1.1]
    | false =>
      by_cases hmem : '<' ∈ u
      · -- the bracket is not the last one, so no name breaks off behind it
        have hnext : place.next name c (u ++ y) = place.next name c (u ++ z) :=
          place.next_congr hy hz fun _ hcuts =>
            absurd hmem (bracket_notMem_of_cutsName hname hcuts)
        rcases ih h.2 with hopen | ⟨v, hv, hread⟩
        · refine Or.inl ?_
          rw [ScriptPlace.staysOpen, hstop, ← hnext, hopen]
          rfl
        · refine Or.inr ⟨v, hv, ?_⟩
          rw [List.cons_append, readVerbatim, hstop, ← hnext, ← hread]
          rfl
      · refine Or.inl ?_
        rw [ScriptPlace.staysOpen, hstop, ScriptPlace.staysOpen_of_notMem hmem]
        rfl

/-- Whether lines break off only where something that ends a name stands behind them in the text:
blanks of markup, or the end of a line.  The last line of an unclosed text is free to break off. -/
def endsLines (name : Text) (closed : Bool) : List Text → Bool
  | [] => true
  | [part] => !closed || !breaksOff name (trim part) || endsNameAhead (trailing part)
  | part :: next :: parts =>
    (!breaksOff name (trim part) || endsNameAhead (trailing part ++ ['\n'])) &&
      endsLines name closed (next :: parts)

theorem intercalate_newline_cons (part next : Text) (parts : List Text) :
    ['\n'].intercalate (part :: next :: parts) =
      part ++ '\n' :: ['\n'].intercalate (next :: parts) := by
  simp [List.intercalate]

/-- What stands behind the end of a line cannot be seen from in front of it. -/
theorem endsNameAhead_append_newline (u t : Text) :
    endsNameAhead (u ++ '\n' :: t) = endsNameAhead (u ++ ['\n']) := by
  cases u <;> rfl

/-- A line of a text with more lines behind it keeps its place. -/
theorem staysOpen_first {name part next : Text} {parts : List Text} {place : ScriptPlace}
    {closed : Bool} (hname : ∀ c ∈ name, c.isLower = true) (hcalm : place.calm = place)
    (hends : endsLines name closed (part :: next :: parts) = true)
    (hopen : place.staysOpen name [] (['\n'].intercalate (part :: next :: parts)) = true)
    (depth : Nat) (z : Text) :
    ∃ place' : ScriptPlace, place'.calm = place' ∧
      place.staysOpen name z (block depth [part]) = true ∧
      place.across name z (block depth [part]) = place' ∧
      place'.staysOpen name [] (['\n'].intercalate (next :: parts)) = true ∧
      place.across name [] (['\n'].intercalate (part :: next :: parts)) =
        place'.across name [] (['\n'].intercalate (next :: parts)) := by
  have hnewline : isBlank '\n' = true := by decide
  rw [endsLines, Bool.and_eq_true, ← endsNameAhead_append_newline _
    (['\n'].intercalate (next :: parts))] at hends
  have hends' : breaksOff name (trim part) = true →
      endsNameAhead (trailing part ++ '\n' :: ['\n'].intercalate (next :: parts)) = true := by
    intro hbreak
    simpa [hbreak] using hends.1
  obtain ⟨hline, hplace⟩ := staysOpen_line hname hcalm (severs_of_blank hnewline _) hends' depth z
  rw [intercalate_newline_cons, ScriptPlace.staysOpen_append, Bool.and_eq_true, List.append_nil,
    ScriptPlace.staysOpen, ScriptPlace.next_blank hnewline, Bool.and_eq_true] at hopen
  refine ⟨_, ScriptPlace.calm_calm _, hline.trans hopen.1, hplace, hopen.2.2, ?_⟩
  rw [intercalate_newline_cons, ScriptPlace.across_append, List.append_nil, ScriptPlace.across,
    ScriptPlace.next_blank hnewline]

/-- The lines of a closed text stay open up to where they are closed. -/
theorem staysOpen_block {name : Text} {parts : List Text} {place : ScriptPlace}
    (hname : ∀ c ∈ name, c.isLower = true) (hcalm : place.calm = place) (hne : parts ≠ [])
    (hends : endsLines name true parts = true)
    (hopen : place.staysOpen name [] (['\n'].intercalate parts) = true) (depth : Nat) (z : Text) :
    place.staysOpen name z (block depth parts) = true ∧
      place.across name z (block depth parts) =
        (place.across name [] (['\n'].intercalate parts)).calm := by
  induction parts generalizing place with
  | nil => exact absurd rfl hne
  | cons part parts ih =>
    cases parts with
    | nil =>
      have hends' : breaksOff name (trim part) = true →
          endsNameAhead (trailing part ++ []) = true := by
        intro hbreak
        simpa [endsLines, hbreak] using hends
      have hsingle : ['\n'].intercalate [part] = part := by simp [List.intercalate]
      rw [hsingle] at hopen ⊢
      obtain ⟨hline, hplace⟩ := staysOpen_line hname hcalm severs_nil hends' depth z
      exact ⟨hline.trans hopen, hplace⟩
    | cons next parts =>
      obtain ⟨place', hcalm', hline, hplace, hopen', hall⟩ := staysOpen_first hname hcalm hends
        hopen depth (block depth (next :: parts) ++ z)
      rw [endsLines, Bool.and_eq_true] at hends
      -- a line end leaves the reader at a calm place, in the text and in the layout alike
      obtain ⟨hrest, hlast⟩ := ih hcalm' (List.cons_ne_nil next parts) hends.2 hopen'
      rw [block_cons, ScriptPlace.staysOpen_append, hline, ScriptPlace.across_append, hplace,
        hall, Bool.true_and]
      exact ⟨hrest, hlast⟩

/-- The last line of a text without a closing tag is read to its end, or up to a closing tag that it
breaks off in and that has no bracket. -/
theorem readVerbatim_lastLine {name part : Text} {place : ScriptPlace}
    (hname : ∀ c ∈ name, c.isLower = true) (hcalm : place.calm = place)
    (hopen : place.staysOpen name [] part = true) (depth : Nat) :
    (readVerbatim name place (block depth [part])).2 = [] ∨
      ∃ v, namesEnd name v = true ∧
        (readVerbatim name place (block depth [part])).2 = '<' :: (v ++ ['\n']) := by
  have hsevers := severs_trailing part severs_nil
  by_cases hempty : trim part = []
  · rw [block_of_trim_eq_nil depth hempty]
    exact Or.inl rfl
  · rw [block_of_trim_ne_nil depth hempty, line, List.append_assoc,
      readVerbatim_append (ScriptPlace.staysOpen_blank blank_of_mem_indent _ _ _),
      ScriptPlace.across_blank blank_of_mem_indent _ _ hcalm]
    rw [ScriptPlace.staysOpen_trim hname hcalm ⟨hsevers, hsevers, fun _ => rfl⟩] at hopen
    have hnewline : Severs ['\n'] := severs_of_blank (by decide) []
    rcases staysOpen_or_namesEnd hname hsevers hnewline hopen with hopen | hends
    · rw [readVerbatim_append hopen,
        readVerbatim_of_staysOpen (ScriptPlace.staysOpen_blank blank_of_mem_newline _ _ _)]
      exact Or.inl rfl
    · exact Or.inr hends

/-- The lines of an unclosed text are read to the end, but for a closing tag at the very end that
has no bracket. -/
theorem readVerbatim_block {name : Text} {parts : List Text} {place : ScriptPlace}
    (hname : ∀ c ∈ name, c.isLower = true) (hcalm : place.calm = place)
    (hends : endsLines name false parts = true)
    (hopen : place.staysOpen name [] (['\n'].intercalate parts) = true) (depth : Nat) :
    (readVerbatim name place (block depth parts)).2 = [] ∨
      ∃ v, namesEnd name v = true ∧
        (readVerbatim name place (block depth parts)).2 = '<' :: (v ++ ['\n']) := by
  induction parts generalizing place with
  | nil => exact Or.inl rfl
  | cons part parts ih =>
    cases parts with
    | nil =>
      have hsingle : ['\n'].intercalate [part] = part := by simp [List.intercalate]
      rw [hsingle] at hopen
      exact readVerbatim_lastLine hname hcalm hopen depth
    | cons next parts =>
      obtain ⟨place', hcalm', hline, hplace, hopen', -⟩ := staysOpen_first hname hcalm hends
        hopen depth (block depth (next :: parts))
      rw [endsLines, Bool.and_eq_true] at hends
      rw [block_cons, readVerbatim_append hline, hplace]
      exact ih hcalm' hends.2 hopen'

end Scaffold.Html
