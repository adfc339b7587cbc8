import Scaffold.Proofs.Html.Tags

/-!
# Text between the tags of an element

An element that holds text is laid out with the text between its tags, in lines of its own if there
is more than one.  Reading the content goes past a text that was escaped, whatever it says
(`Passes`).  A text that is printed as it stands is read up to the closing tag of the element if it
keeps its end (`keepsEnd`, `readVerbatim_inside`); and if it has no closing tag, no tag is read from
it (`tags_textLines`).
-/

namespace Scaffold.Html

open Scaffold.Text

/-! ## Escaped content -/

/-- A text that the reader of a content goes past. -/
def Passes (content : Content) (name x : Text) : Prop :=
  ∀ t, (readContent content name (lineFeeds (x ++ t))).2 =
    (readContent content name (lineFeeds t)).2

/-- A reader that goes past two texts goes past one behind the other. -/
theorem Passes.append {content : Content} {name x y : Text} (hx : Passes content name x)
    (hy : Passes content name y) : Passes content name (x ++ y) := by
  intro t
  rw [List.append_assoc, hx, hy]

/-- A space or the end of a line at the front is part of any content. -/
theorem readContent_blank {content : Content} {name : Text}
    (hcontent : contentOf? name = some content) {c : Char} (hc : c = ' ' ∨ c = '\n') (t : Text) :
    (readContent content name (c :: t)).2 = (readContent content name t).2 := by
  by_cases hescapable : content = .escapable
  · subst hescapable
    show (readEscapable name (c :: t)).2 = (readEscapable name t).2
    rw [readEscapable_blank hc]
    rfl
  · have hblank : ∀ d ∈ [c], isBlank d = true := by
      rcases hc with rfl | rfl <;> exact List.all_eq_true.1 (by decide)
    have hopen := ScriptPlace.staysOpen_blank hblank name t .plain
    rw [readContent_eq hcontent hescapable, readContent_eq hcontent hescapable]
    exact (readVerbatim_append hopen).trans
      (by rw [ScriptPlace.across_blank hblank name t rfl])

theorem passes_blanks {content : Content} {name : Text}
    (hcontent : contentOf? name = some content) {x : Text} (h : ∀ c ∈ x, c = ' ' ∨ c = '\n') :
    Passes content name x := by
  have hreturn : '\r' ∉ x := fun hmem => absurd (h _ hmem) (by decide)
  intro t
  rw [lineFeeds_append_of_notMem hreturn]
  clear hreturn
  induction x with
  | nil => rfl
  | cons c x ih =>
    obtain ⟨hc, hx⟩ := List.forall_mem_cons.1 h
    rw [List.cons_append, readContent_blank hcontent hc, ih hx]

/-- A text that was escaped holds no opening bracket, so it cannot hold a closing tag. -/
theorem bracket_notMem_escapeText (s : Text) : '<' ∉ escapeText s :=
  notMem_escapeText (by decide) fun _ => rfl

/-- Outside of scripts there is but one place. -/
theorem ScriptPlace.across_plain {name : Text} (h : name ≠ scriptTag) (y u : Text) :
    ScriptPlace.plain.across name y u = .plain := by
  induction u with
  | nil => rfl
  | cons c u ih =>
    rw [across, next, if_neg h]
    exact ih

/-- The reader of a content that is printed with escapes goes past a text that was escaped. -/
theorem passes_escapeText {content : Content} {name : Text}
    (hcontent : contentOf? name = some content) (hprints : printsVerbatim name = false) {s : Text}
    (hnul : nul ∉ s) (htrimmed : Trimmed s) : Passes content name (escapeText s) := by
  have hscript : name ≠ scriptTag := by
    rintro rfl
    cases hprints
  intro t
  rw [lineFeeds_escapeText_trimmed htrimmed]
  by_cases hescapable : content = .escapable
  · subst hescapable
    show (readEscapable name _).2 = (readEscapable name _).2
    rw [readEscapable_escapeText (notMem_lineFeeds hnul (by decide))]
    rfl
  · rw [readContent_eq hcontent hescapable, readContent_eq hcontent hescapable,
      readVerbatim_append (ScriptPlace.staysOpen_of_notMem (bracket_notMem_escapeText _) _ _ _),
      ScriptPlace.across_plain hscript]

/-- No content goes past the closing tag of its element. -/
theorem readContent_closeTag {content : Content} {name : Text}
    (hcontent : contentOf? name = some content) (t : Text) :
    (readContent content name (closeTag name ++ t)).2 = closeTag name ++ t := by
  by_cases hescapable : content = .escapable
  · subst hescapable
    show (readEscapable name _).2 = _
    rw [readEscapable_closeTag]
  · rw [readContent_eq hcontent hescapable, readVerbatim_closeTag rfl]

/-! ## The text of an element -/

/-- The lines of a text below the tag of its element. -/
def textLines (depth : Nat) (verbatim : Bool) (s : Text) : Text :=
  '\n' :: (trimmedLines s).flatMap fun l => line (depth + 1) (written verbatim l)

/-- What stands between the tags of an element that holds text. -/
def inside (depth : Nat) (verbatim : Bool) (s : Text) : Text :=
  if (trim s).contains '\n' then
    textLines depth verbatim s ++ (List.replicate depth "  ".toList).flatten
  else written verbatim (trim s)

/-- A text is laid out line by line. -/
theorem layoutAll_textNodes (depth : Nat) (verbatim : Bool) (s : Text) :
    layoutAll depth verbatim (textNodes s) =
      (trimmedLines s).flatMap fun l => line depth (written verbatim l) := by
  cases s with
  | nil => rfl
  | cons c s => simp [textNodes, layoutAll, Node.layout]

theorem plainText?_textNodes (s : Text) : plainText? (textNodes s) = some s := by
  cases s with
  | nil => rfl
  | cons c s => simp [textNodes, plainText?]

/-- The layout of an element that holds a text and is closed: one line from tag to tag, or several
with the text between them. -/
theorem layout_closed (depth : Nat) (verbatim : Bool) (name : Text) (as : List Attribute)
    (s : Text) :
    Node.layout depth verbatim (.element name as false true (textNodes s)) =
      line depth (openTag name as ++
        '>' :: (inside depth (printsVerbatim name) s ++ closeTag name)) := by
  rw [Node.layout, inlineText?, plainText?_textNodes, inside]
  by_cases hline : '\n' ∈ trim s
  · simp [hline, line, textLines, layoutAll_textNodes]
  · simp [hline]

/-- Without a closing tag the text stands in lines below its tag. -/
theorem layout_unclosed (depth : Nat) (verbatim : Bool) (name : Text) (as : List Attribute)
    (s : Text) :
    Node.layout depth verbatim (.element name as false false (textNodes s)) =
      (List.replicate depth "  ".toList).flatten ++
        (openTag name as ++ '>' :: textLines depth (printsVerbatim name) s) := by
  rw [Node.layout, layoutAll_textNodes]
  simp [line, textLines]

/-! ## Escaped text between tags -/

section

variable {content : Content} {name s : Text} (hcontent : contentOf? name = some content)
include hcontent

theorem passes_indent (depth : Nat) :
    Passes content name (List.replicate depth "  ".toList).flatten :=
  passes_blanks hcontent fun _ hc => Or.inl (eq_space_of_mem_indent hc)

theorem passes_newline : Passes content name ['\n'] :=
  passes_blanks hcontent fun _ hc => Or.inr (List.mem_singleton.1 hc)

/-- Lines that were escaped are passed one by one, with what the layout puts around each. -/
theorem passes_lines (hprints : printsVerbatim name = false) {ls : List Text}
    (hls : ∀ l ∈ ls, IsLine l ∧ nul ∉ l) (depth : Nat) :
    Passes content name (ls.flatMap fun l => line depth (escapeText l)) := by
  induction ls with
  | nil => exact fun t => rfl
  | cons l ls ih =>
    obtain ⟨⟨hl, hnul⟩, hls⟩ := List.forall_mem_cons.1 hls
    have htext := passes_escapeText hcontent hprints hnul hl.trimmed
    rw [List.flatMap_cons]
    exact (((passes_indent hcontent depth).append htext).append (passes_newline hcontent)).append
      (ih hls)

theorem passes_textLines (hprints : printsVerbatim name = false) (hnul : nul ∉ s) (depth : Nat) :
    Passes content name (textLines depth false s) :=
  (passes_newline hcontent).append
    (passes_lines hcontent hprints (isLine_and_nul_notMem hnul) (depth + 1))

/-- The reader goes past all that stands between the tags of an element whose text was escaped. -/
theorem passes_inside (hprints : printsVerbatim name = false) (hnul : nul ∉ s) (depth : Nat) :
    Passes content name (inside depth false s) := by
  unfold inside
  split
  · exact (passes_textLines hcontent hprints hnul depth).append (passes_indent hcontent depth)
  · exact passes_escapeText hcontent hprints (fun h => hnul (mem_of_mem_trim h)) (trimmed_trim s)

end

/-! ## Verbatim text between tags -/

/-- Whether a text that is printed as it stands ends where it did when it is laid out: no closing
tag that was unfinished is finished by a blank that the layout puts behind it, or loses a blank that
stood there. -/
def keepsEnd (name : Text) (closed : Bool) (s : Text) : Bool :=
  if closed && !(trim s).contains '\n' then !(breaksOff name (trim s) && endsNameAhead (trailing s))
  else endsLines name closed (s.splitOn '\n')

/-- The lines below a tag, printed as they stand, are a block of lines one level deeper. -/
theorem textLines_eq_block (depth : Nat) (s : Text) :
    textLines depth true s = ['\n'] ++ block (depth + 1) (s.splitOn '\n') := rfl

theorem return_notMem_textLines {s : Text} (h : '\r' ∉ s) (depth : Nat) :
    '\r' ∉ textLines depth true s := by
  have hindent : '\r' ∉ (List.replicate (depth + 1) "  ".toList).flatten := fun hmem =>
    absurd (eq_space_of_mem_indent hmem) (by decide)
  intro hmem
  rcases List.mem_cons.1 hmem with hmem | hmem
  · exact absurd hmem (by decide)
  · obtain ⟨l, hl, hmem⟩ := List.mem_flatMap.1 hmem
    have hline : '\r' ∉ l := fun hmem => h ((isLine_of_mem_trimmedLines hl).2 _ hmem)
    rw [line, List.mem_append, List.mem_append, List.mem_singleton] at hmem
    rcases hmem with (hmem | hmem) | hmem
    · exact hindent hmem
    · exact hline hmem
    · exact absurd hmem (by decide)

theorem return_notMem_inside {s : Text} (h : '\r' ∉ s) (depth : Nat) :
    '\r' ∉ inside depth true s := by
  unfold inside
  split
  · rw [List.mem_append, not_or]
    refine ⟨return_notMem_textLines h depth, fun hmem => ?_⟩
    exact absurd (eq_space_of_mem_indent hmem) (by decide)
  · exact fun hmem => h (mem_of_mem_trim hmem)

section

variable {name s : Text} (hname : ∀ c ∈ name, c.isLower = true)
include hname

/-- A text on one line is read up to the closing tag behind it, unless it breaks off within such a
tag and a blank that ended the name was trimmed away. -/
theorem readVerbatim_inline (hs : Verbatim name true s)
    (h : breaksOff name (trim s) = true → endsNameAhead (trailing s) = false) (t : Text) :
    (readVerbatim name .plain (trim s ++ (closeTag name ++ t))).2 = closeTag name ++ t := by
  have halike : Alike name (trim s) (trailing s ++ []) (closeTag name ++ t) := by
    refine ⟨severs_trailing s severs_nil, (alike_bracket name [] _).left, fun hbreak => ?_⟩
    rw [List.append_nil, h hbreak]
    rfl
  have hopen := hs.stays_open
  have hplace : (ScriptPlace.plain.across name [] s).calm = _ :=
    ScriptPlace.calm_across_trim hname rfl halike
  rw [ScriptPlace.staysOpen_trim hname rfl halike] at hopen
  rw [readVerbatim_append hopen, readVerbatim_closeTag]
  rw [← ScriptPlace.canClose_calm, ← hplace, ScriptPlace.canClose_calm]
  exact hs.can_close rfl

/-- A text in lines of its own is read up to the closing tag behind them, if the ends of the lines
allow it. -/
theorem readVerbatim_textLines (hs : Verbatim name true s)
    (h : endsLines name true (s.splitOn '\n') = true) (depth : Nat) (t : Text) :
    (readVerbatim name .plain (textLines depth true s ++
      ((List.replicate depth "  ".toList).flatten ++ (closeTag name ++ t)))).2 =
        closeTag name ++ t := by
  have hopen := hs.stays_open
  have hlines : ['\n'].intercalate (s.splitOn '\n') = s := List.intercalate_splitOn '\n'
  rw [← hlines] at hopen
  obtain ⟨hblock, hplace⟩ := staysOpen_block hname rfl (List.splitOn_ne_nil '\n' s) h hopen
    (depth + 1) ((List.replicate depth "  ".toList).flatten ++ (closeTag name ++ t))
  -- the line end, the block of lines, the indentation and the closing tag, one after the other
  rw [textLines_eq_block, List.append_assoc,
    readVerbatim_append (ScriptPlace.staysOpen_blank blank_of_mem_newline _ _ _),
    ScriptPlace.across_blank blank_of_mem_newline _ _ rfl, readVerbatim_append hblock, hplace,
    readVerbatim_append (ScriptPlace.staysOpen_blank blank_of_mem_indent _ _ _),
    ScriptPlace.across_blank blank_of_mem_indent _ _ (ScriptPlace.calm_calm _),
    readVerbatim_closeTag]
  rw [ScriptPlace.canClose_calm, List.intercalate_splitOn]
  exact hs.can_close rfl

/-- A text that keeps its end is read up to the closing tag behind it, in whatever way it is laid
out. -/
theorem readVerbatim_inside (hs : Verbatim name true s) (h : keepsEnd name true s = true)
    (depth : Nat) (t : Text) :
    (readVerbatim name .plain (inside depth true s ++ (closeTag name ++ t))).2 =
      closeTag name ++ t := by
  unfold keepsEnd at h
  unfold inside
  cases hline : (trim s).contains '\n' with
  | true =>
    rw [hline] at h
    rw [if_pos rfl, List.append_assoc]
    exact readVerbatim_textLines hname hs h depth t
  | false =>
    rw [hline] at h
    rw [if_neg (by decide)]
    refine readVerbatim_inline hname hs (fun hbreak => ?_) t
    simpa [hbreak] using h

/-- A closing tag without a bracket is no tag. -/
theorem tags_namesEnd (hne : name ≠ []) {v : Text} (h : namesEnd name v = true) :
    tags (tokens ('<' :: (v ++ ['\n']))) = [] := by
  unfold namesEnd at h
  split at h
  · next u =>
    have hlower := lower_of_dropWord? hname (beq_iff_eq.1 h)
    have hread : readTagRest? ['\n'] = none := by
      rw [readTagRest?.eq_def]
      show readTagRest? [] = none
      rw [readTagRest?.eq_def]
    rw [List.cons_append, tokens_closing (d := '\n') _ _ rfl, hread]
    · rfl
    · intro c hc
      refine hname _ ?_
      rw [← hlower]
      exact List.mem_map_of_mem hc
    · rintro rfl
      exact hne hlower.symm
  · cases h

/-- No tag is read from the lines of a text that keeps its end and has no closing tag. -/
theorem tags_textLines (hne : name ≠ []) (hs : Verbatim name false s)
    (h : keepsEnd name false s = true) (depth : Nat) :
    tags (tokens (readVerbatim name .plain (textLines depth true s)).2) = [] := by
  have hopen := hs.stays_open
  rw [← @List.intercalate_splitOn _ s _ _ '\n'] at hopen
  rw [textLines_eq_block,
    readVerbatim_append (ScriptPlace.staysOpen_blank blank_of_mem_newline _ _ _),
    ScriptPlace.across_blank blank_of_mem_newline _ _ rfl]
  rcases readVerbatim_block hname rfl h hopen (depth + 1) with hrest | ⟨v, hv, hrest⟩
  · rw [hrest, tokens]
    rfl
  · rw [hrest]
    exact tags_namesEnd hname hne hv

end

end Scaffold.Html
