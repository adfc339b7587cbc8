import Mathlib.Data.List.DropRight
import Scaffold.Proofs.Selector.Path
import Scaffold.Text.Blank

/-!
# Trimming

What trimming leaves starts and ends with characters that are not blank, and a text with such
ends is left as it is (`trim_eq_self`).  Blanks in front of a text or behind it do not matter
(`trim_append_left`, `trim_append_right`), nor do they for the lines of a text.
-/

namespace Scaffold.Text

/-- A text that trimming leaves as it is: neither end of it is blank. -/
def Trimmed (t : Text) : Prop :=
  (∀ c ∈ t.head?, isBlank c = false) ∧ (∀ c ∈ t.getLast?, isBlank c = false)

/-! ## The two ends -/

theorem trimStart_of_head {t : Text} (h : ∀ c ∈ t.head?, isBlank c = false) :
    trimStart t = t := by
  cases t with
  | nil => rfl
  | cons c t =>
    have hc : isBlank c = false := h c (by simp)
    rw [trimStart, List.dropWhile_cons_of_neg (by simp [hc])]

theorem head_trimStart (t : Text) : ∀ c ∈ (trimStart t).head?, isBlank c = false := by
  intro c hc
  have := List.head?_dropWhile_not isBlank t
  rw [trimStart, Option.mem_def] at hc
  rw [hc] at this
  exact this

theorem trimEnd_eq_rdropWhile (t : Text) : trimEnd t = t.rdropWhile isBlank := rfl

/-- Blanks behind a text are trimmed off with those that trail it. -/
theorem trimEnd_append_blank {t w : Text} (h : ∀ c ∈ w, isBlank c = true) :
    trimEnd (t ++ w) = trimEnd t := by
  rw [trimEnd, List.reverse_append, List.dropWhile_append_of_pos]
  · rfl
  · intro c hc
    exact h c (List.mem_reverse.1 hc)

theorem head_trimEnd {t : Text} (h : ∀ c ∈ t.head?, isBlank c = false) :
    ∀ c ∈ (trimEnd t).head?, isBlank c = false := by
  intro c hc
  obtain ⟨w, hw⟩ : trimEnd t <+: t := List.rdropWhile_prefix isBlank t
  cases ht : trimEnd t with
  | nil => simp [ht] at hc
  | cons d u =>
    rw [ht] at hc hw
    refine h c ?_
    rw [← hw]
    simpa using hc

/-! ## Trimmed texts -/

/-- Trimming leaves a text whose ends are not blank. -/
theorem trimmed_trim (t : Text) : Trimmed (trim t) := by
  refine ⟨head_trimEnd (head_trimStart t), fun c hc => ?_⟩
  obtain ⟨hne, rfl⟩ := List.mem_getLast?_eq_getLast hc
  exact eq_false_of_ne_true ((trimStart t).rdropWhile_last_not isBlank hne)

/-- Trimming leaves a text as it is when its ends are not blank. -/
theorem trim_eq_self {t : Text} (h : Trimmed t) : trim t = t := by
  rw [trim, trimStart_of_head h.1, trimEnd_eq_rdropWhile, List.rdropWhile_eq_self_iff]
  intro hne
  rw [h.2 _ (List.getLast?_eq_some_getLast hne)]
  exact Bool.false_ne_true

theorem trim_append_left {w t : Text} (h : ∀ c ∈ w, isBlank c = true) :
    trim (w ++ t) = trim t := by
  rw [trim, trimStart, List.dropWhile_append_of_pos h]
  rfl

theorem trim_of_blank {w : Text} (h : ∀ c ∈ w, isBlank c = true) : trim w = [] := by
  have := trim_append_left (t := []) h
  rwa [List.append_nil] at this

theorem trim_append_right {t w : Text} (h : ∀ c ∈ w, isBlank c = true) :
    trim (t ++ w) = trim t := by
  by_cases ht : ∀ c ∈ t, isBlank c = true
  · rw [trim_append_left ht, trim_of_blank h, trim_of_blank ht]
  · rw [trim, trim, trimStart, trimStart, List.dropWhile_append, if_neg]
    · exact trimEnd_append_blank h
    · rw [List.isEmpty_iff, List.dropWhile_eq_nil_iff]
      exact ht

/-- The blanks behind a text when it is trimmed. -/
def trailing (t : Text) : Text :=
  (trimStart t).drop (trim t).length

/-- Trimming takes off the leading blanks, and then the trailing ones. -/
theorem trim_append_trailing (t : Text) : trim t ++ trailing t = trimStart t :=
  List.prefix_iff_eq_append.1 ( List.rdropWhile_prefix isBlank (trimStart t))

theorem blank_of_mem_trailing (t : Text) : ∀ c ∈ trailing t, isBlank c = true := by
  have htrailing : trailing t = (trimStart t).rtakeWhile isBlank := by
    have hcut : trim t ++ (trimStart t).rtakeWhile isBlank = trimStart t :=
      List.rdropWhile_append_rtakeWhile
    exact List.append_cancel_left ((trim_append_trailing t).trans hcut.symm)
  rw [htrailing]
  exact fun c => List.mem_rtakeWhile_imp

theorem leading_append_trim (t : Text) : t.takeWhile isBlank ++ (trim t ++ trailing t) = t := by
  rw [trim_append_trailing, trimStart, List.takeWhile_append_dropWhile]

/-- A text is what is left of it when it is trimmed, with blanks on both sides. -/
theorem exists_trim (t : Text) :
    ∃ front back, t = front ++ trim t ++ back ∧ (∀ c ∈ front, isBlank c = true) ∧
      ∀ c ∈ back, isBlank c = true := by
  refine ⟨t.takeWhile isBlank, trailing t, ?_, List.all_eq_true.1 List.all_takeWhile,
    blank_of_mem_trailing t⟩
  rw [List.append_assoc, leading_append_trim]

theorem mem_of_mem_trim {t : Text} {c : Char} (h : c ∈ trim t) : c ∈ t := by
  obtain ⟨front, back, ht, -⟩ := exists_trim t
  rw [ht]
  exact List.mem_append_left _ (List.mem_append_right _ h)

/-! ## Lines -/

/-- The lines on the two sides of a line end. -/
theorem trimmedLines_append_newline (s t : Text) :
    trimmedLines (s ++ '\n' :: t) = trimmedLines s ++ trimmedLines t := by
  rw [trimmedLines, List.splitOn_append_cons_self, List.map_append, List.filter_append]
  rfl

theorem trimmedLines_of_notMem {t : Text} (h : '\n' ∉ t) :
    trimmedLines t = if trim t = [] then [] else [trim t] := by
  rw [trimmedLines, List.splitOn_eq_singleton h, List.map_singleton]
  by_cases ht : trim t = [] <;> simp [ht]

/-- A line as it is left when a text is cut into lines. -/
structure IsLine (l : Text) : Prop where
  ne_nil : l ≠ []
  trimmed : Trimmed l
  no_newline : '\n' ∉ l

/-- A line is the only line of itself. -/
theorem trimmedLines_self {l : Text} (h : IsLine l) : trimmedLines l = [l] := by
  rw [trimmedLines_of_notMem h.no_newline, trim_eq_self h.trimmed, if_neg h.ne_nil]

theorem trimmedLines_cons_of_blank {c : Char} (h : isBlank c = true) (t : Text) :
    trimmedLines (c :: t) = trimmedLines t := by
  by_cases hc : c = '\n'
  · subst hc
    exact trimmedLines_append_newline [] t
  · rw [trimmedLines, trimmedLines, List.splitOn_cons_eq_if_modifyHead, if_neg (by simpa using hc)]
    cases hs : t.splitOn '\n' with
    | nil => exact absurd hs (List.splitOn_ne_nil '\n' t)
    | cons part parts =>
      have htrim : trim (c :: part) = trim part :=
        trim_append_left (w := [c]) (by simpa using h)
      rw [List.modifyHead_cons, List.map_cons, List.map_cons, htrim]

theorem trimmedLines_concat_of_blank {c : Char} (h : isBlank c = true) (t : Text) :
    trimmedLines (t ++ [c]) = trimmedLines t := by
  by_cases hc : c = '\n'
  · subst hc
    rw [trimmedLines_append_newline]
    exact List.append_nil _
  · -- only the last line changes, by a blank at its end
    have hlast : ∀ l, '\n' ∉ l → trimmedLines (l ++ [c]) = trimmedLines l := by
      intro l hl
      rw [trimmedLines_of_notMem hl, trimmedLines_of_notMem (by simp [hl, Ne.symm hc]),
        trim_append_right (by simpa using h)]
    by_cases hline : '\n' ∈ t
    · obtain ⟨front, back, rfl, hback⟩ := exists_last_cut hline
      rw [List.append_assoc, List.cons_append, trimmedLines_append_newline, hlast back hback,
        trimmedLines_append_newline]
    · exact hlast t hline

/-- Blanks around a text do not matter for its lines. -/
theorem trimmedLines_trim (t : Text) : trimmedLines (trim t) = trimmedLines t := by
  have hfront : ∀ (w s : Text), (∀ c ∈ w, isBlank c = true) →
      trimmedLines (w ++ s) = trimmedLines s := by
    intro w s hw
    induction w with
    | nil => rfl
    | cons c w ih =>
      rw [List.cons_append, trimmedLines_cons_of_blank (hw c List.mem_cons_self),
        ih fun d hd => hw d (List.mem_cons_of_mem _ hd)]
  have hback : ∀ (w s : Text), (∀ c ∈ w, isBlank c = true) →
      trimmedLines (s ++ w) = trimmedLines s := by
    intro w
    induction w with
    | nil => exact fun s _ => by rw [List.append_nil]
    | cons c w ih =>
      intro s hw
      rw [← List.singleton_append, ← List.append_assoc,
        ih _ fun d hd => hw d (List.mem_cons_of_mem _ hd),
        trimmedLines_concat_of_blank (hw c List.mem_cons_self)]
  obtain ⟨front, back, ht, hf, hb⟩ := exists_trim t
  have : trimmedLines t = trimmedLines (front ++ trim t ++ back) := congrArg _ ht
  rw [this, hback _ _ hb, hfront _ _ hf]

/-- The lines of a text that is one line when it is trimmed. -/
theorem trimmedLines_of_trim {t : Text} (h : '\n' ∉ trim t) :
    trimmedLines t = if trim t = [] then [] else [trim t] := by
  rw [← trimmedLines_trim, trimmedLines_of_notMem h, trim_eq_self (trimmed_trim t)]

theorem mem_splitOn {sep : Char} {t part : Text} (h : part ∈ t.splitOn sep) :
    sep ∉ part ∧ ∀ c ∈ part, c ∈ t := by
  induction t generalizing part with
  | nil =>
    obtain rfl := List.mem_singleton.1 h
    simp
  | cons c t ih =>
    rw [List.splitOn_cons_eq_if_modifyHead] at h
    split at h
    · rcases List.mem_cons.1 h with rfl | h
      · simp
      · exact ⟨(ih h).1, fun d hd => List.mem_cons_of_mem _ ((ih h).2 d hd)⟩
    · next hc =>
      have hne : c ≠ sep := by simpa using hc
      cases hs : t.splitOn sep with
      | nil => exact absurd hs (List.splitOn_ne_nil sep t)
      | cons first parts =>
        rw [hs] at h ih
        rcases List.mem_cons.1 h with rfl | h
        · obtain ⟨hsep, hsub⟩ := ih List.mem_cons_self
          refine ⟨by simp [hsep, Ne.symm hne], fun d hd => ?_⟩
          rcases List.mem_cons.1 hd with rfl | hd
          · exact List.mem_cons_self
          · exact List.mem_cons_of_mem _ (hsub d hd)
        · obtain ⟨hsep, hsub⟩ := ih (List.mem_cons_of_mem _ h)
          exact ⟨hsep, fun d hd => List.mem_cons_of_mem _ (hsub d hd)⟩

theorem exists_mem_splitOn (sep : Char) {t : Text} {c : Char} (h : c ∈ t) :
    c = sep ∨ ∃ part ∈ t.splitOn sep, c ∈ part := by
  induction t with
  | nil => cases h
  | cons d t ih =>
    rw [List.splitOn_cons_eq_if_modifyHead]
    split
    · next hd =>
      rcases List.mem_cons.1 h with rfl | h
      · exact Or.inl (eq_of_beq hd)
      · rcases ih h with hc | ⟨part, hpart, hc⟩
        · exact Or.inl hc
        · exact Or.inr ⟨part, List.mem_cons_of_mem _ hpart, hc⟩
    · cases hs : t.splitOn sep with
      | nil => exact absurd hs (List.splitOn_ne_nil sep t)
      | cons first parts =>
        rw [hs] at ih
        rcases List.mem_cons.1 h with rfl | h
        · exact Or.inr ⟨c :: first, List.mem_cons_self, List.mem_cons_self⟩
        · rcases ih h with hc | ⟨part, hpart, hc⟩
          · exact Or.inl hc
          · rcases List.mem_cons.1 hpart with rfl | hpart
            · exact Or.inr ⟨d :: part, List.mem_cons_self, List.mem_cons_of_mem _ hc⟩
            · exact Or.inr ⟨part, List.mem_cons_of_mem _ hpart, hc⟩

theorem blank_of_trim_eq_nil {t : Text} (h : trim t = []) : ∀ c ∈ t, isBlank c = true := by
  obtain ⟨front, back, ht, hfront, hback⟩ := exists_trim t
  rw [h, List.append_nil] at ht
  intro c hc
  rw [ht] at hc
  exact (List.mem_append.1 hc).elim (hfront c) (hback c)

/-- Only a blank text has no line. -/
theorem blank_of_trimmedLines_eq_nil {t : Text} (h : trimmedLines t = []) :
    ∀ c ∈ t, isBlank c = true := by
  intro c hc
  rcases exists_mem_splitOn '\n' hc with rfl | ⟨part, hpart, hc⟩
  · decide
  · have htrim := List.filter_eq_nil_iff.1 h (trim part) (List.mem_map_of_mem hpart)
    exact blank_of_trim_eq_nil (by simpa using htrim) c hc

/-- A text that holds the end of a line when it is trimmed has more than one line. -/
theorem one_lt_length_trimmedLines {t : Text} (h : '\n' ∈ trim t) :
    1 < (trimmedLines t).length := by
  obtain ⟨front, back, htrim⟩ := List.append_of_mem h
  have hnewline : isBlank '\n' = true := by decide
  have hends := trimmed_trim t
  rw [htrim] at hends
  have hfront : trimmedLines front ≠ [] := by
    intro hnil
    cases front with
    | nil => exact absurd (hends.1 '\n' rfl) (by rw [hnewline]; decide)
    | cons c front =>
      have hc := blank_of_trimmedLines_eq_nil hnil c List.mem_cons_self
      exact absurd (hends.1 c rfl) (by rw [hc]; decide)
  have hback : trimmedLines back ≠ [] := by
    intro hnil
    obtain ⟨c, hlast⟩ : ∃ c, ('\n' :: back).getLast? = some c :=
      ⟨_, List.getLast?_eq_some_getLast (List.cons_ne_nil _ _)⟩
    have hc : isBlank c = true := by
      rcases List.mem_cons.1 (List.mem_of_getLast? hlast) with rfl | hmem
      · exact hnewline
      · exact blank_of_trimmedLines_eq_nil hnil c hmem
    refine absurd (hends.2 c ?_) (by rw [hc]; decide)
    rw [List.getLast?_append, hlast]
    rfl
  have hlengths := And.intro (List.length_pos_iff.2 hfront) (List.length_pos_iff.2 hback)
  rw [← trimmedLines_trim, htrim, trimmedLines_append_newline, List.length_append]
  omega

theorem isLine_of_mem_trimmedLines {t l : Text} (h : l ∈ trimmedLines t) :
    IsLine l ∧ ∀ c ∈ l, c ∈ t := by
  obtain ⟨hmem, hne⟩ := List.mem_filter.1 h
  obtain ⟨part, hpart, rfl⟩ := List.mem_map.1 hmem
  obtain ⟨hline, hsub⟩ := mem_splitOn hpart
  refine ⟨⟨by simpa using hne, trimmed_trim part, fun hn => hline (mem_of_mem_trim hn)⟩, ?_⟩
  exact fun c hc => hsub c (mem_of_mem_trim hc)

end Scaffold.Text
