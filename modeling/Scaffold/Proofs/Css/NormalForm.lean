import Mathlib.Data.List.Chain
import Mathlib.Data.List.Induction
import Scaffold.Proofs.Css.Prelude

/-!
# The normal form of selector lists

Whatever stands in front of a block, its selectors come out in a normal form: none of them is empty
or has blanks at its ends, outside quotes there are only single spaces between other characters,
and every selector but the last has closed its quotes and brackets (`InNormalForm`).  A list in
normal form is read back from its selectors, with a comma and a space between them, as long as none
of them holds the mark that opens a comment.  So a list that was split stays as it is
(`splitSelectors_normal_form`), whether or not the quotes and brackets of the text were balanced.
-/

namespace Scaffold.Css

open Scaffold.Text

/-! ## Where a text leaves off -/

/-- The place behind a character at this place, in a text without comments. -/
def Place.step : Place → Char → Place
  | .outside depth, c =>
    if c = '"' ∨ c = '\x27' then .inString c depth
    else if c = '[' ∨ c = '(' then .outside (depth + 1)
    else if c = ']' ∨ c = ')' then .outside (depth - 1)
    else .outside depth
  | .inString quote depth, c => if c = quote then .outside depth else .inString quote depth
  | .inComment last depth, _ => .inComment last depth

/-- The place behind a text without comments: the quote that is open there, if any, and how many
brackets are. -/
def standing (t : Text) : Place :=
  t.foldl Place.step (.outside 0)

/-- One more character is one more step. -/
theorem standing_concat (t : Text) (c : Char) : standing (t ++ [c]) = (standing t).step c := by
  simp [standing]

/-- A text without comments ends outside quotes, or in a string whose quote is no blank. -/
theorem standing_cases (t : Text) :
    (∃ depth, standing t = .outside depth) ∨
      ∃ quote depth, standing t = .inString quote depth ∧ isBlank quote = false := by
  induction t using List.reverseRecOn with
  | nil => exact .inl ⟨0, rfl⟩
  | append_singleton t c ih =>
    rw [standing_concat]
    rcases ih with ⟨depth, h⟩ | ⟨quote, depth, h, hquote⟩
    · rw [h, Place.step]
      split
      · next hc => exact .inr ⟨c, depth, rfl, by rcases hc with rfl | rfl <;> decide⟩
      · split
        · exact .inl ⟨_, rfl⟩
        · split <;> exact .inl ⟨_, rfl⟩
    · rw [h, Place.step]
      split
      · exact .inl ⟨depth, rfl⟩
      · exact .inr ⟨quote, depth, rfl, hquote⟩

/-- A blank neither opens nor closes anything. -/
theorem step_of_isBlank {c : Char} (h : isBlank c = true) (t : Text) :
    (standing t).step c = standing t := by
  have hne {d : Char} (hd : isBlank d = false) : c ≠ d := by
    rintro rfl
    rw [h] at hd
    cases hd
  rcases standing_cases t with ⟨depth, ht⟩ | ⟨quote, depth, ht, hquote⟩
  · rw [ht, Place.step, if_neg, if_neg, if_neg]
    all_goals exact not_or.2 ⟨hne (by decide), hne (by decide)⟩
  · rw [ht, Place.step, if_neg (hne hquote)]

/-- Blanks lead nowhere else. -/
theorem standing_append_blank {w : Text} (h : ∀ c ∈ w, isBlank c = true) (t : Text) :
    standing (t ++ w) = standing t := by
  induction w using List.reverseRecOn with
  | nil => rw [List.append_nil]
  | append_singleton w c ih =>
    rw [← List.append_assoc, standing_concat, step_of_isBlank (h c (by simp)),
      ih fun d hd => h d (List.mem_append_left _ hd)]

/-! ## Tidy texts -/

/-- Each character of a text stands behind the ones before it as `P` asks. -/
def Throughout (P : Text → Char → Prop) (t : Text) : Prop :=
  ∀ front c, front ++ [c] <+: t → P front c

/-- What holds throughout a text holds throughout the text before its last character, and of that
one. -/
theorem throughout_concat {P : Text → Char → Prop} {t : Text} {c : Char} :
    Throughout P (t ++ [c]) ↔ Throughout P t ∧ P t c := by
  constructor
  · intro h
    refine ⟨fun front d hd => h front d (hd.trans (List.prefix_append _ _)), ?_⟩
    exact h t c (List.prefix_refl _)
  · rintro ⟨h, hc⟩ front d hd
    rcases List.prefix_concat_iff.1 hd with heq | hd
    · obtain ⟨rfl, hlast⟩ := List.append_inj' heq rfl
      obtain rfl : d = c := by simpa using hlast
      exact hc
    · exact h front d hd

theorem Throughout.of_prefix {P : Text → Char → Prop} {s t : Text} (h : Throughout P t)
    (hst : s <+: t) : Throughout P s :=
  fun front c hc => h front c (hc.trans hst)

/-- Outside quotes, the only blanks of a text are single spaces. -/
def SingleSpaced (t : Text) : Prop :=
  Throughout (fun front c => ∀ depth, standing front = .outside depth →
    isBlank c = true → c = ' ' ∧ front.getLast? ≠ some ' ') t

/-- No comma of a text stands outside both quotes and brackets. -/
def Undivided (t : Text) : Prop :=
  Throughout (fun front c => standing front = .outside 0 → c ≠ ',') t

/-- What is kept of a selector while it is read. -/
structure Tidy (t : Text) : Prop where
  head : ∀ c ∈ t.head?, isBlank c = false
  singleSpaced : SingleSpaced t
  undivided : Undivided t

/-- A tidy text stays tidy with this character behind it. -/
structure Follows (t : Text) (c : Char) : Prop where
  blank : ∀ depth, standing t = .outside depth → isBlank c = true →
    c = ' ' ∧ t ≠ [] ∧ t.getLast? ≠ some ' '
  comma : standing t = .outside 0 → c ≠ ','

theorem tidy_nil : Tidy [] :=
  ⟨by simp, by simp [SingleSpaced, Throughout], by simp [Undivided, Throughout]⟩

theorem Tidy.of_prefix {s t : Text} (h : Tidy t) (hst : s <+: t) : Tidy s := by
  refine ⟨fun c hc => h.head c ?_, h.singleSpaced.of_prefix hst, h.undivided.of_prefix hst⟩
  obtain ⟨back, rfl⟩ := hst
  exact List.mem_head?_append_of_mem_head? hc

/-- A text is tidy if it is so before its last character, and that one may follow. -/
theorem tidy_concat {t : Text} {c : Char} : Tidy (t ++ [c]) ↔ Tidy t ∧ Follows t c := by
  constructor
  · intro h
    refine ⟨h.of_prefix (List.prefix_append _ _), fun depth ht hc => ?_,
      (throughout_concat.1 h.undivided).2⟩
    obtain ⟨hspace, hlast⟩ := (throughout_concat.1 h.singleSpaced).2 depth ht hc
    refine ⟨hspace, ?_, hlast⟩
    rintro rfl
    have hhead := h.head c rfl
    rw [hc] at hhead
    cases hhead
  · rintro ⟨h, hc⟩
    refine ⟨fun d hd => ?_, throughout_concat.2 ⟨h.singleSpaced, fun depth ht hblank => ?_⟩,
      throughout_concat.2 ⟨h.undivided, hc.comma⟩⟩
    · cases t with
      | nil =>
        obtain rfl : c = d := by simpa using hd
        exact Bool.eq_false_iff.2 fun hblank => (hc.blank 0 rfl hblank).2.1 rfl
      | cons a t => exact h.head d hd
    · obtain ⟨hspace, -, hlast⟩ := hc.blank depth ht hblank
      exact ⟨hspace, hlast⟩

/-- Anything may follow within quotes. -/
theorem follows_of_inString {t : Text} {quote : Char} {depth : Nat}
    (h : standing t = .inString quote depth) (c : Char) : Follows t c := by
  constructor
  · intro depth hout
    rw [h] at hout
    cases hout
  · intro hout
    rw [h] at hout
    cases hout

theorem follows_of_not_blank {t : Text} {c : Char} {depth : Nat} (h : standing t = .outside depth)
    (hc : isBlank c = false) (hcomma : ¬ (c = ',' ∧ depth = 0)) : Follows t c := by
  refine ⟨fun _ _ hblank => ?_, fun hout hc => hcomma ⟨hc, ?_⟩⟩
  · rw [hc] at hblank
    cases hblank
  · rw [h] at hout
    exact Place.outside.inj hout

/-- A single space may follow what is not a space. -/
theorem follows_space {t : Text} (hne : t ≠ []) (hlast : t.getLast? ≠ some ' ') : Follows t ' ' :=
  ⟨fun _ _ _ => ⟨rfl, hne, hlast⟩, fun _ => by decide⟩

/-! ## Splitting gives tidy texts -/

/-- The place of the text around a comment. -/
def Place.around : Place → Place
  | .outside depth => .outside depth
  | .inString quote depth => .inString quote depth
  | .inComment _ depth => .outside depth

/-- What was read of the selector at hand is tidy, and leads to this place. -/
structure Reached (place : Place) (current : Text) : Prop where
  standing_eq : standing current.reverse = place
  tidy : Tidy current.reverse

theorem reached_nil : Reached (.outside 0) [] :=
  ⟨rfl, tidy_nil⟩

/-- A character that may follow is kept, and the place moves on. -/
theorem Reached.push {place next : Place} {current : Text} {c : Char} (h : Reached place current)
    (hc : Follows current.reverse c) (hnext : place.step c = next) :
    Reached next (c :: current) := by
  constructor
  · rw [List.reverse_cons, standing_concat, h.standing_eq, hnext]
  · rw [List.reverse_cons]
    exact tidy_concat.2 ⟨h.tidy, hc⟩

/-- The pieces of a list are tidy, and each one with another behind it ends outside quotes and
brackets: a comma divides nowhere else. -/
theorem tidy_pieces (place : Place) {current : Text} (h : Reached place.around current) (t : Text) :
    (∀ piece ∈ pieces place current t, Tidy piece) ∧
      (pieces place current t).Pairwise fun piece _ => standing piece = .outside 0 := by
  -- what the splitter drops, comments and further blanks, leaves `Reached` as it is
  fun_induction pieces place current t with
  | case1 place current =>
    refine ⟨?_, List.pairwise_singleton _ _⟩
    intro piece hpiece
    rw [List.mem_singleton.1 hpiece]
    exact h.tidy
  | case2 quote depth current c t ih =>
    refine ih (h.push (follows_of_inString h.standing_eq c) ?_)
    rw [Place.around, Place.step]
    split <;> rfl
  | case3 last depth current c t ih =>
    refine ih ⟨?_, h.tidy⟩
    rw [h.standing_eq]
    split <;> rfl
  | case4 depth current t ih => exact ih h
  | case5 depth current c t hmark hquote ih =>
    have hc : Follows current.reverse c := by
      rcases hquote with rfl | rfl <;>
        exact follows_of_not_blank h.standing_eq (by decide) (by simp)
    exact ih (h.push hc (if_pos hquote))
  | case6 depth current c t hmark hquote hopen ih =>
    have hc : Follows current.reverse c := by
      rcases hopen with rfl | rfl <;>
        exact follows_of_not_blank h.standing_eq (by decide) (by simp)
    exact ih (h.push hc ((if_neg hquote).trans (if_pos hopen)))
  | case7 depth current c t hmark hquote hopen hclose ih =>
    have hc : Follows current.reverse c := by
      rcases hclose with rfl | rfl <;>
        exact follows_of_not_blank h.standing_eq (by decide) (by simp)
    exact ih (h.push hc ((if_neg hquote).trans ((if_neg hopen).trans (if_pos hclose))))
  | case8 depth current c t hmark hquote hopen hclose hcomma ih =>
    obtain ⟨-, rfl⟩ := hcomma
    obtain ⟨htidy, hclosed⟩ := ih reached_nil
    exact ⟨List.forall_mem_cons.2 ⟨h.tidy, htidy⟩,
      List.pairwise_cons.2 ⟨fun _ _ => h.standing_eq, hclosed⟩⟩
  | case9 depth current c t hmark hquote hopen hclose hcomma hblank hdrop ih => exact ih h
  | case10 depth current c t hmark hquote hopen hclose hcomma hblank hdrop ih =>
    obtain ⟨hne, hhead⟩ := not_or.1 hdrop
    have hc : Follows current.reverse ' ' :=
      follows_space (by simpa using hne) (by simpa using hhead)
    exact ih (h.push hc rfl)
  | case11 depth current c t hmark hquote hopen hclose hcomma hblank ih =>
    have hc := follows_of_not_blank h.standing_eq (Bool.eq_false_iff.2 hblank) hcomma
    exact ih (h.push hc ((if_neg hquote).trans ((if_neg hopen).trans (if_neg hclose))))

/-! ## Tidy texts are read as they are -/

/-- The mark that opens a comment stands nowhere in the text, not even within quotes. -/
def Uncommented (t : Text) : Prop :=
  t.IsChain fun c next => c = '/' → next ≠ '*'

/-- No slash has a star behind it if the mark is nowhere in the text. -/
theorem uncommented_iff {t : Text} : Uncommented t ↔ ¬ "/*".toList <:+: t := by
  rw [Uncommented, List.isChain_iff_forall_rel_of_append_cons_cons]
  constructor
  · rintro h ⟨front, back, rfl⟩
    exact @h '/' '*' front back (by simp) rfl rfl
  · rintro h c next front back rfl rfl rfl
    exact h ⟨front, back, by simp⟩

/-- A character that may follow what was read is kept by the reader. -/
theorem pieces_cons_of_follows {s t : Text} {c : Char} (h : Follows s c)
    (hmark : c = '/' → t.head? ≠ some '*') :
    pieces (standing s) s.reverse (c :: t) = pieces ((standing s).step c) (c :: s.reverse) t := by
  rcases standing_cases s with ⟨depth, hs⟩ | ⟨quote, depth, hs, -⟩
  · have hcomma : ¬ (c = ',' ∧ depth = 0) := by
      rintro ⟨hc, rfl⟩
      exact h.comma hs hc
    rw [hs, pieces, Place.step]
    · by_cases hquote : c = '"' ∨ c = '\x27'
      · rw [if_pos hquote, if_pos hquote]
      rw [if_neg hquote, if_neg hquote]
      by_cases hopen : c = '[' ∨ c = '('
      · rw [if_pos hopen, if_pos hopen]
      rw [if_neg hopen, if_neg hopen]
      by_cases hclose : c = ']' ∨ c = ')'
      · rw [if_pos hclose, if_pos hclose]
      rw [if_neg hclose, if_neg hclose, if_neg hcomma]
      split
      · next hblank =>
        obtain ⟨rfl, hne, hlast⟩ := h.blank depth hs hblank
        rw [if_neg]
        simp [hne, hlast]
      · rfl
    · rintro back rfl rfl
      exact hmark rfl rfl
  · rw [hs, pieces]
    rfl

/-- A tidy text is kept whole by the splitter, whatever stands behind it. -/
theorem Tidy.pieces_append {s t : Text} (h : Tidy s) (hmark : Uncommented (s ++ t)) :
    pieces (.outside 0) [] (s ++ t) = pieces (standing s) s.reverse t := by
  induction s using List.reverseRecOn generalizing t with
  | nil => rfl
  | append_singleton s c ih =>
    obtain ⟨hs, hc⟩ := tidy_concat.1 h
    rw [List.append_assoc, List.singleton_append] at hmark ⊢
    have hnext : c = '/' → t.head? ≠ some '*' := by
      intro hslash hstar
      obtain ⟨back, rfl⟩ := List.head?_eq_some_iff.1 hstar
      exact (List.isChain_cons_cons.1 hmark.right_of_append).1 hslash rfl
    rw [ih hs hmark, pieces_cons_of_follows hc hnext, standing_concat, List.reverse_append]
    rfl

theorem uncommented_intercalate {selectors : List Text} (h : ∀ s ∈ selectors, Uncommented s) :
    Uncommented (", ".toList.intercalate selectors) := by
  induction selectors with
  | nil => exact .nil
  | cons s selectors ih =>
    obtain ⟨hs, hselectors⟩ := List.forall_mem_cons.1 h
    cases selectors with
    | nil => rwa [List.intercalate_singleton]
    | cons next selectors =>
      have hspace : Uncommented (' ' :: ", ".toList.intercalate (next :: selectors)) :=
        List.isChain_cons.2 ⟨by simp, ih hselectors⟩
      rw [List.intercalate_cons_cons, List.append_assoc]
      show Uncommented (s ++ ',' :: ' ' :: ", ".toList.intercalate (next :: selectors))
      -- neither character of the divider is half of the mark
      exact hs.append (List.isChain_cons_cons.2 ⟨by simp, hspace⟩) (by simp)

/-- Tidy texts with a comma and a space between them are read as these texts, if all but the last
have closed their quotes and brackets. -/
theorem pieces_intercalate {selectors : List Text} (hne : selectors ≠ [])
    (h : ∀ s ∈ selectors, Tidy s)
    (hclosed : selectors.Pairwise fun s _ => standing s = .outside 0)
    (hmark : ∀ s ∈ selectors, Uncommented s) :
    pieces (.outside 0) [] (", ".toList.intercalate selectors) = selectors := by
  induction selectors with
  | nil => exact absurd rfl hne
  | cons s selectors ih =>
    have hjoined := uncommented_intercalate hmark
    obtain ⟨hs, hselectors⟩ := List.forall_mem_cons.1 h
    obtain ⟨hout, hlater⟩ := List.pairwise_cons.1 hclosed
    cases selectors with
    | nil =>
      rw [List.intercalate_singleton, ← List.append_nil s] at hjoined ⊢
      rw [hs.pieces_append hjoined, pieces, List.reverse_reverse, List.append_nil]
    | cons next selectors =>
      have ih := ih (List.cons_ne_nil _ _) hselectors hlater
        fun other hother => hmark other (List.mem_cons_of_mem _ hother)
      rw [List.intercalate_cons_cons, List.append_assoc] at hjoined ⊢
      rw [hs.pieces_append hjoined, hout next List.mem_cons_self, pieces_comma_space,
        List.reverse_reverse, ih]

/-! ## Lists in normal form -/

/-- The selectors of a list as they come out when it is split.  Only the last one may leave quotes
or brackets open. -/
structure InNormalForm (selectors : List Text) : Prop where
  ne_nil : ∀ s ∈ selectors, s ≠ []
  trimmed : ∀ s ∈ selectors, Trimmed s
  singleSpaced : ∀ s ∈ selectors, SingleSpaced s
  undivided : ∀ s ∈ selectors, Undivided s
  closed : selectors.Pairwise fun s _ => standing s = .outside 0

/-- Trimming a tidy text takes off what trails, for nothing leads. -/
theorem Tidy.trim_append {s : Text} (h : Tidy s) : trim s ++ trailing s = s := by
  rw [trim_append_trailing, trimStart_of_head h.head]

/-- Trimming a tidy text does not change where it leaves off. -/
theorem Tidy.standing_trim {s : Text} (h : Tidy s) : standing (trim s) = standing s := by
  rw [← standing_append_blank (blank_of_mem_trailing s), h.trim_append]

theorem Tidy.trim {s : Text} (h : Tidy s) : Tidy (trim s) :=
  h.of_prefix ⟨trailing s, h.trim_append⟩

/-- Whatever is split comes out in normal form. -/
theorem inNormalForm_splitSelectors (p : Text) : InNormalForm (splitSelectors p) := by
  obtain ⟨htidy, hclosed⟩ := tidy_pieces (.outside 0) reached_nil p
  have hmem {s : Text} (hs : s ∈ splitSelectors p) : Tidy s ∧ Trimmed s := by
    obtain ⟨piece, hpiece, rfl⟩ := List.mem_map.1 (List.mem_of_mem_filter hs)
    exact ⟨(htidy piece hpiece).trim, trimmed_trim piece⟩
  refine ⟨fun s hs => ne_nil_of_mem_splitSelectors hs, fun s hs => (hmem hs).2,
    fun s hs => (hmem hs).1.singleSpaced, fun s hs => (hmem hs).1.undivided, ?_⟩
  -- trimming opens and closes nothing, and what is left out does not matter to the others
  refine List.Pairwise.filter _ (List.pairwise_map.2 (hclosed.imp_of_mem ?_))
  intro piece _ hpiece _ hout
  rw [(htidy piece hpiece).standing_trim, hout]

/-- A list in normal form is what its selectors are split into when they are joined. -/
theorem InNormalForm.splitSelectors_eq {selectors : List Text} (h : InNormalForm selectors)
    (hmark : ∀ s ∈ selectors, ¬ "/*".toList <:+: s) :
    splitSelectors (", ".toList.intercalate selectors) = selectors := by
  by_cases hne : selectors = []
  · rw [hne]
    rfl
  have htidy : ∀ s ∈ selectors, Tidy s := fun s hs =>
    ⟨(h.trimmed s hs).1, h.singleSpaced s hs, h.undivided s hs⟩
  have hpieces := pieces_intercalate hne htidy h.closed fun s hs => uncommented_iff.2 (hmark s hs)
  have htrim : selectors.map trim = selectors := by
    rw [List.map_congr_left fun s hs => trim_eq_self (h.trimmed s hs), List.map_id']
  rw [splitSelectors, hpieces, htrim, List.filter_eq_self]
  intro s hs
  simpa using h.ne_nil s hs

/-- The selectors of any text are not empty, have no blanks at their ends and, outside quotes, only
single spaces.  Joined and split again they are the same, unless one of them holds the mark of a
comment.  The lists without that mark which are split into themselves are just those in normal
form. -/
theorem splitSelectors_normal_form (p : Text) :
    (∀ s ∈ splitSelectors p, s ≠ [] ∧ Trimmed s ∧ SingleSpaced s) ∧
      ((∀ s ∈ splitSelectors p, ¬ "/*".toList <:+: s) →
        splitSelectors (", ".toList.intercalate (splitSelectors p)) = splitSelectors p) ∧
      ∀ selectors, (∀ s ∈ selectors, ¬ "/*".toList <:+: s) →
        (splitSelectors (", ".toList.intercalate selectors) = selectors ↔
          InNormalForm selectors) := by
  have h := inNormalForm_splitSelectors p
  refine ⟨fun s hs => ⟨h.ne_nil s hs, h.trimmed s hs, h.singleSpaced s hs⟩, h.splitSelectors_eq,
    fun selectors hmark => ⟨fun heq => ?_, fun hnormal => hnormal.splitSelectors_eq hmark⟩⟩
  rw [← heq]
  exact inNormalForm_splitSelectors _

/-- A list with an empty selector, a comment, brackets that are closed too often and brackets and a
quote that are not closed at all. -/
def raggedList : Text :=
  ["ul\n li [a , b] ,,", "  )p /* c, d */ > q", " , [r , 's,  t \t"].flatMap String.toList

theorem splitSelectors_raggedList :
    splitSelectors raggedList = ["ul li [a , b]", ")p > q", "[r , 's,  t"].map String.toList ∧
      (∀ s ∈ splitSelectors raggedList, ¬ "/*".toList <:+: s) ∧
      splitSelectors (", ".toList.intercalate (splitSelectors raggedList)) =
        splitSelectors raggedList ∧
      InNormalForm (splitSelectors raggedList) := by
  have hmark : ∀ s ∈ splitSelectors raggedList, ¬ "/*".toList <:+: s := by decide +kernel
  obtain ⟨-, hagain, hiff⟩ := splitSelectors_normal_form raggedList
  exact ⟨by decide +kernel, hmark, hagain hmark, (hiff _ hmark).1 (hagain hmark)⟩

/-- A comment that is dropped can leave the mark of another one behind, so that a selector is cut
off when it is split again. -/
example :
    splitSelectors "a//**/* b".toList = ["a/* b".toList] ∧
      splitSelectors "a/* b".toList = ["a".toList] := by
  decide +kernel

end Scaffold.Css
