import Scaffold.Css.Support
import Scaffold.Proofs.Css.Reading
import Scaffold.Proofs.Selector.Compound
import Scaffold.Proofs.Sketch.Basic

/-!
# Reading the style sheet of a sketch

The rule of a node is read back piece by piece: the selector is passed over to find the block
(`findBlock?_selector`), the comments of the block are its only items, and the selector that is
left for the rule is the path of compounds as it was written (`splitSelectors_selector`).  A
compound is then taken apart into the tag, the id and the classes of its mark.
-/

namespace Scaffold

open Scaffold.Css Scaffold.Text

/-! ## Characters of plain names -/

theorem toNat_of_isPlainHead {c : Char} (h : isPlainHead c = true) :
    97 ≤ c.toNat ∧ c.toNat ≤ 122 := by
  simp only [isPlainHead, Bool.and_eq_true, decide_eq_true_eq, Char.le_def,
    UInt32.le_iff_toNat_le] at h
  exact h

theorem toNat_of_isPlainChar {c : Char} (h : isPlainChar c = true) :
    (97 ≤ c.toNat ∧ c.toNat ≤ 122) ∨ (48 ≤ c.toNat ∧ c.toNat ≤ 57) ∨ c.toNat = 45 := by
  simp only [isPlainChar, Bool.or_eq_true, Bool.and_eq_true, decide_eq_true_eq, Char.le_def,
    UInt32.le_iff_toNat_le, beq_iff_eq] at h
  rcases h with (h | h) | rfl
  · exact Or.inl (toNat_of_isPlainHead h)
  · exact Or.inr (Or.inl h)
  · exact Or.inr (Or.inr rfl)

theorem isAlpha_of_isPlainHead {c : Char} (h : isPlainHead c = true) : c.isAlpha = true := by
  have hlower : c.isLower = true := h
  show (c.isUpper || c.isLower) = true
  rw [hlower, Bool.or_true]

theorem isNameChar_of_isPlainChar {c : Char} (h : isPlainChar c = true) :
    isNameChar c = true := by
  simp only [isPlainChar, Bool.or_eq_true] at h
  rcases h with (h | h) | h
  · have : c.isAlpha = true := isAlpha_of_isPlainHead h
    simp [isNameChar, Char.isAlphanum, this]
  · have : c.isDigit = true := h
    simp [isNameChar, Char.isAlphanum, this]
  · simp [isNameChar, h]

theorem isBlank_of_isPlainChar {c : Char} (h : isPlainChar c = true) : isBlank c = false := by
  have := toNat_of_isPlainChar h
  simp only [isBlank, Bool.or_eq_false_iff, Bool.and_eq_false_iff, decide_eq_false_iff_not,
    beq_eq_false_iff_ne]
  omega

theorem isNameStart_of_isPlainHead {c : Char} (h : isPlainHead c = true) :
    isNameStart c = true := by
  simp [isNameStart, isAlpha_of_isPlainHead h]

namespace PlainName

/-- A plain name starts with a letter and holds plain characters only. -/
theorem text_cons (n : PlainName) :
    ∃ c t, n.text = c :: t ∧ isPlainHead c = true ∧ ∀ d ∈ n.text, isPlainChar d = true := by
  obtain ⟨text, plain⟩ := n
  cases text with
  | nil => simp [isPlainName] at plain
  | cons c t =>
    simp only [isPlainName, Bool.and_eq_true, List.all_eq_true] at plain
    refine ⟨c, t, rfl, plain.1, fun d hd => ?_⟩
    rcases List.mem_cons.1 hd with rfl | hd
    · simp [isPlainChar, plain.1]
    · exact plain.2 d hd

theorem isPlainChar_of_mem (n : PlainName) {c : Char} (h : c ∈ n.text) : isPlainChar c = true := by
  obtain ⟨_, _, _, _, hall⟩ := n.text_cons
  exact hall c h

theorem text_ne_nil (n : PlainName) : n.text ≠ [] := by
  obtain ⟨c, t, ht, -⟩ := n.text_cons
  rw [ht]
  exact List.cons_ne_nil c t

end PlainName

/-! ## Tokens of a selector -/

/-- What may follow a name in the selector of a sketch. -/
def Follows (t : Text) : Prop :=
  ∃ c rest, t = c :: rest ∧ (c = '#' ∨ c = '.' ∨ c = ' ')

theorem Follows.nameEnds {t : Text} (h : Follows t) : NameEnds t ∧ t.head? ≠ some '(' := by
  obtain ⟨c, rest, rfl, hc⟩ := h
  refine ⟨fun d hd => ?_, ?_⟩
  · obtain rfl : c = d := by simpa using hd
    rcases hc with rfl | rfl | rfl <;> decide
  · rcases hc with rfl | rfl | rfl <;> simp

theorem startsIdent_plainName (n : PlainName) (t : Text) : startsIdent (n.text ++ t) = true := by
  obtain ⟨c, u, hn, hc, -⟩ := n.text_cons
  rw [hn, List.cons_append]
  exact startsIdent_of_isNameStart (isNameStart_of_isPlainHead hc) (u ++ t)

/-- A plain name is read as one name, up to what may follow it. -/
theorem lex_plainName (n : PlainName) {t : Text} (h : Follows t) :
    lex (n.text ++ t) = some (.ident n.text, t) := by
  obtain ⟨c, u, hn, hc, hall⟩ := n.text_cons
  rw [hn] at hall ⊢
  exact lex_ident (isNameStart_of_isPlainHead hc)
    (fun d hd => isNameChar_of_isPlainChar (hall d hd)) h.nameEnds.1 h.nameEnds.2

/-- A plain name behind a hash sign is read as an id. -/
theorem lex_hash (n : PlainName) {t : Text} (h : Follows t) :
    lex ('#' :: (n.text ++ t)) = some (.hash n.text, t) := by
  have hname := name_append (n := n.text)
    (fun d hd => isNameChar_of_isPlainChar (n.isPlainChar_of_mem hd)) h.nameEnds.1
  show some (if startsIdent (n.text ++ t) || startsDigit (n.text ++ t) ||
    (n.text ++ t).head? == some '-' then (Token.hash (name (n.text ++ t)).1, (name (n.text ++ t)).2)
    else (.delim '#', n.text ++ t)) = _
  rw [startsIdent_plainName, Bool.true_or, Bool.true_or, if_pos rfl, hname]

theorem lex_dot (n : PlainName) (t : Text) :
    lex ('.' :: (n.text ++ t)) = some (.delim '.', n.text ++ t) := by
  obtain ⟨c, u, hn, hc, -⟩ := n.text_cons
  have hdigit : startsDigit (n.text ++ t) = false := by
    rw [hn, List.cons_append, startsDigit,
      isDigit_of_isNameStart (isNameStart_of_isPlainHead hc)]
  show some (if startsDigit (n.text ++ t) then _ else (Token.delim '.', n.text ++ t)) = _
  rw [hdigit]
  rfl

/-! ## Compounds and paths -/

namespace Mark

/-- The characters of a compound: those of its names and the marks in front of them. -/
theorem mem_compound {m : Mark} {c : Char} (h : c ∈ m.compound) :
    isPlainChar c = true ∨ c = '#' ∨ c = '.' := by
  simp only [compound, List.mem_append, List.mem_flatMap, List.mem_cons] at h
  rcases h with (h | ⟨n, -, rfl | h⟩) | ⟨n, -, rfl | h⟩
  · exact Or.inl (m.tag.isPlainChar_of_mem h)
  · exact Or.inr (Or.inl rfl)
  · exact Or.inl (n.isPlainChar_of_mem h)
  · exact Or.inr (Or.inr rfl)
  · exact Or.inl (n.isPlainChar_of_mem h)

theorem isBlank_of_mem_compound {m : Mark} {c : Char} (h : c ∈ m.compound) :
    isBlank c = false := by
  rcases mem_compound h with h | rfl | rfl
  · exact isBlank_of_isPlainChar h
  · decide
  · decide

theorem space_notMem_compound (m : Mark) : ' ' ∉ m.compound :=
  fun h => absurd (isBlank_of_mem_compound h) (by decide)

theorem compound_cons (m : Mark) : ∃ c t, m.compound = c :: t ∧ isPlainHead c = true := by
  obtain ⟨c, t, ht, hc, -⟩ := m.tag.text_cons
  exact ⟨c, _, by rw [compound, ht, List.append_assoc, List.cons_append], hc⟩

theorem compound_ne_nil (m : Mark) : m.compound ≠ [] := by
  obtain ⟨c, t, ht, -⟩ := m.compound_cons
  rw [ht]
  exact List.cons_ne_nil c t

theorem selector_singleton (m : Mark) : selector [m] = m.compound :=
  List.intercalate_singleton

theorem selector_cons_cons (m n : Mark) (path : List Mark) :
    selector (m :: n :: path) = m.compound ++ ' ' :: selector (n :: path) := by
  rw [selector, List.map_cons, List.map_cons, List.intercalate_cons_cons, List.append_assoc]
  rfl

/-- The selector of a path with one more mark below. -/
theorem selector_concat {above : List Mark} (h : above ≠ []) (m : Mark) :
    selector (above ++ [m]) = selector above ++ ' ' :: m.compound := by
  induction above with
  | nil => exact absurd rfl h
  | cons n above ih =>
    cases above with
    | nil =>
      rw [List.singleton_append, selector_cons_cons, selector_singleton, selector_singleton]
    | cons k above =>
      have ih := ih (List.cons_ne_nil k above)
      rw [List.cons_append] at ih
      rw [List.cons_append, List.cons_append, selector_cons_cons, ih, selector_cons_cons,
        List.append_assoc, List.cons_append]

/-- The selector of a mark ends with the mark's compound, which is its own segment. -/
theorem own_selector (above : List Mark) (m : Mark) :
    Selector.Path.own ⟨selector (above ++ [m])⟩ = m.compound := by
  by_cases h : above = []
  · rw [h, List.nil_append, selector_singleton,
      Selector.Path.own_of_notMem (p := ⟨m.compound⟩) m.space_notMem_compound]
  · rw [selector_concat h, Selector.Path.own_append _ _ m.space_notMem_compound]

theorem mem_selector {path : List Mark} {c : Char} (h : c ∈ selector path) :
    c = ' ' ∨ isPlainChar c = true ∨ c = '#' ∨ c = '.' := by
  induction path with
  | nil => simp [selector, List.intercalate] at h
  | cons m path ih =>
    cases path with
    | nil =>
      rw [selector_singleton] at h
      exact Or.inr (mem_compound h)
    | cons n path =>
      rw [selector_cons_cons, List.mem_append, List.mem_cons] at h
      rcases h with h | rfl | h
      · exact Or.inr (mem_compound h)
      · exact Or.inl rfl
      · exact ih h

theorem head?_selector (m : Mark) (path : List Mark) :
    ∃ c, (selector (m :: path)).head? = some c ∧ isPlainHead c = true := by
  obtain ⟨c, t, ht, hc⟩ := m.compound_cons
  refine ⟨c, ?_, hc⟩
  cases path with
  | nil => rw [selector_singleton, ht, List.head?_cons]
  | cons n path => rw [selector_cons_cons, ht, List.cons_append, List.head?_cons]

/-- A selector has no blanks around it. -/
theorem trimmed_selector (path : List Mark) : Trimmed (selector path) := by
  refine ⟨?_, ?_⟩
  · cases path with
    | nil => simp [selector, List.intercalate]
    | cons m path =>
      obtain ⟨c, hc, hhead⟩ := head?_selector m path
      intro d hd
      rw [hc, Option.mem_def, Option.some.injEq] at hd
      exact hd ▸ isBlank_of_isPlainChar (by simp [isPlainChar, hhead])
  · intro d hd
    rcases List.eq_nil_or_concat path with rfl | ⟨above, m, rfl⟩
    · simp [selector, List.intercalate] at hd
    · have hlast : (selector (above ++ [m])).getLast? = m.compound.getLast? := by
        by_cases h : above = []
        · rw [h, List.nil_append, selector_singleton]
        · rw [selector_concat h, List.getLast?_append, List.getLast?_cons]
          cases hc : m.compound.getLast? with
          | none => exact absurd (List.getLast?_eq_none_iff.1 hc) m.compound_ne_nil
          | some c => rfl
      rw [List.concat_eq_append, hlast] at hd
      exact isBlank_of_mem_compound (List.mem_of_getLast? hd)

end Mark

/-! ## Finding the block of a rule -/

theorem findBlock?_classes (names : List PlainName) {t : Text} (h : Follows t) :
    findBlock? (.start (names.flatMap (fun n => '.' :: n.text) ++ t)) = findBlock? (.start t) ∧
      Follows (names.flatMap (fun n => '.' :: n.text) ++ t) := by
  induction names with
  | nil => exact ⟨rfl, h⟩
  | cons n names ih =>
    rw [List.flatMap_cons, List.append_assoc, List.cons_append]
    refine ⟨?_, '.', _, rfl, Or.inr (Or.inl rfl)⟩
    rw [findBlock?_skip (lex_dot n _) rfl, findBlock?_skip (lex_plainName n ih.2) rfl, ih.1]

/-- The search for a block passes over a compound. -/
theorem findBlock?_compound (m : Mark) {t : Text} (h : Follows t) :
    findBlock? (.start (m.compound ++ t)) = findBlock? (.start t) := by
  obtain ⟨hclasses, hfollows⟩ := findBlock?_classes m.classes h
  rw [Mark.compound, List.append_assoc, List.append_assoc, ← hclasses]
  cases m.id with
  | none => exact findBlock?_skip (lex_plainName m.tag hfollows) rfl
  | some id =>
    rw [Option.toList_some, List.flatMap_singleton, List.cons_append]
    rw [findBlock?_skip (lex_plainName m.tag ⟨'#', _, rfl, Or.inl rfl⟩) rfl,
      findBlock?_skip (lex_hash id hfollows) rfl]

/-- The block of a rule is found behind the whole selector. -/
theorem findBlock?_selector {path : List Mark} (h : path ≠ []) (t : Text) :
    findBlock? (.start (Mark.selector path ++ ' ' :: '{' :: t)) = some ('{' :: t, t) := by
  induction path with
  | nil => exact absurd rfl h
  | cons m path ih =>
    cases path with
    | nil =>
      rw [Mark.selector_singleton,
        findBlock?_compound m ⟨' ', _, rfl, Or.inr (Or.inr rfl)⟩,
        findBlock?_skip (lex_space (by simp; decide)) rfl, findBlock?_openCurly]
    | cons n path =>
      have ih := ih (List.cons_ne_nil n path)
      have hspace : ∀ c ∈ (Mark.selector (n :: path) ++ ' ' :: '{' :: t).head?,
          Css.isSpace c = false := by
        obtain ⟨c, hc, hhead⟩ := Mark.head?_selector n path
        intro d hd
        rw [List.head?_append, hc, Option.mem_def, Option.some_or, Option.some.injEq] at hd
        exact hd ▸ isSpace_of_isNameStart (isNameStart_of_isPlainHead hhead)
      rw [Mark.selector_cons_cons, List.append_assoc, List.cons_append,
        findBlock?_compound m ⟨' ', _, rfl, Or.inr (Or.inr rfl)⟩,
        findBlock?_skip (lex_space hspace) rfl, ih]

/-! ## The selector of a rule -/

/-- A compound is kept as it is when a list of selectors is split. -/
theorem pieces_compound (m : Mark) (current t : Text) :
    pieces (.outside 0) current (m.compound ++ t) =
      pieces (.outside 0) (m.compound.reverse ++ current) t := by
  refine pieces_append 0 current t fun c hc => ?_
  have hblank := Mark.isBlank_of_mem_compound hc
  simp only [isPlainSelectorChar, hblank, Bool.or_false, Bool.not_eq_true', Bool.or_eq_false_iff,
    beq_eq_false_iff_ne]
  rcases Mark.mem_compound hc with h | rfl | rfl
  · refine ⟨⟨⟨⟨⟨⟨⟨?_, ?_⟩, ?_⟩, ?_⟩, ?_⟩, ?_⟩, ?_⟩, ?_⟩ <;>
      exact ne_of_apply_ne isPlainChar (h.trans_ne (by decide))
  · decide
  · decide

/-- So is a selector, with the space behind it. -/
theorem pieces_selector {path : List Mark} (h : path ≠ []) (current t : Text) :
    pieces (.outside 0) current (Mark.selector path ++ ' ' :: t) =
      pieces (.outside 0) (' ' :: (Mark.selector path).reverse ++ current) t := by
  have hspace : ∀ (m : Mark) (current t : Text),
      pieces (.outside 0) current (m.compound ++ ' ' :: t) =
        pieces (.outside 0) (' ' :: m.compound.reverse ++ current) t := by
    intro m current t
    have hne : m.compound.reverse ≠ [] := by simp [m.compound_ne_nil]
    obtain ⟨c, u, hu⟩ := List.exists_cons_of_ne_nil hne
    have hc : c ∈ m.compound := List.mem_reverse.1 (by simp [hu])
    rw [pieces_compound, hu]
    refine pieces_space t (by simp) fun heq => ?_
    obtain rfl : c = ' ' := by simpa using heq
    exact m.space_notMem_compound hc
  induction path generalizing current with
  | nil => exact absurd rfl h
  | cons m path ih =>
    cases path with
    | nil => rw [Mark.selector_singleton, hspace]
    | cons n path =>
      rw [Mark.selector_cons_cons, List.append_assoc, List.cons_append, hspace,
        ih (List.cons_ne_nil n path)]
      simp

/-- The selector list of a rule holds the rule's selector and nothing else. -/
theorem splitSelectors_selector {path : List Mark} (h : path ≠ []) :
    splitSelectors (Mark.selector path ++ [' ']) = [Mark.selector path] := by
  have htrim : trim (Mark.selector path ++ [' ']) = Mark.selector path := by
    rw [trim_append_right (by simp; decide), trim_eq_self (Mark.trimmed_selector path)]
  have hne : Mark.selector path ≠ [] := by
    cases path with
    | nil => exact absurd rfl h
    | cons m path =>
      obtain ⟨c, hc, -⟩ := Mark.head?_selector m path
      intro heq
      simp [heq] at hc
  rw [splitSelectors, pieces_selector h, pieces, List.map_singleton]
  simp only [List.append_nil, List.reverse_cons, List.reverse_reverse, htrim]
  simp [hne]

/-! ## The block of a rule -/

/-- The body of the comment that gives the text of a place. -/
def Note.body (label : Text) (n : Note) : Text :=
  ' ' :: label ++ ": ".toList ++ n.text ++ " ".toList

/-- A mark is nowhere in a text if its first character is not in the front of the text and the mark
is not in the rest. -/
theorem not_infix_append {c : Char} {mark front back : Text} (hfront : c ∉ front)
    (hback : ¬ c :: mark <:+: back) : ¬ c :: mark <:+: front ++ back := by
  induction front with
  | nil => exact hback
  | cons d front ih =>
    obtain ⟨hne, hfront⟩ := not_or.1 (mt List.mem_cons.2 hfront)
    rw [List.cons_append, List.infix_cons_iff, not_or]
    refine ⟨?_, ih hfront⟩
    rintro ⟨rest, hrest⟩
    exact hne (List.cons.inj hrest).1

/-- No comment of a note ends early. -/
theorem Note.body_open_ended {label : Text} (n : Note) (h : '*' ∉ label) :
    ¬ "*/".toList <:+: n.body label := by
  have hback : ¬ "*/".toList <:+: n.text ++ " ".toList := by
    show ¬ "*/".toList <:+: n.text ++ [' ']
    rw [List.infix_concat_iff, not_or]
    refine ⟨fun hs => ?_, n.open_ended⟩
    obtain ⟨front, hf⟩ := hs
    have hlast := congrArg List.getLast? hf
    simp at hlast
  have hbody : n.body label = (' ' :: label ++ ": ".toList) ++ (n.text ++ " ".toList) := by
    rw [Note.body, List.append_assoc]
  have hfront : '*' ∉ ' ' :: label ++ ": ".toList := by simp [h]
  rw [hbody]
  exact not_infix_append hfront hback

/-- The comment of a note is read back as one comment. -/
theorem lex_remark {label : Text} (n : Note) (h : '*' ∉ label) (t : Text) :
    lex ("/* ".toList ++ label ++ ": ".toList ++ n.text ++ " */".toList ++ t) =
      some (.comment (n.body label), t) := by
  have := lex_comment (n.body_open_ended h) t
  rw [← this, Note.body]
  simp

/-- A note becomes an item of its block, and where there is none the block goes on. -/
theorem readBlock_remark (label : Text) (note : Option Note) (t : Text) (h : '*' ∉ label) :
    readBlock (.start (Mark.remark label note ++ t)) =
      Prod.map ((note.toList.map fun n => .declaration (.comment (n.body label))) ++ ·) id
        (readBlock (.start t)) := by
  cases note with
  | none => rfl
  | some n =>
    rw [Mark.remark, Option.toList_some, List.flatMap_singleton,
      readBlock_comment (lex_remark n h t) (by simp)]
    rfl

namespace Mark

/-- The bodies of the comments in the rule of a mark. -/
def bodies (m : Mark) : List Text :=
  m.before.toList.map (Note.body "text-before".toList) ++
    m.inside.toList.map (Note.body "text".toList) ++
    m.after.toList.map (Note.body "text-after".toList)

/-- The block of a rule holds the comments of its mark and nothing else. -/
theorem readBlock_remarks (m : Mark) (t : Text) :
    readBlock (.start (m.remarks ++ ' ' :: '}' :: t)) =
      (m.bodies.map fun body => .declaration (.comment body), '}' :: t) := by
  rw [remarks, List.append_assoc, List.append_assoc, readBlock_remark _ _ _ (by decide),
    readBlock_remark _ _ _ (by decide), readBlock_remark _ _ _ (by decide), readBlock_end]
  simp [bodies, List.map_map, Function.comp_def]

end Mark

/-! ## Taking a compound apart -/

theorem eraseDups_of_nodup {names : List Text} (h : names.Nodup) : names.eraseDups = names := by
  induction names with
  | nil => rfl
  | cons name names ih =>
    obtain ⟨hname, hnames⟩ := List.nodup_cons.1 h
    have hfilter : names.filter (fun other => !other == name) = names := by
      refine List.filter_eq_self.2 fun other hother => ?_
      simp only [Bool.not_eq_true', beq_eq_false_iff_ne]
      rintro rfl
      exact hname hother
    rw [List.eraseDups_cons, hfilter, ih hnames]

theorem PlainName.isComponentName_text (n : PlainName) :
    Selector.isComponentName n.text = true := by
  refine Selector.isComponentName_iff.2 ⟨n.text_ne_nil, fun c hc => ?_⟩
  have hplain := n.isPlainChar_of_mem hc
  simp only [Selector.startsComponent, Bool.or_eq_false_iff, beq_eq_false_iff_ne]
  refine ⟨⟨?_, ?_⟩, ?_⟩ <;> exact ne_of_apply_ne isPlainChar (hplain.trans_ne (by decide))

namespace Mark

/-- What a mark says beside its tag. -/
def components (m : Mark) : List Selector.Component :=
  m.id.toList.map (fun id => .id id.text) ++ m.classes.map fun name => .className name.text

/-- A compound is written from its tag and its components. -/
theorem compound_eq_written (m : Mark) :
    m.compound = Selector.Compound.written (some m.tag.text) m.components := by
  simp [compound, components, Selector.Compound.written, List.flatMap_map,
    Selector.Component.written]

theorem isWritable_of_mem_components {m : Mark} :
    ∀ c ∈ m.components, c.isWritable = true := by
  intro c hc
  simp only [components, List.mem_append, List.mem_map] at hc
  rcases hc with ⟨id, -, rfl⟩ | ⟨name, -, rfl⟩
  · exact id.isComponentName_text
  · exact name.isComponentName_text

/-- The compound of a mark says what the mark says. -/
theorem parse_compound (m : Mark) :
    Selector.Compound.parse m.compound =
      { tag := some m.tag.text
        id := m.id.map PlainName.text
        classes := m.classes.map PlainName.text
        attributes := [] } := by
  have htag : ∀ name ∈ some m.tag.text, Selector.isComponentName name = true := by
    intro name hname
    obtain rfl := Option.some.inj hname
    exact m.tag.isComponentName_text
  have hnone : ∀ names : List PlainName, names.filterMap (fun _ => (none : Option Text)) = [] :=
    fun names => List.filterMap_eq_nil_iff.2 fun _ _ => rfl
  rw [compound_eq_written, Selector.Compound.parse_written_eq htag isWritable_of_mem_components]
  simp only [Selector.Compound.ofComponents, components, List.filterMap_append, List.filterMap_map,
    Function.comp_def, Selector.Compound.mk.injEq]
  refine ⟨trivial, ?_, ?_, by simp⟩
  · cases m.id <;> simp [hnone]
  · rw [hnone, List.nil_append, List.filterMap_eq_map', eraseDups_of_nodup m.distinct]

end Mark

end Scaffold
