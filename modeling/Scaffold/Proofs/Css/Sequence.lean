import Scaffold.Proofs.Css.Part

/-!
# Items one after the other

A text that is one whole item, a comment, an at-rule or a style rule, is read as that item whatever
is written behind it (`exists_readsAs`).  What follows is read as it would be read alone, with one
exception: the block of an at-rule is still pending where the next item starts, and a style rule
takes its selectors from there, so that they start with the text inside that block (`leaks`).
-/

namespace Scaffold.Css

open Scaffold.Text

/-! ## Whole items -/

/-- Components that end in the first one with a property, which is closed. -/
def endsIn (p : Component → Bool) (ks : List Component) : Bool :=
  match ks.dropWhile fun k => !p k with
  | [k] => k.isClosed
  | _ => false

/-- A component with which a style rule can start. -/
def Component.startsStyle : Component → Bool
  | .token t => t.startsStyle
  | .block .. => true

/-- Components that make up one rule up to its end. -/
def isRule : List Component → Bool
  | [] => false
  | .token (.atKeyword _) :: ks => endsIn Component.endsAtRule ks
  | k :: ks => k.startsStyle && endsIn Component.isCurly (k :: ks)

/-- A text that is one item: a comment up to its mark, an at-rule up to its semicolon or the end of
its block, or a style rule up to the end of its block. -/
def IsItem (t : Text) : Prop :=
  (∃ body, ¬ "*/".toList <:+: body ∧ t = "/*".toList ++ body ++ "*/".toList) ∨
    isRule (components t) = true

/-- Components of an at-rule that ends in a block. -/
def isAtBlock : List Component → Bool
  | .token (.atKeyword _) :: ks => ks.getLast?.any Component.isCurly
  | _ => false

/-- Components that start with a style rule, but not with its block. -/
def startsInSelectors (ks : List Component) : Bool :=
  ks.head?.any fun k => k.startsStyle && !k.isCurly

/-- An at-rule with a block, and the selectors of a style rule right behind it. -/
def leaks (item back : Text) : Bool :=
  isAtBlock (components item) && startsInSelectors (components back)

theorem startsStyle_ofToken (token : Token) (behind : Text) :
    (Component.ofToken token behind).startsStyle = token.startsStyle := by
  cases token <;> rfl

theorem eq_of_ofToken_eq {token token' : Token} {behind : Text}
    (h : Component.ofToken token behind = .token token') : token = token' := by
  rw [Component.ofToken] at h
  split at h
  · exact Component.token.inj h
  · cases h

/-- Components end in such a component if it is the first of its kind, the last of all and closed.
-/
theorem endsIn_iff {p : Component → Bool} {ks : List Component} :
    endsIn p ks = true ↔
      ∃ last, ks.dropWhile (fun k => !p k) = [last] ∧ last.isClosed = true := by
  rw [endsIn]
  split
  · next k heq => simp [heq]
  · next hne =>
    simp only [Bool.false_eq_true, false_iff, not_exists, not_and]
    intro last heq
    exact absurd heq (hne last)

theorem eq_append_of_dropWhile {p : Component → Bool} {ks : List Component} {last : Component}
    (h : ks.dropWhile (fun k => !p k) = [last]) :
    (∃ front, ks = front ++ [last]) ∧ p last = true ∧ ks.find? p = some last := by
  have hfind : ks.find? p = some last := by
    rw [List.find?_eq_head?_dropWhile_not, h]
    rfl
  refine ⟨⟨ks.takeWhile fun k => !p k, ?_⟩, List.find?_some hfind, hfind⟩
  rw [← h, List.takeWhile_append_dropWhile]

theorem flattenAll_append (ks ls : List Component) :
    Component.flattenAll (ks ++ ls) = Component.flattenAll ks ++ Component.flattenAll ls := by
  induction ks with
  | nil => rfl
  | cons k ks ih => rw [List.cons_append, Component.flattenAll, ih, Component.flattenAll,
      List.append_assoc]

/-- Only the last component can run into the end of the text. -/
theorem isClosed_of_mem_dropLast {closer : Option Bracket} {ts : List Token} {k : Component}
    (h : k ∈ (group closer ts).components.dropLast) : k.isClosed = true := by
  have hcons {a : Component} {ks : List Component} (hk : k ∈ (a :: ks).dropLast) :
      (k = a ∧ ks ≠ []) ∨ k ∈ ks.dropLast := by
    cases ks with
    | nil => cases hk
    | cons b ks => simpa using hk
  fun_induction group closer ts with
  | case1 => cases h
  | case2 => cases h
  | case3 closer token ts _ _ more ih =>
    rcases hcons h with ⟨rfl, -⟩ | hmore
    · rfl
    · exact ih hmore
  | case4 closer token ts _ b _ inner more _ ihmore =>
    rcases hcons h with ⟨rfl, hne⟩ | hmore
    · cases hinner : inner.closed with
      | true => rfl
      | false =>
        -- what follows an open block is nothing
        have hnil : more.components = [] := by
          show (group closer inner.rest).components = []
          rw [rest_eq_nil_of_not_closed hinner, group]
        exact absurd hnil hne
    · exact ihmore hmore

theorem isCurly_block {opener : Token} {content : List Component} {closed : Bool}
    (h : (Component.block opener content closed).isCurly = true) : opener = .opening .curly := by
  cases opener with
  | opening b =>
    cases b with
    | curly => rfl
    | _ => cases h
  | _ => cases h

theorem endsAtRule_of_isCurly {k : Component} (h : k.isCurly = true) : k.endsAtRule = true := by
  cases k with
  | token t => cases h
  | block opener content closed => exact h

/-- The last token of what ends an at-rule is a stop. -/
theorem getLast?_flatten {k : Component} (hend : k.endsAtRule = true)
    (hclosed : k.isClosed = true) :
    ∃ token, k.flatten.getLast? = some token ∧ token.isStop = true := by
  cases k with
  | token t =>
    cases t with
    | semicolon => exact ⟨.semicolon, rfl, rfl⟩
    | _ => cases hend
  | block opener content closed =>
    obtain rfl := isCurly_block hend
    obtain rfl : closed = true := hclosed
    refine ⟨.closing .curly, ?_, rfl⟩
    have hflat : (Component.block (.opening .curly) content true).flatten =
        (.opening .curly :: Component.flattenAll content) ++ [.closing .curly] := by
      rw [Component.flatten]
      rfl
    rw [hflat, List.getLast?_concat]

/-- A text whose last component ends an at-rule or a style rule can be extended. -/
theorem complete_of_components {t : Text} {front : List Component} {last : Component}
    (h : components t = front ++ [last]) (hend : last.endsAtRule = true)
    (hclosed : last.isClosed = true) : (Cursor.start t).Complete := by
  obtain ⟨token, hlast, hstop⟩ := getLast?_flatten hend hclosed
  have hwhole : Whole t := by
    intro token' htoken'
    rw [← flattenAll_components, h, flattenAll_append, Component.flattenAll, Component.flattenAll,
      List.append_nil, List.getLast?_append, hlast] at htoken'
    obtain rfl := Option.some.inj htoken'
    exact hstop
  refine ⟨⟨hwhole, trivial⟩, ?_⟩
  intro k hk
  rw [Cursor.components_start, h] at hk
  rcases List.mem_append.1 hk with hfront | hk
  · have hmem : k ∈ (group none (tokens t)).components.dropLast := by
      rw [← components, h, List.dropLast_concat]
      exact hfront
    exact isClosed_of_mem_dropLast hmem
  · rw [List.mem_singleton.1 hk]
    exact hclosed

/-! ## What an item leaves -/

theorem eq_nil_of_components {t : Text} (h : components t = []) : t = [] := by
  have hflat := flattenAll_components t
  rw [h] at hflat
  exact tokens_eq_nil_iff.1 hflat.symm

/-- A cursor without a pending block is at the start of its text. -/
theorem Cursor.eq_start_of_pending {c : Cursor} (h : c.pending = none) : c = start c.settled := by
  rw [settled, h, Option.toList_none, skipBlocks, start, ← h]

/-- Behind an at-rule its block is pending, if it ends in one: the cursor stands in front of the
body of the part that the block is. -/
theorem skipAtRule_of_find? {c : Cursor} {k : Component}
    (h : c.components.find? Component.endsAtRule = some k) :
    (k.isCurly = false ∧ (skipAtRule c).pending = none) ∨
      (k.isCurly = true ∧ ∃ front last,
        parts c.settled = front ++ last :: parts (skipAtRule c).settled ∧ last.mark = ['{'] ∧
        (skipAtRule c).rest = last.body ++ (skipAtRule c).settled) := by
  fun_induction skipAtRule c with
  | case1 c hnext =>
    rw [Cursor.components_of_next?_eq_none hnext] at h
    cases h
  | case2 c c' hnext =>
    rw [Cursor.components_of_next? hnext] at h
    obtain rfl := Option.some.inj h
    exact Or.inl ⟨rfl, (Cursor.settled_of_next? hnext).2⟩
  | case3 c c' hnext =>
    rw [Cursor.components_of_next? hnext] at h
    obtain rfl := Option.some.inj h
    -- the bracket is the mark of the last part, and the block behind it is pending
    obtain ⟨last, hparts, -, hmark, hbody⟩ := exists_parts_of_next? hnext
    refine Or.inr ⟨rfl, [], last, hparts, ?_, hbody⟩
    have hcurly := eq_cons_of_lex (Cursor.settled_of_next? hnext).1 rfl
    exact List.append_cancel_right (hmark.symm.trans hcurly)
  | case4 c token c' hsemicolon hcurly hnext ih =>
    rw [Cursor.components_of_next? hnext, List.find?_cons_of_neg
      (by simp [endsAtRule_ofToken hsemicolon hcurly])] at h
    rcases ih h with hnone | ⟨hk, front, last, hlast, hends⟩
    · exact Or.inl hnone
    · obtain ⟨part, hparts, -⟩ := exists_parts_of_next? hnext
      exact Or.inr ⟨hk, part :: front, last, by rw [hparts, hlast]; rfl, hends⟩

/-- A text that is read as an item with anything behind it, and the cursor from which reading goes
on, which has nothing of the text in front of it. -/
structure ReadsAs (t : Text) (item : Item) (c : Cursor) : Prop where
  inside : c.Inside []
  settled : c.settled = []
  reads : ∀ back, readItems (.start (t ++ back)) =
    Prod.map (item :: ·) id (readItems (c.extend back))

theorem inside_start_nil : (Cursor.start []).Inside [] :=
  ⟨whole_nil, trivial⟩

/-- A comment is an item that leaves nothing pending. -/
theorem readsAs_comment {body : Text} (h : ¬ "*/".toList <:+: body) :
    ReadsAs ("/*".toList ++ body ++ "*/".toList) (.comment body) (.start []) := by
  refine ⟨inside_start_nil, Cursor.settled_start [], ?_⟩
  intro back
  rw [readItems_eq, Cursor.next?_start (lex_comment h back) rfl]
  rfl

/-- The first component of a text is led by its first token. -/
theorem exists_next?_of_components {t : Text} {k : Component} {ks : List Component}
    (h : components t = k :: ks) :
    ∃ token c, (Cursor.start t).next? = some (token, c) ∧ k = .ofToken token c.rest ∧
      ks = c.components := by
  cases hnext : (Cursor.start t).next? with
  | none =>
    have hnil := Cursor.components_of_next?_eq_none hnext
    rw [Cursor.components_start, h] at hnil
    cases hnil
  | some result =>
    obtain ⟨token, c⟩ := result
    have hcons := Cursor.components_of_next? hnext
    rw [Cursor.components_start, h] at hcons
    obtain ⟨hk, hks⟩ := List.cons.inj hcons
    exact ⟨token, c, rfl, hk, hks⟩

/-- A style rule is an item that leaves nothing pending. -/
theorem readsAs_style {t : Text} {k : Component} {ks : List Component}
    (h : components t = k :: ks) (hstyle : k.startsStyle = true)
    (hend : endsIn Component.isCurly (components t) = true) :
    ∃ item, ReadsAs t item (.start []) := by
  obtain ⟨last, hdrop, hclosed⟩ := endsIn_iff.1 hend
  obtain ⟨⟨front, hfront⟩, hcurly, -⟩ := eq_append_of_dropWhile hdrop
  have hcomplete := complete_of_components hfront (endsAtRule_of_isCurly hcurly) hclosed
  obtain ⟨token, c, hnext, rfl, rfl⟩ := exists_next?_of_components h
  rw [startsStyle_ofToken] at hstyle
  have hafter := afterStyleRule?_components (.start t)
  rw [Cursor.components_start, afterStyleRule?, hdrop] at hafter
  cases hfind : findBlock? (.start t) with
  | none =>
    rw [hfind] at hafter
    cases hafter
  | some found =>
    obtain ⟨stop, body⟩ := found
    rw [hfind] at hafter
    have hbehind : skipBlocks [.curly] body = [] :=
      eq_nil_of_components (Option.some.inj hafter).symm
    refine ⟨.style (splitSelectors (upTo t stop)) (readBlock (.start body)).1, inside_start_nil,
      Cursor.settled_start [], ?_⟩
    -- every reader stops in front of `back`, because the block is closed before it
    intro back
    obtain ⟨hfind', hbody⟩ := findBlock?_extend hcomplete back hfind
    have hnext' := hcomplete.inside.next?_extend hnext back
    have hblock : readBlock (.start (body ++ back)) = _ := readBlock_extend hbody back
    have hskip : skipBlocks [.curly] (body ++ back) = skipBlocks [.curly] body ++ back :=
      skipBlocks_append hbody.whole hbody.closes back
    have hprelude : upTo ((Cursor.start t).extend back).rest (stop ++ back) = upTo t stop :=
      upTo_append_append back t stop
    have hread := readItems_of_findBlock? hnext' hstyle hfind'
    rw [hblock, hskip, hbehind, hprelude] at hread
    exact hread

theorem readsAs_atRule {t name : Text} {ks : List Component}
    (h : components t = .token (.atKeyword name) :: ks)
    (hend : endsIn Component.endsAtRule ks = true) :
    ∃ c, ReadsAs t (.atRule name) c ∧
      ((isAtBlock (components t) = false ∧ c = .start []) ∨
        (isAtBlock (components t) = true ∧
          t = (parts t).dropLast.flatMap Part.text ++ '{' :: c.rest)) := by
  obtain ⟨last, hdrop, hclosed⟩ := endsIn_iff.1 hend
  obtain ⟨⟨front, hfront⟩, hlast, hfind⟩ := eq_append_of_dropWhile hdrop
  have hall : components t = (.token (.atKeyword name) :: front) ++ [last] := by
    rw [h, hfront]
    rfl
  have hcomplete := complete_of_components hall hlast hclosed
  obtain ⟨token, c, hnext, hk, rfl⟩ := exists_next?_of_components h
  obtain rfl := eq_of_ofToken_eq hk.symm
  have hc := hcomplete.of_next? hnext
  have hany : c.components.any Component.endsAtRule = true :=
    List.any_eq_true.2 ⟨last, List.mem_of_find?_eq_some hfind, hlast⟩
  have hsettled : (skipAtRule c).settled = [] := by
    apply eq_nil_of_components
    rw [← Cursor.components, components_skipAtRule, afterAtRule, hdrop]
    rfl
  have hblock : isAtBlock (components t) = last.isCurly := by
    rw [h, isAtBlock, hfront, List.getLast?_concat]
    rfl
  refine ⟨skipAtRule c, ⟨(skipAtRule_extend hc [] hany).2.inside, hsettled, ?_⟩, ?_⟩
  · intro back
    have hnext' := hcomplete.inside.next?_extend hnext back
    have hskip := (skipAtRule_extend hc back hany).1
    show readItems ((Cursor.start t).extend back) = _
    rw [readItems_eq, hnext']
    simp only [hskip]
  · rw [hblock]
    -- a semicolon leaves nothing pending, a block is left with its inside still to be read
    rcases skipAtRule_of_find? hfind with ⟨hlast, hpending⟩ | ⟨hlast, front, part, hends⟩
    · refine Or.inl ⟨hlast, ?_⟩
      rw [Cursor.eq_start_of_pending hpending, hsettled]
    · refine Or.inr ⟨hlast, ?_⟩
      obtain ⟨keyword, hkeyword, -⟩ := exists_parts_of_next? hnext
      rw [hsettled, parts_nil, List.append_nil] at hends
      have hparts : parts t = keyword :: front ++ [part] := by
        rw [Cursor.settled_start, hends.1] at hkeyword
        exact hkeyword
      have htext := flatMap_text_parts t
      rw [hparts, List.flatMap_append, List.flatMap_singleton, Part.text, hends.2.1,
        ← hends.2.2] at htext
      rw [hparts, List.dropLast_concat]
      exact htext.symm

/-- An item is read as itself with anything behind it; the cursor behind it stands in its block if
it is an at-rule with one, and at its end if not. -/
theorem exists_readsAs {t : Text} (h : IsItem t) :
    ∃ item c, ReadsAs t item c ∧
      ((isAtBlock (components t) = false ∧ c = .start []) ∨
        (isAtBlock (components t) = true ∧
          t = (parts t).dropLast.flatMap Part.text ++ '{' :: c.rest)) := by
  rcases h with ⟨body, hbody, rfl⟩ | hrule
  · have hlex := lex_comment hbody []
    rw [List.append_nil] at hlex
    refine ⟨_, _, readsAs_comment hbody, Or.inl ⟨?_, rfl⟩⟩
    rw [← Cursor.components_start, Cursor.components_of_next? (Cursor.next?_start hlex rfl)]
    rfl
  · cases hks : components t with
    | nil =>
      rw [hks] at hrule
      cases hrule
    | cons k ks =>
      rw [hks, isRule.eq_def] at hrule
      split at hrule
      · next heq => cases heq
      · next name ks' heq =>
        obtain ⟨c, hreads, hcase⟩ := readsAs_atRule (hks.trans heq) hrule
        rw [hks] at hcase
        exact ⟨_, c, hreads, hcase⟩
      · next k' ks' hne heq =>
        obtain ⟨rfl, rfl⟩ := List.cons.inj heq
        obtain ⟨hstyle, hend⟩ := Bool.and_eq_true_iff.1 hrule
        rw [← hks] at hend
        obtain ⟨item, hreads⟩ := readsAs_style hks hstyle hend
        refine ⟨item, _, hreads, Or.inl ⟨?_, rfl⟩⟩
        rw [isAtBlock]
        intro name _ heq
        exact hne name (List.cons.inj heq).1

/-! ## Reading on with a pending block -/

section Pending

variable {c : Cursor}

theorem next?_settle (c : Cursor) : c.settle.next? = c.next? := by
  rw [Cursor.settle, Cursor.next?, Cursor.settled_start, Cursor.next?]

theorem readItems_of_settled_eq_nil (h : c.settled = []) : readItems c = ([], none) := by
  rw [readItems_eq, Cursor.next?, h]
  rfl

/-- A pending block makes a difference to the selectors of a style rule only. -/
theorem readItems_settle (h : startsInSelectors c.components = false) :
    readItems c.settle = readItems c := by
  have hsettle := next?_settle c
  cases hnext : c.next? with
  | none => rw [readItems_eq, readItems_eq c, hsettle, hnext]
  | some result =>
    obtain ⟨token, c'⟩ := result
    rw [hnext] at hsettle
    by_cases hcurly : token = .opening .curly
    · subst hcurly
      have hfind : findBlock? c = some (c.rest, c'.rest) := by
        rw [findBlock?_eq, hnext]
      have hfind' : findBlock? c.settle = some (c.settle.rest, c'.rest) := by
        rw [findBlock?_eq, hsettle]
      rw [readItems_of_findBlock? hnext rfl hfind, readItems_of_findBlock? hsettle rfl hfind',
        upTo_self, upTo_self]
    · have hstyle : token.startsStyle = false := by
        rw [Cursor.components_of_next? hnext] at h
        simpa [startsInSelectors, startsStyle_ofToken, isCurly_ofToken hcurly] using h
      rw [readItems_eq, readItems_eq c, hsettle, hnext]
      cases token with
      | space => rfl
      | comment body => rfl
      | commentOpen => rfl
      | commentClose => rfl
      | atKeyword name => rfl
      | _ => cases hstyle

/-- The selectors of a style rule are read from inside the pending block on. -/
theorem readItems_of_pending {items : List Item} (h : startsInSelectors c.components = true)
    (hread : readItems c.settle = (items, none)) {inside : Text}
    (hinside : c.rest = inside ++ c.settled) :
    ∃ body block later, c.settled = (preludeParts c.settled).flatMap Part.text ++ '{' :: body ∧
      items = .style (splitSelectors (kept (preludeParts c.settled))) block :: later ∧
      readItems c =
        (.style (splitSelectors (inside ++ kept (preludeParts c.settled))) block :: later,
          none) := by
  have hsettle := next?_settle c
  cases hnext : c.next? with
  | none =>
    rw [Cursor.components_of_next?_eq_none hnext] at h
    cases h
  | some result =>
    obtain ⟨token, c'⟩ := result
    rw [hnext] at hsettle
    rw [Cursor.components_of_next? hnext] at h
    have hhead : token.startsStyle = true ∧ (Component.ofToken token c'.rest).isCurly = false := by
      simpa [startsInSelectors, startsStyle_ofToken] using h
    have hcurly : token ≠ .opening .curly := by
      rintro rfl
      cases hhead.2
    -- the block is found at the same place, whether the pending one is skipped first or not
    have hfinds : findBlock? c.settle = findBlock? c := by
      rw [findBlock?_eq, findBlock?_eq c, hsettle, hnext]
      simp
    cases hfind : findBlock? c with
    | none =>
      rw [readItems_of_findBlock?_eq_none hsettle hhead.1 (hfinds.trans hfind)] at hread
      cases hread
    | some found =>
      obtain ⟨stop, body⟩ := found
      have hsettled : c.settle.settled = c.settled := Cursor.settled_start _
      obtain ⟨htext, hstop⟩ := eq_of_findBlock? (hfinds.trans hfind) [] hsettled.symm
      rw [hsettled, List.nil_append] at hstop
      rw [hsettled] at htext
      have hprelude : c.settled = kept (preludeParts c.settled) ++ stop := by
        rw [hstop, ← List.append_assoc, kept_append_lastBody]
        exact htext
      -- what differs is where the selectors start
      have hupTo (before : Text) :
          upTo (before ++ c.settled) stop = before ++ kept (preludeParts c.settled) := by
        have hcut := upTo_append (before ++ kept (preludeParts c.settled)) stop
        rwa [List.append_assoc, ← hprelude] at hcut
      have halone : upTo c.settle.rest stop = kept (preludeParts c.settled) := hupTo []
      rw [readItems_of_findBlock? hsettle hhead.1 (hfinds.trans hfind), halone] at hread
      rw [readItems_of_findBlock? hnext hhead.1 hfind, hinside, hupTo]
      cases hlater : readItems (.start (skipBlocks [.curly] body)) with
      | mk later stop' =>
        rw [hlater] at hread
        obtain ⟨hitems, rfl⟩ := Prod.mk.inj hread
        exact ⟨body, _, later, htext, hitems.symm, rfl⟩

end Pending

/-! ## Rules one after the other -/

/-- A sheet has these rules if they are those of its items and none lacks a block. -/
theorem parse_eq_ok_iff {css : Text} {rules : List Rule} :
    parse css = .ok rules ↔
      ∃ items, readItems (.start css) = (items, none) ∧ rules = items.map Item.rule := by
  rw [parse, read]
  obtain ⟨items, stop⟩ := readItems (.start css)
  cases stop with
  | none =>
    constructor
    · intro h
      exact ⟨items, rfl, (Except.ok.inj h).symm⟩
    · rintro ⟨items', heq, rfl⟩
      obtain ⟨rfl, -⟩ := Prod.mk.inj heq
      rfl
  | some stop =>
    constructor
    · intro h
      cases h
    · rintro ⟨items', heq, -⟩
      cases heq

/-- One item with a readable text behind it is read as the item and the rules of the text.  Where
an at-rule with a block stands right in front of the selectors of a style rule, these start with
the text behind the bracket that opens the block, and nothing else changes. -/
theorem parse_item_append {item back : Text} {rules : List Rule} (hitem : IsItem item)
    (hback : parse back = .ok rules) :
    ∃ rule rules', parse item = .ok [rule] ∧ parse (item ++ back) = .ok (rule :: rules') ∧
      (leaks item back = false → rules' = rules) ∧
      (leaks item back = true →
        ∃ inside body first later,
          item = (parts item).dropLast.flatMap Part.text ++ '{' :: inside ∧
          back = (preludeParts back).flatMap Part.text ++ '{' :: body ∧
          ((∀ part ∈ (preludeParts back).getLast?, part.component.isBlock = false) →
            kept (preludeParts back) = (preludeParts back).flatMap Part.text) ∧
          rules = first :: later ∧
          first.selectors = splitSelectors (kept (preludeParts back)) ∧
          rules' = { first with
            selectors := splitSelectors (inside ++ kept (preludeParts back)) } :: later) := by
  obtain ⟨read, c, hreads, hcase⟩ := exists_readsAs hitem
  obtain ⟨items, hitems, rfl⟩ := parse_eq_ok_iff.1 hback
  have halone : parse item = .ok [read.rule] := by
    have hread := hreads.reads []
    have hextend : c.extend [] = c := by
      rw [Cursor.extend, List.append_nil]
    rw [List.append_nil, hextend, readItems_of_settled_eq_nil hreads.settled] at hread
    exact parse_eq_ok_iff.2 ⟨[read], hread, rfl⟩
  -- behind the item the cursor has `back` in front of it, once a pending block is skipped
  have hsettled : (c.extend back).settled = back := by
    rw [hreads.inside.settled_extend, hreads.settled, List.nil_append]
  have hcomponents : (c.extend back).components = components back := by
    rw [Cursor.components, hsettled]
  have hread : readItems (c.extend back).settle = (items, none) := by
    rw [Cursor.settle, hsettled, hitems]
  have hjoin {more : List Item} (hmore : readItems (c.extend back) = (more, none)) :
      parse (item ++ back) = .ok (read.rule :: more.map Item.rule) := by
    refine parse_eq_ok_iff.2 ⟨read :: more, ?_, rfl⟩
    rw [hreads.reads, hmore]
    rfl
  cases hleaks : leaks item back with
  | false =>
    have hsame : readItems (c.extend back) = (items, none) := by
      rcases hcase with ⟨-, rfl⟩ | ⟨hblock, -⟩
      · exact hitems
      · rw [leaks, hblock, Bool.true_and, ← hcomponents] at hleaks
        rw [← readItems_settle hleaks, hread]
    refine ⟨read.rule, _, halone, hjoin hsame, fun _ => rfl, ?_⟩
    intro h
    cases h
  | true =>
    obtain ⟨hblock, hstart⟩ := Bool.and_eq_true_iff.1 hleaks
    rcases hcase with ⟨hno, -⟩ | ⟨-, hinside⟩
    · rw [hno] at hblock
      cases hblock
    rw [← hcomponents] at hstart
    have hrest : (c.extend back).rest = c.rest ++ (c.extend back).settled := by
      rw [hsettled]
      rfl
    -- the selectors are taken from where the cursor stands, which is inside the pending block
    obtain ⟨body, block, later, hprelude, rfl, hmore⟩ := readItems_of_pending hstart hread hrest
    rw [hsettled] at hprelude hmore
    rw [hsettled]
    refine ⟨read.rule, _, halone, hjoin hmore, ?_, ?_⟩
    · intro h
      cases h
    · intro _
      exact ⟨c.rest, body, _, _, hinside, hprelude,
        kept_of_not_block (List.takeWhile_prefix _).subset, rfl, rfl, rfl⟩

/-- An at-rule with a rule in its block. -/
def printRule : Text :=
  "@media print\x7bb\x7b\x7d\x7d".toList

/-- A style rule. -/
def plainRule : Text :=
  "p\x7b\x7d".toList

theorem isItem_printRule : IsItem printRule :=
  Or.inr (by decide +kernel)

theorem parse_plainRule : parse plainRule = .ok [Rule.style "p".toList []] := by
  decide +kernel

theorem parse_item_append_printRule :
    IsItem printRule ∧ parse plainRule = .ok [Rule.style "p".toList []] ∧
      leaks printRule plainRule = true ∧
      ∃ rule, parse printRule = .ok [rule] ∧
        parse (printRule ++ plainRule) =
          .ok [rule, Rule.style "b\x7b\x7d\x7dp".toList []] := by
  have hleaks : leaks printRule plainRule = true := by decide +kernel
  obtain ⟨rule, rules', halone, hjoin, -, hleak⟩ :=
    parse_item_append isItem_printRule parse_plainRule
  obtain ⟨inside, body, first, later, hinside, -, -, hrules, -, rfl⟩ := hleak hleaks
  obtain ⟨rfl, rfl⟩ := List.cons.inj hrules
  have htext : printRule =
      (parts printRule).dropLast.flatMap Part.text ++ '{' :: "b\x7b\x7d\x7d".toList := by
    decide +kernel
  obtain rfl : inside = "b\x7b\x7d\x7d".toList :=
    (List.cons.inj (List.append_cancel_left (hinside.symm.trans htext))).2
  have hprelude : kept (preludeParts plainRule) = "p".toList := by decide +kernel
  have hselectors : splitSelectors ("b\x7b\x7d\x7d".toList ++ "p".toList) =
      ["b\x7b\x7d\x7dp".toList] := by decide +kernel
  rw [hprelude, hselectors] at hjoin
  exact ⟨isItem_printRule, parse_plainRule, hleaks, rule, halone, hjoin⟩

/-- The rule inside the block of an at-rule becomes part of the selector behind it, although the
two items alone are read as they are written. -/
theorem parse_printRule_plainRule :
    IsItem printRule ∧ parse printRule = .ok [⟨.atRule "media".toList, [], []⟩] ∧
      parse plainRule = .ok [Rule.style "p".toList []] ∧
      parse (printRule ++ plainRule) =
        .ok [⟨.atRule "media".toList, [], []⟩, Rule.style "b\x7b\x7d\x7dp".toList []] :=
  ⟨isItem_printRule, by decide +kernel⟩

end Scaffold.Css
