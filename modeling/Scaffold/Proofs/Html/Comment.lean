import Scaffold.Html.Token.Comment

/-!
# Comments that can be written

A comment can be written between its marks if reading it does not end before its last character
(`CommentEnd.run`).  Such a comment is read back as it is (`readComment_append`), and every comment
that is read can be written (`run_readComment`, `run_of_notMem`).
-/

namespace Scaffold.Html

open Scaffold.Text

theorem kept_eq {c : Char} (h : c ≠ nul) : kept c = c :=
  if_neg h

/-- Keeping a character makes none of the characters that matter. -/
theorem kept_ne {c d : Char} (h : c ≠ d) (hd : d ≠ replacement) : kept c ≠ d := by
  rw [kept]
  split
  · exact hd.symm
  · exact h

theorem kept_ne_nul (c : Char) : kept c ≠ nul := by
  rw [kept]
  split
  · decide
  · assumption

namespace CommentEnd

/-- What was read behind a character, unless the comment ends with it. -/
def next? : CommentEnd → Char → Option CommentEnd
  | .start, c => if c = '-' then some .startDash else if c = '>' then Option.none else some .none
  | .startDash, c => if c = '-' then some .dashes else if c = '>' then Option.none else some .none
  | .none, c => if c = '-' then some .dash else some .none
  | .dash, c => if c = '-' then some .dashes else some .none
  | .dashes, c =>
    if c = '>' then Option.none
    else if c = '!' then some .bang
    else if c = '-' then some .dashes
    else some .none
  | .bang, c => if c = '-' then some .dash else if c = '>' then Option.none else some .none

/-- What was read behind a text, unless the comment ends within it. -/
def run : CommentEnd → Text → Option CommentEnd
  | e, [] => some e
  | e, c :: t => (e.next? c).bind fun e' => run e' t

/-- What was read, but belongs to the comment only if the comment does not end. -/
def pending : CommentEnd → Text
  | .start | .none => []
  | .startDash | .dash => "-".toList
  | .dashes => "--".toList
  | .bang => "--!".toList

/-- What a character gives out, if the comment does not end with it. -/
def given : CommentEnd → Char → Text
  | .start, c | .none, c => if c = '-' then [] else [kept c]
  | .startDash, c | .dash, c => if c = '-' then [] else "-".toList ++ [kept c]
  | .dashes, c => if c = '!' then [] else if c = '-' then ['-'] else "--".toList ++ [kept c]
  | .bang, c => if c = '-' then "--!".toList else "--!".toList ++ [kept c]

/-- Nothing but a closing bracket ends a comment. -/
theorem next?_isSome {e : CommentEnd} {c : Char} (h : c ≠ '>') : (e.next? c).isSome = true := by
  cases e <;> simp only [next?, if_neg h] <;> (repeat' split) <;> rfl

/-- A null character counts as what it is replaced by. -/
theorem next?_kept (e : CommentEnd) (c : Char) : e.next? (kept c) = e.next? c := by
  by_cases h : c = nul
  · subst h
    cases e <;> rfl
  · rw [kept_eq h]

/-- A character that no mark is made of starts anew. -/
theorem next?_ordinary {c : Char} (hdash : c ≠ '-') (hbang : c ≠ '!') (hbracket : c ≠ '>')
    (e : CommentEnd) : e.next? c = some .none := by
  cases e <;> simp only [next?, if_neg hdash, if_neg hbang, if_neg hbracket]

theorem given_ordinary {c : Char} (hdash : c ≠ '-') (hbang : c ≠ '!') (e : CommentEnd) :
    e.given c = e.pending ++ [kept c] := by
  cases e <;> simp only [given, pending, if_neg hdash, if_neg hbang] <;> rfl

/-- A text is read stretch by stretch. -/
theorem run_append (f : CommentEnd) (s t : Text) :
    f.run (s ++ t) = (f.run s).bind fun f' => f'.run t := by
  induction s generalizing f with
  | nil => rfl
  | cons c s ih =>
    rw [List.cons_append, run, run, Option.bind_assoc]
    exact congrArg _ (funext ih)

/-- A text without the closing bracket can be written as a comment. -/
theorem run_of_notMem {t : Text} (h : '>' ∉ t) (e : CommentEnd) : (e.run t).isSome = true := by
  induction t generalizing e with
  | nil => rfl
  | cons c t ih =>
    simp only [List.mem_cons, not_or] at h
    obtain ⟨e', he⟩ := Option.isSome_iff_exists.1 (next?_isSome (e := e) (Ne.symm h.1))
    rw [run, he]
    exact ih h.2 e'

theorem mem_pending {e : CommentEnd} {c : Char} (h : c ∈ e.pending) : c = '-' ∨ c = '!' := by
  cases e <;> simp [pending] at h <;> simp [h]

/-- What is given out and what is pending are together what was pending and the character. -/
theorem pending_append {e e' : CommentEnd} {c : Char} (h : e.next? c = some e') :
    e.pending ++ [kept c] = e.given c ++ e'.pending := by
  have hdash : kept '-' = '-' := by decide
  have hbang : kept '!' = '!' := by decide
  cases e <;> simp only [next?] at h <;> (repeat' split at h) <;> cases h <;>
    simp_all [given, pending]

end CommentEnd

open CommentEnd

/-- One step of reading a comment, in terms of what was read of its end. -/
theorem readComment_cons (e : CommentEnd) (c : Char) (t : Text) :
    readComment e (c :: t) =
      match e.next? c with
      | .none => ([], t)
      | some e' => Prod.map (e.given c ++ ·) id (readComment e' t) := by
  cases e <;> simp only [readComment, next?, given] <;> (repeat' split) <;> simp_all <;> rfl

/-! ## Writing -/

/-- The mark at the end of a comment ends it, and what was pending belongs to the comment. -/
theorem readComment_mark (e : CommentEnd) (t : Text) :
    readComment e ("-->".toList ++ t) = (e.pending, t) := by
  cases e <;> rfl

/-- A text within which a comment does not end is read back up to the closing mark. -/
theorem readComment_of_run {e e' : CommentEnd} {s : Text} (h : e.run s = some e')
    (hnul : nul ∉ s) (t : Text) :
    readComment e (s ++ "-->".toList ++ t) = (e.pending ++ s, t) := by
  induction s generalizing e with
  | nil => rw [List.nil_append, readComment_mark, List.append_nil]
  | cons c s ih =>
    rw [run, Option.bind_eq_some_iff] at h
    obtain ⟨e₁, hnext, hrun⟩ := h
    simp only [List.mem_cons, not_or] at hnul
    have hpending := pending_append hnext
    rw [kept_eq (Ne.symm hnul.1)] at hpending
    rw [List.cons_append, List.cons_append, readComment_cons, hnext]
    show Prod.map (e.given c ++ ·) id (readComment e₁ (s ++ "-->".toList ++ t)) = _
    rw [ih hrun hnul.2, Prod.map_apply, id_eq, ← List.append_assoc, ← hpending,
      List.append_assoc, List.singleton_append]

/-- A comment that can be written is read back as it is. -/
theorem readComment_append {s : Text} (h : (run .start s).isSome = true) (hnul : nul ∉ s)
    (t : Text) : readComment .start (s ++ "-->".toList ++ t) = (s, t) := by
  obtain ⟨e, he⟩ := Option.isSome_iff_exists.1 h
  exact readComment_of_run he hnul t

/-! ## Reading -/

namespace CommentEnd

/-- `e.admits f` says that what is read in `e` can be written in `f`.  The two differ because what
is pending in `e` was not written yet. -/
def admits : CommentEnd → CommentEnd → Bool
  | .start, .start | .startDash, .start | .none, .none | .dash, .none | .dash, .bang => true
  | .dashes, _ | .bang, _ => true
  | _, _ => false

/-- The same after a step; where reading has ended there is nothing more to write. -/
def fits : Option CommentEnd → Option CommentEnd → Bool
  | .none, _ => true
  | some e, some f => e.admits f
  | some _, .none => false

theorem fits_mark {c : Char} (hc : c = '-' ∨ c = '!' ∨ c = '>') (e f : CommentEnd) :
    (!e.admits f || fits (e.next? c) (f.run (e.given c))) = true := by
  rcases hc with rfl | rfl | rfl <;> cases e <;> cases f <;> rfl

/-- A step keeps what is read in line with what is written of it. -/
theorem fits_step {e f : CommentEnd} (h : e.admits f = true) (c : Char) :
    fits (e.next? c) (f.run (e.given c)) = true := by
  by_cases hc : c = '-' ∨ c = '!' ∨ c = '>'
  · have := fits_mark hc e f
    rwa [h] at this
  · simp only [not_or] at hc
    obtain ⟨hdash, hbang, hbracket⟩ := hc
    obtain ⟨f', hf'⟩ := Option.isSome_iff_exists.1
      (run_of_notMem (t := e.pending) (by cases e <;> decide) f)
    have hrun : f.run (e.given c) = (f'.next? (kept c)).bind fun f'' => f''.run [] := by
      rw [given_ordinary hdash hbang, run_append, hf']
      rfl
    rw [hrun, next?_kept, next?_ordinary hdash hbang hbracket,
      next?_ordinary hdash hbang hbracket]
    rfl

end CommentEnd

/-- What is read of a comment can be written. -/
theorem run_readComment (t : Text) :
    ∀ e f : CommentEnd, e.admits f = true → (f.run (readComment e t).1).isSome = true := by
  induction t with
  | nil =>
    intro e f _
    cases e <;> rfl
  | cons c t ih =>
    intro e f h
    rw [readComment_cons]
    cases hnext : e.next? c with
    | none => rfl
    | some e' =>
      have hfits := fits_step h c
      show (f.run (e.given c ++ (readComment e' t).1)).isSome = true
      rw [run_append]
      cases hgiven : f.run (e.given c) with
      | none => rw [hnext, hgiven] at hfits; cases hfits
      | some f' =>
        rw [hnext, hgiven] at hfits
        exact ih e' f' hfits

/-- The characters of a comment that is read are those of the input, as they are kept, or come from
the start of a mark that was not finished. -/
theorem mem_readComment {e : CommentEnd} {t : Text} {c : Char} (h : c ∈ (readComment e t).1) :
    c = '-' ∨ c = '!' ∨ c ∈ t.map kept := by
  induction t generalizing e with
  | nil => cases e <;> cases h
  | cons d t ih =>
    rw [readComment_cons] at h
    cases hnext : e.next? d with
    | none =>
      rw [hnext] at h
      cases h
    | some e' =>
      rw [hnext, Prod.map_fst, List.mem_append] at h
      rw [List.map_cons, List.mem_cons]
      rcases h with h | h
      · have hmem : c ∈ e.pending ++ [kept d] := by
          rw [pending_append hnext]
          exact List.mem_append_left _ h
        rcases List.mem_append.1 hmem with h | h
        · exact (mem_pending h).elim Or.inl (Or.inr ∘ Or.inl)
        · exact Or.inr (Or.inr (Or.inl (List.mem_singleton.1 h)))
      · rcases ih h with h | h | h
        · exact Or.inl h
        · exact Or.inr (Or.inl h)
        · exact Or.inr (Or.inr (Or.inr h))

end Scaffold.Html
