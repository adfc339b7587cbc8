import Scaffold.Error
import Scaffold.Text.Occurrence

/-!
# Windows

A *window* is the stretch of a document that generated markup replaces.  It starts behind the
first occurrence of one anchor, or at the front of the document, and ends before the last
occurrence of another, or at the end.  `window` finds it; a window is the document cut in three
(`document_of_window`), and filling it keeps what is around it.
-/

namespace Scaffold

open Scaffold.Text

/-- A document cut in three: what stands before the window, in it and behind it. -/
structure Window where
  head : Text
  body : Text
  tail : Text
  deriving DecidableEq, Repr

namespace Window

/-- The document that was cut. -/
def document (w : Window) : Text :=
  w.head ++ w.body ++ w.tail

/-- Where the window starts, in bytes. -/
def start (w : Window) : Nat :=
  byteSize w.head

/-- Where the window ends, in bytes. -/
def stop (w : Window) : Nat :=
  byteSize w.head + byteSize w.body

/-- The document with the window replaced. -/
def fill (w : Window) (content : Text) : Text :=
  w.head ++ content ++ w.tail

end Window

/-- What stands before the window that an anchor starts. -/
def headOf (document path : Text) : (after : Option Text) → Except Error Text
  | none => .ok []
  | some anchor =>
    match cutFirst? anchor document with
    | none => .error (.anchorNotFound anchor path)
    | some (front, _) => .ok (front ++ anchor)

/-- What stands before the end of the window that an anchor ends. -/
def frontOf (document path : Text) : (before : Option Text) → Except Error Text
  | none => .ok document
  | some anchor =>
    match cutLast? anchor document with
    | none => .error (.anchorNotFound anchor path)
    | some (front, _) => .ok front

/-- The window of a document between two anchors.  The path is only told in errors. -/
def window (document path : Text) (after before : Option Text) : Except Error Window :=
  match headOf document path after, frontOf document path before with
  | .error e, _ => .error e
  | .ok _, .error e => .error e
  | .ok head, .ok front =>
    if front.length < head.length then .error (.anchorOrder path)
    else .ok
      { head
        body := front.drop head.length
        tail := document.drop front.length }

theorem prefix_of_headOf {document path head : Text} {after : Option Text}
    (h : headOf document path after = .ok head) : head <+: document := by
  cases after with
  | none =>
    obtain rfl := Except.ok.inj h
    exact List.nil_prefix
  | some anchor =>
    rw [headOf] at h
    split at h
    · simp at h
    · next front back hc =>
      obtain rfl := Except.ok.inj h
      exact ⟨back, (eq_of_cutFirst? hc).symm⟩

theorem prefix_of_frontOf {document path front : Text} {before : Option Text}
    (h : frontOf document path before = .ok front) : front <+: document := by
  cases before with
  | none =>
    obtain rfl := Except.ok.inj h
    exact List.prefix_rfl
  | some anchor =>
    rw [frontOf] at h
    split at h
    · simp at h
    · next front' back hc =>
      obtain rfl := Except.ok.inj h
      exact ⟨anchor ++ back, by rw [← List.append_assoc]; exact (eq_of_cutLast? hc).symm⟩

/-- A window is the document cut in three. -/
theorem document_of_window {document path : Text} {after before : Option Text} {w : Window}
    (h : window document path after before = .ok w) : w.document = document := by
  unfold window at h
  split at h
  · simp at h
  · simp at h
  · next head front hh hf =>
    split at h
    · simp at h
    · next hle =>
      obtain rfl := Except.ok.inj h
      have hhead := prefix_of_headOf hh
      obtain ⟨rest, rfl⟩ := prefix_of_frontOf hf
      obtain ⟨body, rfl⟩ :=
        List.prefix_of_prefix_length_le hhead (List.prefix_append front rest) (by omega)
      simp [Window.document]

end Scaffold
