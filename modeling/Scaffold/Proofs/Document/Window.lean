import Scaffold.Document.Window
import Scaffold.Proofs.Store

/-!
# Filling a window

A window that was filled is found again, whatever it was filled with (`window_fill`).  The first
occurrence of the anchor in front of it ends where the window starts, and an occurrence that a
new content could bring starts later; the last occurrence of the anchor behind it starts where
the window ends, and no content brings one that starts behind it.  This holds of anchors that
stand in the content, of empty ones and of ones that overlap themselves.

Filling a window replaces the bytes from its start to its end, and no other (`encode_fill`).
-/

namespace Scaffold

open Scaffold.Text

/-! ## Occurrences -/

namespace Text

theorem cutFirst?_append_self (needle rest : Text) :
    cutFirst? needle (needle ++ rest) = some ([], rest) := by
  cases h : needle ++ rest with
  | nil =>
    obtain ⟨rfl, rfl⟩ := List.append_eq_nil_iff.1 h
    simp [cutFirst?]
  | cons c t =>
    have hprefix : needle.isPrefixOf (c :: t) = true :=
      List.isPrefixOf_iff_prefix.2 ⟨rest, h⟩
    rw [cutFirst?, if_pos hprefix, ← h, List.drop_left]

/-- The first occurrence stays where it is when the text behind it changes. -/
theorem cutFirst?_append {needle t front back : Text}
    (h : cutFirst? needle t = some (front, back)) (rest : Text) :
    cutFirst? needle (front ++ needle ++ rest) = some (front, rest) := by
  induction t generalizing front with
  | nil =>
    rw [cutFirst?] at h
    split at h
    · obtain ⟨rfl, -⟩ := Prod.mk.inj (Option.some.inj h)
      exact cutFirst?_append_self needle rest
    · cases h
  | cons c t ih =>
    rw [cutFirst?] at h
    split at h
    · obtain ⟨rfl, -⟩ := Prod.mk.inj (Option.some.inj h)
      exact cutFirst?_append_self needle rest
    · next hprefix =>
      obtain ⟨⟨front', back'⟩, hcut, heq⟩ := Option.map_eq_some_iff.1 h
      obtain ⟨rfl, rfl⟩ := Prod.mk.inj heq
      -- an occurrence at the front would lie within what did not change
      have hnone : ¬ needle.isPrefixOf (c :: (front' ++ needle ++ rest)) = true := by
        intro hnew
        refine hprefix (List.isPrefixOf_iff_prefix.2 ?_)
        have hnew := List.isPrefixOf_iff_prefix.1 hnew
        have hkept : c :: (front' ++ needle) <+: c :: (front' ++ needle ++ rest) :=
          ⟨rest, rfl⟩
        have hshort : needle.length ≤ (c :: (front' ++ needle)).length := by
          simp only [List.length_cons, List.length_append]
          omega
        refine (List.prefix_of_prefix_length_le hnew hkept hshort).trans ⟨back', ?_⟩
        rw [eq_of_cutFirst? hcut]
        rfl
      show cutFirst? needle (c :: (front' ++ needle ++ rest)) = _
      rw [cutFirst?, if_neg hnone, ih hcut]
      rfl

/-- The last occurrence of a text is the last one of what starts with it. -/
theorem cutLast?_append_self {needle t front back : Text}
    (h : cutLast? needle t = some (front, back)) :
    cutLast? needle (needle ++ back) = some ([], back) := by
  induction t generalizing front with
  | nil =>
    rw [cutLast?] at h
    split at h
    · next hnil =>
      obtain ⟨-, rfl⟩ := Prod.mk.inj (Option.some.inj h)
      simp [hnil, cutLast?]
    · cases h
  | cons c t ih =>
    have hcut := h
    rw [cutLast?] at h
    split at h
    · next front' back' hrest =>
      obtain ⟨-, rfl⟩ := Prod.mk.inj (Option.some.inj h)
      exact ih hrest
    · split at h
      · obtain ⟨rfl, -⟩ := Prod.mk.inj (Option.some.inj h)
        have hwhole := eq_of_cutLast? hcut
        rw [List.nil_append] at hwhole
        rwa [← hwhole]
      · cases h

/-- The last occurrence stays where it is when the text in front of it changes. -/
theorem cutLast?_append {needle t front back : Text}
    (h : cutLast? needle t = some (front, back)) (start : Text) :
    cutLast? needle (start ++ (needle ++ back)) = some (start, back) := by
  induction start with
  | nil => exact cutLast?_append_self h
  | cons c start ih => rw [List.cons_append, cutLast?, ih]

end Text

/-! ## Windows -/

/-- The part in front of a window is found again in front of any content. -/
theorem headOf_append {document path head : Text} {after : Option Text}
    (h : headOf document path after = .ok head) (rest : Text) :
    headOf (head ++ rest) path after = .ok head := by
  cases after with
  | none => exact h
  | some anchor =>
    rw [headOf] at h
    split at h
    · cases h
    · next front back hcut =>
      obtain rfl := Except.ok.inj h
      rw [headOf, cutFirst?_append hcut rest]

/-- The part behind a window is found again behind any content. -/
theorem frontOf_append {document path front : Text} {before : Option Text}
    (h : frontOf document path before = .ok front) (start : Text) :
    frontOf (start ++ document.drop front.length) path before = .ok start := by
  cases before with
  | none =>
    obtain rfl := Except.ok.inj h
    rw [List.drop_length, List.append_nil, frontOf]
  | some anchor =>
    rw [frontOf] at h
    split at h
    · cases h
    · next front' back hcut =>
      obtain rfl := Except.ok.inj h
      have hdrop : document.drop front'.length = anchor ++ back := by
        rw [eq_of_cutLast? hcut, List.append_assoc, List.drop_left]
      rw [hdrop, frontOf, cutLast?_append hcut start]

theorem window_eq_ok_iff {document path : Text} {after before : Option Text} {w : Window} :
    window document path after before = .ok w ↔
      headOf document path after = .ok w.head ∧
        frontOf document path before = .ok (w.head ++ w.body) ∧
        w.tail = document.drop (w.head ++ w.body).length := by
  constructor
  · intro h
    unfold window at h
    split at h
    · cases h
    · cases h
    · next head front hhead hfront =>
      split at h
      · cases h
      · next hle =>
        obtain rfl := Except.ok.inj h
        have hcut : head ++ front.drop head.length = front := by
          have hprefix := List.prefix_of_prefix_length_le (prefix_of_headOf hhead)
            (prefix_of_frontOf hfront) (Nat.le_of_not_lt hle)
          exact (List.prefix_iff_eq_append.1 hprefix)
        exact ⟨hhead, by rw [hcut]; exact hfront, by rw [hcut]⟩
  · rintro ⟨hhead, hfront, htail⟩
    rw [window, hhead, hfront]
    dsimp only
    rw [if_neg (by simp), List.drop_left, ← htail]

/-- A window that was filled is found again, with what it was filled with. -/
theorem window_fill {document path : Text} {after before : Option Text} {w : Window}
    (h : window document path after before = .ok w) (content : Text) :
    window (w.fill content) path after before = .ok { w with body := content } := by
  obtain ⟨hhead, hfront, htail⟩ := window_eq_ok_iff.1 h
  refine window_eq_ok_iff.2 ⟨?_, ?_, ?_⟩
  · show headOf (w.head ++ content ++ w.tail) path after = .ok w.head
    rw [List.append_assoc]
    exact headOf_append hhead _
  · show frontOf (w.head ++ content ++ w.tail) path before = .ok (w.head ++ content)
    rw [htail]
    exact frontOf_append hfront _
  · show w.tail = (w.head ++ content ++ w.tail).drop (w.head ++ content).length
    rw [List.drop_left]

/-! ## Bytes -/

/-- Content in which the bytes from `start` up to `stop` are replaced. -/
def replaceBytes (content : ByteArray) (start stop : Nat) (bytes : ByteArray) : ByteArray :=
  content.extract 0 start ++ bytes ++ content.extract stop content.size

/-- Filling a window replaces its bytes and keeps all others. -/
theorem encode_fill (w : Window) (content : Text) :
    encode (w.fill content) =
      replaceBytes (encode w.document) w.start w.stop (encode content) := by
  have hwhole : encode w.document = encode w.head ++ (encode w.body ++ encode w.tail) := by
    rw [Window.document, encode_append, encode_append, ByteArray.append_assoc]
  have hfront : (encode w.document).extract 0 w.start = encode w.head := by
    rw [hwhole]
    exact ByteArray.extract_append_eq_left (size_encode w.head).symm
  have hback : (encode w.document).extract w.stop (encode w.document).size = encode w.tail := by
    have hstop : w.stop = (encode w.head ++ encode w.body).size := by
      rw [ByteArray.size_append, size_encode, size_encode, Window.stop]
    rw [hwhole, ← ByteArray.append_assoc]
    exact ByteArray.extract_append_eq_right hstop ByteArray.size_append
  rw [replaceBytes, hfront, hback, Window.fill, encode_append, encode_append]

end Scaffold
