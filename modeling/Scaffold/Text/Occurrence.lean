import Scaffold.Text.Basic

/-!
# Occurrences of one text in another

`cutFirst?` and `cutLast?` cut a text around the first and the last place where another one
stands in it.  An occurrence may overlap another, and the empty text stands everywhere: first
at the very front and last at the very end.
-/

namespace Scaffold.Text

/-- What stands before and behind the first occurrence of `needle`. -/
def cutFirst? (needle : Text) : Text → Option (Text × Text)
  | [] => if needle = [] then some ([], []) else none
  | c :: t =>
    if needle.isPrefixOf (c :: t) then some ([], (c :: t).drop needle.length)
    else (cutFirst? needle t).map fun (front, back) => (c :: front, back)

/-- What stands before and behind the last occurrence of `needle`. -/
def cutLast? (needle : Text) : Text → Option (Text × Text)
  | [] => if needle = [] then some ([], []) else none
  | c :: t =>
    match cutLast? needle t with
    | some (front, back) => some (c :: front, back)
    | none =>
      if needle.isPrefixOf (c :: t) then some ([], (c :: t).drop needle.length) else none

private theorem eq_append_drop_of_isPrefixOf {needle t : Text} (h : needle.isPrefixOf t = true) :
    t = needle ++ t.drop needle.length := by
  obtain ⟨rest, rfl⟩ := List.isPrefixOf_iff_prefix.1 h
  simp

/-- A cut at the first occurrence loses nothing but the occurrence. -/
theorem eq_of_cutFirst? {needle t front back : Text}
    (h : cutFirst? needle t = some (front, back)) : t = front ++ needle ++ back := by
  induction t generalizing front back with
  | nil =>
    by_cases hn : needle = [] <;> simp_all [cutFirst?]
  | cons c t ih =>
    rw [cutFirst?] at h
    split at h
    · next hp =>
      obtain ⟨rfl, rfl⟩ := Prod.mk.inj (Option.some.inj h)
      simpa using eq_append_drop_of_isPrefixOf hp
    · obtain ⟨⟨front', back'⟩, hc, he⟩ := Option.map_eq_some_iff.1 h
      obtain ⟨rfl, rfl⟩ := Prod.mk.inj he
      simp [ih hc]

/-- A cut at the last occurrence loses nothing but the occurrence. -/
theorem eq_of_cutLast? {needle t front back : Text}
    (h : cutLast? needle t = some (front, back)) : t = front ++ needle ++ back := by
  induction t generalizing front back with
  | nil =>
    by_cases hn : needle = [] <;> simp_all [cutLast?]
  | cons c t ih =>
    rw [cutLast?] at h
    split at h
    · next front' back' hc =>
      obtain ⟨rfl, rfl⟩ := Prod.mk.inj (Option.some.inj h)
      simp [ih hc]
    · split at h
      · next hp =>
        obtain ⟨rfl, rfl⟩ := Prod.mk.inj (Option.some.inj h)
        simpa using eq_append_drop_of_isPrefixOf hp
      · simp at h

end Scaffold.Text
