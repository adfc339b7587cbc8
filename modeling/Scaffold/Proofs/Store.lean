import Scaffold.Store

/-!
# Reading and writing files

A path that leads to a *place* for a file can be written to, whether or not there is a file yet
(`write_eq_ok_iff`), and what is written is what stands there from then on; every other entry
stays as it is (`get?_put_self`, `get?_put_of_ne`).  Writing a file does not change where a path
leads (`IsPlace.put`), so that a file can be written again and again by the same path.
-/

namespace Scaffold

/-! ## Bytes of texts -/

theorem encode_append (s t : Text) : encode (s ++ t) = encode s ++ encode t := by
  rw [encode, String.ofList_append, String.toByteArray_append]
  rfl

/-- A text takes as many bytes as its characters do. -/
theorem size_encode (t : Text) : (encode t).size = Text.byteSize t := by
  induction t with
  | nil => rfl
  | cons c t ih =>
    have hcons : encode (c :: t) = encode [c] ++ encode t := encode_append [c] t
    have hchar : (encode [c]).size = c.utf8Size := by
      rw [encode, ← String.singleton_eq_ofList, String.size_toByteArray,
        String.utf8ByteSize_singleton]
    rw [hcons, ByteArray.size_append, ih, hchar, Text.byteSize]

namespace Store

/-! ## Entries -/

theorem lookup_filter_of_ne {names other : Names} (h : other ≠ names)
    (entries : List (Names × Entry)) :
    (entries.filter fun e => e.1 != names).lookup other = entries.lookup other := by
  induction entries with
  | nil => rfl
  | cons e entries ih =>
    obtain ⟨first, entry⟩ := e
    by_cases hfirst : first = names
    · subst hfirst
      have hne : (other == first) = false := by simpa using h
      rw [List.filter_cons_of_neg (by simp), ih, List.lookup_cons, hne]
    · rw [List.filter_cons_of_pos (by simpa using hfirst), List.lookup_cons, List.lookup_cons, ih]

@[simp] theorem get?_put_self (s : Store) {names : Names} (h : names ≠ []) (entry : Entry) :
    (s.put names entry).get? names = some entry := by
  simp [get?, put, h]

/-- Putting an entry somewhere changes nothing elsewhere. -/
theorem get?_put_of_ne (s : Store) {names other : Names} (h : other ≠ names) (entry : Entry) :
    (s.put names entry).get? other = s.get? other := by
  have hne : (other == names) = false := by simpa using h
  by_cases hnil : other = []
  · simp [get?, hnil]
  · rw [get?, get?, if_neg hnil, if_neg hnil, put, List.lookup_cons, hne]
    exact lookup_filter_of_ne h s.entries

/-! ## Places -/

/-- Where a path leads if there is a file or can be one. -/
structure IsPlace (s : Store) (path : Text) (names : Names) : Prop where
  locate : s.locate path = .ok names
  no_slash : endsInSlash path = false
  no_directory : s.get? names ≠ some .directory

namespace IsPlace

variable {s : Store} {path : Text} {names : Names}

theorem ne_nil (h : s.IsPlace path names) : names ≠ [] := by
  intro hnil
  refine h.no_directory ?_
  rw [hnil]
  rfl

theorem find_file (h : s.IsPlace path names) {content : ByteArray}
    (hfile : s.get? names = some (.file content)) : s.find path = .ok (.file content) := by
  rw [find, h.locate]
  simp [hfile, h.no_slash]

theorem find_none (h : s.IsPlace path names) (hnone : s.get? names = none) :
    s.find path = .error .notFound := by
  rw [find, h.locate]
  simp [hnone]

end IsPlace

/-- What a path leads to, as long as it is a file, stands at a place. -/
theorem exists_of_find_file {s : Store} {path : Text} {content : ByteArray}
    (h : s.find path = .ok (.file content)) :
    ∃ names, s.IsPlace path names ∧ s.get? names = some (.file content) := by
  unfold find at h
  split at h
  · cases h
  · next names hlocate =>
    split at h
    · cases h
    · cases h
    · next content' hfile =>
      split at h
      · cases h
      · next hslash =>
        obtain rfl := Entry.file.inj (Except.ok.inj h)
        exact ⟨names, ⟨hlocate, by simpa using hslash, by simp [hfile]⟩, hfile⟩

theorem read_eq_ok_iff {s : Store} {path t : Text} :
    s.read path = .ok t ↔
      ∃ names content, s.IsPlace path names ∧ s.get? names = some (.file content) ∧
        decode? content = some t := by
  constructor
  · intro h
    unfold read at h
    split at h
    · cases h
    · cases h
    · next content hfind =>
      obtain ⟨names, hplace, hfile⟩ := exists_of_find_file hfind
      split at h
      · cases h
      · next t' hdecode =>
        obtain rfl := Except.ok.inj h
        exact ⟨names, content, hplace, hfile, hdecode⟩
  · rintro ⟨names, content, hplace, hfile, hdecode⟩
    rw [read, hplace.find_file hfile]
    simp [hdecode]

/-- A file can be written wherever there is a place for it. -/
theorem IsPlace.write {s : Store} {path : Text} {names : Names} (h : s.IsPlace path names)
    (content : ByteArray) : s.write path content = .ok (s.put names (.file content)) := by
  rw [Store.write, h.locate]
  dsimp only
  rw [if_neg (by simp [h.no_slash])]
  split
  · next hdirectory => exact absurd hdirectory h.no_directory
  · rfl

theorem write_eq_ok_iff {s s' : Store} {path : Text} {content : ByteArray} :
    s.write path content = .ok s' ↔
      ∃ names, s.IsPlace path names ∧ s' = s.put names (.file content) := by
  constructor
  · intro h
    unfold write at h
    split at h
    · cases h
    · next names hlocate =>
      split at h
      · cases h
      · next hslash =>
        split at h
        · cases h
        · next hdirectory =>
          exact ⟨names, ⟨hlocate, by simpa using hslash, fun heq => hdirectory heq⟩,
            (Except.ok.inj h).symm⟩
  · rintro ⟨names, hplace, rfl⟩
    exact hplace.write content

/-! ## Paths after a file was written -/

/-- A way through directories is not blocked by a file, if no directory makes room for it. -/
theorem walk_put_file {s : Store} {names : Names} (h : s.get? names ≠ some .directory)
    (content : ByteArray) {origin goal : Names} {steps : Names}
    (hwalk : s.walk origin steps = .ok goal) :
    (s.put names (.file content)).walk origin steps = .ok goal := by
  induction steps generalizing origin with
  | nil => exact hwalk
  | cons step steps ih =>
    rw [walk] at hwalk ⊢
    split at hwalk
    · cases hwalk
    · cases hwalk
    · next hdirectory =>
      -- a step goes through a directory, and none was overwritten
      have hne : follow origin step ≠ names := by
        intro heq
        rw [heq] at hdirectory
        exact h hdirectory
      rw [get?_put_of_ne s hne, hdirectory]
      exact ih hwalk

theorem locate_put_file {s : Store} {names : Names} (h : s.get? names ≠ some .directory)
    (content : ByteArray) {path : Text} {goal : Names} (hlocate : s.locate path = .ok goal) :
    (s.put names (.file content)).locate path = .ok goal := by
  unfold locate at hlocate ⊢
  split at hlocate
  · cases hlocate
  · next hpath =>
    rw [if_neg hpath]
    cases hwalk : s.walk [] (steps path).dropLast with
    | error fault =>
      rw [hwalk] at hlocate
      cases hlocate
    | ok directory =>
      rw [hwalk] at hlocate
      rw [walk_put_file h content hwalk]
      exact hlocate

/-- A place stays a place when a file is put there. -/
theorem IsPlace.put {s : Store} {path : Text} {names : Names} (h : s.IsPlace path names)
    (content : ByteArray) : (s.put names (.file content)).IsPlace path names where
  locate := locate_put_file h.no_directory content h.locate
  no_slash := h.no_slash
  no_directory := by simp [get?_put_self s h.ne_nil]

/-- What was written to a place is read from it. -/
theorem read_put {s : Store} {path : Text} {names : Names} (h : s.IsPlace path names) (t : Text) :
    (s.put names (.file (encode t))).read path = .ok t :=
  read_eq_ok_iff.2 ⟨names, encode t, h.put _, get?_put_self s h.ne_nil _, decode?_encode t⟩

end Store

end Scaffold
