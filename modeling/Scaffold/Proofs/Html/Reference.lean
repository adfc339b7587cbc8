import Scaffold.Html.Reference

/-!
# Character references

No reference stands for the null character (`nul_notMem_reference`), and the four references that
markup is written with stand for the characters that they replace.
-/

namespace Scaffold.Html

open Scaffold.Text

/-! ## What a reference stands for -/

theorem ofNat_ne_nul {n : Nat} (hn : n ≠ 0) (hvalid : n.isValidChar) : Char.ofNat n ≠ nul := by
  have hnat : (Char.ofNat n).toNat = n := by
    rw [Char.ofNat, dif_pos hvalid]
    rfl
  intro h
  rw [h] at hnat
  exact hn hnat.symm

/-- No number stands for the null character: zero stands for the replacement character. -/
theorem ofNumber_ne_nul (n : Nat) : ofNumber n ≠ nul := by
  unfold ofNumber
  split
  · decide
  · next h =>
    obtain ⟨hzero, hvalid⟩ := not_or.1 h
    have hvalid := Decidable.not_not.1 hvalid
    split
    · rw [List.getD_eq_getElem?_getD]
      cases hget : windows1252[n - 0x80]? with
      | none => exact ofNat_ne_nul hzero hvalid
      | some m =>
        have htable : ∀ m ∈ windows1252, Char.ofNat m ≠ nul := by decide
        exact htable m (List.mem_of_getElem? hget)
    · exact ofNat_ne_nul hzero hvalid

/-- What digits are resolved to is not the null character. -/
theorem ne_nul_of_digits? {base : Nat} {isDigit : Char → Bool} {t rest : Text} {c : Char}
    (h : digits? base isDigit t = some (c, rest)) : c ≠ nul := by
  unfold digits? at h
  split at h
  · cases h
  · obtain ⟨rfl, -⟩ := Prod.mk.inj (Option.some.inj h)
    exact ofNumber_ne_nul _

theorem ne_nul_of_numeric? {t rest : Text} {c : Char} (h : numeric? t = some (c, rest)) :
    c ≠ nul := by
  unfold numeric? at h
  split at h <;> exact ne_nul_of_digits? h

/-- A string whose bytes are not zero holds no null character. The table of names is checked byte by
byte, which is far cheaper than by characters. -/
theorem nul_notMem_of_bytes {s : String} (h : (0 : UInt8) ∉ s.toByteArray.data.toList) :
    nul ∉ s.toList := by
  intro hnul
  apply h
  rw [← String.utf8Encode_toList, List.utf8Encode, List.data_toByteArray]
  exact List.mem_flatMap.2 ⟨nul, hnul, by decide⟩

-- the tables are checked byte by byte, which is less work than to decode their texts
/-- No name in the table stands for a zero byte. -/
theorem bytes_of_entity (c : Char) :
    ∀ entity ∈ entitiesFrom c, (0 : UInt8) ∉ entity.2.toByteArray.data.toList := by
  unfold entitiesFrom
  split <;> decide +kernel

theorem nul_notMem_of_named? {inAttribute : Bool} {t characters rest : Text}
    (h : named? inAttribute t = some (characters, rest)) : nul ∉ characters := by
  unfold named? at h
  split at h
  · cases h
  · next c t =>
    split at h
    · cases h
    · next name characters' hfind =>
      dsimp only at h
      split at h
      · cases h
      · obtain ⟨rfl, -⟩ := Prod.mk.inj (Option.some.inj h)
        exact nul_notMem_of_bytes (bytes_of_entity c _ (List.mem_of_find?_eq_some hfind))

/-- A reference is never resolved to a null character. -/
theorem nul_notMem_reference (inAttribute : Bool) (t : Text) :
    nul ∉ (reference inAttribute t).1 := by
  have hamp : nul ∉ ['&'] := by decide
  unfold reference
  split
  · split
    · next h => simpa using (ne_nul_of_numeric? h).symm
    · exact hamp
  · cases h : named? inAttribute t with
    | none => exact hamp
    | some result => exact nul_notMem_of_named? h

/-! ## The references that are written -/

/-- The escape of an ampersand is resolved in text and in values alike. -/
theorem reference_amp (inAttribute : Bool) (t : Text) :
    reference inAttribute ("amp;".toList ++ t) = (['&'], t) := by
  cases inAttribute <;> rfl

theorem reference_lt (t : Text) : reference false ("lt;".toList ++ t) = (['<'], t) := rfl

theorem reference_gt (t : Text) : reference false ("gt;".toList ++ t) = (['>'], t) := rfl

/-- The escape of a quote is resolved in values, the only place where it is written. -/
theorem reference_quot (t : Text) : reference true ("quot;".toList ++ t) = (['"'], t) := rfl

end Scaffold.Html
