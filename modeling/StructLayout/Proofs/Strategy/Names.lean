import Mathlib.Data.List.Basic
import StructLayout.Proofs.Numeral
import StructLayout.Proofs.Sequence
import StructLayout.Strategy.Pipe

/-!
Names of strategies. Names with a number stand for a transform if they have one of four forms, and
the others are found in a list.
-/

namespace StructLayout

namespace Registry

/-- What stands in front of the number in a name and behind it, and what such a name stands for. -/
def sizedForms : List ((String × String) × (Nat → Transform)) :=
  [(("false_sharing_bytes_", ""), .falseSharing),
   (("cache_rounding_bytes_", ""), .cacheRounding),
   (("separate_padding_bytes_", "_top"), (.separate · true)),
   (("separate_padding_bytes_", "_bottom"), (.separate · false))]

theorem behind?_append (start : String) (rest : List Char) :
    behind? start (start.toList ++ rest) = some rest := by
  have hp : start.toList.isPrefixOf (start.toList ++ rest) = true :=
    List.isPrefixOf_iff_prefix.mpr (List.prefix_append _ _)
  rw [behind?, if_pos hp, List.drop_left]

theorem behind?_eq_some {start : String} {cs rest : List Char} (h : behind? start cs = some rest) :
    cs = start.toList ++ rest := by
  unfold behind? at h
  split at h
  · rename_i hp
    obtain ⟨ds, rfl⟩ := List.isPrefixOf_iff_prefix.mp hp
    cases h
    rw [List.drop_left]
  · cases h

theorem isDigit_of_readBytes {digits : List Char} {n : Nat} (h : readBytes digits = some n) :
    ∀ c ∈ digits, c.isDigit = true := by
  unfold readBytes at h
  split at h
  · exact List.all_eq_true.mp ‹_›
  · cases h

/-- A name with a number has one of the forms of such names. -/
theorem sized?_eq_some {name : String} {t : Transform} (h : sized? name = some t) :
    ∃ n digits, readBytes digits = some n ∧ ∃ form ∈ sizedForms, form.2 n = t ∧
      name.toList = form.1.1.toList ++ digits ++ form.1.2.toList := by
  unfold sized? at h
  dsimp only at h
  split at h
  · rename_i digits hb
    obtain ⟨n, hn, rfl⟩ := Option.map_eq_some_iff.mp h
    exact ⟨n, digits, hn, _, .head _, rfl, by simpa using behind?_eq_some hb⟩
  split at h
  · rename_i digits hb
    obtain ⟨n, hn, rfl⟩ := Option.map_eq_some_iff.mp h
    exact ⟨n, digits, hn, _, .tail _ (.head _), rfl, by simpa using behind?_eq_some hb⟩
  split at h
  · rename_i rest hb
    have hname := behind?_eq_some hb
    rw [← List.takeWhile_append_dropWhile (p := Char.isDigit) (l := rest),
      ← List.append_assoc] at hname
    split at h
    · rename_i hside
      obtain ⟨n, hn, rfl⟩ := Option.map_eq_some_iff.mp h
      exact ⟨n, _, hn, _, .tail _ (.tail _ (.head _)), rfl, hside ▸ hname⟩
    split at h
    · rename_i hside
      obtain ⟨n, hn, rfl⟩ := Option.map_eq_some_iff.mp h
      exact ⟨n, _, hn, _, .tail _ (.tail _ (.tail _ (.head _))), rfl, hside ▸ hname⟩
    · cases h
  · cases h

theorem splitDigits_append {digits : List Char} (hd : ∀ c ∈ digits, c.isDigit = true)
    (side : List Char) (hs : side.head?.all fun c => !c.isDigit) :
    (digits ++ side).takeWhile Char.isDigit = digits ∧
      (digits ++ side).dropWhile Char.isDigit = side := by
  rw [List.takeWhile_append_of_pos hd, List.dropWhile_append_of_pos hd]
  cases side with
  | nil => simp
  | cons c side =>
    have hc : c.isDigit = false := by simpa using hs
    simp [hc]

/-- Names of these forms stand for what the forms say. -/
theorem sized?_of_form {name : String} {digits : List Char} {n : Nat}
    {form : (String × String) × (Nat → Transform)} (hn : readBytes digits = some n)
    (hform : form ∈ sizedForms)
    (hname : name.toList = form.1.1.toList ++ digits ++ form.1.2.toList) :
    sized? name = some (form.2 n) := by
  have hdigits := isDigit_of_readBytes hn
  have hend : digits ++ "".toList = digits := List.append_nil digits
  have hfalse (start : String) (rest : List Char)
      (h : start = "cache_rounding_bytes_" ∨ start = "separate_padding_bytes_") :
      behind? "false_sharing_bytes_" (start.toList ++ rest) = none := by
    rcases h with rfl | rfl <;> rfl
  have hcache (rest : List Char) :
      behind? "cache_rounding_bytes_" ("separate_padding_bytes_".toList ++ rest) = none := rfl
  simp only [sizedForms, List.mem_cons, List.not_mem_nil, or_false] at hform
  rw [List.append_assoc] at hname
  unfold sized?
  rcases hform with rfl | rfl | rfl | rfl
  · simp only [hname, behind?_append, hend, hn, Option.map_some]
  · simp only [hname, hfalse _ _ (.inl rfl), behind?_append, hend, hn, Option.map_some]
  · obtain ⟨htake, hdrop⟩ := splitDigits_append hdigits "_top".toList rfl
    simp only [hname, hfalse _ _ (.inr rfl), hcache, behind?_append, htake, hdrop, hn, if_true,
      Option.map_some]
  · obtain ⟨htake, hdrop⟩ := splitDigits_append hdigits "_bottom".toList rfl
    have hside : "_bottom".toList ≠ "_top".toList := by decide
    simp only [hname, hfalse _ _ (.inr rfl), hcache, behind?_append, htake, hdrop, hn, hside,
      if_false, if_true, Option.map_some]

theorem readBytes_toString {n : Nat} (h : n < Text.wordBound) :
    readBytes (toString n).toList = some n := by
  rw [toList_toString, readBytes, if_pos (List.all_eq_true.mpr (Text.toDigits_isDigit n)),
    Text.readNat_toDigits h]

theorem transform_eq_ok {r : Registry} {recorded : List String} {name : String} {t : Transform}
    (h : r.transform recorded name = .ok t) :
    sized? name = some t ∨ (name, t) ∈ r.fixed recorded := by
  unfold transform at h
  split at h
  · rename_i u hu
    cases h
    exact (Option.or_eq_some_iff.mp hu).imp_right fun hl => mem_of_lookup hl.2
  · cases h

theorem stage_of_sized? {r : Registry} {recorded : List String} {name : String} {t : Transform}
    (h : sized? name = some t) : r.stage recorded name = .ok (.transform t) := by
  have hname : name ≠ replayName := by
    rintro rfl
    cases h
  rw [stage, if_neg hname, transform, h]
  rfl

/-- A name that ends in the digits of a number stands for its form with this number. -/
theorem stage_bytes (r : Registry) (recorded : List String) {start : String} {t : Nat → Transform}
    (hform : ((start, ""), t) ∈ sizedForms) {n : Nat} (h : n < Text.wordBound) :
    r.stage recorded (start ++ toString n) = .ok (.transform (t n)) := by
  refine stage_of_sized? (sized?_of_form (readBytes_toString h) hform ?_)
  rw [String.toList_append, String.toList_empty, List.append_nil]

end Registry

end StructLayout
