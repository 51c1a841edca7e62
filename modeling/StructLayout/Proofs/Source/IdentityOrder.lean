import StructLayout.Proofs.Source.Identities

/-!
Identities with lines are in one order, and identities without lines in another one, that of their
texts. An identity without a line is compared with every other one as a text, so that it can come to
stand between two identities with lines whose texts are the other way round. Such three go round in a
circle, and no others do.
-/

namespace StructLayout.Identity

variable {a b c x y z : Identity}

/-- An identity without a line stands as a text between two identities with lines, of which the
second one has the smaller text. -/
structure Wedged (z x y : Identity) : Prop where
  unlined : z.line? = .none
  left : x.line?.isSome
  right : y.line?.isSome
  lines : x.compare y = .lt
  above : y.text < z.text
  below : z.text < x.text

theorem text_lt {s t : String} : Ord.compare s t = .lt ↔ s < t :=
  compareOfLessAndEq_eq_lt

theorem compare_eq_eq : a.compare b = .eq ↔ a = b :=
  ⟨eq_of_compare, fun h => h ▸ a.compare_self⟩

theorem compare_swap (a b : Identity) : b.compare a = (a.compare b).swap := by
  unfold compare
  cases a.line? <;> cases b.line?
  all_goals simp only [Ordering.swap_then, ← Std.OrientedCmp.eq_swap]

theorem compare_left (ha : a.line? = .none) : a.compare b = Ord.compare a.text b.text := by
  unfold compare
  rw [ha]

theorem compare_right (hb : b.line? = .none) : a.compare b = Ord.compare a.text b.text := by
  unfold compare
  rw [hb]
  cases a.line? <;> rfl

theorem Lined.compare_trans (ha : a.Lined) (hb : b.Lined) (hc : c.Lined) (hab : a.compare b = .lt)
    (hbc : b.compare c = .lt) : a.compare c = .lt := by
  rw [compare_eq_order ha hb] at hab
  rw [compare_eq_order hb hc] at hbc
  rw [compare_eq_order ha hc]
  exact Std.TransCmp.lt_trans hab hbc

/-! ## Circles -/

theorem Wedged.circle (h : z.Wedged x y) :
    x.compare y = .lt ∧ y.compare z = .lt ∧ z.compare x = .lt :=
  ⟨h.lines, (compare_right h.unlined).trans (text_lt.mpr h.above),
    (compare_left h.unlined).trans (text_lt.mpr h.below)⟩

/-- The two others have lines, as texts alone do not go round. -/
theorem wedged_of_circle (hz : z.line? = .none) (hxy : x.compare y = .lt)
    (hyz : y.compare z = .lt) (hzx : z.compare x = .lt) : z.Wedged x y := by
  rw [compare_right hz, text_lt] at hyz
  rw [compare_left hz, text_lt] at hzx
  have hlined : x.compare y ≠ Ord.compare x.text y.text := by
    intro he
    rw [hxy] at he
    exact String.lt_asymm (text_lt.mp he.symm) (String.lt_trans hyz hzx)
  refine ⟨hz, ?_, ?_, hxy, hyz, hzx⟩
  · exact Option.isSome_iff_ne_none.mpr fun hx => hlined (compare_left hx)
  · exact Option.isSome_iff_ne_none.mpr fun hy => hlined (compare_right hy)

theorem circle_iff : a.compare b = .lt ∧ b.compare c = .lt ∧ c.compare a = .lt ↔
    c.Wedged a b ∨ a.Wedged b c ∨ b.Wedged c a := by
  constructor
  · rintro ⟨hab, hbc, hca⟩
    by_cases hc : c.line? = .none
    · exact .inl (wedged_of_circle hc hab hbc hca)
    by_cases ha : a.line? = .none
    · exact .inr (.inl (wedged_of_circle ha hbc hca hab))
    by_cases hb : b.line? = .none
    · exact .inr (.inr (wedged_of_circle hb hca hab hbc))
    · have lined {id : Identity} (h : id.line? ≠ .none) : id.Lined :=
        .inr (Option.isSome_iff_ne_none.mpr h)
      have hac := (lined ha).compare_trans (lined hb) (lined hc) hab hbc
      rw [compare_swap, hac] at hca
      cases hca
  · rintro (h | h | h)
    · exact h.circle
    · obtain ⟨hbc, hca, hab⟩ := h.circle
      exact ⟨hab, hbc, hca⟩
    · obtain ⟨hca, hab, hbc⟩ := h.circle
      exact ⟨hab, hbc, hca⟩

/-- What does not go on goes round: the first and the last of three are not the same. -/
theorem compare_trans_iff : (a.compare b = .lt → b.compare c = .lt → a.compare c = .lt) ↔
    ¬(a.compare b = .lt ∧ b.compare c = .lt ∧ c.compare a = .lt) := by
  have hback : c.compare a = .lt ↔ a.compare c = .gt := by
    rw [compare_swap]
    cases a.compare c <;> decide
  rw [hback]
  constructor
  · rintro h ⟨hab, hbc, hac⟩
    rw [h hab hbc] at hac
    cases hac
  · intro h hab hbc
    cases hac : a.compare c with
    | lt => rfl
    | gt => exact absurd ⟨hab, hbc, hac⟩ h
    | eq =>
      obtain rfl := eq_of_compare hac
      rw [compare_swap, hab] at hbc
      cases hbc

/-- Of two identities one is less than the other one unless they are equal, and what is less than
something less is less too, except for three of which one has no line and stands between the two
others as a text. Identities with lines, and the empty one, are always in order. -/
theorem compare_strict_order (a b c : Identity) :
    (a.compare b = .eq ↔ a = b) ∧ b.compare a = (a.compare b).swap ∧
      ((a.compare b = .lt → b.compare c = .lt → a.compare c = .lt) ↔
        ¬(c.Wedged a b ∨ a.Wedged b c ∨ b.Wedged c a)) ∧
      (a.Lined → b.Lined → c.Lined →
        a.compare b = .lt → b.compare c = .lt → a.compare c = .lt) := by
  refine ⟨compare_eq_eq, compare_swap a b, ?_, fun ha hb hc => ha.compare_trans hb hc⟩
  rw [compare_trans_iff, circle_iff]

theorem compare_strict_order_lines :
    let a : Identity := ⟨"9-b"⟩
    let b : Identity := ⟨"20-a"⟩
    let c : Identity := ⟨"100-a"⟩
    a.Lined ∧ b.Lined ∧ c.Lined ∧ a.compare b = .lt ∧ b.compare c = .lt ∧ a.compare c = .lt := by
  intro a b c
  have ha : a.Lined := .inr (by decide)
  have hb : b.Lined := .inr (by decide)
  have hc : c.Lined := .inr (by decide)
  have hab : a.compare b = .lt := by decide
  have hbc : b.compare c = .lt := by decide
  exact ⟨ha, hb, hc, hab, hbc, (compare_strict_order a b c).2.2.2 ha hb hc hab hbc⟩

/-- Ten is behind nine as a line and in front of it as a text. -/
theorem compare_not_transitive :
    ¬∀ a b c : Identity, a.compare b = .lt → b.compare c = .lt → a.compare c = .lt := by
  intro h
  have hlt := h ⟨"10"⟩ ⟨"1x"⟩ ⟨"9"⟩ (by decide) (by decide)
  have hgt : (Identity.mk "10").compare ⟨"9"⟩ = .gt := by decide
  rw [hgt] at hlt
  cases hlt

end StructLayout.Identity
