import StructLayout.Proofs.Source.Identities
import StructLayout.Run.Plan

/-!
The order that outcomes arrive in is lost: sorting by directory and identity puts them into one,
if their identities tell them apart.
-/

namespace StructLayout

/-- A sort depends on the order of the members only. -/
theorem mergeSort_congr {α : Type} {le le' : α → α → Bool} {xs : List α}
    (h : ∀ a ∈ xs, ∀ b ∈ xs, le a b = le' a b) : xs.mergeSort le = xs.mergeSort le' := by
  simpa using List.map_mergeSort (f := id) h

namespace Applied

/-- Outcomes by directory and identity. -/
def order : Applied → Applied → Ordering :=
  compareLex (compareOn location) fun a b => Identity.order a.id b.id

instance : Std.TransCmp fun a b : Applied => Identity.order a.id b.id where
  eq_swap := Std.OrientedCmp.eq_swap
  isLE_trans := Std.TransCmp.isLE_trans

instance : Std.TransCmp order :=
  inferInstanceAs (Std.TransCmp (compareLex _ _))

theorem le_eq_order {a b : Applied} (ha : a.id.Lined) (hb : b.id.Lined) :
    a.le b = (order a b).isLE := by
  unfold le order compareLex compareOn Identity.le
  rw [Identity.compare_eq_order ha hb]
  cases compare a.location b.location <;> rfl

/-- However outcomes arrive, they are sorted into the same order. -/
theorem sort_eq_of_perm {xs ys : List Applied} (h : xs.Perm ys) (hn : (xs.map id).Nodup)
    (hl : ∀ a ∈ xs, a.id.Lined) : sort xs = sort ys := by
  have sort_eq {zs : List Applied} (hz : zs.Perm xs) :
      sort zs = zs.mergeSort fun a b => (order a b).isLE :=
    mergeSort_congr fun a ha b hb => le_eq_order (hl a (hz.subset ha)) (hl b (hz.subset hb))
  have htrans : ∀ a b c : Applied, (order a b).isLE → (order b c).isLE → (order a c).isLE :=
    fun _ _ _ => Std.TransCmp.isLE_trans
  have htotal : ∀ a b : Applied, (order a b).isLE || (order b a).isLE := by
    intro a b
    have hswap : order a b = (order b a).swap := Std.OrientedCmp.eq_swap
    rw [hswap]
    cases order b a <;> rfl
  rw [sort_eq (.refl xs), sort_eq h.symm]
  refine List.Perm.eq_of_pairwise ?_ (List.pairwise_mergeSort htrans htotal xs)
    (List.pairwise_mergeSort htrans htotal ys)
    ((List.mergeSort_perm xs _).trans (h.trans (List.mergeSort_perm ys _).symm))
  intro a b ha hb hab hba
  have ha := (List.mergeSort_perm xs _).mem_iff.mp ha
  have hb := h.mem_iff.mpr ((List.mergeSort_perm ys _).mem_iff.mp hb)
  have heq : order a b = .eq := Std.OrientedCmp.isLE_antisymm hab hba
  exact List.inj_on_of_nodup_map hn ha hb (Identity.eq_of_order (compareLex_eq_eq.mp heq).2)

end Applied

/-- However outcomes arrive, the same results, or the same failure, is what comes of them. -/
theorem Plan.settle_eq_of_perm {xs ys : List Applied} (h : xs.Perm ys)
    (hn : (xs.map Applied.id).Nodup) (hl : ∀ a ∈ xs, a.id.Lined) (watch : Watch) :
    settle watch xs = settle watch ys := by
  unfold settle
  rw [Applied.sort_eq_of_perm h hn hl]

end StructLayout
