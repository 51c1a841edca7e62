import StructLayout.Proofs.Strategy.RealFields

/-!
The paddings of a structure under strategies. Strategies add paddings of bytes only, and change none
that are there, so all paddings have alignment one if those of the origin do.
-/

namespace StructLayout

/-- Paddings have alignment one. -/
def BytePads (fs : List Field) : Prop :=
  ∀ f ∈ fs, f.isPadding = true → f.align = 1

/-- No strategy puts a padding of something else than bytes into a structure. -/
theorem Transform.bytePads_apply (t : Transform) {st : Struct} (h : BytePads st.fields) :
    BytePads (t.apply st).fields := by
  intro f hf hp
  rcases Transform.leaves hf with ⟨size, rfl⟩ | ⟨g, hg, hs, -⟩
  · rfl
  · have hname : f.name = g.name := congrArg Signature.name hs
    have halign : f.align = g.align := congrArg Signature.align hs
    rw [halign]
    exact h g hg (by rwa [Field.isPadding, ← hname])

theorem Pipe.bytePads_run {p : Pipe} {st out : Struct} (hp : ∀ r, .replay r ∉ p)
    (hst : BytePads st.fields) (h : p.run st = .ok out) : BytePads out.fields := by
  induction p generalizing st with
  | nil =>
    cases h
    exact hst
  | cons s p ih =>
    have hrest : ∀ r, .replay r ∉ p := fun r hr => hp r (List.mem_cons_of_mem _ hr)
    cases s with
    | transform t => exact ih hrest (t.bytePads_apply hst) h
    | replay r => exact absurd List.mem_cons_self (hp r)

end StructLayout
