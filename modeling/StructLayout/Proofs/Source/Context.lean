import StructLayout.Proofs.Source.Grammar

/-!
Types in front of other tokens. The tokens behind a type matter by the kind of their first one
only, and only if a type could go on with it.
-/

namespace StructLayout

namespace Lexeme

/-- Kinds that can make a type longer. -/
def goesOn : List TokenKind := [.dot, .lbrack, .lparen, .ident, .star, .arrow]

/-- What stands behind a type can be replaced. -/
def Fits (rest rest' : List Lexeme) : Prop :=
  headKind rest' = headKind rest ∨ headKind rest' ∉ goesOn

variable {ls mid rest rest' seg : List Lexeme} {depth : Nat} {opening closing : TokenKind}

theorem headKind_append (h : seg ≠ []) : headKind (seg ++ rest') = headKind (seg ++ rest) := by
  cases seg with
  | nil => exact absurd rfl h
  | cons => rfl

theorem headKind_seg (h : seg ≠ []) : headKind (seg ++ rest) = headKind seg := by
  cases seg with
  | nil => exact absurd rfl h
  | cons => rfl

theorem headKind_congr (xs : List Lexeme) (h : headKind rest' = headKind rest) :
    headKind (xs ++ rest') = headKind (xs ++ rest) := by
  cases xs with
  | nil => exact h
  | cons => rfl

theorem Fits.not_kind {kind : TokenKind} (h : Fits rest rest') (hk : headKind rest ≠ kind)
    (hg : kind ∈ goesOn) : headKind rest' ≠ kind := by
  rcases h with h | h
  · rwa [h]
  · rintro rfl
    exact h hg

theorem Fits.not_mem {kinds : List TokenKind} (h : Fits rest rest') (hk : headKind rest ∉ kinds)
    (hg : ∀ kind ∈ kinds, kind ∈ goesOn) : headKind rest' ∉ kinds := by
  rcases h with h | h
  · rwa [h]
  · exact fun hm => h (hg _ hm)

/-- Some tokens are taken from those ahead, whatever stands behind them. -/
def Takes (P : List Lexeme → List Lexeme → Prop) (ls rest : List Lexeme) : Prop :=
  ∃ seg, ls = seg ++ rest ∧ seg ≠ [] ∧ ∀ rest', P (seg ++ rest') rest'

theorem Closes.takes (h : Closes opening closing depth ls rest) :
    Takes (Closes opening closing depth) ls rest := by
  induction h with
  | @last l rest ho hc => exact ⟨[l], rfl, List.cons_ne_nil _ _, fun _ => .last ho hc⟩
  | @opening _ l _ _ ho _ ih =>
      obtain ⟨seg, rfl, _, h⟩ := ih
      exact ⟨l :: seg, rfl, List.cons_ne_nil _ _, fun rest' => .opening ho (h rest')⟩
  | @closing _ l _ _ ho hc _ ih =>
      obtain ⟨seg, rfl, _, h⟩ := ih
      exact ⟨l :: seg, rfl, List.cons_ne_nil _ _, fun rest' => .closing ho hc (h rest')⟩
  | @other _ l _ _ ho hc _ ih =>
      obtain ⟨seg, rfl, _, h⟩ := ih
      exact ⟨l :: seg, rfl, List.cons_ne_nil _ _, fun rest' => .other ho hc (h rest')⟩

theorem Balanced.takes (h : Balanced opening closing ls rest) :
    Takes (Balanced opening closing) ls rest := by
  obtain ⟨l, inner, rfl, hl, hc⟩ := h
  obtain ⟨seg, rfl, _, h⟩ := hc.takes
  exact ⟨l :: seg, rfl, List.cons_ne_nil _ _, fun rest' => ⟨l, seg ++ rest', rfl, hl, h rest'⟩⟩

theorem Names.takes {names : List String} (h : Names names ls rest) :
    ∃ seg, ls = seg ++ rest ∧ seg ≠ [] ∧
      ∀ rest', headKind rest' ≠ .comma → Names names (seg ++ rest') rest' := by
  induction h with
  | @one name rest hk =>
      exact ⟨[⟨.ident, name⟩], rfl, List.cons_ne_nil _ _, fun _ hk => .one hk⟩
  | @more name comma names breaks ls rest hb _ ih =>
      obtain ⟨seg, rfl, _, h⟩ := ih
      refine ⟨⟨.ident, name⟩ :: ⟨.comma, comma⟩ :: (breaks ++ seg), by simp, List.cons_ne_nil _ _,
        fun rest' hk => ?_⟩
      have : Names (name :: names) (⟨.ident, name⟩ :: ⟨.comma, comma⟩ :: (breaks ++ (seg ++ rest')))
          rest' := .more hb (h rest' hk)
      simpa using this

theorem Qualified.takes {pkg : Option String} {name : String}
    (h : Qualified pkg name ls rest) :
    ∃ seg, ls = seg ++ rest ∧ seg ≠ [] ∧ ∀ rest',
      (headKind rest ≠ .dot → headKind rest' ≠ .dot) → Qualified pkg name (seg ++ rest') rest' := by
  cases h with
  | plain hk => exact ⟨[⟨.ident, name⟩], rfl, List.cons_ne_nil _ _, fun _ h => .plain (h hk)⟩
  | @dotted pkg dot name rest =>
      exact ⟨[⟨.ident, pkg⟩, ⟨.dot, dot⟩, ⟨.ident, name⟩], rfl, List.cons_ne_nil _ _,
        fun _ _ => .dotted⟩

theorem Tag.takes (h : Tag ls rest) :
    ∃ seg, ls = seg ++ rest ∧
      ∀ rest', headKind rest' = headKind rest → Tag (seg ++ rest') rest' := by
  cases h with
  | @some l rest hk => exact ⟨[l], rfl, fun _ _ => .some hk⟩
  | none hs hr => exact ⟨[], rfl, fun rest' h => .none (h ▸ hs) (h ▸ hr)⟩

/-- A field that has no names has none in front of other tokens either. -/
theorem StartsEmbedded.replace (hne : seg ≠ []) (hr : headKind rest' = headKind rest) :
    StartsEmbedded (seg ++ rest') ↔ StartsEmbedded (seg ++ rest) := by
  match seg with
  | [l] =>
      unfold StartsEmbedded
      rw [List.singleton_append, List.singleton_append, List.tail_cons, List.tail_cons, hr]
      exact Iff.rfl
  | l :: m :: seg => exact Iff.rfl

mutual

theorem Types.takes {name : Option String} : {ls rest : List Lexeme} → Types name ls rest →
    ∃ seg, ls = seg ++ rest ∧ seg ≠ [] ∧
      ∀ rest', Fits rest rest' → Types name (seg ++ rest') rest'
  | _, _, .pointer (x := x) h => by
      obtain ⟨seg, rfl, _, hr⟩ := h.takes
      exact ⟨⟨.star, x⟩ :: seg, rfl, List.cons_ne_nil _ _, fun rest' hf => .pointer (hr rest' hf)⟩
  | _, _, .paren (x := x) (y := y) h => by
      obtain ⟨seg, rfl, _, hr⟩ := h.takes
      refine ⟨⟨.lparen, x⟩ :: (seg ++ [⟨.rparen, y⟩]), by simp, List.cons_ne_nil _ _,
        fun rest' _ => ?_⟩
      have := Types.paren (x := x) (hr (⟨.rparen, y⟩ :: rest') (.inl rfl))
      simpa using this
  | _, _, .slice (x := x) (y := y) h => by
      obtain ⟨seg, rfl, _, hr⟩ := h.takes
      exact ⟨⟨.lbrack, x⟩ :: ⟨.rbrack, y⟩ :: seg, rfl, List.cons_ne_nil _ _,
        fun rest' hf => .slice (hr rest' hf)⟩
  | _, _, @Types.array x y _ inner _ _ hne hi hl h => by
      obtain ⟨seg, rfl, _, hr⟩ := h.takes
      refine ⟨⟨.lbrack, x⟩ :: (inner ++ ⟨.rbrack, y⟩ :: seg), by simp, List.cons_ne_nil _ _,
        fun rest' hf => ?_⟩
      have := Types.array (x := x) (y := y) hne hi hl (hr rest' hf)
      simpa using this
  | _, _, .receive (x := x) h => by
      obtain ⟨seg, rfl, _, hr⟩ := h.takes
      exact ⟨⟨.arrow, x⟩ :: ⟨.ident, "chan"⟩ :: seg, rfl, List.cons_ne_nil _ _,
        fun rest' hf => .receive (hr rest' hf)⟩
  | _, _, .struct (x := x) h => by
      obtain ⟨seg, rfl, _, hr⟩ := h.takes
      exact ⟨⟨.ident, "struct"⟩ :: ⟨.lbrace, x⟩ :: seg, rfl, List.cons_ne_nil _ _,
        fun rest' _ => .struct (hr rest')⟩
  | _, _, .interface h => by
      obtain ⟨seg, rfl, _, hr⟩ := h.takes
      exact ⟨⟨.ident, "interface"⟩ :: seg, rfl, List.cons_ne_nil _ _,
        fun rest' _ => .interface (hr rest')⟩
  | _, _, .map (x := x) (y := y) hk hv => by
      obtain ⟨seg, rfl, _, hr⟩ := hk.takes
      obtain ⟨seg', rfl, _, hr'⟩ := hv.takes
      refine ⟨⟨.ident, "map"⟩ :: ⟨.lbrack, x⟩ :: (seg ++ ⟨.rbrack, y⟩ :: seg'), by simp,
        List.cons_ne_nil _ _, fun rest' hf => ?_⟩
      have := Types.map (x := x) (hr (⟨.rbrack, y⟩ :: (seg' ++ rest')) (.inl rfl)) (hr' rest' hf)
      simpa using this
  | _, _, .send (x := x) h => by
      obtain ⟨seg, rfl, _, hr⟩ := h.takes
      exact ⟨⟨.ident, "chan"⟩ :: ⟨.arrow, x⟩ :: seg, rfl, List.cons_ne_nil _ _,
        fun rest' hf => .send (hr rest' hf)⟩
  | _, _, .chan hk h => by
      obtain ⟨seg, rfl, hne, hr⟩ := h.takes
      exact ⟨⟨.ident, "chan"⟩ :: seg, rfl, List.cons_ne_nil _ _,
        fun rest' hf => .chan (headKind_append hne ▸ hk) (hr rest' hf)⟩
  | _, _, .func h hres => by
      obtain ⟨seg, rfl, _, hr⟩ := h.takes
      obtain ⟨seg', rfl, hr'⟩ := hres.takes
      refine ⟨⟨.ident, "func"⟩ :: (seg ++ seg'), by simp, List.cons_ne_nil _ _,
        fun rest' hf => ?_⟩
      have := Types.func (hr (seg' ++ rest')) (hr' rest' hf)
      simpa using this
  | _, _, .ref hf h hk => by
      obtain ⟨seg, hs, hne, hr⟩ := h.takes
      refine ⟨seg, hs, hne, fun rest' hfit => ?_⟩
      cases seg with
      | nil => exact absurd rfl hne
      | cons l seg =>
          obtain ⟨rfl, -⟩ := List.cons.inj hs
          exact .ref hf (hr rest' fun hd => hfit.not_kind hd (by decide))
            (hfit.not_kind hk (by decide))
  | _, _, @Types.generic first _ _ _ _ _ hf h hb => by
      obtain ⟨seg, hs, hne, hr⟩ := h.takes
      obtain ⟨seg', rfl, hne', hr'⟩ := hb.takes
      cases seg with
      | nil => exact absurd rfl hne
      | cons l seg =>
          obtain ⟨rfl, rfl⟩ := List.cons.inj hs
          refine ⟨⟨.ident, first⟩ :: (seg ++ seg'), by simp, List.cons_ne_nil _ _,
            fun rest' _ => ?_⟩
          have := Types.generic hf (hr (seg' ++ rest') fun hd => headKind_append hne' ▸ hd)
            (hr' rest')
          simpa using this

theorem Result.takes : {ls rest : List Lexeme} → Result ls rest →
    ∃ seg, ls = seg ++ rest ∧ ∀ rest', Fits rest rest' → Result (seg ++ rest') rest'
  | _, _, .list h => by
      obtain ⟨seg, rfl, _, hr⟩ := h.takes
      exact ⟨seg, rfl, fun rest' _ => .list (hr rest')⟩
  | _, _, .type hk h => by
      obtain ⟨seg, rfl, hne, hr⟩ := h.takes
      exact ⟨seg, rfl, fun rest' hf => .type (by rwa [headKind_append hne]) (hr rest' hf)⟩
  | _, _, .none hk =>
      ⟨[], rfl, fun rest' hf => .none (hf.not_mem hk (by decide))⟩

theorem Body.takes : {ls rest : List Lexeme} → Body ls rest → Takes Body ls rest
  | _, _, .skip (l := l) hk h => by
      obtain ⟨seg, rfl, _, hr⟩ := h.takes
      exact ⟨l :: seg, rfl, List.cons_ne_nil _ _, fun rest' => .skip hk (hr rest')⟩
  | _, _, .close (x := x) => ⟨[⟨.rbrace, x⟩], rfl, List.cons_ne_nil _ _, fun _ => .close⟩
  | _, _, .field hf h => by
      obtain ⟨seg, rfl, hne, hr⟩ := hf.takes
      obtain ⟨seg', rfl, hne', hr'⟩ := h.takes
      refine ⟨seg ++ seg', by simp, by simp [hne], fun rest' => ?_⟩
      have := Body.field (hr (seg' ++ rest') (headKind_append hne')) (hr' rest')
      simpa using this

theorem Declares.takes : {ls rest : List Lexeme} → Declares ls rest →
    ∃ seg, ls = seg ++ rest ∧ seg ≠ [] ∧
      ∀ rest', headKind rest' = headKind rest → Declares (seg ++ rest') rest'
  | _, rest, @Declares.embedded name _ _ comments _ he hk h ht hc hend => by
      obtain ⟨seg, rfl, hne, hr⟩ := h.takes
      obtain ⟨seg', rfl, hr'⟩ := ht.takes
      refine ⟨seg ++ (seg' ++ comments), by simp, by simp [hne], fun rest' hrest => ?_⟩
      have hcomments := headKind_congr comments hrest
      have htag := headKind_congr seg' hcomments
      have := Declares.embedded ((StartsEmbedded.replace hne htag).mpr he)
        (headKind_append hne ▸ hk) (hr _ (.inl htag)) (hr' _ hcomments) hc (hrest ▸ hend)
      simpa using this
  | _, rest, @Declares.named names name _ _ _ comments _ he hn h ht hc hend => by
      obtain ⟨seg₀, rfl, hne₀, hr₀⟩ := hn.takes
      obtain ⟨seg, rfl, hne, hr⟩ := h.takes
      obtain ⟨seg', rfl, hr'⟩ := ht.takes
      refine ⟨seg₀ ++ (seg ++ (seg' ++ comments)), by simp, by simp [hne], fun rest' hrest => ?_⟩
      have hcomments := headKind_congr comments hrest
      have htag := headKind_congr seg' hcomments
      have htype := headKind_congr seg htag
      have hcomma : Lexeme.headKind (seg ++ (seg' ++ (comments ++ rest'))) ≠ .comma := by
        intro hk
        have := (hr _ (.inl htag)).headKind
        rw [hk] at this
        simp at this
      have := Declares.named (fun h => he ((StartsEmbedded.replace hne₀ htype).mp h))
        (hr₀ _ hcomma) (hr _ (.inl htag)) (hr' _ hcomments) hc (hrest ▸ hend)
      simpa using this

end

end Lexeme

end StructLayout
