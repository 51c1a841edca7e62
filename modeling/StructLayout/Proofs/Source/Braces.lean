import Mathlib
import StructLayout.Proofs.Source.Blocks
import StructLayout.Proofs.Source.Declared

/-!
Blocks in a text whose brackets nest. What is read of a block ends with the brace that closes it, and
reading it does not fail for a closing brace, as long as each constant ends before the bracket is closed
that it stands in.
-/

namespace StructLayout

open TokenKind Cursor

namespace Block

variable {s : SourceText} {ts : List Token} {nested : Bool} {st around : List TokenKind}
  {b b' : Block} {c d e : Cursor}

/-- A place in a block. The brackets that are open there are those that were opened in the block, none of
which is a brace, and those around the block, the innermost of which is its own brace. -/
structure Stands (ts : List Token) (nested : Bool) (st around : List TokenKind) (c : Cursor) : Prop where
  of : c.Of ts
  within : Within (st ++ around) c
  inside : .rbrace ∉ st
  brace : around.head? = if nested then some .rbrace else none

theorem Stands.takes (h : Stands ts nested st around c) (ht : Takes [] c d) :
    Stands ts nested st around d where
  of := h.of.takes ht
  within := h.within.takes (u := []) ht
  inside := h.inside
  brace := h.brace

/-- A brace that is opened is the one of a block. -/
theorem Stands.lbrace (h : Stands ts nested st around c) (hk : c.kind = .lbrace) :
    Stands ts true [] (.rbrace :: (st ++ around)) c.next where
  of := h.of.passes (passes_next (by rw [hk]; decide))
  within := h.within.opening (by rw [hk]; rfl)
  inside := List.not_mem_nil
  brace := rfl

/-- The end of the text is in no pair of braces. -/
theorem Stands.eof (h : Stands ts nested st around c) (hk : c.kind = .eof) : nested = false := by
  cases nested with
  | false => rfl
  | true =>
      have hbrace := h.brace
      rw [(List.append_eq_nil_iff.mp (h.within.eof hk)).2] at hbrace
      cases hbrace

/-- A brace that is closed is the one of the block. -/
theorem Stands.rbrace (h : Stands ts nested st around c) (hk : c.kind = .rbrace) :
    st = [] ∧ nested = true := by
  obtain ⟨st', hst, -⟩ := h.within.closed (by rw [hk]; rfl)
  rw [hk] at hst
  cases st with
  | nil =>
      have hbrace := h.brace
      rw [List.nil_append] at hst
      rw [hst] at hbrace
      cases nested with
      | false => cases hbrace
      | true => exact ⟨rfl, rfl⟩
  | cons close st =>
      cases hst
      exact absurd List.mem_cons_self h.inside

/-- Any other bracket changes what is open in the block. -/
theorem Stands.other (h : Stands ts nested st around c) (he : c.kind ≠ .eof) (ho : c.kind ≠ .lbrace)
    (hc : c.kind ≠ .rbrace) :
    ∃ st', shift st c.kind = some st' ∧ Stands ts nested st' around c.next := by
  obtain ⟨all, hs, hw⟩ := h.within.next he
  have hof := h.of.passes (passes_next he)
  rcases shift_eq_some hs with ⟨close, hk, rfl⟩ | ⟨hk, hst⟩ | ⟨hk, rfl⟩
  · refine ⟨close :: st, shift_opening hk st, hof, hw, ?_, h.brace⟩
    rcases closing?_eq_some hk with ⟨-, rfl⟩ | ⟨-, rfl⟩ | ⟨hk, -⟩
    · simpa using h.inside
    · simpa using h.inside
    · exact absurd hk ho
  · cases st with
    | nil =>
        have hbrace := h.brace
        rw [List.nil_append] at hst
        rw [hst] at hbrace
        cases nested with
        | false => cases hbrace
        | true => exact absurd (Option.some.inj hbrace) hc
    | cons close st =>
        cases hst
        exact ⟨st, shift_closing hk st, hof, hw, fun hm => h.inside (List.mem_cons_of_mem _ hm),
          h.brace⟩
  · exact ⟨st, shift_plain hk st, hof, hw, h.inside, h.brace⟩

/-- The literal of a type, from its keyword on. -/
theorem Stands.literal {d : c.next.After} (h : Stands ts nested st around c) (hk : c.kind = .ident)
    (hr : c.next.skipBalanced s .lbrace .rbrace = .ok d) : Takes [] c d.1 := by
  have hkeyword : Takes [] c c.next := takes_next (by rw [hk]; decide) (by rw [hk]; rfl)
  exact hkeyword.trans (skipBalanced_takes (h.takes hkeyword).within rfl hr)

/-- A pair of braces, and tokens inside of it that nest. -/
theorem takes_pair {l : Token} {init : List Token} (hk : c.kind = .lbrace) (hl : l.kind = .rbrace)
    (hp : c.Passes (c.token :: (init ++ [l])) d) (h : Matched (init.map Token.kind)) :
    Takes [] c d := by
  have hopen : c.token.kind.closing? = some l.kind := by
    have hk : c.token.kind = .lbrace := hk
    rw [hk, hl]
    rfl
  have hpair := h.enclose hopen
  exact ⟨_, hp, by simpa [Matched] using hpair⟩

/-- A nested block ends with the brace that closes it, and a file keeps its span. In front of that brace
the brackets are closed that are open in the block. -/
structure Finished (nested : Bool) (st : List TokenKind) (b b' : Block) (c d : Cursor) : Prop where
  closing : nested = true → ∃ init l, c.Passes (init ++ [l]) d ∧ l.kind = .rbrace ∧
    b'.span = ⟨b.span.start, l.stop⟩ ∧ TokenKind.nest st (init.map Token.kind) = some []
  kept : nested = false → b'.span = b.span

/-- A part of the block comes first. -/
theorem Finished.behind {b₁ : Block} {st' : List TokenKind} {seg : List Token}
    (h : Finished nested st' b₁ b' d e) (hp : c.Passes seg d)
    (hn : TokenKind.nest st (seg.map Token.kind) = some st') (hb : b₁.span = b.span) :
    Finished nested st b b' c e := by
  obtain ⟨hclosing, hkept⟩ := h
  rw [hb] at hclosing hkept
  refine ⟨fun hnested => ?_, hkept⟩
  obtain ⟨init, l, hp', hl, hspan, hinit⟩ := hclosing hnested
  refine ⟨seg ++ init, l, by rw [List.append_assoc]; exact hp.trans hp', hl, hspan, ?_⟩
  rw [List.map_append, nest_append_of hn, hinit]

theorem Finished.takes {b₁ : Block} (h : Finished nested st b₁ b' d e) (ht : Takes [] c d)
    (hb : b₁.span = b.span) : Finished nested st b b' c e := by
  obtain ⟨seg, hp, hn⟩ := ht
  exact h.behind hp (nest_frame hn st) hb

theorem Reads.finished (h : Reads s nested b c b' d) (hends : ConstSpec.allEndInside ts = true)
    (hs : Stands ts nested st around c) : Finished nested st b b' c d := by
  induction h generalizing st around with
  | finish => exact ⟨(fun h => by cases h), fun _ => rfl⟩
  | @close b c hk =>
      refine ⟨fun _ => ⟨[], c.token, passes_next (by rw [hk]; decide), hk, rfl, ?_⟩, fun h => by cases h⟩
      rw [(hs.rbrace hk).1]
      rfl
  | @nest nested b child b' c d e hk _ _ ihchild ih =>
      obtain ⟨init, l, hp, hl, -, hinit⟩ := (ihchild (hs.lbrace hk)).closing rfl
      have hp := (passes_next (by rw [hk]; decide)).trans hp
      have hpair := takes_pair hk hl hp hinit
      exact (ih (hs.takes hpair)).takes hpair rfl
  | types hk hr _ ih =>
      have hdecl := (TypeSpec.readDecl_yields hs.within hk hr).takes
      exact (ih (hs.takes hdecl)).takes hdecl rfl
  | consts hk ht hr _ ih =>
      have hdecl := (ConstSpec.readDecl_yields hends hs.of hs.within hk ht hr).takes
      exact (ih (hs.takes hdecl)).takes hdecl rfl
  | literal hk hr _ ih =>
      have hliteral := hs.literal hk hr
      exact (ih (hs.takes hliteral)).takes hliteral rfl
  | other he ho hc _ ih =>
      obtain ⟨st', hshift, hs⟩ := hs.other he ho hc
      exact (ih hs).behind (passes_next he) (nest_cons_of hshift []) rfl

/-- A block inside of another one is a pair of braces. -/
theorem Reads.pair {child : Block} (hk : c.kind = .lbrace)
    (h : Reads s true { span := ⟨c.token.start, c.token.stop⟩ } c.next child d)
    (hends : ConstSpec.allEndInside ts = true) (hs : Stands ts nested st around c) :
    ∃ init l, c.Passes (c.token :: (init ++ [l])) d ∧ l.kind = .rbrace ∧
      child.span = ⟨c.token.start, l.stop⟩ ∧ Matched (init.map Token.kind) := by
  obtain ⟨init, l, hp, hl, hspan, hinit⟩ := (h.finished hends (hs.lbrace hk)).closing rfl
  exact ⟨init, l, (passes_next (by rw [hk]; decide)).trans hp, hl, hspan, hinit⟩

/-- Reading a block does not fail for a closing brace. -/
theorem readFrom_clear (hends : ConstSpec.allEndInside ts = true)
    (hs : Stands ts nested st around c) : Clear (readFrom s nested b c) := by
  obtain ⟨n, hn⟩ : ∃ n, c.ahead.length < n := ⟨_, Nat.lt_succ_self _⟩
  induction n generalizing c b nested st around with
  | zero => exact absurd hn (Nat.not_lt_zero _)
  | succ n ih =>
      unfold readFrom
      split
      · rename_i he
        split
        · rename_i hnested
          rw [hs.eof he] at hnested
          cases hnested
        · exact clear_ok _
      · rename_i he
        have hlt : c.next.ahead.length < n :=
          Nat.lt_of_lt_of_le (next_lt (ahead_ne_nil_of_kind he)) (Nat.le_of_lt_succ hn)
        -- what is left to read behind a part of the block
        have more {b : Block} {d : c.next.From} {st : List TokenKind}
            (hs : Stands ts nested st around d.1) : Clear (readFrom s nested b d.1) :=
          ih hs (Nat.lt_of_le_of_lt d.2 hlt)
        dsimp only
        split
        · rename_i hk
          split
          · exact clear_ok _
          · rename_i hnested
            exact absurd (hs.rbrace hk).2 hnested
        · rename_i hk
          refine (ih (hs.lbrace hk) hlt).bind fun r h => ?_
          obtain ⟨init, l, hp, hl, -, hinit⟩ := (reads_of_readFrom h).pair hk hends hs
          have hpair := hs.takes (takes_pair hk hl hp hinit)
          exact (more hpair).bind fun _ _ => clear_ok _
        · rename_i hk
          split
          · refine (TypeSpec.readDecl_clear hs.within hk).bind fun r h => ?_
            have hdecl := hs.takes (TypeSpec.readDecl_yields hs.within hk h).takes
            exact (more hdecl).bind fun _ _ => clear_ok _
          · split
            · rename_i ht
              refine (ConstSpec.readDecl_clear s c).bind fun r h => ?_
              have hdecl := hs.takes (ConstSpec.readDecl_yields hends hs.of hs.within hk ht h).takes
              exact (more hdecl).bind fun _ _ => clear_ok _
            · obtain ⟨st', -, hother⟩ := hs.other he (by rw [hk]; decide) (by rw [hk]; decide)
              split
              · refine (skipBalanced_clear hother.within rfl).bind fun d h => ?_
                exact (more (d := d.toFrom) (hs.takes (hs.literal hk h))).bind fun _ _ => clear_ok _
              · exact (ih hother hlt).bind fun _ _ => clear_ok _
        · rename_i hclose hopen hident
          obtain ⟨st', -, hother⟩ := hs.other he hopen hclose
          exact (ih hother hlt).bind fun _ _ => clear_ok _

end Block

end StructLayout
