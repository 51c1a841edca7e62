import StructLayout.Proofs.Source.Spans

/-!
All declarations of a file are apart from each other, whatever blocks they stand in.
-/

namespace StructLayout

namespace Block

open Cursor TypeSpec

/-- The rest of a block, read part by part between two places. -/
inductive Reads (s : SourceText) : Bool → Block → Cursor → Block → Cursor → Prop
  | finish {b : Block} {c : Cursor} (hk : c.kind = .eof) : Reads s false b c b c
  | close {b : Block} {c : Cursor} (hk : c.kind = .rbrace) :
      Reads s true b c { b with span := { b.span with stop := c.token.stop } } c.next
  | nest {nested : Bool} {b child b' : Block} {c d e : Cursor} (hk : c.kind = .lbrace)
      (hchild : Reads s true { span := ⟨c.token.start, c.token.stop⟩ } c.next child d)
      (h : Reads s nested { b with blocks := b.blocks ++ [child] } d b' e) : Reads s nested b c b' e
  | types {nested : Bool} {b b' : Block} {c e : Cursor} {new : List TypeSpec} {d : c.next.From}
      (hk : c.kind = .ident) (hr : TypeSpec.readDecl s c = .ok (new, d))
      (h : Reads s nested { b with specs := b.specs ++ new } d.1 b' e) : Reads s nested b c b' e
  | consts {nested : Bool} {b b' : Block} {c e : Cursor} {new : List ConstSpec} {d : c.next.From}
      (hk : c.kind = .ident) (ht : c.token.text = "const")
      (hr : ConstSpec.readDecl s c = .ok (new, d))
      (h : Reads s nested { b with consts := b.consts ++ new } d.1 b' e) : Reads s nested b c b' e
  | literal {nested : Bool} {b b' : Block} {c e : Cursor} {d : c.next.After} (hk : c.kind = .ident)
      (hr : c.next.skipBalanced s .lbrace .rbrace = .ok d) (h : Reads s nested b d.1 b' e) :
      Reads s nested b c b' e
  | other {nested : Bool} {b b' : Block} {c e : Cursor} (he : c.kind ≠ .eof) (ho : c.kind ≠ .lbrace)
      (hc : c.kind ≠ .rbrace) (h : Reads s nested b c.next b' e) : Reads s nested b c b' e

theorem reads_of_readFrom {s : SourceText} {nested : Bool} {b b' : Block} {c : Cursor} {d : c.From}
    (h : readFrom s nested b c = .ok (b', d)) : Reads s nested b c b' d.1 := by
  obtain ⟨n, hn⟩ : ∃ n, c.ahead.length < n := ⟨_, Nat.lt_succ_self _⟩
  induction n generalizing c b b' d nested with
  | zero => exact absurd hn (Nat.not_lt_zero _)
  | succ n ih =>
      unfold readFrom at h
      split at h
      · rename_i he
        split at h
        · cases h
        · rename_i hnested
          cases h
          rw [Bool.eq_false_iff.mpr hnested]
          exact .finish he
      · rename_i he
        have hlt : c.next.ahead.length < n :=
          Nat.lt_of_lt_of_le (next_lt (ahead_ne_nil_of_kind he)) (Nat.le_of_lt_succ hn)
        dsimp only at h
        split at h
        · rename_i hk
          split at h
          · rename_i hnested
            cases h
            rw [hnested]
            exact .close hk
          · cases h
        · rename_i hk
          obtain ⟨⟨child, d₁⟩, hchild, h⟩ := bind_eq_ok.mp h
          obtain ⟨⟨b₂, e⟩, hr, h⟩ := bind_eq_ok.mp h
          cases h
          exact .nest hk (ih hchild hlt) (ih hr (Nat.lt_of_le_of_lt d₁.2 hlt))
        · rename_i hk
          split at h
          · obtain ⟨⟨new, d₁⟩, hnew, h⟩ := bind_eq_ok.mp h
            obtain ⟨⟨b₂, e⟩, hr, h⟩ := bind_eq_ok.mp h
            cases h
            exact .types hk hnew (ih hr (Nat.lt_of_le_of_lt d₁.2 hlt))
          · split at h
            · rename_i ht
              obtain ⟨⟨new, d₁⟩, hnew, h⟩ := bind_eq_ok.mp h
              obtain ⟨⟨b₂, e⟩, hr, h⟩ := bind_eq_ok.mp h
              cases h
              exact .consts hk ht hnew (ih hr (Nat.lt_of_le_of_lt d₁.2 hlt))
            · split at h
              · obtain ⟨d₁, hskip, h⟩ := bind_eq_ok.mp h
                obtain ⟨⟨b₂, e⟩, hr, h⟩ := bind_eq_ok.mp h
                cases h
                exact .literal hk hskip (ih hr (Nat.lt_trans d₁.2 hlt))
              · obtain ⟨⟨b₂, e⟩, hr, h⟩ := bind_eq_ok.mp h
                cases h
                exact .other he (by rw [hk]; decide) (by rw [hk]; decide) (ih hr hlt)
        · rename_i hclose hopen hident
          obtain ⟨⟨b₂, e⟩, hr, h⟩ := bind_eq_ok.mp h
          cases h
          exact .other he hopen hclose (ih hr hlt)

/-- The spans of two declarations, the first of which comes first in a list of declarations: it
comes first in the text too, or at some distance behind the other. -/
def Apart (a b : TypeSpec) : Prop :=
  a.commentSpan.stop ≤ b.docSpan.start ∨ b.commentSpan.stop < a.docSpan.start

theorem allSpecsIn_append (bs bs' : List Block) :
    allSpecsIn (bs ++ bs') = allSpecsIn bs ++ allSpecsIn bs' := by
  induction bs with
  | nil => simp [allSpecsIn]
  | cons b bs ih => simp [allSpecsIn, ih]

theorem allSpecs_eq (b : Block) : b.allSpecs = b.specs ++ allSpecsIn b.blocks := by
  cases b
  rw [allSpecs]

/-- The declarations of a block are placed between two bytes and apart. Those of inner blocks end
before the second byte: a brace stands in between. -/
structure Laid (cs : List Char) (p q : Nat) (b : Block) : Prop where
  le : p ≤ q
  placed : ∀ t ∈ b.allSpecs, t.Placed cs ∧ p ≤ t.docSpan.start
  own : ∀ t ∈ b.specs, t.commentSpan.stop ≤ q
  inner : ∀ t ∈ allSpecsIn b.blocks, t.commentSpan.stop < q
  apart : b.allSpecs.Pairwise Apart

variable {cs : List Char} {b child : Block} {p q r : Nat}

theorem Laid.empty (hs : b.specs = []) (hb : b.blocks = []) : b.Laid cs p p := by
  have hall : b.allSpecs = [] := by rw [allSpecs_eq, hs, hb]; rfl
  exact ⟨Nat.le_refl p, by simp [hall], by simp [hs], by simp [hb, allSpecsIn], by simp [hall]⟩

theorem Laid.allSpecs_le (h : b.Laid cs p q) : ∀ t ∈ b.allSpecs, t.commentSpan.stop ≤ q := by
  intro t ht
  rw [allSpecs_eq] at ht
  rcases List.mem_append.mp ht with ht | ht
  · exact h.own t ht
  · exact Nat.le_of_lt (h.inner t ht)

/-- Only the declarations of a block matter. -/
theorem Laid.of_eq {b' : Block} (h : b.Laid cs p q) (hs : b'.specs = b.specs)
    (hb : b'.blocks = b.blocks) : b'.Laid cs p q := by
  have hall : b'.allSpecs = b.allSpecs := by rw [allSpecs_eq, allSpecs_eq, hs, hb]
  exact ⟨h.le, hall ▸ h.placed, hs ▸ h.own, hb ▸ h.inner, hall ▸ h.apart⟩

theorem Laid.addConsts (h : b.Laid cs p q) (new : List ConstSpec) :
    ({ b with consts := b.consts ++ new } : Block).Laid cs p q :=
  h.of_eq rfl rfl

theorem Laid.addSpecs {ts : List TypeSpec} (h : b.Laid cs p q) (ht : Row cs q r ts) :
    ({ b with specs := b.specs ++ ts } : Block).Laid cs p r := by
  have hall : ({ b with specs := b.specs ++ ts } : Block).allSpecs =
      b.specs ++ (ts ++ allSpecsIn b.blocks) := by
    rw [allSpecs_eq, List.append_assoc]
  have hplaced := h.placed
  have hapart := h.apart
  rw [allSpecs_eq] at hplaced hapart
  obtain ⟨hown, hinner, hcross⟩ := List.pairwise_append.mp hapart
  refine ⟨Nat.le_trans h.le ht.le, ?_, ?_, ?_, ?_⟩
  · rw [hall]
    intro t hm
    rcases List.mem_append.mp hm with hm | hm
    · exact hplaced t (List.mem_append_left _ hm)
    · rcases List.mem_append.mp hm with hm | hm
      · obtain ⟨h₁, h₂, -⟩ := ht.placed t hm
        exact ⟨h₁, Nat.le_trans h.le h₂⟩
      · exact hplaced t (List.mem_append_right _ hm)
  · intro t hm
    rcases List.mem_append.mp hm with hm | hm
    · exact Nat.le_trans (h.own t hm) ht.le
    · exact (ht.placed t hm).2.2
  · exact fun t hm => Nat.lt_of_lt_of_le (h.inner t hm) ht.le
  · rw [hall]
    refine List.pairwise_append.mpr ⟨hown, List.pairwise_append.mpr
      ⟨ht.order.imp fun h => .inl h, hinner, fun a ha c hc => ?_⟩, fun a ha c hc => ?_⟩
    · exact .inr (Nat.lt_of_lt_of_le (h.inner c hc) (ht.placed a ha).2.1)
    · rcases List.mem_append.mp hc with hc | hc
      · exact .inl (Nat.le_trans (h.own a ha) (ht.placed c hc).2.1)
      · exact hcross a ha c hc

theorem Laid.addBlock {q' : Nat} (h : b.Laid cs p q) (hc : child.Laid cs q q') (hr : q' < r) :
    ({ b with blocks := b.blocks ++ [child] } : Block).Laid cs p r := by
  have hin : allSpecsIn (b.blocks ++ [child]) = allSpecsIn b.blocks ++ child.allSpecs := by
    rw [allSpecsIn_append, allSpecsIn, allSpecsIn, List.append_nil]
  have hall : ({ b with blocks := b.blocks ++ [child] } : Block).allSpecs =
      b.allSpecs ++ child.allSpecs := by
    rw [allSpecs_eq, allSpecs_eq, hin, List.append_assoc]
  have hqr : q ≤ r := Nat.le_of_lt (Nat.lt_of_le_of_lt hc.le hr)
  refine ⟨Nat.le_trans h.le hqr, ?_, fun t hm => Nat.le_trans (h.own t hm) hqr, ?_, ?_⟩
  · rw [hall]
    intro t hm
    rcases List.mem_append.mp hm with hm | hm
    · exact h.placed t hm
    · obtain ⟨h₁, h₂⟩ := hc.placed t hm
      exact ⟨h₁, Nat.le_trans h.le h₂⟩
  · rw [hin]
    intro t hm
    rcases List.mem_append.mp hm with hm | hm
    · exact Nat.lt_of_lt_of_le (h.inner t hm) hqr
    · exact Nat.lt_of_le_of_lt (hc.allSpecs_le t hm) hr
  · rw [hall]
    exact List.pairwise_append.mpr ⟨h.apart, hc.apart, fun a ha c hm =>
      .inl (Nat.le_trans (h.allSpecs_le a ha) (hc.placed c hm).2)⟩

/-- Reading on keeps the declarations apart. Behind a nested block its closing brace was read. -/
theorem Reads.laid {s : SourceText} {nested : Bool} {c d : Cursor} {b' : Block}
    (h : Reads s nested b c b' d) (ho : Over s c) (hp : c.Past q) (hb : b.Laid s.chars p q) :
    ∃ seg r, c.Passes seg d ∧ b'.Laid s.chars p r ∧
      (nested = true → r < d.lastStop ∧ Shut d.before) := by
  -- what is left to read behind a part of the block
  have more {nested : Bool} {b' : Block} {c d e : Cursor} {seg : List Token} {p : Nat}
      (hc : c.Passes seg d)
      (h : ∃ seg r, d.Passes seg e ∧ b'.Laid s.chars p r ∧
        (nested = true → r < e.lastStop ∧ Shut e.before)) :
      ∃ seg r, c.Passes seg e ∧ b'.Laid s.chars p r ∧
        (nested = true → r < e.lastStop ∧ Shut e.before) := by
    obtain ⟨seg', r, hpass, hlaid, hclosed⟩ := h
    exact ⟨_, r, hc.trans hpass, hlaid, hclosed⟩
  induction h generalizing p q with
  | finish => exact ⟨[], q, .refl _, hb, fun h => by cases h⟩
  | @close b c hk =>
      have hne : c.kind ≠ .eof := by rw [hk]; decide
      have hnext := passes_next hne
      refine ⟨_, q, hnext, hb.of_eq rfl rfl, fun _ => ⟨?_, ?_⟩⟩
      · rw [lastStop_next hne]
        have := hp.le_lastStop ho
        have := ho.token hne
        omega
      · have hkind : c.token.kind = .rbrace := hk
        rw [hnext.before]
        exact .token (by rw [hkind]; decide) (by rw [hkind]; decide)
  | nest hk _ _ ihchild ih =>
      have hnext := passes_next (by rw [hk]; decide)
      obtain ⟨seg, r, hpass, hlaid, hclosed⟩ := ihchild (ho.passes hnext) (hp.passes hnext)
        (.empty rfl rfl)
      obtain ⟨hr, hshut⟩ := hclosed rfl
      have hpass := hnext.trans hpass
      exact more hpass (ih (ho.passes hpass) (past_of_shut hshut) (hb.addBlock hlaid hr))
  | types hk hr _ ih =>
      obtain ⟨seg, r, hpass, hrow, hpast⟩ := readDecl_row ho hp hk hr
      exact more hpass (ih (ho.passes hpass) hpast (hb.addSpecs hrow))
  | consts hk _ hr _ ih =>
      obtain ⟨seg, hpass⟩ := ConstSpec.readDecl_passes hk hr
      exact more hpass (ih (ho.passes hpass) (hp.passes hpass) (hb.addConsts _))
  | literal hk hr _ ih =>
      obtain ⟨seg, last, hpass, -⟩ := skipBalanced_eq_ok hr
      have hpass := (passes_next (by rw [hk]; decide)).trans hpass
      exact more hpass (ih (ho.passes hpass) (hp.passes hpass) hb)
  | other he _ _ _ ih =>
      have hnext := passes_next he
      exact more hnext (ih (ho.passes hnext) (hp.passes hnext) hb)

end Block

namespace SourceFile

open Cursor Token

/-- A file is a package clause and a block that is read behind it. -/
theorem read_eq_ok {info : FileInfo} {path : String} {chars : List Char} {f : SourceFile}
    (h : read info path chars = .ok f) :
    f.text = { chars, info } ∧ ∃ init clause name d e,
      tokenize chars = .ok (init ++ [⟨.eof, Text.byteLen chars, ""⟩]) ∧ Tile 0 chars init ∧
        (⟨[], init, Text.byteLen chars⟩ : Cursor).Passes (clause ++ [name]) d ∧
        (∀ t ∈ clause, t.kind ∈ [TokenKind.lineBreak, .comment, .semicolon, .ident]) ∧
        name.kind = .ident ∧
        Block.Reads f.text false { span := ⟨0, Text.byteLen chars⟩ } d f.root e := by
  unfold read at h
  split at h
  · cases h
  · rename_i tokens htokens
    obtain ⟨init, rfl, htile⟩ := tokensFrom_eq_ok.mp htokens
    rw [Nat.zero_add] at htokens
    have hstart : ofTokens (init ++ [⟨.eof, 0 + Text.byteLen chars, ""⟩]) (Text.byteLen chars) =
        ⟨[], init, Text.byteLen chars⟩ := by
      rw [ofTokens, List.dropLast_concat]
    unfold readTokens at h
    dsimp only at h
    rw [hstart] at h
    split at h
    · rename_i hk
      obtain ⟨⟨name, d, hd⟩, hname, h⟩ := bind_eq_ok.mp h
      obtain ⟨⟨root, e⟩, hroot, h⟩ := bind_eq_ok.mp h
      cases h
      obtain ⟨seg, -, hseg, hkinds⟩ := passes_skip [.lineBreak, .comment, .semicolon]
        (⟨[], init, Text.byteLen chars⟩ : Cursor)
      obtain ⟨hpass, hkind⟩ := expect_eq_ok hname
      have hclause := hseg.trans (passes_next (c := Cursor.skipTrivia _) (by rw [hk.1]; decide))
      refine ⟨rfl, init, _, name, d, e.1, htokens, htile, hclause.trans hpass, ?_, hkind,
        Block.reads_of_readFrom hroot⟩
      refine List.forall_mem_append.mpr ⟨fun t ht => ?_, List.forall_mem_singleton.mpr ?_⟩
      · exact List.mem_append_left [TokenKind.ident] (hkinds t ht)
      · have hident : Token.kind _ = .ident := hk.1
        rw [hident]
        decide
    · cases h

/-- All declarations of a file are placed and apart. -/
theorem read_apart {info : FileInfo} {path : String} {chars : List Char} {f : SourceFile}
    (h : read info path chars = .ok f) :
    f.text.chars = chars ∧ (∀ t ∈ f.specs, t.Placed chars) ∧ f.specs.Pairwise Block.Apart := by
  obtain ⟨htext, init, clause, name, d, e, -, htile, hpass, -, hkind, hreads⟩ := read_eq_ok h
  rw [htext] at hreads ⊢
  have ho : Over { chars, info } d := Over.passes (c := ⟨[], init, Text.byteLen chars⟩) htile hpass
  have hshut : Shut d.before := by
    rw [hpass.before, List.reverse_append]
    exact .token (by rw [hkind]; decide) (by rw [hkind]; decide)
  obtain ⟨-, r, -, hlaid, -⟩ := hreads.laid ho (past_of_shut hshut) (.empty rfl rfl)
  exact ⟨rfl, fun t ht => (hlaid.placed t ht).1, hlaid.apart⟩

end SourceFile

end StructLayout
