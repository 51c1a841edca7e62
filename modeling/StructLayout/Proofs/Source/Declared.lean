import Mathlib
import StructLayout.Proofs.Source.Nesting

/-!
Declarations in a text whose brackets nest. What is read as a declaration closes the brackets that it
opens and no other ones, as long as a constant ends before the bracket is closed that it stands in, and
each declaration has its name from a token that is read for it.
-/

namespace StructLayout

open TokenKind

namespace Cursor

variable {α : Type} {R : Token → α → Prop} {s : SourceText} {c d e : Cursor}
  {u st : List TokenKind} {xs ys : List α}

/-- Declarations that are read between two places, each with the token of its name, and the brackets that
are closed there. -/
def Yields (R : Token → α → Prop) (u : List TokenKind) (c d : Cursor) (xs : List α) : Prop :=
  ∃ seg names, c.Passes seg d ∧ TokenKind.nest u (seg.map Token.kind) = some [] ∧
    names.Sublist seg ∧ List.Forall₂ R names xs

theorem Yields.takes (h : Yields R u c d xs) : Takes u c d := by
  obtain ⟨seg, -, hp, hseg, -⟩ := h
  exact ⟨seg, hp, hseg⟩

theorem Takes.yields (h : Takes u c d) : Yields R u c d [] := by
  obtain ⟨seg, hp, hseg⟩ := h
  exact ⟨seg, [], hp, hseg, List.nil_sublist seg, .nil⟩

theorem Yields.trans (h : Yields R [] c d xs) (h' : Yields R u d e ys) :
    Yields R u c e (xs ++ ys) := by
  obtain ⟨seg, names, hp, hseg, hsub, hnames⟩ := h
  obtain ⟨seg', names', hp', hseg', hsub', hnames'⟩ := h'
  refine ⟨_, _, hp.trans hp', ?_, hsub.append hsub', List.rel_append hnames hnames'⟩
  rw [List.map_append, Matched.nest_append hseg, hseg']

/-- A bracket and the declarations up to the one that closes it. -/
theorem Yields.enclosed {close : TokenKind} (hk : c.kind.closing? = some close)
    (h : Yields R [close] c.next d xs) : Yields R [] c d xs := by
  have hne : c.kind ≠ .eof := fun he => by rw [he] at hk; cases hk
  obtain ⟨seg, names, hp, hseg, hsub, hnames⟩ := h
  refine ⟨_, _, (passes_next hne).trans hp, ?_, hsub.cons c.token, hnames⟩
  rw [List.singleton_append, List.map_cons, nest_cons_of (k := c.token.kind) (shift_opening hk []),
    hseg]

theorem takes_skip (kinds : List TokenKind) (hk : ∀ k ∈ kinds, k.IsPlain) (c : Cursor) :
    Takes [] c (c.skip kinds) := by
  obtain ⟨seg, -, hp, hseg⟩ := passes_skip kinds c
  refine ⟨seg, hp, matched_of_plain fun k hm => ?_⟩
  obtain ⟨t, ht, rfl⟩ := List.mem_map.mp hm
  exact hk _ (hseg t ht)

theorem takes_skipTrivia (c : Cursor) : Takes [] c c.skipTrivia :=
  takes_skip _ (by decide) c

theorem skipTypeParams_takes {r : Bool × c.From} (hw : Within st c)
    (h : c.skipTypeParams s = .ok r) : Takes [] c r.2.1 := by
  unfold skipTypeParams at h
  split at h
  · obtain ⟨d, hd, h⟩ := bind_eq_ok.mp h
    cases h
    exact skipBalanced_takes hw rfl hd
  · cases h
    exact .refl c

theorem skipTypeParams_clear (hw : Within st c) : Clear (c.skipTypeParams s) := by
  unfold skipTypeParams
  split
  · exact (skipBalanced_clear hw rfl).bind fun _ _ => clear_ok _
  · exact clear_ok _

theorem skipAssign_takes (c : Cursor) : Takes [] c c.skipAssign.2.1 := by
  unfold skipAssign
  split
  · rename_i hk
    exact takes_next (by rw [hk]; decide) (by rw [hk]; rfl)
  · exact .refl c

/-- A place between tokens of a text. -/
def Of (ts : List Token) (c : Cursor) : Prop :=
  c.before.reverse ++ c.ahead <+: ts

theorem Of.passes {ts seg : List Token} (h : c.Of ts) (hp : c.Passes seg d) : d.Of ts := by
  unfold Of at h ⊢
  rwa [hp.before, List.reverse_append, List.reverse_reverse, List.append_assoc, ← hp.ahead]

theorem Of.takes {ts : List Token} (h : c.Of ts) (ht : Takes u c d) : d.Of ts := by
  obtain ⟨seg, hp, -⟩ := ht
  exact h.passes hp

theorem Of.infix {ts seg : List Token} (h : c.Of ts) (hp : c.Passes seg d) : seg <:+: ts := by
  obtain ⟨tail, rfl⟩ := h
  exact ⟨c.before.reverse, d.ahead ++ tail, by rw [hp.ahead]; simp⟩

end Cursor

/-! ## Types -/

namespace TypeSpec

open Cursor

variable {s : SourceText} {c : Cursor} {st : List TokenKind}

/-- The token that a type has its name and its position from. -/
def NamedBy (s : SourceText) (n : Token) (t : TypeSpec) : Prop :=
  n.kind = .ident ∧ t.name = n.text ∧ t.pos = s.info.pos n.start

/-- The token of a name is read first. -/
theorem yields_name {name : Token} {t : TypeSpec} {d : c.After}
    (h : c.expect s .ident "type name" = .ok (name, d)) (hn : t.name = name.text)
    (hp : t.pos = s.info.pos name.start) : Yields (NamedBy s) [] c d.1 [t] := by
  obtain ⟨hpass, hk⟩ := expect_eq_ok h
  refine ⟨[name], [name], hpass, matched_of_plain ?_, .refl _, .cons ⟨hk, hn, hp⟩ .nil⟩
  rw [List.map_singleton, List.forall_mem_singleton, hk]
  decide

theorem read_yields {anchor : Cursor} {t : TypeSpec} {d : c.After} (hw : Within st c)
    (h : read s anchor c = .ok (t, d)) : Yields (NamedBy s) [] c d.1 [t] := by
  unfold read at h
  obtain ⟨⟨name, d₁⟩, hname, h⟩ := bind_eq_ok.mp h
  obtain ⟨⟨isGeneric, e⟩, hparams, h⟩ := bind_eq_ok.mp h
  dsimp only at h
  obtain ⟨⟨ty, g⟩, hty, h⟩ := bind_eq_ok.mp h
  have hnamed := hw.takes (u := []) (expect_takes hname (by decide))
  have hparams := (skipTypeParams_takes hnamed hparams).trans (skipAssign_takes e.1)
  have htype := TypeExpr.read_takes (hnamed.takes (u := []) hparams) hty
  have hcomments := takes_skip [.comment] (by decide) g.1
  cases h
  exact (yields_name hname rfl rfl).trans ((hparams.trans (htype.trans hcomments)).yields)

theorem read_clear {anchor : Cursor} (hw : Within st c) : Clear (read s anchor c) := by
  unfold read
  refine (expect_clear (by decide)).bind fun r hname => ?_
  have hnamed := hw.takes (u := []) (expect_takes hname (by decide))
  refine (skipTypeParams_clear hnamed).bind fun r hparams => ?_
  have hparams := (skipTypeParams_takes hnamed hparams).trans (skipAssign_takes r.2.1)
  have hassigned := hnamed.takes (u := []) hparams
  exact (TypeExpr.read_clear hassigned).bind fun _ _ => clear_ok _

theorem readGroup_yields {ts : List TypeSpec} {d : c.From} (hw : Within (.rparen :: st) c)
    (h : readGroup s c = .ok (ts, d)) : Yields (NamedBy s) [.rparen] c d.1 ts := by
  obtain ⟨n, hn⟩ : ∃ n, c.ahead.length < n := ⟨_, Nat.lt_succ_self _⟩
  induction n generalizing c ts d with
  | zero => exact absurd hn (Nat.not_lt_zero _)
  | succ n ih =>
      have htrivia := takes_skipTrivia c
      have hle : c.skipTrivia.ahead.length ≤ c.ahead.length := c.skip_le _
      have hw := hw.takes (u := []) htrivia
      unfold readGroup at h
      dsimp only at h
      split at h
      · rename_i hk
        cases h
        exact (htrivia.trans (takes_next (by rw [hk]; decide) (by rw [hk]; rfl))).yields
      · cases h
      · obtain ⟨⟨t, f⟩, ht, h⟩ := bind_eq_ok.mp h
        obtain ⟨⟨ts, g⟩, hts, h⟩ := bind_eq_ok.mp h
        cases h
        have hspec := read_yields hw ht
        have hlt := Nat.lt_of_lt_of_le f.2 (Nat.le_trans hle (Nat.le_of_lt_succ hn))
        have hrest := ih (hw.takes (u := []) hspec.takes) hts hlt
        exact htrivia.yields.trans (hspec.trans hrest)

theorem readGroup_clear (hw : Within (.rparen :: st) c) : Clear (readGroup s c) := by
  obtain ⟨n, hn⟩ : ∃ n, c.ahead.length < n := ⟨_, Nat.lt_succ_self _⟩
  induction n generalizing c with
  | zero => exact absurd hn (Nat.not_lt_zero _)
  | succ n ih =>
      have hle : c.skipTrivia.ahead.length ≤ c.ahead.length := c.skip_le _
      have hw := hw.takes (u := []) (takes_skipTrivia c)
      unfold readGroup
      dsimp only
      split
      · exact clear_ok _
      · exact clear_error (by simp [SyntaxFault.OfBrace, fault])
      · refine (read_clear hw).bind fun r h => ?_
        obtain ⟨t, f⟩ := r
        have hlt := Nat.lt_of_lt_of_le f.2 (Nat.le_trans hle (Nat.le_of_lt_succ hn))
        exact (ih (hw.takes (u := []) (read_yields hw h).takes) hlt).bind fun _ _ => clear_ok _

theorem readDecl_yields {ts : List TypeSpec} {d : c.next.From} (hw : Within st c)
    (hk : c.kind = .ident) (h : readDecl s c = .ok (ts, d)) : Yields (NamedBy s) [] c d.1 ts := by
  have hne : c.kind ≠ .eof := by rw [hk]; decide
  have hkeyword : Takes [] c c.next := takes_next hne (by rw [hk]; rfl)
  have hw := hw.takes (u := []) hkeyword
  unfold readDecl at h
  split at h
  · rename_i hparen
    obtain ⟨⟨ts, e⟩, hts, h⟩ := bind_eq_ok.mp h
    cases h
    have hopen : c.next.kind.closing? = some .rparen := by rw [hparen]; rfl
    exact hkeyword.yields.trans (.enclosed hopen (readGroup_yields (hw.opening hopen) hts))
  · obtain ⟨⟨t, e⟩, ht, h⟩ := bind_eq_ok.mp h
    cases h
    exact hkeyword.yields.trans (read_yields hw ht)

theorem readDecl_clear (hw : Within st c) (hk : c.kind = .ident) : Clear (readDecl s c) := by
  have hw := hw.plain (by rw [hk]; decide) (by rw [hk]; decide)
  unfold readDecl
  split
  · rename_i hparen
    have hopen := hw.opening (by rw [hparen]; rfl)
    exact (readGroup_clear hopen).bind fun _ _ => clear_ok _
  · exact (read_clear hw).bind fun _ _ => clear_ok _

end TypeSpec

/-! ## Constants -/

namespace ConstSpec

open Cursor

/-- A line break, a semicolon or the end comes before the bracket is closed that `depth` open ones stand
in. -/
def endsInside : Nat → List TokenKind → Bool
  | _, [] => true
  | depth, k :: ks =>
    if k.closing?.isSome then endsInside (depth + 1) ks
    else if k.isClosing then
      match depth with
      | 0 => false
      | depth + 1 => endsInside depth ks
    else if depth = 0 ∧ (k = .lineBreak ∨ k = .semicolon) then true
    else endsInside depth ks

/-- Each constant that is not declared in a group ends before the bracket is closed that it stands in. -/
def allEndInside : List Token → Bool
  | [] => true
  | t :: ts =>
    let isSingle := t.kind == .ident && t.text == "const" && (ts.head?.all fun u => u.kind != .lparen)
    (!isSingle || endsInside 0 (ts.map Token.kind)) && allEndInside ts

variable {depth : Nat} {ks : List TokenKind} {ts : List Token} {u st : List TokenKind}

theorem endsInside_of_append {tail : List TokenKind} (h : endsInside depth (ks ++ tail) = true) :
    endsInside depth ks = true := by
  induction ks generalizing depth with
  | nil => rfl
  | cons k ks ih =>
      rw [List.cons_append] at h
      unfold endsInside at h ⊢
      split
      · rename_i hk
        rw [if_pos hk] at h
        exact ih h
      · rename_i hk
        rw [if_neg hk] at h
        split
        · rename_i hk
          rw [if_pos hk] at h
          cases depth with
          | zero => cases h
          | succ depth => exact ih h
        · rename_i hk
          rw [if_neg hk] at h
          split
          · rfl
          · rename_i hk
            rw [if_neg hk] at h
            exact ih h

theorem allEndInside_of_append {tail : List Token} (h : allEndInside (ts ++ tail) = true) :
    allEndInside ts = true := by
  induction ts with
  | nil => rfl
  | cons t ts ih =>
      rw [List.cons_append, allEndInside, Bool.and_eq_true] at h
      rw [allEndInside, Bool.and_eq_true]
      refine ⟨?_, ih h.2⟩
      cases ts with
      | nil => simp [endsInside]
      | cons u ts =>
          have h := h.1
          rw [List.map_append, Bool.or_eq_true] at h
          rw [Bool.or_eq_true]
          exact h.imp id endsInside_of_append

theorem allEndInside_suffix {front : List Token} (h : allEndInside (front ++ ts) = true) :
    allEndInside ts = true := by
  induction front with
  | nil => exact h
  | cons t front ih =>
      rw [List.cons_append, allEndInside, Bool.and_eq_true] at h
      exact ih h.2

variable {grouped : Bool} {t : Token}

theorem splitTokens_opening (h : t.kind.closing?.isSome = true) (ts : List Token) :
    (splitTokens grouped depth (t :: ts)).1 = t :: (splitTokens grouped (depth + 1) ts).1 := by
  rw [splitTokens]
  cases hk : t.kind <;> first | rfl | (rw [hk] at h; cases h)

theorem splitTokens_closing (h : t.kind.isClosing = true) (hd : depth ≠ 0) (ts : List Token) :
    (splitTokens grouped depth (t :: ts)).1 = t :: (splitTokens grouped (depth - 1) ts).1 := by
  rw [splitTokens]
  cases hk : t.kind <;> first | rfl | (rw [hk] at h; cases h)
  exact congrArg Prod.fst (if_neg fun h => hd h.1)

/-- In brackets a declaration goes on behind the end of a line. -/
theorem splitTokens_plain (h : t.kind.IsPlain)
    (hd : ¬(depth = 0 ∧ (t.kind = .lineBreak ∨ t.kind = .semicolon))) (ts : List Token) :
    (splitTokens grouped depth (t :: ts)).1 = t :: (splitTokens grouped depth ts).1 := by
  rw [splitTokens]
  cases hk : t.kind <;> first | rfl | (rw [hk] at h; exact absurd h (by decide)) | skip
  · exact congrArg Prod.fst (if_neg fun h => hd ⟨h, .inl hk⟩)
  · exact congrArg Prod.fst (if_neg fun h => hd ⟨h, .inr hk⟩)

/-- A declaration closes the brackets that it opens and no other ones: in a group it ends in front of the
parenthesis of the group, and elsewhere it has to end before. -/
theorem splitTokens_nest (hn : nest (u ++ st) (ts.map Token.kind) = some [])
    (hgroup : grouped = true → st.head? = some .rparen)
    (hends : grouped = false → endsInside u.length (ts.map Token.kind) = true) :
    nest u ((splitTokens grouped u.length ts).1.map Token.kind) = some [] := by
  induction ts generalizing u with
  | nil =>
      have : u ++ st = [] := by simpa [nest] using hn
      rw [(List.append_eq_nil_iff.mp this).1]
      rfl
  | cons t ts ih =>
      obtain ⟨st', hs, htail⟩ := nest_cons_eq_some hn
      have step {v : List TokenKind} (hv : shift u t.kind = some v) (hst : st' = v ++ st)
          (hsplit : (splitTokens grouped u.length (t :: ts)).1 =
            t :: (splitTokens grouped v.length ts).1)
          (hends' : grouped = false → endsInside v.length (ts.map Token.kind) = true) :
          nest u ((splitTokens grouped u.length (t :: ts)).1.map Token.kind) = some [] := by
        rw [hsplit, List.map_cons, nest_cons_of hv]
        exact ih (hst ▸ htail) hends'
      rw [List.map_cons] at hends
      unfold endsInside at hends
      rcases shift_eq_some hs with ⟨c, hk, rfl⟩ | ⟨hk, hst⟩ | ⟨hk, rfl⟩
      · have hopen : t.kind.closing?.isSome = true := by rw [hk]; rfl
        rw [if_pos hopen] at hends
        exact step (shift_opening hk u) rfl (splitTokens_opening hopen ts) hends
      · have hopen : ¬t.kind.closing?.isSome = true := by rw [closing?_of_isClosing hk]; decide
        rw [if_neg hopen, if_pos hk] at hends
        cases u with
        | nil =>
            -- the bracket that the declaration stands in is closed
            cases grouped with
            | false => cases hends rfl
            | true =>
                have hparen : t.kind = .rparen := by
                  have hhead := hgroup rfl
                  rw [List.nil_append] at hst
                  rw [hst] at hhead
                  exact Option.some.inj hhead
                unfold splitTokens
                rw [hparen]
                rfl
        | cons close u =>
            cases hst
            exact step (shift_closing hk u) rfl (splitTokens_closing hk (Nat.succ_ne_zero _) ts) hends
      · have hopen : ¬t.kind.closing?.isSome = true := by rw [hk.1]; decide
        have hclosing : ¬t.kind.isClosing = true := by rw [hk.2]; decide
        rw [if_neg hopen, if_neg hclosing] at hends
        by_cases hend : u.length = 0 ∧ (t.kind = .lineBreak ∨ t.kind = .semicolon)
        · obtain ⟨hu, hend⟩ := hend
          obtain rfl := List.eq_nil_of_length_eq_zero hu
          unfold splitTokens
          rcases hend with hk | hk <;> rw [hk] <;> rfl
        · rw [if_neg hend] at hends
          exact step (shift_plain hk u) rfl (splitTokens_plain hk hend ts) hends

/-- The token that a constant has its name from, the first one of a declaration in a text. -/
def NamedBy (ts : List Token) (n : Token) (k : ConstSpec) : Prop :=
  n.kind = .ident ∧ k.name = n.text ∧ ∃ decl, decl <:+: ts ∧ ofTokens? decl = some k ∧
    (decl.filter fun t => t.kind != .comment && t.kind != .lineBreak).head? = some n

theorem ofTokens?_eq_some {decl : List Token} {k : ConstSpec} (h : ofTokens? decl = some k) :
    ∃ n, n.kind = .ident ∧ k.name = n.text ∧ n ∈ decl ∧
      (decl.filter fun t => t.kind != .comment && t.kind != .lineBreak).head? = some n := by
  unfold ofTokens? at h
  split at h
  · cases h
  · rename_i n rest hfilter
    split at h
    · rename_i hn
      cases h
      have hmem : n ∈ decl.filter fun t => t.kind != .comment && t.kind != .lineBreak :=
        hfilter ▸ List.mem_cons_self
      exact ⟨n, hn.1, rfl, (List.mem_filter.mp hmem).1, by rw [hfilter]; rfl⟩
    · cases h

theorem read_yields (grouped : Bool) (hc : c.Of ts) (hw : Within st c)
    (hgroup : grouped = true → st.head? = some .rparen)
    (hends : grouped = false → endsInside 0 (c.ahead.map Token.kind) = true) :
    Yields (NamedBy ts) [] c (read grouped c).2.1 (read grouped c).1.toList := by
  have hp : c.Passes (splitTokens grouped 0 c.ahead).1 (read grouped c).2.1 :=
    ⟨(splitTokens_append grouped 0 c.ahead).symm, rfl, rfl⟩
  have hnest : nest [] ((splitTokens grouped 0 c.ahead).1.map Token.kind) = some [] :=
    splitTokens_nest (u := []) hw.nest hgroup hends
  show Yields _ _ _ _ (ofTokens? (splitTokens grouped 0 c.ahead).1).toList
  cases hk : ofTokens? (splitTokens grouped 0 c.ahead).1 with
  | none => exact Takes.yields ⟨_, hp, hnest⟩
  | some k =>
      obtain ⟨n, hident, hname, hmem, hhead⟩ := ofTokens?_eq_some hk
      exact ⟨_, [n], hp, hnest, List.singleton_sublist.mpr hmem,
        .cons ⟨hident, hname, _, hc.infix hp, hk, hhead⟩ .nil⟩

theorem readGroup_yields {ks : List ConstSpec} {d : c.From} (hc : c.Of ts)
    (hw : Within (.rparen :: st) c) (h : readGroup s c = .ok (ks, d)) :
    Yields (NamedBy ts) [.rparen] c d.1 ks := by
  obtain ⟨n, hn⟩ : ∃ n, c.ahead.length < n := ⟨_, Nat.lt_succ_self _⟩
  induction n generalizing c ks d with
  | zero => exact absurd hn (Nat.not_lt_zero _)
  | succ n ih =>
      have htrivia := takes_skipTrivia c
      have hkinds := c.skipTrivia_kind
      have hle : c.skipTrivia.ahead.length ≤ c.ahead.length := c.skip_le _
      have hc := hc.takes htrivia
      have hw := hw.takes (u := []) htrivia
      unfold readGroup at h
      dsimp only at h
      split at h
      · rename_i hk
        cases h
        exact (htrivia.trans (takes_next (by rw [hk]; decide) (by rw [hk]; rfl))).yields
      · rename_i hk
        split at h
        · cases h
        · rename_i he
          split at h
          · cases h
          · rename_i ks' f hr
            cases h
            have hspec := read_yields true hc hw (fun _ => rfl) (fun h => by cases h)
            have hlt : (read true c.skipTrivia).2.1.ahead.length < c.skipTrivia.ahead.length :=
              read_lt hk he hkinds
            have hlt := Nat.lt_of_lt_of_le hlt (Nat.le_trans hle (Nat.le_of_lt_succ hn))
            have hrest := ih (hc.takes hspec.takes) (hw.takes (u := []) hspec.takes) hr hlt
            exact htrivia.yields.trans (hspec.trans hrest)

theorem readGroup_clear (s : SourceText) (c : Cursor) : Clear (readGroup s c) := by
  obtain ⟨n, hn⟩ : ∃ n, c.ahead.length < n := ⟨_, Nat.lt_succ_self _⟩
  induction n generalizing c with
  | zero => exact absurd hn (Nat.not_lt_zero _)
  | succ n ih =>
      have hle : c.skipTrivia.ahead.length ≤ c.ahead.length := c.skip_le _
      unfold readGroup
      dsimp only
      split
      · exact clear_ok _
      · rename_i hk
        split
        · exact clear_error (by simp [SyntaxFault.OfBrace, fault])
        · rename_i he
          have hlt : (read true c.skipTrivia).2.1.ahead.length < c.skipTrivia.ahead.length :=
            read_lt hk he c.skipTrivia_kind
          have hlt := Nat.lt_of_lt_of_le hlt (Nat.le_trans hle (Nat.le_of_lt_succ hn))
          split
          · rename_i e hr
            exact fun e' he' => ih _ hlt e' (by cases he'; exact hr)
          · exact clear_ok _

theorem readDecl_yields {ks : List ConstSpec} {d : c.next.From} (hends : allEndInside ts = true)
    (hc : c.Of ts) (hw : Within st c) (hk : c.kind = .ident) (htext : c.token.text = "const")
    (h : readDecl s c = .ok (ks, d)) : Yields (NamedBy ts) [] c d.1 ks := by
  have hne : c.kind ≠ .eof := by rw [hk]; decide
  have hkeyword : Takes [] c c.next := takes_next hne (by rw [hk]; rfl)
  obtain ⟨tail, hts⟩ := hc
  rw [← hts] at hends
  have hends := allEndInside_suffix (allEndInside_of_append hends)
  have hc : c.next.Of ts := Of.takes ⟨tail, hts⟩ hkeyword
  have hnext := hw.takes (u := []) hkeyword
  unfold readDecl at h
  split at h
  · rename_i hparen
    split at h
    · cases h
    · rename_i ks' e hr
      cases h
      have hopen : c.next.kind.closing? = some .rparen := by rw [hparen]; rfl
      have hc := hc.passes (passes_next (by rw [hparen]; decide))
      exact hkeyword.yields.trans (.enclosed hopen (readGroup_yields hc (hnext.opening hopen) hr))
  · rename_i hparen
    cases h
    have hends : endsInside 0 (c.next.ahead.map Token.kind) = true := by
      have hsingle : (c.next.ahead.head?.all fun t => t.kind != .lparen) = true := by
        cases hahead : c.next.ahead with
        | nil => rfl
        | cons t us =>
            refine bne_iff_ne.mpr fun ht => hparen ?_
            rw [Cursor.kind, token, peek, hahead]
            exact ht
      have hident : c.token.kind = .ident := hk
      rw [(passes_next hne).ahead, List.singleton_append, allEndInside, hident, htext, hsingle] at hends
      simpa using (Bool.and_eq_true_iff.mp hends).1
    exact hkeyword.yields.trans (read_yields false hc hnext (fun h => by cases h) (fun _ => hends))

theorem readDecl_clear (s : SourceText) (c : Cursor) : Clear (readDecl s c) := by
  unfold readDecl
  split
  · split
    · rename_i e hr
      exact fun e' he' => readGroup_clear s _ e' (by cases he'; exact hr)
    · exact clear_ok _
  · exact clear_ok _

end ConstSpec

end StructLayout
