import Mathlib
import StructLayout.Proofs.Source.Tiling

/-!
Where comments begin. Outside of comments and of what is in quotes, a slash with a second one or a star
behind it begins a comment wherever no operator runs over it, and an operator runs over every slash
that stands right behind its first characters.
-/

namespace StructLayout.Token

open Text

variable {cs front rest : List Char} {p : Nat} {c : Char} {t u : Token} {ts : List Token}

/-- A byte is inside of a token, behind its start. -/
def Holds (t : Token) (p : Nat) : Prop :=
  t.start < p ∧ p < t.stop

instance (t : Token) (p : Nat) : Decidable (t.Holds p) :=
  inferInstanceAs (Decidable (_ ∧ _))

/-- The kinds of tokens that can have any text in them. -/
def quoting : List TokenKind := [.comment, .string, .rawString, .char]

/-- What is no blank is part of a token. -/
theorem Tile.covers (h : Tile p cs ts) (hcs : cs = front ++ c :: rest) (hc : isGap c = false) :
    ∃ t ∈ ts, ∃ pre inner body behind more, front = pre ++ inner ∧ t.start = p + byteLen pre ∧
      body = inner ++ c :: rest ∧ t.Heads body behind ∧ t.text.toList = inner ++ c :: more := by
  induction h generalizing front with
  | nil => cases front <;> cases hcs
  | @gap p g cs ts hg _ ih =>
      cases front with
      | nil =>
          cases hcs
          rw [hg] at hc
          cases hc
      | cons x front =>
          cases hcs
          obtain ⟨t, ht, pre, inner, body, behind, more, rfl, hstart, hparts⟩ := ih rfl
          refine ⟨t, ht, g :: pre, inner, body, behind, more, rfl, ?_, hparts⟩
          rw [hstart, byteLen_cons, Nat.add_assoc]
  | @token t cs behind ts ht _ ih =>
      have later (more : List Char) (hfront : front = t.text.toList ++ more)
          (hmore : behind = more ++ c :: rest) :
          ∃ u ∈ t :: ts, ∃ pre inner body behind more, front = pre ++ inner ∧
            u.start = t.start + byteLen pre ∧ body = inner ++ c :: rest ∧ u.Heads body behind ∧
            u.text.toList = inner ++ c :: more := by
        obtain ⟨u, hu, pre, inner, body, behind, more', rfl, hstart, hparts⟩ := ih hmore
        refine ⟨u, List.mem_cons_of_mem _ hu, t.text.toList ++ pre, inner, body, behind, more',
          by rw [hfront, List.append_assoc], ?_, hparts⟩
        rw [hstart, stop_eq, byteLen_append, Nat.add_assoc]
      have hsplit := ht.append
      rw [hcs] at hsplit
      rcases List.append_eq_append_iff.mp hsplit with ⟨more, htext, hmore⟩ | ⟨more, hfront, hmore⟩
      · cases more with
        | nil => exact later [] (by rw [htext]; simp) hmore.symm
        | cons d more =>
            cases hmore
            exact ⟨t, List.mem_cons_self, [], front, _, behind, more, rfl, rfl, hcs, ht, htext⟩
      · exact later more hfront hmore

/-- No byte is part of two tokens. -/
theorem Tile.unique (h : Tile 0 cs ts) (ht : t ∈ ts) (hu : u ∈ ts) (hp : t.start ≤ p ∧ p < t.stop)
    (hp' : u.start ≤ p ∧ p < u.stop) : t = u := by
  by_contra hne
  have hapart : ts.Pairwise fun t u => t.stop ≤ u.start ∨ u.stop ≤ t.start := h.apart.2.imp .inl
  have hsymm : Std.Symm fun t u : Token => t.stop ≤ u.start ∨ u.stop ≤ t.start := ⟨fun _ _ => Or.symm⟩
  have := hapart.forall ht hu hne
  omega

/-- A slash that starts a token with a second one or a star behind it starts a comment. -/
theorem Scanned.comment_of_slash {kind : TokenKind} {n : Nat} {d : Char}
    (h : Scanned '/' (d :: rest) kind n) (hd : d = '/' ∨ d = '*') : kind = .comment := by
  have hhead : (d :: rest).head? = some '/' ∨ (d :: rest).head? = some '*' :=
    hd.imp (congrArg some) (congrArg some)
  cases h with
  | lineComment => rfl
  | blockComment => rfl
  | number hc => rcases hc with hc | ⟨hc, -⟩ <;> exact absurd hc (by decide)
  | op _ _ ho => exact absurd hhead (not_or.mpr (ho.slash rfl))
  | delimiter hk => cases hk
  | _ hc => revert hc; decide

/-- Of all tokens that cannot have any text in them, only operators have a slash behind their start. -/
theorem Scanned.op_of_slash {kind : TokenKind} {n : Nat} (h : Scanned c cs kind n)
    (hs : '/' ∈ cs.take n) (hk : kind ∉ quoting) : kind = .op := by
  cases h with
  | op => rfl
  | other => rfl
  | lineComment => exact absurd (by decide) hk
  | blockComment => exact absurd (by decide) hk
  | string => exact absurd (by decide) hk
  | char => exact absurd (by decide) hk
  | rawString => exact absurd (by decide) hk
  | number => exact absurd (numberTail_mem '/' hs) (by decide)
  | ellipsis hc hdots =>
      obtain ⟨rest, rfl⟩ := List.isPrefixOf_iff_prefix.mp hdots
      exact absurd hs (by simp)
  | arrow hc hdash =>
      obtain ⟨rest, rfl⟩ := List.head?_eq_some_iff.mp hdash
      exact absurd hs (by simp)
  | ident =>
      rw [← List.prefix_iff_eq_take.mp (List.takeWhile_prefix _)] at hs
      have := List.all_eq_true.mp List.all_takeWhile _ hs
      cases this
  | _ => cases hs

/-- A slash with a second one or a star behind it, outside of comments and of what is in quotes, starts
a comment exactly if it is not inside of an operator. -/
theorem tokenize_comment {d : Char} (h : tokenize cs = .ok ts) (hcs : cs = front ++ '/' :: d :: rest)
    (hd : d = '/' ∨ d = '*') (hout : ∀ t ∈ ts, t.kind ∈ quoting → ¬ t.Holds (byteLen front)) :
    (∃ t ∈ ts, t.kind = .comment ∧ t.start = byteLen front) ↔
      ¬ ∃ t ∈ ts, t.kind = .op ∧ t.Holds (byteLen front) := by
  obtain ⟨init, rfl, htile⟩ := tokensFrom_eq_ok.mp h
  have hinit {t : Token} (ht : t ∈ init ++ [⟨.eof, 0 + byteLen cs, ""⟩]) (hk : t.kind ≠ .eof) :
      t ∈ init := by
    rcases List.mem_append.mp ht with ht | ht
    · exact ht
    · rw [List.mem_singleton.mp ht] at hk
      exact absurd rfl hk
  obtain ⟨t, ht, pre, inner, body, behind, more, rfl, hstart, rfl, hheads, htext⟩ :=
    htile.covers hcs rfl
  have hlt := hheads.start_lt_stop
  have hp : t.start ≤ byteLen (pre ++ inner) ∧ byteLen (pre ++ inner) < t.stop := by
    have := Char.utf8Size_pos '/'
    rw [stop_eq, hstart, htext]
    simp only [byteLen_append, byteLen_cons]
    omega
  obtain ⟨c, tail, n, hbody, -, hscan, htext', -⟩ := hheads.scanned
  cases inner with
  | nil =>
      -- the slash starts its token
      cases hbody
      refine iff_of_true ⟨t, List.mem_append_left _ ht, hscan.comment_of_slash hd, ?_⟩ ?_
      · rw [hstart, List.append_nil, Nat.zero_add]
      · rintro ⟨u, hu, hk, hlow, hhigh⟩
        have := htile.unique (hinit hu (by rw [hk]; decide)) ht ⟨hlow.le, hhigh⟩ hp
        rw [this, hscan.comment_of_slash hd] at hk
        cases hk
  | cons x inner =>
      have hholds : t.Holds (byteLen (pre ++ x :: inner)) := by
        have := x.utf8Size_pos
        refine ⟨?_, hp.2⟩
        rw [hstart, byteLen_append, byteLen_cons]
        omega
      have hk : t.kind = .op := by
        cases hbody
        refine hscan.op_of_slash ?_ fun hk => hout t (List.mem_append_left _ ht) hk hholds
        rw [htext'] at htext
        rw [(List.cons.inj htext).2]
        exact List.mem_append_right _ List.mem_cons_self
      refine iff_of_false ?_ (not_not.mpr ⟨t, List.mem_append_left _ ht, hk, hholds⟩)
      rintro ⟨u, hu, hk', hstart'⟩
      have hu := hinit hu (by rw [hk']; decide)
      have hlt' := (htile.apart.1 u hu).2.1
      rw [htile.unique hu ht ⟨hstart'.le, hstart' ▸ hlt'⟩ hp, hk] at hk'
      cases hk'

/-- A quotient, and comments behind a star and a fraction. -/
def commented : List Char :=
  "a/b /*c*/ *//d\n1.//e".toList

theorem tokenize_commented : tokenize commented = .ok [⟨.ident, 0, "a"⟩, ⟨.op, 1, "/"⟩,
    ⟨.ident, 2, "b"⟩, ⟨.comment, 4, "/*c*/"⟩, ⟨.star, 10, "*"⟩, ⟨.comment, 11, "//d"⟩,
    ⟨.lineBreak, 14, "\n"⟩, ⟨.float, 15, "1."⟩, ⟨.comment, 17, "//e"⟩, ⟨.eof, 20, ""⟩] := by
  cbv

theorem tokenize_comment_commented : ∃ ts, tokenize commented = .ok ts ∧
    ∃ t ∈ ts, t.kind = .comment ∧ t.start = byteLen "a/b /*c*/ *".toList :=
  ⟨_, tokenize_commented,
    (tokenize_comment (d := '/') tokenize_commented
      (show commented = "a/b /*c*/ *".toList ++ '/' :: '/' :: "d\n1.//e".toList from rfl) (.inl rfl)
      (by decide)).mpr (by decide)⟩

/-- An operator takes the slashes behind it, and their text is read on. -/
theorem tokenize_operator : ∃ ts, tokenize "a +// c\n".toList = .ok ts ∧
    "a +// c\n".toList = "a +".toList ++ '/' :: '/' :: " c\n".toList ∧
    (∀ t ∈ ts, t.kind ∉ quoting) ∧ ⟨.op, 2, "+//"⟩ ∈ ts ∧ ⟨.ident, 6, "c"⟩ ∈ ts := by
  refine ⟨[⟨.ident, 0, "a"⟩, ⟨.op, 2, "+//"⟩, ⟨.ident, 6, "c"⟩, ⟨.lineBreak, 7, "\n"⟩, ⟨.eof, 8, ""⟩],
    ?_, rfl, ?_, ?_, ?_⟩
  · cbv
  · decide
  · decide
  · decide

end StructLayout.Token
