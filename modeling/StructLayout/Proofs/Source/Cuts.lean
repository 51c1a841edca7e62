import StructLayout.Proofs.Source.Headers
import StructLayout.Proofs.Source.Splice
import StructLayout.Proofs.Source.Tiling

/-!
A text cut between its tokens: where cursors stand, where its edits are, and what its last characters
tell about its last token.
-/

namespace StructLayout

open Text Token

/-! ## Cuts between tokens -/

/-- A text cut where one of its tokens starts or ends. -/
theorem Token.Fills.cut_at {rest cs ds : List Char} {a : Nat} {us vs : List Token}
    (h : Fills rest a (cs ++ ds) (us ++ vs)) (hu : ∀ t ∈ us, t.stop ≤ a + byteLen cs)
    (hv : ∀ t ∈ vs, a + byteLen cs ≤ t.start) :
    Fills (ds ++ rest) a cs us ∧ Fills rest (a + byteLen cs) ds vs := by
  obtain ⟨us', vs', heq, hu', hv'⟩ := h.cut fun t ht =>
    (List.mem_append.mp ht).imp (hu t) (hv t)
  have hlt := fun t ht => (h.bounds t ht).2.1
  have hleft := fun t ht => (hu'.bounds t ht).2.2
  have hright := fun t ht => (hv'.bounds t ht).1
  rcases List.append_eq_append_iff.mp heq with ⟨mid, rfl, rfl⟩ | ⟨mid, rfl, rfl⟩
  · cases mid with
    | nil => exact ⟨by simpa using hu', by simpa using hv'⟩
    | cons t mid =>
        have h₁ := hv t (by simp)
        have h₂ := hleft t (by simp)
        have h₃ := hlt t (by simp)
        omega
  · cases mid with
    | nil => exact ⟨by simpa using hu', by simpa using hv'⟩
    | cons t mid =>
        have h₁ := hu t (by simp)
        have h₂ := hright t (by simp)
        have h₃ := hlt t (by simp)
        omega

namespace Cursor

variable {s : SourceText} {c d : Cursor} {seg : List Token} {n : Nat}

/-- A byte between the tokens on both sides of a cursor. -/
def Meets (c : Cursor) (n : Nat) : Prop :=
  c.lastStop ≤ n ∧ ∀ t ∈ c.ahead.head?, n ≤ t.start

theorem Over.meets_lastStop (h : Over s c) : c.Meets c.lastStop := by
  refine ⟨Nat.le_refl _, fun t ht => ?_⟩
  obtain ⟨front, rest, -, -, htile⟩ := h.split
  exact (htile.apart.1 t (List.mem_of_mem_head? ht)).1

theorem Over.meets_start (h : Over s c) (hk : c.kind ≠ .eof) : c.Meets c.token.start := by
  refine ⟨(h.token hk).1, fun t ht => ?_⟩
  rw [(passes_next hk).ahead] at ht
  cases ht
  exact Nat.le_refl _

theorem Over.apart (h : Over s c) (hm : c.Meets n) :
    (∀ t ∈ c.before, t.stop ≤ n) ∧ ∀ t ∈ c.ahead, n ≤ t.start := by
  obtain ⟨hall, hpair⟩ := Tile.apart h
  obtain ⟨hb, ha, -⟩ := List.pairwise_append.mp hpair
  rw [List.pairwise_reverse] at hb
  have hlt : ∀ t ∈ c.before.reverse ++ c.ahead, t.start < t.stop := fun t ht => (hall t ht).2.1
  obtain ⟨hlast, hhead⟩ := hm
  constructor
  · intro t ht
    unfold lastStop at hlast
    generalize hbefore : c.before = before at *
    cases before with
    | nil => cases ht
    | cons u us =>
        have hlast : u.stop ≤ n := hlast
        rcases List.mem_cons.mp ht with rfl | ht
        · exact hlast
        · have := (List.pairwise_cons.mp hb).1 t ht
          have := hlt u (by simp)
          omega
  · intro t ht
    generalize hahead : c.ahead = ahead at *
    cases ahead with
    | nil => cases ht
    | cons u us =>
        have hhead := hhead u rfl
        rcases List.mem_cons.mp ht with rfl | ht
        · exact hhead
        · have := (List.pairwise_cons.mp ha).1 t ht
          have := hlt u (by simp)
          omega

/-- The text between two bytes that cursors stand at. -/
theorem Over.fills {front mid rest : List Char} (h : Over s c) (hp : c.Passes seg d)
    (hs : s.chars = front ++ (mid ++ rest)) (hc : c.Meets (byteLen front))
    (hd : d.Meets (byteLen front + byteLen mid)) : Fills rest (byteLen front) mid seg := by
  have hfills : Fills [] 0 (front ++ (mid ++ rest)) (c.before.reverse ++ c.ahead) :=
    hs ▸ Tile.fills h
  obtain ⟨hbefore, hahead⟩ := h.apart hc
  obtain ⟨hbefore', hahead'⟩ := (h.passes hp).apart hd
  obtain ⟨-, hfills⟩ := hfills.cut_at
    (fun t ht => by rw [Nat.zero_add]; exact hbefore t (List.mem_reverse.mp ht))
    (fun t ht => by rw [Nat.zero_add]; exact hahead t ht)
  rw [Nat.zero_add, hp.ahead] at hfills
  obtain ⟨hfills, -⟩ := hfills.cut_at
    (fun t ht => hbefore' t (by rw [hp.before]; simp [ht])) hahead'
  rwa [List.append_nil] at hfills

end Cursor

/-! ## Ends of tokens -/

namespace Token

variable {rest cs : List Char} {a : Nat} {ts : List Token}

/-- The characters of a token belong to the text. -/
theorem Fills.mem (h : Fills rest a cs ts) :
    ∀ t ∈ ts, (∃ rest, t.Ends rest) ∧ ∀ c ∈ t.text.toList, c ∈ cs := by
  induction h with
  | nil => simp
  | gap _ _ ih =>
      intro t ht
      obtain ⟨he, hm⟩ := ih t ht
      exact ⟨he, fun c hc => List.mem_cons_of_mem _ (hm c hc)⟩
  | token ht _ ih =>
      refine List.forall_mem_cons.mpr ⟨⟨⟨_, ht⟩, fun c hc => List.mem_append_left _ hc⟩, fun u hu => ?_⟩
      obtain ⟨he, hm⟩ := ih u hu
      exact ⟨he, fun c hc => List.mem_append_right _ (hm c hc)⟩

/-- The last character of a text is blank or that of its last token. -/
theorem Fills.last_char (h : Fills rest a cs ts) {c : Char} (hc : cs.getLast? = some c) :
    isGap c = true ∨ ∃ t, ts.getLast? = some t ∧ t.stop = a + byteLen cs ∧ t.Ends rest ∧
      t.text.toList.getLast? = some c := by
  induction h with
  | nil => cases hc
  | @gap a d cs ts hd h ih =>
      cases hl : cs.getLast? with
      | none =>
          rw [List.getLast?_cons, hl] at hc
          cases hc
          exact .inl hd
      | some e =>
          rw [List.getLast?_cons, hl] at hc
          cases hc
          refine (ih hl).imp_right fun ⟨t, ht, hs, he⟩ => ⟨t, ht, ?_, he⟩
          rw [hs, byteLen_cons]
          omega
  | @token t cs ts ht h ih =>
      cases hl : cs.getLast? with
      | none =>
          obtain rfl := List.getLast?_eq_none_iff.mp hl
          obtain rfl := h.eq_nil
          rw [List.append_nil] at hc
          exact .inr ⟨t, rfl, by simp [stop_eq], ht, hc⟩
      | some e =>
          rw [List.getLast?_append, hl] at hc
          cases hc
          refine (ih hl).imp_right fun ⟨u, hu, hs, he⟩ => ⟨u, ?_, ?_, he⟩
          · rw [List.getLast?_cons, hu]
            rfl
          · rw [hs, stop_eq, byteLen_append]
            omega

/-- The first character of a text that starts with its first token. -/
theorem Fills.head_char (h : Fills rest a cs ts) (hs : ∀ t ∈ ts.head?, t.start = a) (hne : ts ≠ []) :
    ∃ t c cs' ts', ts = t :: ts' ∧ cs = c :: cs' ∧ isGap c = false ∧
      ∃ tail n, Scanned c tail t.kind n := by
  cases h with
  | nil => exact absurd rfl hne
  | @gap _ c cs _ hc h =>
      cases ts with
      | nil => exact absurd rfl hne
      | cons t ts =>
          have := (h.bounds t List.mem_cons_self).1
          have := hs t rfl
          have := c.utf8Size_pos
          omega
  | @token t cs ts ht h =>
      obtain ⟨c, tail, htext, hg, hscan⟩ := ht
      exact ⟨t, c, tail ++ cs, ts, rfl, by rw [htext]; rfl, hg, _, _, hscan⟩

theorem lineCommentTail_no_newline (cs : List Char) : '\n' ∉ cs.take (lineCommentTail cs) := by
  intro hm
  have hle : lineCommentTail cs ≤ (cs.takeWhile (· != '\n')).length := by
    unfold lineCommentTail
    dsimp only
    split
    · exact Nat.sub_le _ _
    · exact Nat.le_refl _
  have hpre : cs.take (lineCommentTail cs) <+: cs.takeWhile (· != '\n') :=
    List.prefix_of_prefix_length_le (List.take_prefix _ _) (List.takeWhile_prefix _)
      (by rw [List.length_take]; omega)
  have := List.all_eq_true.mp List.all_takeWhile _ (hpre.subset hm)
  simp at this

/-- Only a line break ends with one. -/
theorem Scanned.lineBreak_of_last {c : Char} {cs : List Char} {kind : TokenKind} {n : Nat}
    (h : Scanned c cs kind n) (hl : (c :: cs.take n).getLast? = some '\n') : kind = .lineBreak := by
  have none (hc : c ≠ '\n') (hx : '\n' ∉ cs.take n) : False := by
    rcases List.mem_cons.mp (List.mem_of_getLast? hl) with h | h
    · exact hc h.symm
    · exact hx h
  have last {m : Char} (hm : (cs.take n).getLast? = some m) (hne : m ≠ '\n') : False := by
    rw [List.getLast?_cons, hm] at hl
    cases hl
    exact hne rfl
  cases h with
  | lineBreak => rfl
  | lineComment hc => exact (none (by rw [hc]; decide) (lineCommentTail_no_newline cs)).elim
  | blockComment hc hs hn =>
      cases cs with
      | nil => cases hs
      | cons d cs =>
          refine (last (m := '/') ?_ (by decide)).elim
          rw [List.tail_cons] at hn
          rw [List.take_succ_cons, List.getLast?_cons, closeComment_last hn]
          rfl
  | string hc hn => exact (last (closeQuote_last hn) (by rw [hc]; decide)).elim
  | char hc hn => exact (last (closeQuote_last hn) (by rw [hc]; decide)).elim
  | rawString hc hn => exact (last (closeRaw_last hn) (by rw [hc]; decide)).elim
  | number hc =>
      refine (none ?_ fun hm => ?_).elim
      · rintro rfl
        rcases hc with hc | ⟨hc, -⟩ <;> cases hc
      · rcases numberTail_mem _ hm with h | h | h | h | h <;> cases h
  | ellipsis hc hs =>
      obtain ⟨rest, rfl⟩ := List.isPrefixOf_iff_prefix.mp hs
      exact (none (by rw [hc]; decide) (by simp)).elim
  | arrow hc hs =>
      obtain ⟨rest, rfl⟩ := List.head?_eq_some_iff.mp hs
      exact (none (by rw [hc]; decide) (by simp)).elim
  | assign hc => exact (none (by rw [hc]; decide) (by simp)).elim
  | delimiter hk =>
      refine (none ?_ (by simp)).elim
      rintro rfl
      cases hk
  | ident hc =>
      refine (none ?_ fun hm => ?_).elim
      · rintro rfl
        cases hc
      · have hpre : cs.take (cs.takeWhile isIdent).length = cs.takeWhile isIdent :=
          List.prefix_iff_eq_take.mp (List.takeWhile_prefix _) ▸ rfl
        rw [hpre] at hm
        have := List.all_eq_true.mp List.all_takeWhile _ hm
        cases this
  | other hc => exact (none (by rintro rfl; revert hc; decide) (by simp)).elim
  | op hc hi ho =>
      refine (none ho.plain.2.1 fun hm => ?_).elim
      have hpre : cs.take (cs.takeWhile isOpChar).length = cs.takeWhile isOpChar :=
        List.prefix_iff_eq_take.mp (List.takeWhile_prefix _) ▸ rfl
      rw [hpre] at hm
      have := List.all_eq_true.mp List.all_takeWhile _ hm
      cases this

theorem Ends.lineBreak_of_last {t : Token} (h : t.Ends rest)
    (hl : t.text.toList.getLast? = some '\n') : t.kind = .lineBreak := by
  obtain ⟨c, cs, ht, -, hs⟩ := h
  refine hs.lineBreak_of_last ?_
  rwa [List.take_left, ← ht]

end Token

theorem Token.alike_of_head {rest rest' : List Char} (h : rest.head? = rest'.head?) (c : Char) :
    Alike (c :: rest) (c :: rest') := by
  cases rest with
  | nil =>
      obtain rfl : rest' = [] := List.head?_eq_none_iff.mp h.symm
      exact ⟨rfl, rfl, Iff.rfl⟩
  | cons d rest =>
      obtain ⟨rest', rfl⟩ := List.head?_eq_some_iff.mp h.symm
      exact alike_cons_cons c d _ _

namespace Cursor

/-- The text in front of a cursor ends with the token that was read last. -/
theorem Over.last {s : SourceText} {c : Cursor} {t : Token} {back : List Token} (h : Over s c)
    (hb : c.before = t :: back) :
    t.Ends (dropBytes c.lastStop s.chars) ∧
      ∃ init, takeBytes c.lastStop s.chars = init ++ t.text.toList := by
  obtain ⟨front, rest, hs, hl, -⟩ := h.split
  let first : Cursor := ⟨[], c.before.reverse ++ c.ahead, c.stop⟩
  have hfirst : Over s first := h
  have hp : first.Passes c.before.reverse c := ⟨rfl, by simp [first], rfl⟩
  have hfills : Fills rest (byteLen []) front c.before.reverse := by
    refine hfirst.fills hp hs hfirst.meets_lastStop ?_
    rw [byteLen_nil, Nat.zero_add, hl]
    exact h.meets_lastStop
  have hlast : c.before.reverse.getLast? = some t := by
    rw [List.getLast?_reverse, hb]
    rfl
  have hstop : t.stop = byteLen [] + byteLen front := by
    rw [byteLen_nil, Nat.zero_add, hl, lastStop, hb]
    rfl
  obtain ⟨he, init, hfront⟩ := hfills.last hlast hstop
  refine ⟨?_, init, by rw [← hl, hs, takeBytes_byteLen, hfront]⟩
  rwa [← hl, dropBytes_of_append hs]

/-- A line break was read last where the text in front ends with one. -/
theorem Over.newline {s : SourceText} {c : Cursor} {t : Token} {back : List Token} (h : Over s c)
    (hb : c.before = t :: back) :
    (takeBytes c.lastStop s.chars).getLast? = some '\n' ↔ t.kind = .lineBreak := by
  obtain ⟨he, init, htext⟩ := h.last hb
  rw [htext]
  constructor
  · intro hl
    refine he.lineBreak_of_last ?_
    obtain ⟨c, cs, ht, -⟩ := he
    rw [ht, List.getLast?_append, List.getLast?_cons] at hl
    rw [ht, List.getLast?_cons]
    exact hl
  · intro hk
    rw [(heads_iff.mpr ⟨rfl, he⟩).lineBreak_text hk]
    simp

end Cursor

namespace SourceText

variable {s : SourceText}

/-- What stands between the start of a declaration and its first token is its indentation. -/
theorem declStart_split {front rest : List Char} {n : Nat} (hs : s.chars = front ++ rest)
    (hf : byteLen front = s.declStart n) (hb : Boundary s.chars n) :
    ∃ indent tail, rest = String.toList indent ++ tail ∧ IsIndent indent ∧
      n = byteLen front + byteLen indent.toList ∧ s.indentOf n = indent := by
  obtain ⟨before, behind, hn, hlen⟩ := hb
  have hhead : s.lineHead n = lastLine before := hlen ▸ lineHead_append hn
  have hsplit : before = (before.reverse.dropWhile (· != '\n')).reverse ++ lastLine before := by
    rw [lastLine, ← List.reverse_append, List.takeWhile_append_dropWhile, List.reverse_reverse]
  unfold declStart at hf
  unfold indentOf
  dsimp only at hf ⊢
  rw [hhead] at hf ⊢
  split at hf
  · rename_i hall
    rw [if_pos hall]
    refine ⟨_, behind, ?_, ?_, ?_, rfl⟩
    · generalize lastLine before = line at *
      generalize (before.reverse.dropWhile (· != '\n')).reverse = lines at *
      rw [String.toList_ofList, ← dropBytes_of_append hs, hf, ← hlen, hn, hsplit, byteLen_append,
        Nat.add_sub_cancel, List.append_assoc, dropBytes_byteLen]
    · intro c hc
      exact List.all_eq_true.mp hall c (by rwa [String.toList_ofList] at hc)
    · have := congrArg byteLen hsplit
      rw [byteLen_append, hlen] at this
      rw [String.toList_ofList, hf]
      omega
  · rename_i hall
    rw [if_neg hall]
    exact ⟨"", rest, rfl, by simp [IsIndent], by rw [hf]; rfl, rfl⟩

end SourceText

/-! ## Edits in a text -/

namespace Edit

variable {start : Nat} {cs out : List Char} {e : Edit} {es : List Edit}

theorem Spliced.nil_inv (h : Spliced start cs [] out) : out = cs := by
  cases h
  rfl

theorem Spliced.cons_inv (h : Spliced start cs (e :: es) out) :
    ∃ gap old rest out', cs = gap ++ (old ++ rest) ∧ out = gap ++ (e.text.toList ++ out') ∧
      e.span.start = start + byteLen gap ∧ e.span.stop = e.span.start + byteLen old ∧
      Spliced e.span.stop rest es out' := by
  cases h with
  | cons hs ht h => exact ⟨_, _, _, _, List.append_assoc _ _ _, List.append_assoc _ _ _, hs, ht, h⟩

/-- In front of the first edit a text stays as it is. -/
theorem Spliced.skip {mid rest : List Char} (h : Spliced start (mid ++ rest) es out)
    (hle : ∀ e ∈ es, start + byteLen mid ≤ e.span.start) :
    ∃ out', out = mid ++ out' ∧ Spliced (start + byteLen mid) rest es out' := by
  cases es with
  | nil =>
      exact ⟨rest, h.nil_inv, .nil _ _⟩
  | cons e es =>
      obtain ⟨gap, old, tail, out', hcs, rfl, hs, ht, hrest⟩ := h.cons_inv
      have hle := hle e List.mem_cons_self
      obtain ⟨more, rfl, rfl⟩ : ∃ more, gap = mid ++ more ∧ rest = more ++ (old ++ tail) := by
        rcases List.append_eq_append_iff.mp hcs with ⟨more, h₁, h₂⟩ | ⟨more, h₁, h₂⟩
        · exact ⟨more, h₁, h₂⟩
        · have hmore : more = [] := eq_nil_of_byteLen (by rw [h₁, byteLen_append] at hle; omega)
          subst hmore
          exact ⟨[], by rw [h₁]; simp, by rw [h₂]; rfl⟩
      rw [byteLen_append, ← Nat.add_assoc] at hs
      refine ⟨more ++ e.text.toList ++ out', by simp, ?_⟩
      rw [← List.append_assoc more]
      exact .cons hs ht hrest

end Edit

end StructLayout
