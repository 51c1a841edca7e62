import Mathlib
import StructLayout.Proofs.Source.Braces
import StructLayout.Proofs.Source.Tiling

/-!
The blocks of a file and its braces. Where all brackets of a text nest and each constant ends before the
bracket is closed that it stands in, no file fails for a closing brace, the blocks of a file are pairs of
braces and nest as those do, and every declaration stands in the innermost block around its name.
-/

namespace StructLayout

open TokenKind Cursor

/-! ## Names -/

namespace Cursor

variable {s : SourceText} {c d : Cursor} {seg : List Token} {n : Token}

/-- A token that is passed stands between the places before and behind it. -/
theorem Over.bounds (h : Over s c) (hp : c.Passes seg d) (hn : n ∈ seg) :
    c.lastStop ≤ n.start ∧ n.start < n.stop ∧ n.stop ≤ d.lastStop := by
  obtain ⟨front, rest, -, -, htile⟩ := h.split
  obtain ⟨hstart, hlt, -⟩ := htile.apart.1 n (hp.ahead ▸ List.mem_append_left _ hn)
  obtain ⟨xs, ys, rfl⟩ := List.append_of_mem hn
  -- the place behind the token
  let m : Cursor := ⟨n :: (xs.reverse ++ c.before), ys ++ d.ahead, c.stop⟩
  have hm : c.Passes (xs ++ [n]) m := ⟨by rw [hp.ahead]; simp [m], by simp [m], rfl⟩
  have hd : m.Passes ys d := ⟨rfl, by rw [hp.before]; simp [m], hp.stop⟩
  exact ⟨hstart, hlt, (h.passes hm).lastStop_le hd⟩

end Cursor

namespace Token

variable {α : Type} {R : Token → α → Prop} {P Q : Token → Prop} {ts us : List Token} {xs ys : List α}

/-- Some of these tokens give their names to declarations, in the order in which they stand. -/
def Supply (R : Token → α → Prop) (P : Token → Prop) (ts : List Token) (xs : List α) : Prop :=
  ∃ names, List.Forall₂ R names xs ∧ names.Sublist ts ∧ ∀ n ∈ names, P n

theorem Supply.nil : Supply R P ts [] :=
  ⟨[], .nil, List.nil_sublist ts, List.forall_mem_nil P⟩

theorem Supply.mono (h : Supply R P ts xs) (hs : ts.Sublist us) (hPQ : ∀ n ∈ ts, P n → Q n) :
    Supply R Q us xs := by
  obtain ⟨names, hnames, hsub, hall⟩ := h
  exact ⟨names, hnames, hsub.trans hs, fun n hn => hPQ n (hsub.subset hn) (hall n hn)⟩

theorem Supply.append (h : Supply R P ts xs) (h' : Supply R P us ys) :
    Supply R P (ts ++ us) (xs ++ ys) := by
  obtain ⟨names, hnames, hsub, hall⟩ := h
  obtain ⟨names', hnames', hsub', hall'⟩ := h'
  exact ⟨names ++ names', List.rel_append hnames hnames', hsub.append hsub',
    List.forall_mem_append.mpr ⟨hall, hall'⟩⟩

end Token

namespace Span

def Holds (span : Span) (t : Token) : Prop :=
  span.start ≤ t.start ∧ t.stop ≤ span.stop

def Avoids (span : Span) (t : Token) : Prop :=
  t.stop ≤ span.start ∨ span.stop ≤ t.start

def Covers (span span' : Span) : Prop :=
  span.start ≤ span'.start ∧ span'.stop ≤ span.stop

/-- A span runs from a left brace to the right brace that closes it, by a count of braces. -/
def Braced (ts : List Token) (span : Span) : Prop :=
  ∃ pre l mid r post, ts = pre ++ l :: (mid ++ r :: post) ∧ l.kind = .lbrace ∧ r.kind = .rbrace ∧
    span = ⟨l.start, r.stop⟩ ∧
    Lexeme.Closes .lbrace .rbrace 0 ((mid ++ r :: post).map Token.lexeme) (post.map Token.lexeme)

end Span

/-! ## Blocks in blocks -/

namespace Block

mutual

/-- The blocks inside of a block, at any depth. -/
def inner : Block → List Block
  | ⟨_, _, _, blocks⟩ => innerIn blocks

def innerIn : List Block → List Block
  | [] => []
  | b :: bs => b :: (b.inner ++ innerIn bs)

end

variable {s : SourceText} {ts back seg : List Token} {b b' child a a' : Block} {p p' q q' r : Nat}
  {n : Token}

theorem mem_innerIn {bs : List Block} : b' ∈ innerIn bs ↔ ∃ c ∈ bs, b' = c ∨ b' ∈ c.inner := by
  induction bs with
  | nil => simp [innerIn]
  | cons b bs ih => simp [innerIn, ih, or_assoc]

theorem mem_inner : b' ∈ b.inner ↔ ∃ c ∈ b.blocks, b' = c ∨ b' ∈ c.inner := by
  cases b
  rw [inner, mem_innerIn]

/-- A token stands between two bytes and in none of these blocks. -/
def Own (p q : Nat) (blocks : List Block) (n : Token) : Prop :=
  p ≤ n.start ∧ n.start < n.stop ∧ n.stop ≤ q ∧ ∀ c ∈ blocks, c.span.Avoids n

/-- A block between two bytes. Its declarations have their names from some tokens that are in none of the
blocks in it, and these are pairs of braces that follow one another. -/
inductive Formed (s : SourceText) (ts : List Token) : List Token → Nat → Nat → Block → Prop
  | intro {back : List Token} {p q : Nat} {b : Block}
      (specs : Token.Supply (TypeSpec.NamedBy s) (Own p q b.blocks) back b.specs)
      (consts : Token.Supply (ConstSpec.NamedBy ts) (Own p q b.blocks) back b.consts)
      (spans : ∀ c ∈ b.blocks, p ≤ c.span.start ∧ c.span.start < c.span.stop ∧ c.span.stop ≤ q)
      (order : b.blocks.Pairwise fun a b => a.span.stop ≤ b.span.start)
      (braced : ∀ c ∈ b.blocks, c.span.Braced ts)
      (inner : ∀ c ∈ b.blocks, Formed s ts ts (c.span.start + 1) (c.span.stop - 1) c) :
      Formed s ts back p q b

/-! ### Reading -/

theorem Own.mono {blocks : List Block} (h : Own p q blocks n) (hp : p' ≤ p) (hq : q ≤ q') :
    Own p' q' blocks n :=
  ⟨Nat.le_trans hp h.1, h.2.1, Nat.le_trans h.2.2.1 hq, h.2.2.2⟩

theorem formed_empty (hs : b.specs = []) (hc : b.consts = []) (hb : b.blocks = []) :
    Formed s ts back p q b := by
  refine .intro ?_ ?_ ?_ ?_ ?_ ?_ <;> simp only [hs, hc, hb]
  · exact .nil
  · exact .nil
  · exact List.forall_mem_nil _
  · exact .nil
  · exact List.forall_mem_nil _
  · exact List.forall_mem_nil _

theorem Formed.mono {back' : List Token} (h : Formed s ts back p q b) (hs : back.Sublist back')
    (hp : p' ≤ p) (hq : q ≤ q') : Formed s ts back' p' q' b := by
  cases h with
  | intro specs consts spans order braced inner =>
      refine .intro (specs.mono hs fun n _ h => h.mono hp hq) (consts.mono hs fun n _ h => h.mono hp hq)
        (fun c hc => ?_) order braced inner
      obtain ⟨hstart, hlt, hstop⟩ := spans c hc
      exact ⟨Nat.le_trans hp hstart, hlt, Nat.le_trans hstop hq⟩

/-- Only what a block holds matters, not its own span. -/
theorem Formed.of_eq (h : Formed s ts back p q b) (hs : b'.specs = b.specs)
    (hc : b'.consts = b.consts) (hb : b'.blocks = b.blocks) : Formed s ts back p q b' := by
  cases h with
  | intro specs consts spans order braced inner =>
      refine .intro ?_ ?_ ?_ ?_ ?_ ?_ <;> rw [hb]
      · rwa [hs]
      · rwa [hc]
      · exact spans
      · exact order
      · exact braced
      · exact inner

/-- Names behind everything that a block holds so far. -/
theorem supply_append {α : Type} {R : Token → α → Prop} {blocks : List Block} {xs new : List α}
    (h : Token.Supply R (Own p q blocks) back xs) (hblocks : ∀ c ∈ blocks, c.span.stop ≤ q)
    (hpq : p ≤ q) (hqr : q ≤ r)
    (hnew : Token.Supply R (fun n => q ≤ n.start ∧ n.start < n.stop ∧ n.stop ≤ r) seg new) :
    Token.Supply R (Own p r blocks) (back ++ seg) (xs ++ new) := by
  refine (h.mono (.refl back) fun n _ h => h.mono (Nat.le_refl p) hqr).append
    (hnew.mono (.refl seg) fun n _ h => ?_)
  exact ⟨Nat.le_trans hpq h.1, h.2.1, h.2.2,
    fun c hc => .inr (Nat.le_trans (hblocks c hc) h.1)⟩

theorem Formed.addSpecs {new : List TypeSpec} (h : Formed s ts back p q b) (hpq : p ≤ q)
    (hqr : q ≤ r) (hnew : Token.Supply (TypeSpec.NamedBy s)
      (fun n => q ≤ n.start ∧ n.start < n.stop ∧ n.stop ≤ r) seg new) :
    Formed s ts (back ++ seg) p r { b with specs := b.specs ++ new } := by
  have hle := h.mono (List.sublist_append_left back seg) (Nat.le_refl p) hqr
  cases h with
  | intro specs _ spans =>
      cases hle with
      | intro _ consts' spans' order braced inner =>
          exact .intro (supply_append specs (fun c hc => (spans c hc).2.2) hpq hqr hnew) consts' spans'
            order braced inner

theorem Formed.addConsts {new : List ConstSpec} (h : Formed s ts back p q b) (hpq : p ≤ q)
    (hqr : q ≤ r) (hnew : Token.Supply (ConstSpec.NamedBy ts)
      (fun n => q ≤ n.start ∧ n.start < n.stop ∧ n.stop ≤ r) seg new) :
    Formed s ts (back ++ seg) p r { b with consts := b.consts ++ new } := by
  have hle := h.mono (List.sublist_append_left back seg) (Nat.le_refl p) hqr
  cases h with
  | intro _ consts spans =>
      cases hle with
      | intro specs' _ spans' order braced inner =>
          exact .intro specs' (supply_append consts (fun c hc => (spans c hc).2.2) hpq hqr hnew) spans'
            order braced inner

theorem Formed.addBlock (h : Formed s ts back p q b) (hpq : p ≤ q) (hstart : q ≤ child.span.start)
    (hlt : child.span.start < child.span.stop) (hstop : child.span.stop ≤ r)
    (hbraced : child.span.Braced ts)
    (hchild : Formed s ts ts (child.span.start + 1) (child.span.stop - 1) child) :
    Formed s ts back p r { b with blocks := b.blocks ++ [child] } := by
  have hqr : q ≤ r := by omega
  have own {n : Token} (h : Own p q b.blocks n) : Own p r (b.blocks ++ [child]) n := by
    obtain ⟨hp, hn, hq, havoids⟩ := h
    refine ⟨hp, hn, Nat.le_trans hq hqr, List.forall_mem_append.mpr ⟨havoids, ?_⟩⟩
    exact List.forall_mem_singleton.mpr (.inl (Nat.le_trans hq hstart))
  cases h with
  | intro specs consts spans order braced inner =>
      refine .intro (specs.mono (.refl back) fun n _ h => own h)
        (consts.mono (.refl back) fun n _ h => own h) ?_ ?_ ?_ ?_
      · refine List.forall_mem_append.mpr ⟨fun c hc => ?_, List.forall_mem_singleton.mpr ?_⟩
        · obtain ⟨hc, hlt, hq⟩ := spans c hc
          exact ⟨hc, hlt, Nat.le_trans hq hqr⟩
        · exact ⟨Nat.le_trans hpq hstart, hlt, hstop⟩
      · refine List.pairwise_append.mpr ⟨order, List.pairwise_singleton _ _, fun c hc c' hc' => ?_⟩
        rw [List.mem_singleton.mp hc']
        exact Nat.le_trans (spans c hc).2.2 hstart
      · exact List.forall_mem_append.mpr ⟨braced, List.forall_mem_singleton.mpr hbraced⟩
      · exact List.forall_mem_append.mpr ⟨inner, List.forall_mem_singleton.mpr hchild⟩

end Block

namespace Cursor

variable {α : Type} {R : Token → α → Prop} {s : SourceText} {ts : List Token} {c d : Cursor}
  {u : List TokenKind} {xs : List α}

/-- The names of declarations stand where these are read. -/
theorem Yields.supply (h : Yields R u c d xs) (ho : Over s c) :
    c.lastStop ≤ d.lastStop ∧ ∃ seg, d.before.reverse = c.before.reverse ++ seg ∧ Token.Supply R
      (fun n => c.lastStop ≤ n.start ∧ n.start < n.stop ∧ n.stop ≤ d.lastStop) seg xs := by
  obtain ⟨seg, names, hp, -, hsub, hnames⟩ := h
  refine ⟨ho.lastStop_le hp, seg, by rw [hp.before]; simp, names, hnames, hsub, fun n hn => ?_⟩
  exact ho.bounds hp (hsub.subset hn)

theorem Passes.before_sublist {seg : List Token} (h : c.Passes seg d) :
    c.before.reverse.Sublist d.before.reverse := by
  rw [h.before, List.reverse_append, List.reverse_reverse]
  exact List.sublist_append_left _ _

theorem Of.before (h : c.Of ts) : c.before.reverse.Sublist ts :=
  (List.sublist_append_left _ _).trans h.sublist

end Cursor

namespace Block

variable {s : SourceText} {ts : List Token} {nested : Bool} {st around : List TokenKind}
  {b b' child : Block} {c d : Cursor} {p : Nat}

/-- A block inside of another one is a pair of braces of the text. -/
theorem braced_of_pair {init : List Token} {l : Token} (hc : c.Of ts) (hk : c.kind = .lbrace)
    (hl : l.kind = .rbrace) (hp : c.Passes (c.token :: (init ++ [l])) d)
    (hinit : Matched (init.map Token.kind)) : Span.Braced ts ⟨c.token.start, l.stop⟩ := by
  obtain ⟨tail, hts⟩ := hc
  refine ⟨c.before.reverse, c.token, init, l, d.ahead ++ tail, ?_, hk, hl, rfl, ?_⟩
  · rw [← hts, hp.ahead]
    simp
  · have hkinds : Lexeme.kinds (init.map Token.lexeme) = init.map Token.kind := List.map_map
    rw [List.map_append, List.map_cons]
    exact Lexeme.closes_of_nest (u := []) rfl hl (hkinds ▸ hinit) _

theorem Formed.passes {seg : List Token} (h : Formed s ts c.before.reverse p c.lastStop b)
    (ho : Over s c) (hpass : c.Passes seg d) : Formed s ts d.before.reverse p d.lastStop b := by
  exact h.mono hpass.before_sublist (Nat.le_refl p) (ho.lastStop_le hpass)

theorem Formed.types {new : List TypeSpec} {u : List TokenKind}
    (h : Formed s ts c.before.reverse p c.lastStop b) (ho : Over s c) (hp : p ≤ c.lastStop)
    (hy : Yields (TypeSpec.NamedBy s) u c d new) :
    Formed s ts d.before.reverse p d.lastStop { b with specs := b.specs ++ new } := by
  obtain ⟨hle, seg, hback, hsupply⟩ := hy.supply ho
  exact hback ▸ h.addSpecs hp hle hsupply

theorem Formed.consts {new : List ConstSpec} {u : List TokenKind}
    (h : Formed s ts c.before.reverse p c.lastStop b) (ho : Over s c) (hp : p ≤ c.lastStop)
    (hy : Yields (ConstSpec.NamedBy ts) u c d new) :
    Formed s ts d.before.reverse p d.lastStop { b with consts := b.consts ++ new } := by
  obtain ⟨hle, seg, hback, hsupply⟩ := hy.supply ho
  exact hback ▸ h.addConsts hp hle hsupply

/-- What is read of a block keeps its parts in order. In front of the brace that closes a nested block
everything in it has ended. -/
theorem Reads.formed (h : Reads s nested b c b' d) (hends : ConstSpec.allEndInside ts = true)
    (hs : Stands ts nested st around c) (ho : Over s c) (hpq : p ≤ c.lastStop)
    (hb : Formed s ts c.before.reverse p c.lastStop b) :
    Over s d ∧ ∃ q, Formed s ts ts p q b' ∧ q ≤ d.lastStop ∧ (nested = true → q < d.lastStop) := by
  induction h generalizing st around p with
  | @finish b c =>
      exact ⟨ho, c.lastStop, hb.mono hs.of.before (Nat.le_refl p) (Nat.le_refl _), Nat.le_refl _,
        fun h => by cases h⟩
  | @close b c hk =>
      have hne : c.kind ≠ .eof := by rw [hk]; decide
      have hlt : c.lastStop < c.next.lastStop := by
        rw [lastStop_next hne]
        have := ho.token hne
        omega
      have hb := hb.mono hs.of.before (Nat.le_refl p) (Nat.le_refl _)
      exact ⟨ho.passes (passes_next hne), c.lastStop, hb.of_eq rfl rfl rfl, Nat.le_of_lt hlt,
        fun _ => hlt⟩
  | @nest nested b child b' c d e hk hchild _ ihchild ih =>
      have hne : c.kind ≠ .eof := by rw [hk]; decide
      obtain ⟨hstart, hlt, -⟩ := ho.token hne
      have hnext := lastStop_next hne
      obtain ⟨init, l, hpass, hl, hspan, hinit⟩ := hchild.pair hk hends hs
      have hlast : d.lastStop = l.stop := by
        rw [lastStop_passes hpass, ← List.cons_append, List.getLast?_concat]
        rfl
      have hle := ho.stop_le hne hpass (List.cons_ne_nil _ _)
      obtain ⟨-, q, hin, -, hq⟩ := ihchild (hs.lbrace hk) (ho.passes (passes_next hne))
        (p := c.token.start + 1) (by omega) (formed_empty rfl rfl rfl)
      have hq := hq rfl
      have hfirst : child.span.start = c.token.start := by rw [hspan]
      have hstop : child.span.stop = d.lastStop := by rw [hspan, hlast]
      have hin : Formed s ts ts (child.span.start + 1) (child.span.stop - 1) child :=
        hin.mono (.refl ts) (by omega) (by omega)
      have hbraced := braced_of_pair hs.of hk hl hpass hinit
      have hb := (hb.mono hpass.before_sublist (Nat.le_refl p) (Nat.le_refl _)).addBlock hpq
        (by omega) (by omega) (Nat.le_of_eq hstop) (hspan ▸ hbraced) hin
      exact ih (hs.takes (takes_pair hk hl hpass hinit)) (ho.passes hpass) (by omega) hb
  | types hk hr _ ih =>
      have hyields := TypeSpec.readDecl_yields hs.within hk hr
      obtain ⟨seg, hpass, -⟩ := hyields.takes
      exact ih (hs.takes hyields.takes) (ho.passes hpass)
        (Nat.le_trans hpq (ho.lastStop_le hpass)) (hb.types ho hpq hyields)
  | consts hk ht hr _ ih =>
      have hyields := ConstSpec.readDecl_yields hends hs.of hs.within hk ht hr
      obtain ⟨seg, hpass, -⟩ := hyields.takes
      exact ih (hs.takes hyields.takes) (ho.passes hpass)
        (Nat.le_trans hpq (ho.lastStop_le hpass)) (hb.consts ho hpq hyields)
  | literal hk hr _ ih =>
      obtain ⟨seg, hpass, hn⟩ := hs.literal hk hr
      exact ih (hs.takes ⟨seg, hpass, hn⟩) (ho.passes hpass)
        (Nat.le_trans hpq (ho.lastStop_le hpass)) (hb.passes ho hpass)
  | other he hopen hclose _ ih =>
      obtain ⟨st', -, hs⟩ := hs.other he hopen hclose
      have hpass := passes_next he
      exact ih hs (ho.passes hpass) (Nat.le_trans hpq (ho.lastStop_le hpass)) (hb.passes ho hpass)

/-! ### Nesting -/

variable {back : List Token} {a a' : Block} {q : Nat} {n : Token}

/-- The blocks inside of a block are between its bytes. -/
theorem Formed.bounds (h : Formed s ts back p q b) :
    ∀ a ∈ b.inner, p ≤ a.span.start ∧ a.span.start < a.span.stop ∧ a.span.stop ≤ q := by
  induction h with
  | intro _ _ spans _ _ _ ih =>
      intro a ha
      obtain ⟨c, hc, rfl | ha⟩ := mem_inner.mp ha
      · exact spans a hc
      · have hc' := spans c hc
        have ha := ih c hc a ha
        omega

/-- A part of a block is around everything inside of it. -/
theorem Formed.covers (h : Formed s ts back (b.span.start + 1) (b.span.stop - 1) b)
    (ha : a = b ∨ a ∈ b.inner) : b.span.Covers a.span := by
  rcases ha with rfl | ha
  · exact ⟨Nat.le_refl _, Nat.le_refl _⟩
  · obtain ⟨hstart, -, hstop⟩ := h.bounds a ha
    exact ⟨Nat.le_of_lt hstart, Nat.le_trans hstop (Nat.sub_le _ _)⟩

theorem Formed.formed_inner (h : Formed s ts back p q b) :
    ∀ a ∈ b.inner, a.span.Braced ts ∧ Formed s ts ts (a.span.start + 1) (a.span.stop - 1) a := by
  induction h with
  | intro _ _ _ _ braced inner ih =>
      intro a ha
      obtain ⟨c, hc, rfl | ha⟩ := mem_inner.mp ha
      · exact ⟨braced a hc, inner a hc⟩
      · exact ih c hc a ha

/-- A block inside of another one is between its braces. -/
theorem Formed.lt_of_mem_inner (h : Formed s ts back p q b) (ha : a ∈ b.inner) (ha' : a' ∈ a.inner) :
    a.span.start < a'.span.start ∧ a'.span.stop < a.span.stop := by
  obtain ⟨-, hin⟩ := h.formed_inner a ha
  have hbounds := hin.bounds a' ha'
  omega

/-- One block follows the other. -/
def Beside (a a' : Block) : Prop :=
  a.span.stop ≤ a'.span.start ∨ a'.span.stop ≤ a.span.start

instance : Std.Symm Beside := ⟨fun _ _ h => h.symm⟩

/-- Two blocks are the same, or one is inside of the other, or one follows the other. -/
theorem Formed.apart (h : Formed s ts back p q b) (ha : a ∈ b.inner) (ha' : a' ∈ b.inner) :
    a = a' ∨ a' ∈ a.inner ∨ a ∈ a'.inner ∨ a.Beside a' := by
  induction h with
  | @intro back p q b _ _ spans order _ inner ih =>
      obtain ⟨c, hc, hac⟩ := mem_inner.mp ha
      obtain ⟨c', hc', hac'⟩ := mem_inner.mp ha'
      by_cases heq : c = c'
      · subst heq
        rcases hac with rfl | hac
        · exact hac'.imp Eq.symm .inl
        · rcases hac' with rfl | hac'
          · exact .inr (.inr (.inl hac))
          · exact ih c hc hac hac'
      · -- blocks in different parts are as far apart as the parts
        have hin := (inner c hc).covers hac
        have hin' := (inner c' hc').covers hac'
        have hall : b.blocks.Pairwise Beside := order.imp .inl
        have hbeside := hall.forall hc hc' heq
        refine .inr (.inr (.inr (hbeside.imp (fun h => ?_) fun h => ?_)))
        · exact hin.2.trans (h.trans hin'.1)
        · exact hin'.2.trans (h.trans hin.1)

/-- Blocks nest as their spans do. -/
theorem Formed.mem_inner_iff (h : Formed s ts back p q b) (ha : a ∈ b.inner) (ha' : a' ∈ b.inner) :
    a' ∈ a.inner ↔ a.span.start < a'.span.start ∧ a'.span.stop < a.span.stop := by
  refine ⟨h.lt_of_mem_inner ha, fun hlt => ?_⟩
  have hbounds := h.bounds a' ha'
  rcases h.apart ha ha' with rfl | hin | hin | hbeside
  · omega
  · exact hin
  · have := h.lt_of_mem_inner ha' hin
    omega
  · unfold Beside at hbeside
    omega

/-- A token stands in a block, and every block that it stands in is around that one. -/
def Innermost (root b : Block) (n : Token) : Prop :=
  b.span.Holds n ∧ ∀ a ∈ root :: root.inner, a.span.Holds n → a.span.Covers b.span

theorem Formed.not_holds (h : Formed s ts back p q b) (hn : Own p q b.blocks n) :
    ∀ a ∈ b.inner, ¬a.span.Holds n := by
  cases h with
  | intro _ _ _ _ _ inner =>
      intro a ha hholds
      obtain ⟨-, hlt, -, havoids⟩ := hn
      obtain ⟨c, hc, hac⟩ := mem_inner.mp ha
      have havoid := havoids c hc
      have hin := (inner c hc).covers hac
      unfold Span.Avoids at havoid
      unfold Span.Holds at hholds
      unfold Span.Covers at hin
      omega

variable {root : Block}

theorem Formed.innermost_root (h : Formed s ts back root.span.start root.span.stop root)
    (hn : Own root.span.start root.span.stop root.blocks n) : Innermost root root n := by
  refine ⟨⟨hn.1, hn.2.2.1⟩, List.forall_mem_cons.mpr ⟨fun _ => ?_, fun a ha hholds => ?_⟩⟩
  · exact ⟨Nat.le_refl _, Nat.le_refl _⟩
  · exact absurd hholds (h.not_holds hn a ha)

theorem Formed.innermost_inner (h : Formed s ts back root.span.start root.span.stop root)
    (hb : b ∈ root.inner) (hn : Own (b.span.start + 1) (b.span.stop - 1) b.blocks n) :
    Innermost root b n := by
  obtain ⟨-, hformed⟩ := h.formed_inner b hb
  have hholds : b.span.Holds n := by
    obtain ⟨hstart, -, hstop, -⟩ := hn
    unfold Span.Holds
    omega
  refine ⟨hholds, List.forall_mem_cons.mpr ⟨fun _ => ?_, fun a ha hholds' => ?_⟩⟩
  · obtain ⟨hstart, -, hstop⟩ := h.bounds b hb
    exact ⟨hstart, hstop⟩
  · rcases h.apart hb ha with rfl | hin | hin | hbeside
    · exact ⟨Nat.le_refl _, Nat.le_refl _⟩
    · exact absurd hholds' (hformed.not_holds hn a hin)
    · obtain ⟨hstart, hstop⟩ := h.lt_of_mem_inner ha hin
      exact ⟨Nat.le_of_lt hstart, Nat.le_of_lt hstop⟩
    · have hlt := hn.2.1
      unfold Span.Holds at hholds hholds'
      unfold Beside at hbeside
      omega

/-- Every declaration stands in the innermost block around its name. -/
theorem Formed.supply (h : Formed s ts ts root.span.start root.span.stop root)
    (hb : b ∈ root :: root.inner) :
    Token.Supply (TypeSpec.NamedBy s) (Innermost root b) ts b.specs ∧
      Token.Supply (ConstSpec.NamedBy ts) (Innermost root b) ts b.consts := by
  rcases List.mem_cons.mp hb with rfl | hb
  · have hroot := h
    cases h with
    | intro specs consts =>
        exact ⟨specs.mono (.refl ts) fun n _ hn => hroot.innermost_root hn,
          consts.mono (.refl ts) fun n _ hn => hroot.innermost_root hn⟩
  · obtain ⟨-, hformed⟩ := h.formed_inner b hb
    cases hformed with
    | intro specs consts =>
        exact ⟨specs.mono (.refl ts) fun n _ hn => h.innermost_inner hb hn,
          consts.mono (.refl ts) fun n _ hn => h.innermost_inner hb hn⟩

end Block

/-! ## Files -/

namespace SourceFile

open Block

/-- The blocks inside of a file are pairs of braces, from the left brace to the right brace that closes
it, and nest as those pairs do. Every declaration stands in the innermost block around its name. -/
structure Scoped (ts : List Token) (f : SourceFile) : Prop where
  braced : ∀ b ∈ f.root.inner, b.span.Braced ts
  nested : ∀ b ∈ f.root.inner, ∀ b' ∈ f.root.inner,
    b' ∈ b.inner ↔ b.span.start < b'.span.start ∧ b'.span.stop < b.span.stop
  types : ∀ b ∈ f.root :: f.root.inner,
    Token.Supply (TypeSpec.NamedBy f.text) (Innermost f.root b) ts b.specs
  consts : ∀ b ∈ f.root :: f.root.inner,
    Token.Supply (ConstSpec.NamedBy ts) (Innermost f.root b) ts b.consts

variable {info : FileInfo} {path : String} {chars : List Char} {tokens : List Token}

theorem scoped_of_formed {f : SourceFile} {ts : List Token}
    (h : Formed f.text ts ts f.root.span.start f.root.span.stop f.root) : f.Scoped ts where
  braced := fun b hb => (h.formed_inner b hb).1
  nested := fun _ hb _ hb' => h.mem_inner_iff hb hb'
  types := fun _ hb => (h.supply hb).1
  consts := fun _ hb => (h.supply hb).2

/-- In front of the first token no bracket is open. -/
theorem stands_start {init : List Token} (ht : Token.Tile 0 chars init) (last : Token)
    (hlast : last.kind = .eof) (hn : Matched ((init ++ [last]).map Token.kind)) :
    Stands (init ++ [last]) false [] [] ⟨[], init, Text.byteLen chars⟩ := by
  refine ⟨⟨[last], rfl⟩, ⟨?_, ht.kind_ne⟩, List.not_mem_nil, rfl⟩
  unfold Matched at hn
  rw [List.map_append, nest_append] at hn
  obtain ⟨st, hst, hn⟩ := Option.bind_eq_some_iff.mp hn
  rw [List.map_singleton, hlast, nest_cons_of (shift_plain (by decide) st)] at hn
  cases hn
  exact hst

/-- Reading a file does not fail for a closing brace. -/
theorem read_clear (h : Token.tokenize chars = .ok tokens) (hn : Matched (tokens.map Token.kind))
    (hends : ConstSpec.allEndInside tokens = true) : Clear (read info path chars) := by
  obtain ⟨init, rfl, htile⟩ := Token.tokensFrom_eq_ok.mp h
  have hs := stands_start htile _ rfl hn
  have hstart : ofTokens (init ++ [⟨.eof, 0 + Text.byteLen chars, ""⟩]) (Text.byteLen chars) =
      ⟨[], init, Text.byteLen chars⟩ := by
    rw [ofTokens, List.dropLast_concat]
  have hs := hs.takes (takes_skipTrivia _)
  unfold read
  rw [h]
  dsimp only
  unfold readTokens
  dsimp only
  rw [hstart]
  split
  · rename_i hk
    have hs := hs.takes (takes_next (by rw [hk.1]; decide) (by rw [hk.1]; rfl))
    refine (expect_clear (by decide)).bind fun r hname => ?_
    have hs := hs.takes (expect_takes hname (by decide))
    exact (readFrom_clear hends hs).bind fun _ _ => clear_ok _
  · exact clear_error (by simp [SyntaxFault.OfBrace, fault])

theorem scoped_of_read {f : SourceFile} (h : Token.tokenize chars = .ok tokens)
    (hn : Matched (tokens.map Token.kind)) (hends : ConstSpec.allEndInside tokens = true)
    (hr : read info path chars = .ok f) : f.Scoped tokens := by
  obtain ⟨htext, init, clause, name, d, e, htokens, htile, hpass, hclause, hname, hreads⟩ :=
    read_eq_ok hr
  obtain rfl := Except.ok.inj (h.symm.trans htokens)
  have hplain : Matched ((clause ++ [name]).map Token.kind) := by
    refine matched_of_plain (List.forall_mem_map.mpr (List.forall_mem_append.mpr ⟨fun t ht => ?_, ?_⟩))
    · have all : ∀ k ∈ [TokenKind.lineBreak, .comment, .semicolon, .ident], k.IsPlain := by decide
      exact all _ (hclause t ht)
    · rw [List.forall_mem_singleton, hname]
      decide
  have hs := (stands_start htile _ rfl hn).takes ⟨_, hpass, hplain⟩
  have ho : Over f.text d := by
    rw [htext]
    exact Over.passes (c := ⟨[], init, Text.byteLen chars⟩) htile hpass
  have hspan := (hreads.finished hends hs).kept rfl
  obtain ⟨hend, q, hformed, hq, -⟩ := hreads.formed hends hs ho (Nat.zero_le _)
    (formed_empty rfl rfl rfl)
  have hsize : e.lastStop ≤ Text.byteLen chars := by
    have hle := hend.boundary.le
    rwa [htext] at hle
  exact scoped_of_formed (hformed.mono (.refl _) (by rw [hspan]) (by rw [hspan]; exact hq.trans hsize))

/-- A file whose brackets nest, and whose constants end before the bracket is closed that they stand in,
does not fail for a closing brace. Where it is read, its blocks are the pairs of braces that hold its
declarations. -/
theorem read_scoped (h : Token.tokenize chars = .ok tokens) (hn : Matched (tokens.map Token.kind))
    (hends : ConstSpec.allEndInside tokens = true) :
    Clear (read info path chars) ∧ ∀ f, read info path chars = .ok f → f.Scoped tokens :=
  ⟨read_clear h hn hends, fun _ hr => scoped_of_read h hn hends hr⟩

/-- A constant in a block, and a type in a block inside of that one. -/
def blockText : List Char :=
  "package a\nfunc f() \x7b\nconst n = m\n\x7btype T int\x7d\x7d\n".toList

def blockTokens : List Token :=
  [⟨.ident, 0, "package"⟩, ⟨.ident, 8, "a"⟩, ⟨.lineBreak, 9, "\n"⟩, ⟨.ident, 10, "func"⟩,
    ⟨.ident, 15, "f"⟩, ⟨.lparen, 16, "("⟩, ⟨.rparen, 17, ")"⟩, ⟨.lbrace, 19, "\x7b"⟩,
    ⟨.lineBreak, 20, "\n"⟩, ⟨.ident, 21, "const"⟩, ⟨.ident, 27, "n"⟩, ⟨.assign, 29, "="⟩,
    ⟨.ident, 31, "m"⟩, ⟨.lineBreak, 32, "\n"⟩, ⟨.lbrace, 33, "\x7b"⟩, ⟨.ident, 34, "type"⟩,
    ⟨.ident, 39, "T"⟩, ⟨.ident, 41, "int"⟩, ⟨.rbrace, 44, "\x7d"⟩, ⟨.rbrace, 45, "\x7d"⟩,
    ⟨.lineBreak, 46, "\n"⟩, ⟨.eof, 47, ""⟩]

def blockInfo : FileInfo :=
  ⟨"a.go", 1, 47, [0, 10, 21, 33, 47]⟩

def blockFile : SourceFile where
  path := "a.go"
  package := "a"
  text := ⟨blockText, blockInfo⟩
  root :=
    { span := ⟨0, 47⟩
      blocks :=
        [{ span := ⟨19, 46⟩
           consts := [⟨"n", none⟩]
           blocks :=
            [{ span := ⟨33, 45⟩
               specs :=
                [{ name := "T", pos := 40, isAlias := false, isGeneric := false, ty := .ref none "int",
                   tySpan := ⟨41, 44⟩, doc := [], docSpan := ⟨34, 34⟩, comment := [],
                   commentSpan := ⟨44, 44⟩, indent := "" }] }] }] }

theorem read_scoped_blocks : Token.tokenize blockText = .ok blockTokens ∧
    read blockInfo "a.go" blockText = .ok blockFile ∧ blockFile.Scoped blockTokens ∧
      blockFile.root.inner.map Block.span = [⟨19, 46⟩, ⟨33, 45⟩] := by
  have htokens : Token.tokenize blockText = .ok blockTokens := by cbv
  have hread : read blockInfo "a.go" blockText = .ok blockFile := by cbv
  have hscoped := (read_scoped htokens (by decide) (by decide)).2 blockFile hread
  exact ⟨htokens, hread, hscoped, rfl⟩

/-- A constant on the line of its block takes the brace that closes the block, and the file ends in
search of it. -/
theorem read_unclosed :
    let chars := "package a\nfunc f() \x7b const a = 1 \x7d\n".toList
    ∃ tokens, Token.tokenize chars = .ok tokens ∧ Matched (tokens.map Token.kind) ∧
      read (.ofText "a.go" 1 chars) "a.go" chars =
        .error ⟨⟨"a.go", 35, 3, 1⟩, .endOfFile "\x7d"⟩ := by
  refine ⟨[⟨.ident, 0, "package"⟩, ⟨.ident, 8, "a"⟩, ⟨.lineBreak, 9, "\n"⟩, ⟨.ident, 10, "func"⟩,
    ⟨.ident, 15, "f"⟩, ⟨.lparen, 16, "("⟩, ⟨.rparen, 17, ")"⟩, ⟨.lbrace, 19, "\x7b"⟩,
    ⟨.ident, 21, "const"⟩, ⟨.ident, 27, "a"⟩, ⟨.assign, 29, "="⟩, ⟨.int, 31, "1"⟩,
    ⟨.rbrace, 33, "\x7d"⟩, ⟨.lineBreak, 34, "\n"⟩, ⟨.eof, 35, ""⟩], ?_, ?_, ?_⟩
  · cbv
  · decide
  · cbv

end SourceFile

end StructLayout
