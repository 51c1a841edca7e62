import StructLayout.Proofs.Source.Fields
import StructLayout.Proofs.Source.Integers
import StructLayout.Proofs.Source.Sync

/-!
The declarations of a curated struct can be written anywhere: the old ones, and those of paddings.
-/

namespace StructLayout

open Text Token

/-! ## Paddings -/

theorem Token.numberTail_digits {before : Char} {ds rest : List Char}
    (hd : ∀ c ∈ ds, c.isDigit = true) (hr : ∀ b, ∀ c ∈ rest.head?, continues b c = false) :
    numberTail before false (ds ++ rest) = (false, ds.length) := by
  induction ds generalizing before with
  | nil =>
      cases rest with
      | nil => rfl
      | cons c rest => rw [List.nil_append, numberTail_cons, hr _ c rfl]; rfl
  | cons d ds ih =>
      obtain ⟨hd, hds⟩ := List.forall_mem_cons.mp hd
      have hword : d.isAlphanum = true := by simp [Char.isAlphanum, hd]
      rw [List.cons_append, numberTail_cons, if_pos (by simp [continues, hword]), hword]
      rw [show (false || !(true || d == '_')) = false from rfl, ih hds]
      rfl

theorem Token.fills_digits {ds rest : List Char} (hne : ds ≠ []) (hd : ∀ c ∈ ds, c.isDigit = true)
    (hr : ∀ b, ∀ c ∈ rest.head?, continues b c = false) (a : Nat) :
    Fills rest a ds [⟨.int, a, String.ofList ds⟩] := by
  cases ds with
  | nil => exact absurd rfl hne
  | cons d ds =>
      obtain ⟨hdigit, hds⟩ := List.forall_mem_cons.mp hd
      have hnumber : number d (ds ++ rest) = (.int, ds.length) := by
        have hdot : (d == '.') = false := by
          simpa using ne_of_isDigit hdigit rfl
        rw [number, hdot, numberTail_digits hds hr]
        rfl
      have hgap : isGap d = false := by
        simp only [isGap, Bool.or_eq_false_iff, beq_eq_false_iff_ne]
        exact ⟨⟨ne_of_isDigit hdigit rfl, ne_of_isDigit hdigit rfl⟩, ne_of_isDigit hdigit rfl⟩
      refine fills_scanned hgap ?_ a
      have : Scanned d (ds ++ rest) (number d (ds ++ rest)).1 (number d (ds ++ rest)).2 :=
        .number (.inl hdigit)
      rwa [hnumber] at this

namespace FieldDecl

open Cursor Lexeme

theorem pad_tyText (size : Nat) :
    (pad size).tyText.toList = '[' :: (Nat.toDigits 10 size ++ ']' :: "byte".toList) := by
  show ("[" ++ toString size ++ "]" ++ "byte").toList = _
  rw [Nat.toString_eq_ofList_toDigits]
  simp

/-- The tokens of the type of a padding. -/
def padTokens (size : Nat) : List Token :=
  let digits := Nat.toDigits 10 size
  let first := 0 + byteLen ['[']
  let close := first + byteLen digits
  [⟨.lbrack, 0, "["⟩, ⟨.int, first, String.ofList digits⟩, ⟨.rbrack, close, "]"⟩,
    ⟨.ident, close + byteLen [']'], "byte"⟩]

theorem pad_spells (size : Nat) : Spells (pad size).tyText.toList (padTokens size) := by
  have hdigits := toDigits_isDigit size
  have hbracket : ∀ b, ∀ c ∈ ([']'] ++ "byte".toList ++ []).head?, continues b c = false := by
    rintro b c hc
    cases hc
    rfl
  have hname : IsName "byte" := ⟨'b', "yte".toList, rfl, rfl, rfl, List.all_eq_true.mp rfl⟩
  have hbyte (a : Nat) : Fills [] a "byte".toList [⟨.ident, a, "byte"⟩] := hname.fills (by simp) a
  have hclose (a : Nat) : Fills ("byte".toList ++ []) a [']'] [⟨.rbrack, a, "]"⟩] :=
    fills_delimiter rfl (by decide) a _
  have hopen : Fills (Nat.toDigits 10 size ++ ([']'] ++ "byte".toList) ++ []) 0 ['[']
      [⟨.lbrack, 0, "["⟩] := fills_delimiter rfl (by decide) 0 _
  have hfills : Fills [] 0 (['['] ++ (Nat.toDigits 10 size ++ ([']'] ++ "byte".toList)))
      (padTokens size) :=
    hopen.append ((fills_digits Nat.toDigits_ne_nil hdigits hbracket _).append
      ((hclose _).append (hbyte _)))
  have hlast : (padTokens size).getLast? = some ⟨.ident,
      0 + byteLen ['['] + byteLen (Nat.toDigits 10 size) + byteLen [']'], "byte"⟩ := rfl
  rw [pad_tyText]
  refine hfills.spells rfl hlast ?_ List.mem_cons_self
  rw [stop_eq]
  simp only [byteLen_append, Nat.add_assoc]

/-- The type of a padding is read as an array of bytes. -/
theorem pad_hasType {size : Nat} (h : size < wordBound) {d : FieldDecl}
    (hnames : d.names = [padName]) (hty : d.ty = padExpr size) : d.HasType (padTokens size) := by
  refine ⟨fun {s} {a} {c} {more} _ hc hmore => ?_, .tail _ (.tail _ (.head _)), ?_, ?_⟩
  · have hopen := next_of_ahead hc
    have hlexemes : c.next.lexemes = [⟨.int, String.ofList (Nat.toDigits 10 size)⟩] ++
        ⟨.rbrack, "]"⟩ :: ⟨.ident, "byte"⟩ :: more.map Token.lexeme := by
      rw [Cursor.lexemes, hopen.2.1]
      rfl
    obtain ⟨us, close, hl, hus, hclose⟩ :=
      readLength_of_inside (s := s) (by simp [Inside]) hlexemes
    obtain ⟨rfl, hahead⟩ := (readLength_eq_ok hl).1.split
      (show c.next.ahead = [_] ++ _ from hopen.2.1) hclose
    have harray : arrayLen s [(⟨.int, 0 + byteLen ['['],
        String.ofList (Nat.toDigits 10 size)⟩ : Token).moved 0 a] = some (.literal size) := by
      show (Literal.parseInt (String.ofList (Nat.toDigits 10 size)).toList).map _ = _
      rw [String.toList_ofList, Literal.parseInt_toDigits h]
      rfl
    have hbyte := next_of_ahead hahead
    have hk : close.1.next.next.kind = headKind (more.map Token.lexeme) := by
      rw [kind_eq, Cursor.lexemes, (next_of_ahead hbyte.2.1).2.1]
      rfl
    have htext : close.1.next.token.text = "byte" := by rw [(next_of_ahead hbyte.2.1).1]; rfl
    have hstop {kind : TokenKind} (hg : kind ∈ goesOn) : close.1.next.next.kind ≠ kind := by
      rintro rfl
      exact hmore (hk ▸ hg)
    have hqualified : close.1.next.next.readQualified s close.1.next.token.text =
        .ok (none, "byte", close.1.next.next.here) := by
      rw [htext, readQualified, if_neg (hstop (by decide))]
      rfl
    have helem : TypeExpr.ReadsTo s close.1.next (.ref none "byte") close.1.next.next :=
      TypeExpr.readsTo_ref (kind_of_ahead hbyte.2.1) (by rw [htext]; decide) hqualified
        (hstop (by decide))
    refine ⟨_, _, TypeExpr.readsTo_array (kind_of_ahead hc) ?_ hl harray helem, ?_,
      (next_of_ahead hbyte.2.1).2.1⟩
    · rw [kind_of_ahead hopen.2.1]
      rintro ⟨⟩
    · rw [hty]
      rfl
  · rw [hnames]
    rintro ⟨⟩
  · rw [hnames]
    rintro ⟨⟩

end FieldDecl

/-! ## Synced fields -/

theorem Comments.filter {isOpen : Bool} {cs : List String} (h : Comments isOpen cs)
    (p : String → Bool) :
    ∃ isOpen', Comments isOpen' (cs.filter p) ∧ (isOpen' = true → isOpen = true) := by
  induction h with
  | nil => exact ⟨false, .nil, id⟩
  | @block isOpen c cs hc _ ih =>
      obtain ⟨isOpen', h, hopen⟩ := ih
      cases hp : p c with
      | true => exact ⟨isOpen', by rw [List.filter_cons_of_pos hp]; exact .block hc h, hopen⟩
      | false => exact ⟨isOpen', by rw [List.filter_cons_of_neg (by simp [hp])]; exact h, hopen⟩
  | @line c cs hc hcs =>
      have hall : ∀ d ∈ (c :: cs).filter p, IsLineComment d.toList := by
        intro d hd
        rcases List.mem_cons.mp (List.mem_filter.mp hd).1 with rfl | hd
        · exact hc
        · exact hcs d hd
      generalize (c :: cs).filter p = ds at hall
      cases ds with
      | nil => exact ⟨false, .nil, fun _ => rfl⟩
      | cons d ds =>
          obtain ⟨hd, hds⟩ := List.forall_mem_cons.mp hall
          exact ⟨true, .line hd hds, fun _ => rfl⟩

theorem Comments.append {isOpen : Bool} {cs notes : List String} (h : Comments isOpen cs)
    (hn : ∀ note ∈ notes, IsLineComment note.toList) :
    ∃ isOpen', Comments isOpen' (cs ++ notes) ∧
      (isOpen' = true → isOpen = true ∨ notes ≠ []) := by
  induction h with
  | nil =>
      cases notes with
      | nil => exact ⟨false, .nil, .inl⟩
      | cons note notes =>
          obtain ⟨hnote, hnotes⟩ := List.forall_mem_cons.mp hn
          exact ⟨true, .line hnote hnotes, fun _ => .inr (List.cons_ne_nil _ _)⟩
  | block hc _ ih =>
      obtain ⟨isOpen', h, hopen⟩ := ih
      exact ⟨isOpen', .block hc h, hopen⟩
  | line hc hcs =>
      refine ⟨true, .line hc fun d hd => ?_, fun _ => .inl rfl⟩
      rcases List.mem_append.mp hd with hd | hd
      · exact hcs d hd
      · exact hn d hd

namespace FieldDecl

variable {structName : String} {ds flat : List FieldDecl}

theorem flatten_spelled (h : flatten structName ds = .ok flat) (hs : ∀ d ∈ ds, d.Spelled) :
    ∀ d ∈ flat, d.Spelled := by
  induction ds generalizing flat with
  | nil => cases h; simp
  | cons d ds ih =>
      obtain ⟨hd, hs⟩ := List.forall_mem_cons.mp hs
      unfold flatten at h
      cases hr : flatten structName ds with
      | error e => rw [hr] at h; split at h <;> (try split at h) <;> cases h
      | ok rest =>
          rw [hr] at h
          split at h
          · split at h
            · cases h
            · cases h
              exact List.forall_mem_cons.mpr ⟨hd, ih hr hs⟩
          · cases h
            intro e he
            rcases List.mem_append.mp he with he | he
            · obtain ⟨i, hi, rfl⟩ := List.mem_mapIdx.mp he
              refine ⟨?_, ?_, hd.tag, ?_, hd.comment⟩
              · intro name hn
                rw [List.mem_singleton.mp hn]
                exact hd.names _ (List.getElem_mem hi)
              · obtain ⟨ts, hts, htype⟩ := hd.type
                refine ⟨ts, hts, htype.reads, htype.first, ?_, ?_⟩ <;> rintro ⟨⟩
              · intro line hl
                dsimp only at hl
                split at hl
                · exact hd.doc line hl
                · cases hl
            · exact ih hr hs e he

theorem isTag_tagLiteral (tag : String) : ∀ text ∈ tagLiteral tag, IsTag text := by
  intro text ht
  unfold tagLiteral at ht
  split at ht
  · cases ht
  · cases ht
    exact isTag_quoteTag _

/-- The declaration of a curated field can be written anywhere. -/
theorem Synced.spelled {f : Field} {d : FieldDecl} (h : Synced flat f d)
    (hflat : ∀ d ∈ flat, d.Spelled) (hdoc : ∀ line ∈ f.doc, IsLineComment line.toList)
    (hcomment : ∀ line ∈ f.comment, IsLineComment line.toList)
    (hsize : f.isPadding = true → f.size < wordBound) : d.Spelled := by
  unfold Synced at h
  split at h
  · rename_i hpad
    obtain ⟨isOpen, hc, -⟩ := Comments.nil.append hcomment
    rw [h]
    refine ⟨fun name hn => ?_, ⟨padTokens f.size, pad_spells f.size,
      pad_hasType (hsize hpad) rfl rfl⟩, isTag_tagLiteral f.tag,
      fun line hl => .inl (hdoc line hl), isOpen, hc⟩
    rw [List.mem_singleton.mp hn]
    exact ⟨'_', [], rfl, by decide, rfl, by simp⟩
  · obtain ⟨old, hm, -, rfl⟩ := h
    obtain ⟨hnames, htype, -, holddoc, isOpen, hc⟩ := hflat old hm
    obtain ⟨isOpen', hc, -⟩ := hc.filter fun line => !isStamped line
    obtain ⟨isOpen'', hc, -⟩ := hc.append hcomment
    refine ⟨hnames, ?_, isTag_tagLiteral f.tag, fun line hl => ?_, isOpen'', hc⟩
    · obtain ⟨ts, hts, hreads, hfirst, hstart, hemb⟩ := htype
      exact ⟨ts, hts, hreads, hfirst, hstart, hemb⟩
    · rcases List.mem_append.mp hl with hl | hl
      · exact holddoc line (List.mem_filter.mp hl).1
      · exact .inl (hdoc line hl)

end FieldDecl

end StructLayout
