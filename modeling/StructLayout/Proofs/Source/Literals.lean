import StructLayout.Proofs.Source.Spelling
import StructLayout.Proofs.Source.Sync
import StructLayout.Resolve

/-!
Tags as they are written and read back. A tag is always written as one literal, whose value can be
read. It is another value than the tag if a raw literal holds a carriage return, which is dropped, or
if a quoted one holds a character that is written by its code point, which is read as it is written.
-/

namespace StructLayout

open Text

namespace Literal

/-- A character that is read back from between quotes as itself. -/
def isShown (c : Char) : Bool :=
  isPrintable c || ['\n', '\r', '\t', '\x00'].contains c

/-- What is read back of a character between quotes. -/
def reread (c : Char) : List Char :=
  if isShown c then [c] else escape c

/-- The characters of a tag are in its literal, or are written by escapes that are read back. -/
def Keeps (tag : List Char) : Prop :=
  if tag.contains '\x60' || tag.contains '\n' then ∀ c ∈ tag, isShown c = true else '\r' ∉ tag

instance (tag : List Char) : Decidable (Keeps tag) :=
  inferInstanceAs (Decidable (ite _ _ _))

/-! ## The value between quotes -/

theorem unescape_cons {c : Char} (hc : c ≠ '\\') (cs : List Char) :
    unescape (c :: cs) = (unescape cs).map (c :: ·) := by
  rw [unescape.eq_def]
  split <;> simp_all

theorem unescape_plain {cs : List Char} (h : '\\' ∉ cs) (rest : List Char) :
    unescape (cs ++ rest) = (unescape rest).map (cs ++ ·) := by
  induction cs with
  | nil => simp
  | cons c cs ih =>
    obtain ⟨hc, hcs⟩ := not_or.mp (List.mem_cons.not.mp h)
    rw [List.cons_append, unescape_cons (Ne.symm hc), ih hcs, Option.map_map]
    rfl

/-- A code point has no backslash in it, so that only the one in front of it is looked at. -/
theorem unescape_codePoint (n : Nat) (rest : List Char) :
    let code := ['\\', 'u', '\x7b'] ++ Nat.toDigits 16 n ++ ['\x7d']
    unescape (code ++ rest) = (unescape rest).map (code ++ ·) := by
  intro code
  have hplain : '\\' ∉ '\x7b' :: (Nat.toDigits 16 n ++ ['\x7d']) := by
    intro h
    rcases List.mem_cons.mp h with h | h
    · cases h
    · rcases List.mem_append.mp h with h | h
      · exact (toDigits_plain n _ h).2.1 rfl
      · cases List.mem_singleton.mp h
  have hcode : code = '\\' :: 'u' :: '\x7b' :: (Nat.toDigits 16 n ++ ['\x7d']) := by
    simp [code]
  have hfirst (cs : List Char) : unescape ('\\' :: 'u' :: cs) = (unescape cs).map (['\\', 'u'] ++ ·) := rfl
  rw [hcode, List.cons_append, List.cons_append, hfirst, unescape_plain hplain, Option.map_map]
  rfl

theorem unescape_escape_append (c : Char) (rest : List Char) :
    unescape (escape c ++ rest) = (unescape rest).map (reread c ++ ·) := by
  unfold reread escape
  split
  · rfl
  · rfl
  · rfl
  · rfl
  · rfl
  · rfl
  · rename_i hquote hback hbreak hreturn htab hzero
    by_cases hp : isPrintable c = true
    · rw [if_pos hp, if_pos (by simp [isShown, hp])]
      exact unescape_cons hback rest
    · have hhidden : ¬isShown c = true := by
        simpa [isShown, hp] using ⟨hbreak, hreturn, htab, hzero⟩
      rw [if_neg hp, if_neg hhidden]
      exact unescape_codePoint c.toNat rest

theorem unescape_escaped (tag : List Char) :
    unescape (tag.flatMap escape) = some (tag.flatMap reread) := by
  induction tag with
  | nil => rfl
  | cons c tag ih =>
    rw [List.flatMap_cons, List.flatMap_cons, unescape_escape_append, ih]
    rfl

/-- What is not read back as itself begins with a backslash, which is. -/
theorem head?_reread {c : Char} (h : ¬isShown c = true) : (reread c).head? = some '\\' := by
  rw [reread, if_neg h]
  unfold escape
  split
  · exact absurd rfl h
  · rfl
  · rfl
  · rfl
  · rfl
  · rfl
  · have hp : ¬isPrintable c = true := fun hp => h (by simp [isShown, hp])
    rw [if_neg hp]
    rfl

theorem flatMap_reread_eq_self {tag : List Char} :
    tag.flatMap reread = tag ↔ ∀ c ∈ tag, isShown c = true := by
  induction tag with
  | nil => simp
  | cons c tag ih =>
    rw [List.flatMap_cons, List.forall_mem_cons, ← ih]
    by_cases hc : isShown c = true
    · simp [reread, hc]
    · refine iff_of_false (fun h => ?_) fun h => hc h.1
      have hhead := head?_reread hc
      cases hr : reread c with
      | nil =>
        rw [hr] at hhead
        cases hhead
      | cons d ds =>
        rw [hr] at h hhead
        cases hhead
        obtain rfl : '\\' = c := (List.cons.inj h).1
        exact hc rfl

/-! ## The value of a tag -/

theorem isBetween_append (mark : Char) (cs : List Char) :
    isBetween mark (mark :: (cs ++ [mark])) = true := by
  simp [isBetween, List.getLast?_cons]

theorem inner_append (mark : Char) (cs : List Char) :
    (mark :: (cs ++ [mark])).tail.dropLast = cs :=
  List.dropLast_concat

theorem unquote_quote (tag : List Char) : unquote (quote tag) = some (tag.flatMap reread) := by
  have hraw : ¬isBetween '\x60' (quote tag) = true := by
    simp [isBetween, quote]
  rw [unquote, if_neg hraw]
  show (if isBetween '"' ('"' :: (tag.flatMap escape ++ ['"'])) then
    unescape ('"' :: (tag.flatMap escape ++ ['"'])).tail.dropLast else none) = _
  rw [if_pos (isBetween_append _ _), inner_append, unescape_escaped]

theorem unquote_raw (tag : List Char) :
    unquote ('\x60' :: (tag ++ ['\x60'])) = some (tag.filter (· != '\r')) := by
  rw [unquote, if_pos (isBetween_append _ _), inner_append]

/-- A tag as it is read back. -/
def reloaded (tag : List Char) : List Char :=
  if tag.contains '\x60' || tag.contains '\n' then tag.flatMap reread else tag.filter (· != '\r')

theorem unquote_quoteTag (tag : List Char) : unquote (quoteTag tag) = some (reloaded tag) := by
  unfold quoteTag reloaded
  split
  · exact unquote_quote tag
  · exact unquote_raw tag

theorem reloaded_eq_self {tag : List Char} : reloaded tag = tag ↔ Keeps tag := by
  unfold reloaded Keeps
  split
  · exact flatMap_reread_eq_self
  · rw [List.filter_eq_self]
    constructor
    · intro h hm
      exact absurd (h _ hm) (by decide)
    · intro h c hc
      rw [bne_iff_ne]
      rintro rfl
      exact h hc

end Literal

/-! ## Tags that are written and read back -/

namespace Token

/-- A token that goes no further than to some text is read in front of the tokens of that text. -/
theorem Ends.tokensFrom {t : Token} {rest : List Char} (h : t.Ends rest) :
    tokensFrom t.start (t.text.toList ++ rest) = (tokensFrom t.stop rest).map (t :: ·) := by
  obtain ⟨c, cs, ht, hg, hs⟩ := h
  have htext : String.ofList (c :: cs) = t.text := by rw [← ht, String.ofList_toList]
  rw [stop_eq, ht, List.cons_append, Token.tokensFrom, if_neg (by simp [hg]), scan_of_scanned hs]
  dsimp only
  rw [List.take_left, List.drop_left, htext]
  cases Token.tokensFrom (t.start + byteLen (c :: cs)) rest <;> rfl

end Token

namespace FieldDecl

/-- A declaration with the literal of a tag makes fields with the value of the literal. -/
theorem tag_typed {d : FieldDecl} {tag : String} (h : d.tag = tagLiteral tag) (ty : Ty) :
    ∀ x ∈ d.typed ty, x.tag = String.ofList (Literal.reloaded tag.toList) := by
  have hvalue : ((d.tag.bind fun t => Literal.unquote t.toList).map String.ofList).getD "" =
      String.ofList (Literal.reloaded tag.toList) := by
    rw [h, tagLiteral]
    split
    · rename_i he
      rw [String.isEmpty_iff.mp he]
      rfl
    · rw [Option.bind_some, String.toList_ofList, Literal.unquote_quoteTag]
      rfl
  unfold typed
  dsimp only
  rw [hvalue]
  intro x hx
  split at hx
  · rw [List.mem_singleton.mp hx]
  · obtain ⟨name, -, rfl⟩ := List.mem_map.mp hx
    rfl

end FieldDecl

namespace Literal

/-- The token that a tag is written as, from a byte on. -/
def token (tag : List Char) (a : Nat) : Token :=
  ⟨tagKind tag, a, String.ofList (quoteTag tag)⟩

theorem tokensFrom_quoteTag (tag : List Char) (a : Nat) (rest : List Char) :
    Token.tokensFrom a (quoteTag tag ++ rest) =
      (Token.tokensFrom (a + byteLen (quoteTag tag)) rest).map (token tag a :: ·) := by
  have h := (quoteTag_ends tag a rest).tokensFrom
  rwa [Token.stop_eq, String.toList_ofList] at h

/-- Every tag is written as one literal, in front of whatever follows it, and the literal has a
value. The value is the tag if and only if all of the tag is kept, and so is the tag of the fields of
a declaration with the literal that was taken over. -/
theorem quoteTag_read_back (tag : String) :
    (tagKind tag.toList = .string ∨ tagKind tag.toList = .rawString) ∧
      Token.tokenize (quoteTag tag.toList) =
        .ok [token tag.toList 0, ⟨.eof, byteLen (quoteTag tag.toList), ""⟩] ∧
      (∀ a rest, Token.tokensFrom a (quoteTag tag.toList ++ rest) =
        (Token.tokensFrom (a + byteLen (quoteTag tag.toList)) rest).map (token tag.toList a :: ·)) ∧
      (∃ value, unquote (quoteTag tag.toList) = some value ∧
        (value = tag.toList ↔ Keeps tag.toList)) ∧
      ∀ (old d : FieldDecl) (f : Field) (ty : Ty), f.tag = tag → d.tag = (old.take f).tag →
        ∀ x ∈ d.typed ty, x.tag = tag ↔ Keeps tag.toList := by
  refine ⟨tagKind_eq _, ?_, tokensFrom_quoteTag _, ⟨_, unquote_quoteTag _, reloaded_eq_self⟩, ?_⟩
  · have h := tokensFrom_quoteTag tag.toList 0 []
    rw [List.append_nil, Nat.zero_add] at h
    rw [Token.tokenize, h, Token.tokensFrom]
    rfl
  · rintro old d f ty rfl hd x hx
    rw [FieldDecl.tag_typed hd ty x hx, String.ofList_eq, reloaded_eq_self]

/-- A field of one byte with a tag. -/
def tagged (tag : String) : Field :=
  { name := "a", typeName := "int8", size := 1, align := 1, tag }

theorem quoteTag_read_back_backquote :
    let f := tagged "json:\"\x60\"\t"
    let d := (FieldDecl.int8 ["a"] []).take f
    Token.tokenize (quoteTag f.tag.toList) =
        .ok [⟨.string, 0, "\"json:\\\"\x60\\\"\\t\""⟩, ⟨.eof, 14, ""⟩] ∧
      unquote (quoteTag f.tag.toList) = some f.tag.toList ∧
      ∀ x ∈ d.typed (.basic .int8), x.tag = f.tag := by
  intro f d
  obtain ⟨-, htokens, -, ⟨value, hvalue, hkept⟩, hfields⟩ := quoteTag_read_back f.tag
  have hshown : f.tag.toList.all isShown = true := by cbv
  have hkeeps : Keeps f.tag.toList := by
    rw [Keeps, if_pos (by decide)]
    exact List.all_eq_true.mp hshown
  refine ⟨htokens.trans (by cbv), ?_, fun x hx => ?_⟩
  · rw [hvalue, hkept.mpr hkeeps]
  · exact (hfields (.int8 ["a"] []) d f (.basic .int8) rfl rfl x hx).mpr hkeeps

/-- A carriage return between raw quotes is lost. A bell behind a backquote comes back as its code
point. -/
theorem quoteTag_changes :
    unquote (quoteTag "a\rb".toList) = some "ab".toList ∧
      (((FieldDecl.int8 ["a"] []).take (tagged "a\rb")).typed (.basic .int8)).map TyField.tag =
        ["ab"] ∧
      unquote (quoteTag "\x60\x07".toList) = some "\x60\\u\x7b7\x7d".toList := by
  refine ⟨by decide, by decide, by decide⟩

end Literal

end StructLayout
