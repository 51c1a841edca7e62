import StructLayout.Proofs.Check.Fresh

/-!
A package does not depend on the order of its files, where no two of them declare a name. Every name
means the same in the frames of both orders, so the same is found from scratch for every
declaration, and the scopes differ in the order of the blocks alone.
-/

namespace StructLayout

/-! ## Innermost declarations -/

section

variable {front outer : List Frame} {f : Frame} {name : String}

/-- A name means its declaration in the first frame that has one. -/
theorem lookupType?_innermost {d : Declared} (hfront : ∀ g ∈ front, g.types.lookup name = none)
    (hf : f.types.lookup name = some d) :
    lookupType? name (front ++ f :: outer) = some (d, f :: outer) := by
  induction front with
  | nil => simp [lookupType?, hf]
  | cons g front ih =>
    obtain ⟨hg, hfront⟩ := List.forall_mem_cons.mp hfront
    simp [lookupType?, hg, ih hfront]

/-- The value of a constant is the one in the first frame that has its name. -/
theorem lookupConst?_innermost {value : Option Nat}
    (hfront : ∀ g ∈ front, g.consts.lookup name = none) (hf : f.consts.lookup name = some value) :
    lookupConst? name (front ++ f :: outer) = value := by
  induction front with
  | nil => simp [lookupConst?, hf]
  | cons g front ih =>
    obtain ⟨hg, hfront⟩ := List.forall_mem_cons.mp hfront
    simp [lookupConst?, hg, ih hfront]

end

/-! ## Frames that say the same -/

/-- Every name means the same in both frames. -/
structure Frame.Same (f g : Frame) : Prop where
  types : ∀ name, f.types.lookup name = g.types.lookup name
  consts : ∀ name, f.consts.lookup name = g.consts.lookup name

theorem Frame.same_refl (f : Frame) : f.Same f :=
  ⟨fun _ => rfl, fun _ => rfl⟩

section

variable {pending pending' : List Nat} {env env' : List Frame}

theorem lookupType?_same (h : List.Forall₂ Frame.Same env env') (name : String) :
    Option.Rel (fun a b => a.1 = b.1 ∧ List.Forall₂ Frame.Same a.2 b.2)
      (lookupType? name env) (lookupType? name env') := by
  induction h with
  | nil => exact .none
  | @cons f g env env' hfg henv ih =>
    unfold lookupType?
    rw [← hfg.types name]
    cases f.types.lookup name with
    | some d => exact .some ⟨rfl, .cons hfg henv⟩
    | none => exact ih

theorem lookupConst?_same (h : List.Forall₂ Frame.Same env env') (name : String) :
    lookupConst? name env = lookupConst? name env' := by
  induction h with
  | nil => rfl
  | @cons f g env env' hfg _ ih =>
    unfold lookupConst?
    rw [← hfg.consts name]
    cases f.consts.lookup name with
    | some value => rfl
    | none => exact ih

theorem arrayLength_same (h : List.Forall₂ Frame.Same env env') (len : ArrayLen) :
    arrayLength env len = arrayLength env' len := by
  cases len with
  | const name => rw [arrayLength, arrayLength, lookupConst?_same h]
  | _ => rfl

end

mutual

theorem findExpr_same {pending pending' : List Nat} {env env' : List Frame}
    (hp : ∀ p, p ∈ pending ↔ p ∈ pending') (h : List.Forall₂ Frame.Same env env') :
    (e : TypeExpr) → findExpr pending env e = findExpr pending' env' e
  | .ref (some pkg) name => by rw [findExpr, findExpr]
  | .ref none name => by
    have hl := lookupType?_same h name
    rw [findExpr, findExpr]
    generalize lookupType? name env = found at hl
    generalize lookupType? name env' = found' at hl
    cases hl with
    | none => rfl
    | @some a b hab =>
      obtain ⟨d, outer⟩ := a
      obtain ⟨d', outer'⟩ := b
      obtain ⟨rfl, houter⟩ : d = d' ∧ _ := hab
      exact findDecl_same hp houter d
  | .pointer _ | .slice _ | .map .. | .chan _ | .func _ | .interface _ | .generic .. => by
    rw [findExpr, findExpr]
  | .array len elem => by
    rw [findExpr, findExpr, arrayLength_same h, findExpr_same hp h elem]
  | .struct ⟨_, fields, _, _, _⟩ => by
    rw [findExpr, findExpr, findFields_same hp h fields]
termination_by e => (pending.length, sizeOf e + 1)

theorem findFields_same {pending pending' : List Nat} {env env' : List Frame}
    (hp : ∀ p, p ∈ pending ↔ p ∈ pending') (h : List.Forall₂ Frame.Same env env') :
    (ds : List FieldDecl) → findFields pending env ds = findFields pending' env' ds
  | [] => by rw [findFields, findFields]
  | d :: ds => by
    rw [findFields, findFields, findField_same hp h d, findFields_same hp h ds]
termination_by ds => (pending.length, sizeOf ds + 1)

theorem findField_same {pending pending' : List Nat} {env env' : List Frame}
    (hp : ∀ p, p ∈ pending ↔ p ∈ pending') (h : List.Forall₂ Frame.Same env env') :
    (d : FieldDecl) → findField pending env d = findField pending' env' d
  | ⟨names, pos, ty, tyText, tag, doc, comment⟩ => by
    rw [findField, findField, findExpr_same hp h ty]
termination_by d => (pending.length, sizeOf d + 1)

theorem findDecl_same {pending pending' : List Nat} {env env' : List Frame}
    (hp : ∀ p, p ∈ pending ↔ p ∈ pending') (h : List.Forall₂ Frame.Same env env') (d : Declared) :
    findDecl pending env d = findDecl pending' env' d := by
  rw [findDecl, findDecl]
  split
  · rfl
  · by_cases hd : d.spec.pos ∈ pending
    · have hfilter : ∀ p, p ∈ pending.filter (· != d.spec.pos) ↔
          p ∈ pending'.filter (· != d.spec.pos) := by
        intro p
        rw [List.mem_filter, List.mem_filter, hp]
      rw [dif_pos hd, dif_pos ((hp _).mp hd), findExpr_same hfilter h d.spec.ty]
    · rw [dif_neg hd, dif_neg (mt (hp _).mpr hd)]
termination_by (pending.length, 0)
decreasing_by exact Prod.Lex.left _ _ (length_filter_ne_lt ‹_›)

end

theorem object?_same {pending pending' : List Nat} (hp : ∀ p, p ∈ pending ↔ p ∈ pending')
    {env env' : List Frame} (h : List.Forall₂ Frame.Same env env') :
    object? pending env = object? pending' env' := by
  funext d
  rw [object?, object?, findDecl_same hp h]

theorem recurs_same {pending pending' : List Nat} (hp : ∀ p, p ∈ pending ↔ p ∈ pending')
    {env env' : List Frame} (h : List.Forall₂ Frame.Same env env') (d : Declared) :
    Site.Recurs pending ⟨d, env⟩ ↔ Site.Recurs pending' ⟨d, env'⟩ := by
  unfold Site.Recurs
  rw [findDecl_same hp h]

mutual

theorem freshBlock_same {pending pending' : List Nat} (hp : ∀ p, p ∈ pending ↔ p ∈ pending')
    {env env' : List Frame} (h : List.Forall₂ Frame.Same env env') (file : FileInfo) :
    (b : Block) → freshBlock pending env file b = freshBlock pending' env' file b
  | ⟨_, specs, consts, inner⟩ => by
    have henv := List.Forall₂.cons
      (Frame.same_refl (.ofDecls (specs.map fun spec => ⟨spec, file⟩) consts)) h
    rw [freshBlock, freshBlock, freshBlocks_same hp henv file inner, object?_same hp henv]

theorem freshBlocks_same {pending pending' : List Nat} (hp : ∀ p, p ∈ pending ↔ p ∈ pending')
    {env env' : List Frame} (h : List.Forall₂ Frame.Same env env') (file : FileInfo) :
    (bs : List Block) → freshBlocks pending env file bs = freshBlocks pending' env' file bs
  | [] => by rw [freshBlocks, freshBlocks]
  | b :: bs => by
    rw [freshBlocks, freshBlocks, freshBlock_same hp h file b, freshBlocks_same hp h file bs]

end

mutual

theorem recurs_sites {pending pending' : List Nat} (hp : ∀ p, p ∈ pending ↔ p ∈ pending')
    {env env' : List Frame} (h : List.Forall₂ Frame.Same env env') (file : FileInfo) :
    (b : Block) → SomeRecurs pending (b.sites file env) → SomeRecurs pending' (b.sites file env')
  | ⟨_, specs, consts, inner⟩, ⟨x, hx, hrec⟩ => by
    have henv := List.Forall₂.cons
      (Frame.same_refl (.ofDecls (specs.map fun spec => ⟨spec, file⟩) consts)) h
    rw [Block.sites] at hx ⊢
    rcases List.mem_append.mp hx with hx | hx
    · obtain ⟨d, hd, rfl⟩ := List.mem_map.mp hx
      exact ⟨_, List.mem_append_left _ (List.mem_map_of_mem hd), (recurs_same hp henv d).mp hrec⟩
    · obtain ⟨y, hy, hrec'⟩ := recurs_sitesIn hp henv file inner ⟨x, hx, hrec⟩
      exact ⟨y, List.mem_append_right _ hy, hrec'⟩

theorem recurs_sitesIn {pending pending' : List Nat} (hp : ∀ p, p ∈ pending ↔ p ∈ pending')
    {env env' : List Frame} (h : List.Forall₂ Frame.Same env env') (file : FileInfo) :
    (bs : List Block) → SomeRecurs pending (Block.sitesIn file env bs) →
      SomeRecurs pending' (Block.sitesIn file env' bs)
  | [], ⟨_, hx, _⟩ => nomatch hx
  | b :: bs, ⟨x, hx, hrec⟩ => by
    rw [Block.sitesIn] at hx ⊢
    rcases List.mem_append.mp hx with hx | hx
    · obtain ⟨y, hy, hrec'⟩ := recurs_sites hp h file b ⟨x, hx, hrec⟩
      exact ⟨y, List.mem_append_left _ hy, hrec'⟩
    · obtain ⟨y, hy, hrec'⟩ := recurs_sitesIn hp h file bs ⟨x, hx, hrec⟩
      exact ⟨y, List.mem_append_right _ hy, hrec'⟩

end

/-! ## Files in another order -/

namespace SourceFile

/-- What a file declares outside of all blocks. -/
def frame (f : SourceFile) : Frame :=
  .ofDecls f.topDecls f.root.consts

/-- No name is declared in both files. -/
structure Apart (f g : SourceFile) : Prop where
  types : ∀ name, f.frame.types.lookup name = none ∨ g.frame.types.lookup name = none
  consts : ∀ name, f.frame.consts.lookup name = none ∨ g.frame.consts.lookup name = none

end SourceFile

variable {files files' : List SourceFile} {name path : String}

theorem packageFrame_types (files : List SourceFile) :
    (packageFrame files).types = files.reverse.flatMap fun f => f.frame.types := by
  simp [packageFrame, SourceFile.frame, Frame.ofDecls, List.filter_flatMap, List.map_flatMap,
    List.reverse_flatMap, Function.comp_def]

theorem packageFrame_consts (files : List SourceFile) :
    (packageFrame files).consts = files.reverse.flatMap fun f => f.frame.consts := by
  simp [packageFrame, SourceFile.frame, Frame.ofDecls, List.map_flatMap, List.reverse_flatMap,
    Function.comp_def]

/-- A name means the same in either order. -/
theorem packageFrame_same (h : files'.Perm files) (ha : files.Pairwise SourceFile.Apart) :
    (packageFrame files').Same (packageFrame files) where
  types := fun name => by
    have hd := ha.imp fun h => h.types name
    rw [packageFrame_types, packageFrame_types,
      lookup_flatMap_perm (files'.reverse_perm.trans h) hd,
      lookup_flatMap_perm files.reverse_perm hd]
  consts := fun name => by
    have hd := ha.imp fun h => h.consts name
    rw [packageFrame_consts, packageFrame_consts,
      lookup_flatMap_perm (files'.reverse_perm.trans h) hd,
      lookup_flatMap_perm files.reverse_perm hd]

theorem eq_none_or_of_disjoint {β : Type} {xs ys : List (String × β)}
    (h : ∀ e ∈ xs, ∀ e' ∈ ys, e.1 ≠ e'.1) (name : String) :
    xs.lookup name = none ∨ ys.lookup name = none := by
  cases hx : xs.lookup name with
  | none => exact .inl rfl
  | some v =>
    cases hy : ys.lookup name with
    | none => exact .inr rfl
    | some w => exact (h _ (mem_of_lookup hx) _ (mem_of_lookup hy) rfl).elim

theorem nodup_of_redeclared? {decls : List Declared} {seen : List String}
    (h : redeclared? seen decls = none) (hb : ∀ d ∈ decls, d.spec.name ≠ "_") :
    (decls.map fun d => d.spec.name).Nodup ∧ ∀ d ∈ decls, d.spec.name ∉ seen := by
  induction decls generalizing seen with
  | nil => exact ⟨List.nodup_nil, List.forall_mem_nil _⟩
  | cons d ds ih =>
    obtain ⟨hd, hds⟩ := List.forall_mem_cons.mp hb
    rw [redeclared?, if_neg hd] at h
    split at h
    · cases h
    · rename_i hseen
      obtain ⟨hn, hfresh⟩ := ih h hds
      refine ⟨List.nodup_cons.mpr ⟨?_, hn⟩, List.forall_mem_cons.mpr ⟨hseen, fun d' hd' => ?_⟩⟩
      · rintro hm
        obtain ⟨d', hd', he⟩ := List.mem_map.mp hm
        exact hfresh d' hd' (he ▸ List.mem_cons_self)
      · exact fun hm => hfresh d' hd' (List.mem_cons_of_mem _ hm)

/-- Files of a package without redeclared names are apart if their constants are. -/
theorem pairwise_apart
    (hn : ((files.flatMap SourceFile.topDecls).map fun d => d.spec.name).Nodup)
    (hc : files.Pairwise fun f g => ∀ c ∈ f.root.consts, ∀ c' ∈ g.root.consts, c.name ≠ c'.name) :
    files.Pairwise SourceFile.Apart := by
  rw [List.map_flatMap, List.nodup_flatMap] at hn
  refine hn.2.imp₂ ?_ hc
  intro f g htypes hconsts
  refine ⟨eq_none_or_of_disjoint ?_, eq_none_or_of_disjoint ?_⟩
  · intro e he e' he' heq
    have key (f : SourceFile) (e : String × Declared) (he : e ∈ f.frame.types) :
        e.1 ∈ f.topDecls.map fun d => d.spec.name := by
      obtain ⟨d, hd, rfl⟩ := List.mem_map.mp (List.mem_reverse.mp he)
      exact List.mem_map_of_mem (List.mem_filter.mp hd).1
    exact htypes (key f e he) (heq ▸ key g e' he')
  · intro e he e' he'
    obtain ⟨c, hc, rfl⟩ := List.mem_map.mp (List.mem_reverse.mp he)
    obtain ⟨c', hc', rfl⟩ := List.mem_map.mp (List.mem_reverse.mp he')
    exact hconsts c hc c' hc'

theorem recurs_packageSites (hp : ∀ p, p ∈ positions files' ↔ p ∈ positions files)
    (h : files'.Perm files) (hf : (packageFrame files').Same (packageFrame files))
    (hr : SomeRecurs (positions files') (packageSites files')) :
    SomeRecurs (positions files) (packageSites files) := by
  have henv : List.Forall₂ Frame.Same [packageFrame files'] [packageFrame files] := .cons hf .nil
  obtain ⟨x, hx, hrec⟩ := hr
  rcases List.mem_append.mp hx with hx | hx
  · obtain ⟨d, hd, rfl⟩ := List.mem_map.mp hx
    have hd := (h.flatMap_right SourceFile.topDecls).subset hd
    exact ⟨_, List.mem_append_left _ (List.mem_map_of_mem hd), (recurs_same hp henv d).mp hrec⟩
  · obtain ⟨f, hf, hx⟩ := List.mem_flatMap.mp hx
    obtain ⟨y, hy, hrec'⟩ := recurs_sitesIn hp henv f.text.info f.root.blocks ⟨x, hx, hrec⟩
    refine ⟨y, List.mem_append_right _ (List.mem_flatMap.mpr ⟨f, h.subset hf, hy⟩), hrec'⟩

theorem foldl_declare (objects : List TypeName) (s : Scope) :
    objects.foldl Scope.declare s =
      { s with
        types := (objects.map fun t => (t.name, t)).foldl
          (fun m p => OrderedMap.insert compare p.1 p.2 m) s.types } := by
  induction objects generalizing s with
  | nil =>
    cases s
    rfl
  | cons t objects ih =>
    rw [List.foldl_cons, ih]
    rfl

theorem freshScope_types (files : List SourceFile) (name path : String) :
    (freshScope files name path).types = OrderedMap.ofList compare
      (((files.flatMap SourceFile.topDecls).filterMap
        (object? (positions files) [packageFrame files])).map fun t => (t.name, t)) := by
  rw [freshScope, foldl_declare]
  rfl

/-- Each object has the name of its declaration. -/
theorem map_name_filterMap_sublist (pending : List Nat) (env : List Frame)
    (decls : List Declared) :
    ((decls.filterMap (object? pending env)).map TypeName.name).Sublist
      (decls.map fun d => d.spec.name) := by
  induction decls with
  | nil => exact .slnil
  | cons d ds ih =>
    cases ho : object? pending env d with
    | none =>
      rw [List.filterMap_cons_none ho]
      exact ih.cons _
    | some t =>
      rw [List.filterMap_cons_some ho]
      obtain ⟨ty, -, rfl⟩ := Option.map_eq_some_iff.mp ho
      exact ih.cons_cons _

/-- From scratch, files in another order have the same types and the scopes of the same blocks. -/
theorem freshScope_perm (h : files'.Perm files)
    (hp : ∀ p, p ∈ positions files' ↔ p ∈ positions files)
    (hf : (packageFrame files').Same (packageFrame files))
    (hn : ((files.flatMap SourceFile.topDecls).map fun d => d.spec.name).Nodup) :
    (freshScope files' name path).types = (freshScope files name path).types ∧
      (freshScope files' name path).children.Perm (freshScope files name path).children := by
  have henv : List.Forall₂ Frame.Same [packageFrame files'] [packageFrame files] := .cons hf .nil
  have hc : ∀ a b : String, compare a b = .eq → a = b := fun _ _ => Std.LawfulEqOrd.eq_of_compare
  constructor
  · rw [freshScope_types, freshScope_types, object?_same hp henv]
    refine (OrderedMap.ofList_eq_of_perm hc
      (((h.flatMap_right SourceFile.topDecls).filterMap _).map _).symm ?_).symm
    rw [List.map_map]
    exact (map_name_filterMap_sublist _ _ _).nodup hn
  · have hblocks : (fun f : SourceFile => freshBlocks (positions files') [packageFrame files']
        f.text.info f.root.blocks) = fun f => freshBlocks (positions files) [packageFrame files]
          f.text.info f.root.blocks :=
      funext fun f => freshBlocks_same hp henv f.text.info f.root.blocks
    rw [freshScope, freshScope, hblocks]
    exact h.flatMap_right _

/-- Checking a package has the same outcome in any order of files that share no names. -/
theorem check_perm {scope : Scope}
    (hpos : ((files.flatMap SourceFile.specs).map TypeSpec.pos).Nodup)
    (hcheck : (check files name path).1 = .ok scope)
    (hblank : ∀ d ∈ files.flatMap SourceFile.topDecls, d.spec.name ≠ "_")
    (hconsts : files.Pairwise fun f g =>
      ∀ c ∈ f.root.consts, ∀ c' ∈ g.root.consts, c.name ≠ c'.name)
    (h : files'.Perm files) :
    ∃ scope', (check files' name path).1 = .ok scope' ∧ scope'.types = scope.types ∧
      scope'.children.Perm scope.children := by
  -- both orders are checked to what is found from scratch, so that the cache is out of the way
  have hred := redeclared?_of_check hcheck
  obtain ⟨hno, rfl⟩ := (check_eq_ok_iff (packageSites_closed hpos) hred).mp hcheck
  have hn := (nodup_of_redeclared? hred hblank).1
  have hp : ∀ p, p ∈ positions files' ↔ p ∈ positions files :=
    fun p => (h.flatMap_right _).mem_iff
  have hf := packageFrame_same h (pairwise_apart hn hconsts)
  have hpos' := ((h.flatMap_right SourceFile.specs).map TypeSpec.pos).nodup_iff.mpr hpos
  have hred' : redeclared? [] (files'.flatMap SourceFile.topDecls) = none := by
    have hdecls := (h.flatMap_right SourceFile.topDecls).map fun d => d.spec.name
    exact redeclared?_eq_none ((hdecls.nodup_iff.mpr hn).filter _) fun _ _ _ => List.not_mem_nil
  refine ⟨freshScope files' name path, ?_, freshScope_perm h hp hf hn⟩
  exact (check_eq_ok_iff (packageSites_closed hpos') hred').mpr
    ⟨fun hr => hno (recurs_packageSites hp h hf hr), rfl⟩

/-- The types of a checked package are those found from scratch, in the blocks around each
declaration and with the innermost one first; and where no name is declared in two of the files, the
package has the same types, and blocks with the same scopes, in whatever order the files come. -/
theorem check_fresh {start fs : FileSet} {sources : List (String × List Char)} {scope : Scope}
    (hread : SourceFile.readAll start sources = .ok (fs, files))
    (hcheck : (check files name path).1 = .ok scope) :
    scope = freshScope files name path ∧
      (∀ o ∈ scope.allObjects, ∃ x ∈ packageSites files, o.key = x.decl.spec.key ∧
        findDecl (positions files) x.env x.decl = .ok o.ty) ∧
      (∀ front f outer word d, (∀ g ∈ front, g.types.lookup word = none) →
        f.types.lookup word = some d →
          lookupType? word (front ++ f :: outer) = some (d, f :: outer)) ∧
      (∀ front f outer word value, (∀ g ∈ front, g.consts.lookup word = none) →
        f.consts.lookup word = some value → lookupConst? word (front ++ f :: outer) = value) ∧
      ((∀ d ∈ files.flatMap SourceFile.topDecls, d.spec.name ≠ "_") →
        (files.Pairwise fun f g =>
          ∀ c ∈ f.root.consts, ∀ c' ∈ g.root.consts, c.name ≠ c'.name) →
        ∀ files' : List SourceFile, files'.Perm files →
          ∃ scope', (check files' name path).1 = .ok scope' ∧ scope'.types = scope.types ∧
            scope'.children.Perm scope.children) := by
  have hpos := (SourceFile.readAll_pos_nodup hread).1
  have hs := packageSites_closed hpos
  refine ⟨((check_eq_ok_iff hs (redeclared?_of_check hcheck)).mp hcheck).2, fun o ho => ?_,
    fun _ _ _ _ _ => lookupType?_innermost, fun _ _ _ _ _ => lookupConst?_innermost,
    fun hblank hconsts _ h => check_perm hpos hcheck hblank hconsts h⟩
  obtain ⟨x, hx, hdeclares⟩ := check_declares hpos hcheck o ho
  exact ⟨x, hx, hdeclares.key,
    hdeclares.denotes.find hs hx fun z hz hn => absurd (mem_positions hz) hn⟩

/-! Two files, and a function in one of them that declares a name of the other one anew. -/

def elementText : List Char :=
  "package a\ntype B int64\n".toList

def renamingText : List Char :=
  "package a\ntype T B\nfunc f()\x7btype B T;type U struct\x7bb B\x7d\x7d\n".toList

def elementInfo : FileInfo :=
  ⟨"a.go", 1, 23, [0, 10, 23]⟩

def renamingInfo : FileInfo :=
  ⟨"b.go", 25, 57, [0, 10, 19, 57]⟩

def elementFile : SourceFile where
  path := "a.go"
  package := "a"
  text := ⟨elementText, elementInfo⟩
  root :=
    { span := ⟨0, 23⟩
      specs := [shadowingSpec "B" 16 (.ref none "int64") 17 22 10] }

def renamingFile : SourceFile where
  path := "b.go"
  package := "a"
  text := ⟨renamingText, renamingInfo⟩
  root :=
    { span := ⟨0, 57⟩
      specs := [shadowingSpec "T" 40 (.ref none "B") 17 18 10]
      blocks :=
        [{ span := ⟨27, 56⟩
           specs :=
            [shadowingSpec "B" 58 (.ref none "T") 35 36 28,
             shadowingSpec "U" 67
              (.struct ⟨⟨44, 55⟩, [⟨["b"], 76, .ref none "B", "B", none, [], []⟩], [], "", none⟩)
              44 55 37] }] }

def renamingScope : Scope :=
  let object := fun name pos ty => (name, (⟨name, pos, false, .named name pos ty⟩ : TypeName))
  let inner : Ty := .named "B" 58 (.basic .int64)
  { kind := .package "a" ""
    types := [object "B" 16 (.basic .int64), object "T" 40 (.basic .int64)]
    children :=
      [{ kind := .block
         types := [object "B" 58 (.basic .int64),
          object "U" 67 (.struct [⟨"b", inner, "", false, false⟩])] }] }

theorem check_fresh_renaming :
    SourceFile.readAll (.startingAt 1) [("a.go", elementText), ("b.go", renamingText)] =
        .ok (⟨83, [elementInfo, renamingInfo]⟩, [elementFile, renamingFile]) ∧
      (check [elementFile, renamingFile] "a" "").1 = .ok renamingScope ∧
      renamingScope = freshScope [elementFile, renamingFile] "a" "" ∧
      ∃ scope, (check [renamingFile, elementFile] "a" "").1 = .ok scope ∧
        scope.types = renamingScope.types ∧ scope.children.Perm renamingScope.children := by
  have hread : SourceFile.readAll (.startingAt 1) [("a.go", elementText), ("b.go", renamingText)] =
      .ok (⟨83, [elementInfo, renamingInfo]⟩, [elementFile, renamingFile]) := by cbv
  have hcheck : (check [elementFile, renamingFile] "a" "").1 = .ok renamingScope := by cbv
  obtain ⟨hfresh, -, -, -, horder⟩ := check_fresh hread hcheck
  exact ⟨hread, hcheck, hfresh,
    horder (by decide) (by decide) [renamingFile, elementFile] (.swap elementFile renamingFile [])⟩

end StructLayout
