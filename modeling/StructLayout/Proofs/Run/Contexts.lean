import Mathlib.Data.List.Basic
import Mathlib.Logic.Relation
import StructLayout.Context

/-!
Contexts under any sequence of calls. A context is done exactly if it or one that it comes from was
cancelled or has expired, the nearest of these says why, and nobody else is told of a cancel.
-/

namespace StructLayout.Context

/-! ## Calls -/

/-- What can be called on a context. -/
inductive Call where
  | child (parent : Nat)
  | withDeadline (parent : Nat) (expired : Bool)
  | cancel (i : Nat)
  deriving DecidableEq, Repr

namespace Call

/-- The context that is called. -/
def on : Call → Nat
  | .child i | .withDeadline i _ | .cancel i => i

/-- The parent of the context that a call makes, and whether its deadline has passed. -/
def made? : Call → Option (Nat × Bool)
  | .child parent => some (parent, false)
  | .withDeadline parent expired => some (parent, expired)
  | .cancel _ => none

def run (all : List Context) : Call → List Context
  | .child parent => Context.child all parent
  | .withDeadline parent expired => Context.withDeadline all parent expired
  | .cancel i => Context.cancel all i

end Call

/-- The contexts after some calls, each of them on a context that was there. -/
inductive Runs : List Call → List Context → Prop
  | start : Runs [] background
  | call {calls all} {c : Call} :
      Runs calls all → c.on < all.length → Runs (calls ++ [c]) (c.run all)

/-! ## What the calls say of a context -/

section

variable (calls : List Call)

/-- The parents of the contexts made so far, in order, and whether their deadlines have passed. -/
def made : List (Nat × Bool) :=
  calls.filterMap Call.made?

/-- How a context was made, unless it is the first. -/
def origin? : Nat → Option (Nat × Bool)
  | 0 => none
  | i + 1 => (made calls)[i]?

def IsParent (i j : Nat) : Prop :=
  ∃ expired, origin? calls i = some (j, expired)

def Expired (i : Nat) : Prop :=
  ∃ parent, origin? calls i = some (parent, true)

/-- The context itself was cancelled, or has expired. -/
def Ended (i : Nat) : Prop :=
  .cancel i ∈ calls ∨ Expired calls i

/-- Why a context has ended; a cancel counts before a deadline. -/
inductive Cause (i : Nat) : ContextError → Prop
  | cancelled : .cancel i ∈ calls → Cause i .cancelled
  | deadlineExceeded : .cancel i ∉ calls → Expired calls i → Cause i .deadlineExceeded

/-- The first context is the second one or comes from it. -/
def Within : Nat → Nat → Prop :=
  Relation.ReflTransGen (IsParent calls)

/-- The second context is the first one that has ended on the way up from the first. -/
def Nearest (i j : Nat) : Prop :=
  Relation.ReflTransGen (fun a b => IsParent calls a b ∧ ¬ Ended calls a) i j ∧ Ended calls j

end

variable {calls more : List Call} {all older : List Context} {c : Context} {i j k : Nat}
  {e : ContextError}

theorem IsParent.unique (hj : IsParent calls i j) (hk : IsParent calls i k) : j = k := by
  obtain ⟨_, hj⟩ := hj
  obtain ⟨_, hk⟩ := hk
  exact congrArg Prod.fst (Option.some.inj (hj.symm.trans hk))

theorem Cause.ended (h : Cause calls i e) : Ended calls i := by
  cases h with
  | cancelled h => exact .inl h
  | deadlineExceeded _ h => exact .inr h

theorem Ended.cause (h : Ended calls i) : ∃ e, Cause calls i e := by
  by_cases hc : .cancel i ∈ calls
  · exact ⟨_, .cancelled hc⟩
  · exact ⟨_, .deadlineExceeded hc (h.resolve_left hc)⟩

/-- Of a context that has ended, there is no way up. -/
theorem nearest_of_ended (h : Ended calls i) : Nearest calls i j ↔ j = i := by
  constructor
  · rintro ⟨hup, -⟩
    rcases hup.cases_head with rfl | ⟨k, ⟨-, hn⟩, -⟩
    · rfl
    · exact absurd h hn
  · rintro rfl
    exact ⟨.refl, h⟩

theorem nearest_of_isParent (hn : ¬ Ended calls i) (hp : IsParent calls i k) :
    Nearest calls i j ↔ Nearest calls k j := by
  constructor
  · rintro ⟨hup, hj⟩
    rcases hup.cases_head with rfl | ⟨k', ⟨hp', -⟩, hup⟩
    · exact absurd hj hn
    · exact ⟨hp.unique hp' ▸ hup, hj⟩
  · rintro ⟨hup, hj⟩
    exact ⟨.head ⟨hp, hn⟩ hup, hj⟩

theorem exists_nearest (h : Within calls i j) (hj : Ended calls j) : ∃ k, Nearest calls i k := by
  induction h using Relation.ReflTransGen.head_induction_on with
  | refl => exact ⟨j, .refl, hj⟩
  | @head i k hp _ ih =>
    by_cases hi : Ended calls i
    · exact ⟨i, .refl, hi⟩
    · obtain ⟨l, hl⟩ := ih
      exact ⟨l, (nearest_of_isParent hi hp).mpr hl⟩

theorem Nearest.within (h : Nearest calls i j) : Within calls i j :=
  Relation.ReflTransGen.mono (fun _ _ hab => hab.1) _ _ h.1

/-! ## More calls -/

theorem made_append (calls more : List Call) : made (calls ++ more) = made calls ++ made more :=
  List.filterMap_append

theorem origin?_append {x : Nat × Bool} (h : origin? calls i = some x) :
    origin? (calls ++ more) i = some x := by
  cases i with
  | zero => cases h
  | succ i =>
    have hlt : i < (made calls).length := (List.getElem?_eq_some_iff.mp h).1
    rw [origin?, made_append, List.getElem?_append_left hlt]
    exact h

theorem Within.append (h : Within calls i j) : Within (calls ++ more) i j :=
  Relation.ReflTransGen.mono (fun _ _ ⟨expired, hp⟩ => ⟨expired, origin?_append hp⟩) _ _ h

theorem Ended.append (h : Ended calls i) : Ended (calls ++ more) i := by
  rcases h with h | ⟨parent, h⟩
  · exact .inl (List.mem_append_left more h)
  · exact .inr ⟨parent, origin?_append h⟩

/-! ## What contexts hold -/

/-- A context by its number. -/
def at? (all : List Context) (i : Nat) : Option Context :=
  all.reverse[i]?

theorem at?_cons (c : Context) (older : List Context) (i : Nat) :
    at? (c :: older) i = if i = older.length then some c else at? older i := by
  unfold at?
  rw [List.reverse_cons, List.getElem?_append, List.length_reverse]
  split
  · rw [if_neg (by omega)]
  · split
    · simp [*]
    · rw [List.getElem?_eq_none (by simp; omega), List.getElem?_eq_none (by simp; omega)]

theorem lt_of_at? (h : at? all i = some c) : i < all.length := by
  simpa using (List.getElem?_eq_some_iff.mp h).1

theorem at?_cancel (all : List Context) (k i : Nat) : at? (cancel all k) i =
    (at? all i).map fun c => if i = k then { c with cancelled := true } else c := by
  induction all with
  | nil => rfl
  | cons c older ih =>
    by_cases hk : k = older.length <;> by_cases hi : i = older.length
    · simp [cancel, at?_cons, hk, hi]
    · simp [cancel, at?_cons, hk, hi]
    · have hik : i ≠ k := fun h => hk (h ▸ hi)
      simp [cancel, at?_cons, hk, hi, Ne.symm hk]
    · simpa [cancel, at?_cons, hk, hi] using ih

theorem error?_cons_of_lt (c : Context) (h : i < older.length) :
    error? (c :: older) i = error? older i := by
  rw [error?, if_neg (Nat.ne_of_lt h)]

/-- A context that does not end by itself is asked for the error of its parent. -/
theorem error?_eq (h : at? all i = some c) (hp : ∀ p, c.parent = some p → p < i) :
    error? all i = c.own?.or (c.parent.bind (error? all)) := by
  have up {older : List Context} {c' : Context} (hi : i ≤ older.length) :
      c.parent.bind (error? older) = c.parent.bind (error? (c' :: older)) := by
    cases hc : c.parent with
    | none => rfl
    | some p => exact (error?_cons_of_lt c' (Nat.lt_of_lt_of_le (hp p hc) hi)).symm
  induction all with
  | nil => cases h
  | cons c' older ih =>
    rw [at?_cons] at h
    split at h
    · rename_i hi
      cases h
      rw [error?, if_pos hi, up (Nat.le_of_eq hi)]
    · have hi : i < older.length := lt_of_at? h
      rw [error?_cons_of_lt c' hi, ih h, up (Nat.le_of_lt hi)]

/-! ## What the calls leave -/

section

variable (calls)

/-- The context that the calls have made and changed. -/
def record (i : Nat) : Context where
  parent := (origin? calls i).map Prod.fst
  cancelled := decide (.cancel i ∈ calls)
  expired := (origin? calls i).any Prod.snd

end

theorem record_parent : (record calls i).parent = some j ↔ IsParent calls i j := by
  simp [record, IsParent]

theorem record_cancelled : (record calls i).cancelled = true ↔ .cancel i ∈ calls :=
  decide_eq_true_iff

theorem record_expired : (record calls i).expired = true ↔ Expired calls i := by
  rw [record, Expired, Option.any_eq_true]
  constructor
  · rintro ⟨⟨parent, _⟩, ho, rfl⟩
    exact ⟨parent, ho⟩
  · rintro ⟨parent, ho⟩
    exact ⟨_, ho, rfl⟩

theorem own?_record : (record calls i).own? = some e ↔ Cause calls i e := by
  rw [own?]
  constructor
  · intro h
    split at h
    · rename_i hc
      cases h
      exact .cancelled (record_cancelled.mp hc)
    · rename_i hc
      split at h
      · rename_i hx
        cases h
        exact .deadlineExceeded (mt record_cancelled.mpr hc) (record_expired.mp hx)
      · cases h
  · rintro (hc | ⟨hc, hx⟩)
    · rw [if_pos (record_cancelled.mpr hc)]
    · rw [if_neg (mt record_cancelled.mp hc), if_pos (record_expired.mpr hx)]

theorem own?_record_eq_none : (record calls i).own? = none ↔ ¬ Ended calls i := by
  rw [Option.eq_none_iff_forall_ne_some]
  constructor
  · intro h hi
    obtain ⟨e, he⟩ := hi.cause
    exact h e (own?_record.mpr he)
  · intro h e he
    exact h (own?_record.mp he).ended

/-- The contexts are what the calls say of them. -/
structure Recorded (calls : List Call) (all : List Context) : Prop where
  length : all.length = (made calls).length + 1
  records : ∀ i < all.length, at? all i = some (record calls i)
  known : ∀ i, .cancel i ∈ calls → i < all.length
  older : ∀ i j, IsParent calls i j → j < i

theorem recorded_background : Recorded [] background where
  length := rfl
  records i hi := by
    obtain rfl : i = 0 := Nat.lt_one_iff.mp hi
    rfl
  known i hi := by cases hi
  older i j hp := by
    obtain ⟨_, hp⟩ := hp
    cases i <;> cases hp

theorem made_cancel (calls : List Call) (k : Nat) : made (calls ++ [.cancel k]) = made calls := by
  simp [made, Call.made?]

theorem origin?_cancel (calls : List Call) (k : Nat) :
    origin? (calls ++ [.cancel k]) = origin? calls := by
  funext i
  cases i with
  | zero => rfl
  | succ i => rw [origin?, origin?, made_cancel]

theorem record_cancel (calls : List Call) (k i : Nat) : record (calls ++ [.cancel k]) i =
    if i = k then { record calls i with cancelled := true } else record calls i := by
  unfold record
  rw [origin?_cancel]
  split <;> simp [*]

theorem Recorded.cancel (h : Recorded calls all) (hk : k < all.length) :
    Recorded (calls ++ [.cancel k]) (Context.cancel all k) := by
  refine ⟨?_, fun i hi => ?_, fun i hi => ?_, fun i j hp => ?_⟩
  · rw [length_cancel, h.length, made_cancel]
  · rw [length_cancel] at hi
    rw [at?_cancel, h.records i hi, Option.map_some, record_cancel]
  · rw [length_cancel]
    rcases List.mem_append.mp hi with hi | hi
    · exact h.known i hi
    · cases List.mem_singleton.mp hi
      exact hk
  · exact h.older i j (by rwa [IsParent, origin?_cancel] at hp)

theorem Recorded.make (h : Recorded calls all) {c : Call} {parent : Nat} {expired : Bool}
    (hc : c.made? = some (parent, expired)) (hp : parent < all.length) :
    Recorded (calls ++ [c]) ({ parent := some parent, expired } :: all) := by
  have hmade : made (calls ++ [c]) = made calls ++ [(parent, expired)] := by
    simp [made, hc]
  have hcancel (i : Nat) : .cancel i ∈ calls ++ [c] ↔ .cancel i ∈ calls := by
    rw [List.mem_append, List.mem_singleton]
    refine or_iff_left ?_
    rintro rfl
    cases hc
  have hself : origin? (calls ++ [c]) all.length = some (parent, expired) := by
    rw [h.length, origin?, hmade, List.getElem?_concat_length]
  have hother {i : Nat} (hi : i ≠ all.length) : origin? (calls ++ [c]) i = origin? calls i := by
    cases i with
    | zero => rfl
    | succ i =>
      rw [origin?, origin?, hmade, List.getElem?_append]
      split
      · rfl
      · have hlt : (made calls).length < i := by
          have := h.length
          omega
        rw [List.getElem?_eq_none (by simp; omega), List.getElem?_eq_none (by omega)]
  refine ⟨?_, fun i hi => ?_, fun i hi => ?_, fun i j hj => ?_⟩
  · rw [List.length_cons, h.length, hmade, List.length_append]
    rfl
  · rw [at?_cons]
    split
    · rename_i hlast
      subst hlast
      have hn : .cancel all.length ∉ calls := fun hm => Nat.lt_irrefl _ (h.known _ hm)
      simp [record, hcancel, hself, hn]
    · rename_i hne
      rw [h.records i (Nat.lt_of_le_of_ne (Nat.le_of_lt_succ hi) hne)]
      simp [record, hcancel, hother hne]
  · exact Nat.lt_succ_of_lt (h.known i ((hcancel i).mp hi))
  · obtain ⟨e, hj⟩ := hj
    by_cases hi : i = all.length
    · subst hi
      cases hself.symm.trans hj
      exact hp
    · exact h.older i j ⟨e, (hother hi).symm.trans hj⟩

theorem Recorded.call (h : Recorded calls all) {c : Call} (hc : c.on < all.length) :
    Recorded (calls ++ [c]) (c.run all) := by
  cases c with
  | cancel k => exact h.cancel hc
  | _ => exact h.make rfl hc

/-- Whatever is called, the contexts are what the calls say of them. -/
theorem Runs.recorded (h : Runs calls all) : Recorded calls all := by
  induction h with
  | start => exact recorded_background
  | call _ hc ih => exact ih.call hc

theorem Recorded.le_of_within (h : Recorded calls all) (hw : Within calls i j) : j ≤ i := by
  induction hw with
  | refl => exact Nat.le_refl _
  | tail _ hp ih => exact Nat.le_trans (Nat.le_of_lt (h.older _ _ hp)) ih

/-! ## Errors -/

theorem error?_of_length_le (h : all.length ≤ i) : error? all i = none := by
  induction all with
  | nil => rfl
  | cons c older ih =>
    rw [List.length_cons] at h
    rw [error?, if_neg (by omega), ih (by omega)]

theorem Recorded.lt_of_origin (h : Recorded calls all) {x : Nat × Bool}
    (hi : origin? calls i = some x) : i < all.length := by
  cases i with
  | zero => cases hi
  | succ i =>
    have hlt : i < (made calls).length := (List.getElem?_eq_some_iff.mp hi).1
    rw [h.length]
    exact Nat.succ_lt_succ hlt

theorem Recorded.lt_of_ended (h : Recorded calls all) (hi : Ended calls i) : i < all.length := by
  rcases hi with hi | ⟨_, hi⟩
  · exact h.known i hi
  · exact h.lt_of_origin hi

/-- A context has ended by itself, or has the error of its parent. -/
theorem Recorded.error?_eq (h : Recorded calls all) (i : Nat) :
    error? all i = (record calls i).own?.or ((record calls i).parent.bind (error? all)) := by
  rcases Nat.lt_or_ge i all.length with hi | hi
  · exact Context.error?_eq (h.records i hi) fun j hj => h.older i j (record_parent.mp hj)
  · have hown : (record calls i).own? = none :=
      own?_record_eq_none.mpr fun hend => Nat.not_lt.mpr hi (h.lt_of_ended hend)
    have hparent : (record calls i).parent = none := by
      refine Option.eq_none_iff_forall_ne_some.mpr fun j hj => ?_
      obtain ⟨_, ho⟩ := record_parent.mp hj
      exact Nat.not_lt.mpr hi (h.lt_of_origin ho)
    rw [error?_of_length_le hi, hown, hparent]
    rfl

theorem not_nearest (hi : ¬ Ended calls i) (hp : ∀ k, ¬ IsParent calls i k) (j : Nat) :
    ¬ Nearest calls i j := by
  rintro ⟨hup, hj⟩
  rcases hup.cases_head with rfl | ⟨k, ⟨hk, -⟩, -⟩
  · exact hi hj
  · exact hp k hk

theorem Recorded.error?_eq_some (h : Recorded calls all) (i : Nat) (e : ContextError) :
    error? all i = some e ↔ ∃ j, Nearest calls i j ∧ Cause calls j e := by
  induction i using Nat.strongRecOn with
  | _ i ih =>
    by_cases hi : Ended calls i
    · have hown : error? all i = (record calls i).own? := by
        obtain ⟨e, he⟩ := hi.cause
        rw [h.error?_eq, own?_record.mpr he, Option.some_or]
      simp only [nearest_of_ended hi, exists_eq_left]
      rw [hown, own?_record]
    rw [h.error?_eq, own?_record_eq_none.mpr hi, Option.none_or]
    cases hp : (record calls i).parent with
    | none =>
      have hnone (k : Nat) : ¬ IsParent calls i k := fun hk => by
        cases hp.symm.trans (record_parent.mpr hk)
      simp [not_nearest hi hnone]
    | some k =>
      have hk := record_parent.mp hp
      rw [Option.bind_some, ih k (h.older i k hk)]
      exact exists_congr fun j => and_congr_left' (nearest_of_isParent hi hk).symm

theorem Recorded.isDone_iff (h : Recorded calls all) (i : Nat) :
    isDone all i = true ↔ ∃ j, Within calls i j ∧ Ended calls j := by
  rw [isDone, Option.isSome_iff_exists]
  simp only [h.error?_eq_some]
  constructor
  · rintro ⟨e, j, hj, he⟩
    exact ⟨j, hj.within, he.ended⟩
  · rintro ⟨j, hj, hend⟩
    obtain ⟨k, hk⟩ := exists_nearest hj hend
    obtain ⟨e, he⟩ := hk.2.cause
    exact ⟨e, k, hk, he⟩

/-- A cancel is seen in the context and in those that come from it, and nowhere else. -/
theorem Recorded.error?_cancel (h : Recorded calls all) (hk : k < all.length)
    (hi : ¬ Within calls i k) : error? (Context.cancel all k) i = error? all i := by
  induction i using Nat.strongRecOn with
  | _ i ih =>
    have hne : i ≠ k := by
      rintro rfl
      exact hi .refl
    rw [(h.cancel hk).error?_eq, h.error?_eq, record_cancel, if_neg hne]
    cases hp : (record calls i).parent with
    | none => rfl
    | some j =>
      have hj := record_parent.mp hp
      rw [Option.bind_some, Option.bind_some, ih j (h.older i j hj) fun hup => hi (.head hj hup)]

/-- A call changes the state of no context that is not below one it cancels. -/
theorem Recorded.error?_run (h : Recorded calls all) {c : Call} (hc : c.on < all.length)
    (hi : i < all.length) (hn : ∀ k, c = .cancel k → ¬ Within calls i k) :
    error? (c.run all) i = error? all i := by
  cases c with
  | cancel k => exact h.error?_cancel hc (hn k rfl)
  | _ => exact error?_cons_of_lt _ hi

/-- After any calls on contexts that are there, in any order: a context is done exactly if it or one
that it comes from has ended, its error is the cause of the nearest of these, it stays done, and a
call leaves all contexts as they are but those that are within one it cancels. -/
theorem runs_states (h : Runs calls all) :
    (∀ i, isDone all i = true ↔ ∃ j, Within calls i j ∧ Ended calls j) ∧
      (∀ i e, error? all i = some e ↔ ∃ j, Nearest calls i j ∧ Cause calls j e) ∧
      (∀ more all', Runs (calls ++ more) all' → ∀ i, isDone all i = true → isDone all' i = true) ∧
      ∀ c : Call, c.on < all.length → ∀ i < all.length,
        (∀ k, c = .cancel k → ¬ Within calls i k) → error? (c.run all) i = error? all i := by
  have hr := h.recorded
  refine ⟨hr.isDone_iff, hr.error?_eq_some, fun more all' h' i hi => ?_,
    fun c hc i hi hn => hr.error?_run hc hi hn⟩
  obtain ⟨j, hj, hend⟩ := (hr.isDone_iff i).mp hi
  exact (h'.recorded.isDone_iff i).mpr ⟨j, hj.append, hend.append⟩

/-- A context that has expired stands under one that is cancelled, and there is another beside. -/
def nested : List Call :=
  [.child 0, .withDeadline 1 true, .child 2, .child 0, .cancel 1]

theorem runs_states_nested :
    ∃ all, Runs nested all ∧ error? all 0 = none ∧ error? all 1 = some .cancelled ∧
      (∃ j, Nearest nested 3 j ∧ Cause nested j .deadlineExceeded) ∧
      (∀ more all', Runs (nested ++ more) all' → isDone all' 3 = true) ∧
      error? (Call.run all (.cancel 4)) 3 = some .deadlineExceeded := by
  have hruns : Runs nested (nested.foldl Call.run background) :=
    .call (.call (.call (.call (.call .start (by decide)) (by decide)) (by decide)) (by decide))
      (by decide)
  obtain ⟨hdone, herror, hstays, hframe⟩ := runs_states hruns
  refine ⟨_, hruns, by decide, by decide, (herror 3 _).mp (by decide), ?_, ?_⟩
  · exact fun more all' h => hstays more all' h 3 (by decide)
  · rw [hframe (.cancel 4) (by decide) 3 (by decide)]
    · decide
    · rintro k ⟨rfl⟩ hup
      exact absurd (hruns.recorded.le_of_within hup) (by decide)

end StructLayout.Context
