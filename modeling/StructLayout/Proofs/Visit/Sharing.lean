import Mathlib.Data.List.Basic
import Mathlib.Logic.Function.Basic
import StructLayout.Proofs.Visit.Slots

/-!
A store of back references that any number of threads share. Every call takes its locks one after the
other: a slot is looked up in one step and closed or read in a later one, and a prune forgets the keys
before it closes the slots. Between any two steps of a call, other threads may take any number of theirs.
-/

namespace StructLayout.Sharing

/-! ## Calls and their steps -/

/-- The operations of a store. A size is published with a value when it is set, and without one when it
is released. -/
inductive Op where
  | alloc (key : Identity)
  | publish (key : Identity) (value : Option Nat)
  | get (key : Identity)
  | prune
  deriving DecidableEq, Repr

/-- A call that has not returned. -/
inductive Call where
  | enter (op : Op)
  /-- Holds slots that it has yet to close. -/
  | close (slots : List Nat) (value : Option Nat)
  /-- Waits until the slot that it has looked up is closed. -/
  | await (slot : Nat)
  deriving DecidableEq, Repr

/-- What can be told of a step from outside. -/
inductive Event where
  /-- A publication or a prune got to a slot. -/
  | reached (slot : Nat) (value : Option Nat)
  /-- A get returned, from the slot that it had looked up if there was one. -/
  | got (slot : Option Nat) (value : Option Nat)
  deriving DecidableEq, Repr

/-- What a step leaves: the store, the rest of the call unless it has returned, and an event. -/
structure Effect where
  store : Backrefs
  rest : Option Call
  event : Option Event := none

/-- The steps of a call. Each of them holds one lock. -/
inductive Moves (b : Backrefs) : Call → Effect → Prop
  | alloc {key} : Moves b (.enter (.alloc key)) { store := b.alloc key, rest := none }
  | find {key value slot} : b.slot? key = some slot → Moves b (.enter (.publish key value))
      { store := b, rest := some (.close [slot] value) }
  | absent {key value} : b.slot? key = none → Moves b (.enter (.publish key value))
      { store := b, rest := none }
  | drain : Moves b (.enter .prune)
      { store := { b with keys := [] }, rest := some (.close (b.keys.map Prod.snd) none) }
  /-- The slots of a prune are closed in any order. -/
  | close {slots slot value} : slot ∈ slots → Moves b (.close slots value)
      { store := b.publishAt slot value, rest := some (.close (slots.erase slot) value),
        event := some (.reached slot value) }
  | done {value} : Moves b (.close [] value) { store := b, rest := none }
  | off {key} : b.enabled = false → Moves b (.enter (.get key))
      { store := b, rest := none, event := some (.got none none) }
  | unknown {key} : b.enabled = true → b.slot? key = none → Moves b (.enter (.get key))
      { store := b, rest := none, event := some (.got none none) }
  | look {key slot} : b.enabled = true → b.slot? key = some slot → Moves b (.enter (.get key))
      { store := b, rest := some (.await slot) }
  | read {slot value} : b.read? slot = some value → Moves b (.await slot)
      { store := b, rest := none, event := some (.got (some slot) value) }

/-- A store and the call that each thread is in. -/
structure State where
  store : Backrefs
  calls : Nat → Option Call

/-- A new store. No thread has called anything yet. -/
def State.start (enabled : Bool) : State :=
  { store := { enabled }, calls := fun _ => none }

/-- A thread starts a call, or takes a step of the call that it is in. -/
inductive Step (s : State) : Option Event → State → Prop
  | enter {thread op} : s.calls thread = none →
      Step s none { s with calls := Function.update s.calls thread (some (.enter op)) }
  | move {thread call e} : s.calls thread = some call → Moves s.store call e →
      Step s e.event { store := e.store, calls := Function.update s.calls thread e.rest }

/-- Steps of any threads in any order, with what they show. -/
inductive Runs (s : State) : List Event → State → Prop
  | start : Runs s [] s
  | step {trace t event u} : Runs s trace t → Step t event u → Runs s (trace ++ event.toList) u

/-- What publications and prunes wanted a slot to be closed with, in the order in which they got to it. -/
def outcomes (slot : Nat) (trace : List Event) : List (Option Nat) :=
  trace.filterMap fun
    | .reached other value => if other = slot then some value else none
    | .got _ _ => none

/-! ## Slots -/

section

variable {b : Backrefs} {key key' : Identity} {slot slot' : Nat} {value : Option Nat}

theorem slot?_alloc (h : b.slot? key' = some slot) : (b.alloc key).slot? key' = some slot := by
  unfold Backrefs.alloc
  split
  · exact List.lookup_append.trans (by rw [show b.keys.lookup key' = some slot from h]; rfl)
  · exact h

theorem getElem?_alloc (h : slot < b.slots.length) : (b.alloc key).slots[slot]? = b.slots[slot]? := by
  unfold Backrefs.alloc
  split
  · exact List.getElem?_append_left h
  · rfl

theorem length_alloc (b : Backrefs) (key : Identity) : b.slots.length ≤ (b.alloc key).slots.length := by
  unfold Backrefs.alloc
  split <;> simp

/-- A new slot is open, as one that is not there is to its readers. -/
theorem read?_alloc (b : Backrefs) (key : Identity) (slot : Nat) :
    (b.alloc key).read? slot = b.read? slot := by
  rcases Nat.lt_or_ge slot b.slots.length with hlt | hge
  · rw [Backrefs.read?, getElem?_alloc hlt, Backrefs.read?]
  have hnone : b.slots[slot]? = none := List.getElem?_eq_none hge
  have hslot : (b.alloc key).slots[slot]? = none ∨ (b.alloc key).slots[slot]? = some .empty := by
    unfold Backrefs.alloc
    split
    · rw [List.getElem?_append_right hge]
      cases slot - b.slots.length with
      | zero => exact .inr rfl
      | succ n => exact .inl rfl
    · exact .inl hnone
  rw [Backrefs.read?, Backrefs.read?, hnone]
  rcases hslot with h | h <;> rw [h]

theorem getElem?_publishAt (b : Backrefs) (slot : Nat) (value : Option Nat) (slot' : Nat) :
    (b.publishAt slot value).slots[slot']? =
      b.slots[slot']?.map fun s => if slot = slot' then s.publish value else s :=
  List.getElem?_modify _ _ _ _

/-- A slot that is closed stays as it is, and an open one takes the value. -/
theorem read?_publishAt (h : slot < b.slots.length) (value : Option Nat) (slot' : Nat) :
    (b.publishAt slot value).read? slot' =
      (b.read? slot').or (if slot = slot' then some value else none) := by
  rw [Backrefs.read?, Backrefs.read?, getElem?_publishAt]
  by_cases he : slot = slot'
  · subst he
    rw [List.getElem?_eq_getElem h]
    cases b.slots[slot] <;> simp [Slot.publish]
  · simp [he]

end

/-! ## Calls that no other thread interrupts -/

inductive Alone : Backrefs → Call → Backrefs → Prop
  | returns {b call e} : Moves b call e → e.rest = none → Alone b call e.store
  | goes {b call e next b'} : Moves b call e → e.rest = some next → Alone e.store next b' →
      Alone b call b'

/-- A store after some of its slots have been closed. -/
def closeAll (b : Backrefs) (slots : List Nat) (value : Option Nat) : Backrefs :=
  { b with slots := b.slots.mapIdx fun i s => if i ∈ slots then s.publish value else s }

section

variable {b b' : Backrefs} {key : Identity} {slots : List Nat} {slot : Nat} {value : Option Nat}

theorem getElem?_closeAll (b : Backrefs) (slots : List Nat) (value : Option Nat) (i : Nat) :
    (closeAll b slots value).slots[i]? =
      b.slots[i]?.map fun s => if i ∈ slots then s.publish value else s := by
  simp [closeAll, List.getElem?_mapIdx]

theorem closeAll_nil (b : Backrefs) (value : Option Nat) : closeAll b [] value = b := by
  have hslots : (closeAll b [] value).slots = b.slots :=
    List.ext_getElem? fun i => by simp [getElem?_closeAll]
  exact congrArg (fun slots => { b with slots }) hslots

theorem publish_publish (value : Option Nat) (s : Slot) :
    (s.publish value).publish value = s.publish value := by
  cases s <;> rfl

theorem closeAll_publishAt (h : slot ∈ slots) :
    closeAll (b.publishAt slot value) (slots.erase slot) value = closeAll b slots value := by
  have hslots : (closeAll (b.publishAt slot value) (slots.erase slot) value).slots =
      (closeAll b slots value).slots := by
    refine List.ext_getElem? fun i => ?_
    rw [getElem?_closeAll, getElem?_closeAll, getElem?_publishAt, Option.map_map]
    refine congrArg (Option.map · _) (funext fun s => ?_)
    by_cases hi : slot = i
    · subst hi
      simp [h, publish_publish]
    · simp [hi, List.mem_erase_of_ne (Ne.symm hi)]
  exact congrArg (fun slots => { b with slots }) hslots

theorem closeAll_singleton (b : Backrefs) (slot : Nat) (value : Option Nat) :
    closeAll b [slot] value = b.publishAt slot value := by
  rw [← closeAll_publishAt (List.mem_singleton_self slot), List.erase_cons_head, closeAll_nil]

/-- The slots that a call holds are all closed when it returns, in whatever order. -/
theorem alone_close : Alone b (.close slots value) b' ↔ b' = closeAll b slots value := by
  constructor
  · intro h
    generalize hc : Call.close slots value = call at h
    induction h generalizing slots with
    | returns hm hr =>
      subst hc
      cases hm with
      | close => cases hr
      | done => rw [closeAll_nil]
    | goes hm hr _ ih =>
      subst hc
      cases hm with
      | close hs =>
        cases hr
        rw [ih rfl, closeAll_publishAt hs]
      | done => cases hr
  · rintro rfl
    induction hn : slots.length generalizing slots b with
    | zero =>
      obtain rfl := List.eq_nil_of_length_eq_zero hn
      rw [closeAll_nil]
      exact .returns .done rfl
    | succ n ih =>
      obtain ⟨slot, rest, rfl⟩ := List.exists_cons_of_length_eq_add_one hn
      have hmem : slot ∈ slot :: rest := List.mem_cons_self
      rw [← closeAll_publishAt hmem]
      exact .goes (.close hmem) rfl (ih (by simpa using hn))

theorem alone_publish : Alone b (.enter (.publish key value)) b' ↔ b' = b.publish key value := by
  unfold Backrefs.publish
  cases hs : b.slot? key with
  | none =>
    constructor
    · intro h
      cases h with
      | returns hm hr =>
        cases hm with
        | find => cases hr
        | absent => rfl
      | goes hm hr =>
        cases hm with
        | find hf => rw [hs] at hf; cases hf
        | absent => cases hr
    · rintro rfl
      exact .returns (.absent hs) rfl
  | some slot =>
    dsimp only
    rw [← closeAll_singleton, ← alone_close]
    constructor
    · intro h
      cases h with
      | returns hm hr =>
        cases hm with
        | find => cases hr
        | absent ha => rw [hs] at ha; cases ha
      | goes hm hr h =>
        cases hm with
        | find hf =>
          cases hr
          rw [hs] at hf
          cases hf
          exact h
        | absent => cases hr
    · exact .goes (.find hs) rfl

/-- Without other threads a prune closes all slots, if no open slot has lost its key. -/
theorem alone_prune (h : ∀ slot, b.slots[slot]? = some .empty → slot ∈ b.keys.map Prod.snd) :
    Alone b (.enter .prune) b' ↔ b' = b.prune := by
  have hslots : (closeAll { b with keys := [] } (b.keys.map Prod.snd) none).slots = b.prune.slots := by
    refine List.ext_getElem? fun i => ?_
    rw [getElem?_closeAll, Backrefs.prune, List.getElem?_map]
    cases hi : b.slots[i]? with
    | none => rfl
    | some s =>
      cases s with
      | empty => simp [h i hi]
      | closed value => simp [Slot.publish]
  have hprune : closeAll { b with keys := [] } (b.keys.map Prod.snd) none = b.prune :=
    congrArg (fun slots => { b with keys := [], slots }) hslots
  rw [← hprune, ← alone_close]
  constructor
  · intro ha
    cases ha with
    | returns hm hr => cases hm; cases hr
    | goes hm hr ha =>
      cases hm
      cases hr
      exact ha
  · exact .goes .drain rfl

end

/-! ## Single steps -/

/-- The slots that a call holds. -/
def Call.slots : Call → List Nat
  | .enter _ => []
  | .close slots _ => slots
  | .await slot => [slot]

/-- What is held, or can be looked up, are slots that have been made. -/
structure Bounded (s : State) : Prop where
  keys : ∀ slot ∈ s.store.keys.map Prod.snd, slot < s.store.slots.length
  calls : ∀ thread call, s.calls thread = some call → ∀ slot ∈ call.slots, slot < s.store.slots.length

namespace Moves

variable {b : Backrefs} {call : Call} {e : Effect} {slot : Nat} {value : Option Nat}

theorem enabled_eq (h : Moves b call e) : e.store.enabled = b.enabled := by
  cases h with
  | alloc => exact b.enabled_alloc _
  | _ => rfl

theorem length_le (h : Moves b call e) : b.slots.length ≤ e.store.slots.length := by
  cases h with
  | alloc => exact length_alloc b _
  | close => simp [Backrefs.publishAt]
  | _ => exact le_refl _

theorem keys_bounded (h : Moves b call e) (hb : ∀ slot ∈ b.keys.map Prod.snd, slot < b.slots.length) :
    ∀ slot ∈ e.store.keys.map Prod.snd, slot < e.store.slots.length := by
  cases h with
  | alloc =>
    unfold Backrefs.alloc
    split
    · rw [List.map_append, List.forall_mem_append]
      refine ⟨fun slot hs => ?_, ?_⟩
      · exact (hb slot hs).trans_le (by simp)
      · simp
    · exact hb
  | drain => exact List.forall_mem_nil _
  | close => simpa [Backrefs.publishAt] using hb
  | _ => exact hb

theorem rest_bounded (h : Moves b call e) (hb : ∀ slot ∈ b.keys.map Prod.snd, slot < b.slots.length)
    (hc : ∀ slot ∈ call.slots, slot < b.slots.length) :
    ∀ next, e.rest = some next → ∀ slot ∈ next.slots, slot < e.store.slots.length := by
  intro next hn
  cases h with
  | find hs =>
    cases hn
    exact List.forall_mem_singleton.mpr (hb _ (List.mem_map_of_mem (mem_of_lookup hs)))
  | drain =>
    cases hn
    exact hb
  | close =>
    cases hn
    intro slot hs
    simpa [Backrefs.publishAt] using hc slot (List.mem_of_mem_erase hs)
  | look _ hs =>
    cases hn
    exact List.forall_mem_singleton.mpr (hb _ (List.mem_map_of_mem (mem_of_lookup hs)))
  | _ => cases hn

/-- What readers find changes only where the step closes an open slot. -/
theorem read?_eq (h : Moves b call e) (hc : ∀ slot ∈ call.slots, slot < b.slots.length) (slot : Nat) :
    e.store.read? slot = (b.read? slot).or (outcomes slot e.event.toList).head? := by
  cases h with
  | alloc => simp [read?_alloc, outcomes]
  | close hs =>
    rw [read?_publishAt (hc _ hs)]
    simp only [outcomes, Option.toList_some, List.filterMap_cons, List.filterMap_nil]
    split <;> rfl
  | drain => simp [outcomes, Backrefs.read?]
  | _ => simp [outcomes]

/-- A get returns what its slot is closed with. -/
theorem read?_of_got (h : Moves b call e) (he : e.event = some (.got (some slot) value)) :
    call = .await slot ∧ b.read? slot = some value := by
  cases h with
  | read hr =>
    cases he
    exact ⟨rfl, hr⟩
  | _ => cases he

theorem eq_none_of_got (h : Moves b call e) (he : e.event = some (.got none value)) : value = none := by
  cases h with
  | off => cases he; rfl
  | unknown => cases he; rfl
  | _ => cases he

/-- Without sizes to hand over, no call waits. -/
theorem rest_ne_await (h : Moves b call e) (hb : b.enabled = false) : e.rest ≠ some (.await slot) := by
  cases h with
  | look he => rw [hb] at he; cases he
  | _ => exact nofun

end Moves

/-! ## Runs -/

section

variable {s t u : State} {trace more : List Event} {event : Option Event} {enabled : Bool} {slot : Nat}
  {value : Option Nat}

theorem forall_calls_update {calls : Nat → Option Call} {P : Call → Prop} {thread : Nat}
    {next : Option Call} (h : ∀ other call, calls other = some call → P call)
    (hn : ∀ call, next = some call → P call) :
    ∀ other call, Function.update calls thread next other = some call → P call := by
  intro other call hc
  rw [Function.update_apply] at hc
  split at hc
  · exact hn call hc
  · exact h other call hc

theorem bounded_start (enabled : Bool) : Bounded (.start enabled) where
  keys := List.forall_mem_nil _
  calls := nofun

theorem Bounded.step (hb : Bounded s) (h : Step s event t) : Bounded t := by
  cases h with
  | enter =>
    refine ⟨hb.keys, forall_calls_update hb.calls fun call hc => ?_⟩
    cases hc
    exact List.forall_mem_nil _
  | @move thread call e hcall hm =>
    refine ⟨hm.keys_bounded hb.keys, forall_calls_update (fun other call hc slot hs => ?_) ?_⟩
    · exact (hb.calls other call hc slot hs).trans_le hm.length_le
    · exact hm.rest_bounded hb.keys (hb.calls thread call hcall)

theorem Bounded.runs (hb : Bounded s) (h : Runs s trace t) : Bounded t := by
  induction h with
  | start => exact hb
  | step _ hs ih => exact ih.step hs

theorem Step.read?_eq (h : Step s event t) (hb : Bounded s) (slot : Nat) :
    t.store.read? slot = (s.store.read? slot).or (outcomes slot event.toList).head? := by
  cases h with
  | enter => simp [outcomes]
  | move hcall hm => exact hm.read?_eq (hb.calls _ _ hcall) slot

/-- A slot that was closed stays as it was, and any other takes the value of the first to reach it. -/
theorem Runs.read?_eq (h : Runs s trace t) (hb : Bounded s) (slot : Nat) :
    t.store.read? slot = (s.store.read? slot).or (outcomes slot trace).head? := by
  induction h with
  | start => simp [outcomes]
  | step hr hs ih =>
    rw [hs.read?_eq (hb.runs hr), ih, Option.or_assoc]
    simp [outcomes]

theorem Runs.read?_of_got (h : Runs s trace t) (hb : Bounded s)
    (hg : .got (some slot) value ∈ trace) : t.store.read? slot = some value := by
  induction h with
  | start => cases hg
  | step hr hs ih =>
    rw [hs.read?_eq (hb.runs hr)]
    rcases List.mem_append.mp hg with hg | hg
    · rw [ih hg]
      rfl
    · cases hs with
      | enter => cases hg
      | move hcall hm =>
        rw [(hm.read?_of_got (Option.mem_toList.mp hg)).2]
        rfl

theorem Runs.eq_none_of_got (h : Runs s trace t) (hg : .got none value ∈ trace) : value = none := by
  induction h with
  | start => cases hg
  | step hr hs ih =>
    rcases List.mem_append.mp hg with hg | hg
    · exact ih hg
    · cases hs with
      | enter => cases hg
      | move hcall hm => exact hm.eq_none_of_got (Option.mem_toList.mp hg)

theorem Runs.enabled_eq (h : Runs s trace t) : t.store.enabled = s.store.enabled := by
  induction h with
  | start => rfl
  | step _ hs ih =>
    cases hs with
    | enter => exact ih
    | move _ hm => exact hm.enabled_eq.trans ih

/-- On a store that is off no get waits for a slot. -/
theorem Runs.not_got (h : Runs (.start false) trace t) : (∀ thread call, t.calls thread = some call →
    ∀ slot, call ≠ .await slot) ∧ ∀ slot value, .got (some slot) value ∉ trace := by
  induction h with
  | start => exact ⟨nofun, nofun⟩
  | @step trace t event u hr hs ih =>
    cases hs with
    | enter =>
      refine ⟨forall_calls_update ih.1 fun call hc slot => ?_, by simpa using ih.2⟩
      cases hc
      exact Call.noConfusion
    | @move thread call e hcall hm =>
      refine ⟨forall_calls_update ih.1 fun call hc slot he => ?_, fun slot value hg => ?_⟩
      · rw [he] at hc
        exact hm.rest_ne_await hr.enabled_eq hc
      · rcases List.mem_append.mp hg with hg | hg
        · exact ih.2 slot value hg
        · exact ih.1 thread call hcall slot (hm.read?_of_got (Option.mem_toList.mp hg)).1

end

/-! ## What threads can rely on -/

/-- What holds of a store after any steps of any threads. -/
structure OneShot (enabled : Bool) (trace : List Event) (s : State) : Prop where
  /-- A slot is open until a publication or a prune gets to it, and is closed as the first one wants. -/
  first : ∀ slot, s.store.read? slot = (outcomes slot trace).head?
  /-- Whatever threads do next, a closed slot keeps its value. -/
  stays : ∀ more t, Runs s more t → ∀ slot value,
    s.store.read? slot = some value → t.store.read? slot = some value
  /-- All gets that return from a slot return what the first to reach it wanted. -/
  answers : ∀ slot value, .got (some slot) value ∈ trace → (outcomes slot trace).head? = some value
  /-- An allocation keeps the slots of all keys, and what is in them. -/
  allocs : ∀ key e, Moves s.store (.enter (.alloc key)) e →
    (∀ key' slot, s.store.slot? key' = some slot → e.store.slot? key' = some slot) ∧
      ∀ slot < s.store.slots.length, e.store.slots[slot]? = s.store.slots[slot]?
  /-- A publication for a key that has no slot returns and changes nothing. -/
  absent : ∀ key, s.store.slot? key = none → ∀ value e,
    Moves s.store (.enter (.publish key value)) e ↔ e = { store := s.store, rest := none }
  /-- A get for a key that has no slot, or on a store that is off, returns at once without a value. -/
  unknown : ∀ key, enabled = false ∨ s.store.slot? key = none → ∀ e,
    Moves s.store (.enter (.get key)) e ↔
      e = { store := s.store, rest := none, event := some (.got none none) }
  off : enabled = false → ∀ slot value, .got slot value ∈ trace → value = none

/-- The slots of a store are one-shot, however the steps of the threads that share it interleave. -/
theorem one_shot {enabled : Bool} {trace : List Event} {s : State}
    (h : Runs (.start enabled) trace s) : OneShot enabled trace s := by
  have hb := (bounded_start enabled).runs h
  have hread (slot : Nat) : s.store.read? slot = (outcomes slot trace).head? :=
    h.read?_eq (bounded_start enabled) slot
  constructor
  case first => exact hread
  case stays =>
    intro more t ht slot value hr
    rw [ht.read?_eq hb, hr]
    rfl
  case answers =>
    intro slot value hg
    rw [← hread]
    exact h.read?_of_got (bounded_start enabled) hg
  case allocs =>
    intro key e hm
    cases hm
    exact ⟨fun key' slot hs => slot?_alloc hs, fun slot hs => getElem?_alloc hs⟩
  case absent =>
    intro key hs value e
    constructor
    · intro hm
      cases hm with
      | find hf => rw [hs] at hf; cases hf
      | absent => rfl
    · rintro rfl
      exact .absent hs
  case unknown =>
    intro key hk e
    constructor
    · intro hm
      cases hm with
      | off => rfl
      | unknown => rfl
      | look he hf =>
        rcases hk with rfl | hs
        · rw [h.enabled_eq] at he
          cases he
        · rw [hs] at hf
          cases hf
    · rintro rfl
      cases he : s.store.enabled with
      | false => exact .off he
      | true =>
        refine .unknown he (hk.resolve_left ?_)
        rintro rfl
        rw [h.enabled_eq] at he
        cases he
  case off =>
    rintro rfl slot value hg
    cases slot with
    | none => exact h.eq_none_of_got hg
    | some slot => exact absurd hg (h.not_got.2 slot value)

/-- A get and a set hold a slot while a prune forgets its key and the key gets another slot. The set
closes the slot before the prune gets to it, and so the get returns what has been set. -/
theorem one_shot_overtaken : ∃ s,
    Runs (.start true) [.reached 0 (some 24), .reached 0 none, .got (some 0) (some 24)] s ∧
      s.store.slot? ⟨"1"⟩ = some 1 ∧ s.store.slots = [.closed (some 24), .empty] ∧
      ∀ more t, Runs s more t → t.store.read? 0 = some (some 24) := by
  have entered : Runs (.start true) [] _ := (((Runs.start
    |>.step (@Step.enter _ 0 (.alloc ⟨"1"⟩) rfl) |>.step (@Step.move _ 0 _ _ rfl .alloc))
    |>.step (@Step.enter _ 1 (.get ⟨"1"⟩) rfl) |>.step (@Step.move _ 1 _ _ rfl (.look rfl rfl)))
    |>.step (@Step.enter _ 2 (.publish ⟨"1"⟩ (some 24)) rfl) |>.step (@Step.move _ 2 _ _ rfl (.find rfl)))
  have drained : Runs (.start true) [] _ := ((entered
    |>.step (@Step.enter _ 3 .prune rfl) |>.step (@Step.move _ 3 _ _ rfl .drain))
    |>.step (@Step.enter _ 0 (.alloc ⟨"1"⟩) rfl) |>.step (@Step.move _ 0 _ _ rfl .alloc))
  have h := ((drained
    |>.step (@Step.move _ 2 (.close [0] (some 24)) _ rfl (.close (List.mem_singleton_self 0))))
    |>.step (@Step.move _ 3 (.close [0] none) _ rfl (.close (List.mem_singleton_self 0)))
    |>.step (@Step.move _ 1 (.await 0) _ rfl (.read rfl)))
  exact ⟨_, h, rfl, rfl, fun more t ht => (one_shot h).stays more t ht 0 (some 24) rfl⟩

end StructLayout.Sharing
