/-! Contexts: handles that end a run early, each derived from an older one. -/

namespace StructLayout

/-- Why a context is done. -/
inductive ContextError where
  | cancelled
  | deadlineExceeded
  deriving DecidableEq, Repr

def ContextError.message : ContextError → String
  | .cancelled => "context cancelled"
  | .deadlineExceeded => "context deadline exceeded"

/-- What one context holds of its own. -/
structure Context where
  parent : Option Nat := none
  cancelled : Bool := false
  expired : Bool := false
  deriving DecidableEq, Repr

namespace Context

/-- The error that a context has by itself; a cancel counts before a deadline. -/
def own? (c : Context) : Option ContextError :=
  if c.cancelled then some .cancelled
  else if c.expired then some .deadlineExceeded
  else none

/-- Contexts are numbered from the oldest, and stand in a list with the newest in front. -/
def error? : List Context → Nat → Option ContextError
  | [], _ => none
  | c :: older, i =>
    if i = older.length then c.own?.or (c.parent.bind (error? older)) else error? older i

def isDone (all : List Context) (i : Nat) : Bool :=
  (error? all i).isSome

/-- One live context without a parent. -/
def background : List Context :=
  [{}]

def child (all : List Context) (parent : Nat) : List Context :=
  { parent := some parent } :: all

/-- A child whose deadline has passed already, or never will. -/
def withDeadline (all : List Context) (parent : Nat) (expired : Bool) : List Context :=
  { parent := some parent, expired } :: all

def cancel : List Context → Nat → List Context
  | [], _ => []
  | c :: older, i =>
    if i = older.length then { c with cancelled := true } :: older else c :: cancel older i

@[simp] theorem length_cancel (all : List Context) (i : Nat) :
    (cancel all i).length = all.length := by
  induction all with
  | nil => rfl
  | cons c older ih => simp only [cancel]; split <;> simp [ih]

/-- The state of a context in one line. -/
def describe (state : Option ContextError) : String :=
  let shown := match state with
    | none => "None"
    | some .cancelled => "Some(Cancelled)"
    | some .deadlineExceeded => "Some(DeadlineExceeded)"
  s!"Context \x7b err: {shown} \x7d"

end Context

end StructLayout
