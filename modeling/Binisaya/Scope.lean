/-!
# Scopes

A frame holds the bindings of one block.  `Scopes` are the frames of the blocks that are open, the
innermost first; there is always at least one.  Names are looked up from the inside out, so an inner
binding hides an outer one of the same name.
-/

namespace Binisaya

/-- The bindings of one block, each name at most once. -/
structure Frame (α : Type) where
  entries : List (String × α)
  deriving DecidableEq, Repr

namespace Frame

variable {α : Type}

/-- The frame without bindings. -/
def empty : Frame α := ⟨[]⟩

/-- What a name is bound to. -/
def get? (t : Frame α) (name : String) : Option α := t.entries.lookup name

/-- Whether a name is bound. -/
def binds (t : Frame α) (name : String) : Bool := (t.get? name).isSome

/-- Binds a name, in place of an earlier binding of it. -/
def add (t : Frame α) (name : String) (value : α) : Frame α :=
  ⟨(name, value) :: t.entries.filter fun entry => entry.1 != name⟩

/-- The number of bindings. -/
def size (t : Frame α) : Nat := t.entries.length

/-- The names that are bound. -/
def names (t : Frame α) : List String := t.entries.map Prod.fst

end Frame

/-- The frames of the open blocks: the innermost, and those around it from the inside out. -/
structure Scopes (α : Type) where
  innermost : Frame α
  outer : List (Frame α)
  deriving DecidableEq, Repr

/-- Puts a name into its place among names in ascending order, unless it is there. -/
def insertName (name : String) : List String → List String
  | [] => [name]
  | n :: ns =>
    if name = n then n :: ns else if name < n then name :: n :: ns else n :: insertName name ns

namespace Scopes

variable {α : Type}

/-- One block without bindings. -/
def initial : Scopes α := ⟨.empty, []⟩

/-- All frames, the innermost first. -/
def frames (s : Scopes α) : List (Frame α) := s.innermost :: s.outer

/-- Opens a block. -/
def push (s : Scopes α) : Scopes α := ⟨.empty, s.frames⟩

/-- Closes the innermost block, unless it is the last. -/
def pop (s : Scopes α) : Scopes α :=
  match s.outer with
  | [] => s
  | frame :: frames => ⟨frame, frames⟩

/-- The number of open blocks. -/
def depth (s : Scopes α) : Nat := s.frames.length

/-- Binds a name in the innermost block, in place of an earlier binding there. -/
def bind (s : Scopes α) (name : String) (value : α) : Scopes α :=
  { s with innermost := s.innermost.add name value }

/-- Binds a name in the innermost block, if it is not bound there. -/
def declare? (s : Scopes α) (name : String) (value : α) : Option (Scopes α) :=
  if s.innermost.binds name then none else some (s.bind name value)

/-- What a name means: its innermost binding. -/
def lookup (s : Scopes α) (name : String) : Option α := s.frames.findSome? (·.get? name)

/-- The names that mean something, in ascending order. -/
def visible (s : Scopes α) : List String :=
  (s.frames.flatMap Frame.names).foldr insertName []

/-- Changes the first frame that binds a name, or else the last frame. -/
def assignIn (name : String) (value : α) : List (Frame α) → List (Frame α)
  | [] => []
  | [frame] => [frame.add name value]
  | frame :: frames =>
    if frame.binds name then frame.add name value :: frames
    else frame :: assignIn name value frames

/-- Changes the innermost binding of a name, or, if it has none, binds it in the outermost block. -/
def assign (s : Scopes α) (name : String) (value : α) : Scopes α :=
  if s.innermost.binds name || s.outer.isEmpty then s.bind name value
  else { s with outer := assignIn name value s.outer }

end Scopes

end Binisaya
