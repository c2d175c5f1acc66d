import MonkeyLang.Value

/-!
Frames and their store. An environment is a frame with the frames around it; names are looked up
from the inside out, and bound in the innermost frame.
-/

namespace MonkeyLang

/-- Names with their values in the order of first binding, and the addresses of all frames around
this one, the nearest first. -/
structure Frame where
  bindings : OrderedMap String Value
  outer : List Address
  deriving Inhabited

/-- All frames, in the order of their making. -/
structure Store where
  frames : Array Frame

namespace Store

def empty : Store := ⟨#[]⟩

instance : Inhabited Store := ⟨empty⟩

def frame? (store : Store) (env : Address) : Option Frame := store.frames[env]?

/-- The frames that an environment sees, its own first. -/
def chain (store : Store) (env : Address) : List Address :=
  env :: ((store.frame? env).map Frame.outer).getD []

def local? (store : Store) (name : String) (env : Address) : Option Value :=
  (store.frame? env).bind fun frame ↦ frame.bindings.find? name

/-- The value of a name in an environment: that of the nearest frame that binds it. -/
def get? (store : Store) (env : Address) (name : String) : Option Value :=
  (store.chain env).findSome? (store.local? name)

/-- Binds a name in the innermost frame of an environment. -/
def bind (store : Store) (env : Address) (name : String) (value : Value) : Store :=
  ⟨store.frames.modify env fun frame ↦ { frame with bindings := frame.bindings.insert name value }⟩

def nextAddress (store : Store) : Address := store.frames.size

def addFrame (store : Store) (outer : List Address) : Store := ⟨store.frames.push ⟨[], outer⟩⟩

def enclose (store : Store) (outer : Address) : Store := store.addFrame (store.chain outer)

/-- The text of an environment: the names of its own frame and whether there are frames around. -/
def describe (store : Store) (env : Address) : String :=
  let names := ((store.frame? env).map fun frame ↦ frame.bindings.keys).getD []
  let outer := if (store.chain env).tail.isEmpty then "False" else "True"
  "<Environment [" ++ ", ".intercalate names ++ "] outer=" ++ outer ++ ">"

end Store

end MonkeyLang
