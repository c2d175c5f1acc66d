/-!
The builtin functions and the registries in which programs find them.
-/

namespace MonkeyLang

/-- The functions that need no definition in a program. -/
inductive Builtin
  | len | first | last | rest | push | puts
  deriving DecidableEq, Repr, Inhabited

def Builtin.name : Builtin → String
  | len => "len"
  | first => "first"
  | last => "last"
  | rest => "rest"
  | push => "push"
  | puts => "puts"

/-- The builtin functions that a program finds. -/
abbrev Registry : Type := List Builtin

def Registry.standard : Registry := [.len, .first, .last, .rest, .push, .puts]

def Registry.find? (registry : Registry) (name : String) : Option Builtin :=
  List.find? (fun function ↦ function.name == name) registry

end MonkeyLang
