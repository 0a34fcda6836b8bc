/-!
Types, typed names and literals, shared by source trees and generated programs.
-/
namespace Mis

/-- A named type, or a pointer to one. -/
structure Ty where
  name : String
  isPointer : Bool := false
deriving DecidableEq, Repr

namespace Ty

def int : Ty := ⟨"Int", false⟩

def string : Ty := ⟨"String", false⟩

/-- Pointers do not nest: the pointer to a pointer type is that type. -/
def pointer (t : Ty) : Ty := ⟨t.name, true⟩

def render (t : Ty) : String :=
  if t.isPointer then t.name ++ "*" else t.name

end Ty

/-- A parameter, a struct field or a local variable. -/
structure TypedName where
  name : String
  type : Ty
deriving DecidableEq, Repr

inductive Literal where
  | int (value : Int)
  | text (value : String)
deriving DecidableEq, Repr

def Literal.type : Literal → Ty
  | .int _ => .int
  | .text _ => .string

end Mis
