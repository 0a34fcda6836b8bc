import Mis.Text.Quoted

/-!
Values laid out for reading: one part to a line, nested parts four columns
further in, and a comma behind each.
-/
namespace Mis

inductive Outline where
  | leaf (text : String)
  | list (items : List Outline)
  | tuple (name : String) (items : List Outline)
  | record (name : String) (fields : List (String × Outline))

namespace Outline

def text (s : String) : Outline := .leaf (Text.quote s)

def nat (n : Nat) : Outline := .leaf (toString n)

def bool (b : Bool) : Outline := .leaf (if b then "true" else "false")

def option {α : Type} (f : α → Outline) : Option α → Outline
  | some a => .tuple "Some" [f a]
  | none => .leaf "None"

def margin (depth : Nat) : String :=
  String.join (List.replicate depth "    ")

mutual

/-- The text of an outline whose first line starts at the given depth. -/
def render (depth : Nat) : Outline → String
  | .leaf t => t
  | .list [] => "[]"
  | .list items => "[\n" ++ renderItems (depth + 1) items ++ margin depth ++ "]"
  | .tuple name items => name ++ "(\n" ++ renderItems (depth + 1) items ++ margin depth ++ ")"
  | .record name fields =>
    name ++ " \x7b\n" ++ renderFields (depth + 1) fields ++ margin depth ++ "\x7d"

def renderItems (depth : Nat) : List Outline → String
  | [] => ""
  | item :: items =>
    margin depth ++ render depth item ++ ",\n" ++ renderItems depth items

def renderFields (depth : Nat) : List (String × Outline) → String
  | [] => ""
  | (name, value) :: fields =>
    margin depth ++ name ++ ": " ++ render depth value ++ ",\n" ++ renderFields depth fields

end

end Outline
end Mis
