/-!
Paths as text: folders and a name, separated by slashes.
-/
namespace Mis.Cli

/-- What stands between the slashes of a path. -/
def pathParts (path : String) : List String :=
  (path.toList.splitOn '/').map String.ofList

/-- A text up to and with the last `c`, and what stands behind it. -/
def splitLast (c : Char) (cs : List Char) : List Char × List Char :=
  let tail := (cs.reverse.takeWhile (· ≠ c)).reverse
  (cs.take (cs.length - tail.length), tail)

/-- A file name without its extension. A dot at the start of a name starts none. -/
def stem (name : List Char) : List Char :=
  match splitLast '.' name with
  | ([], _) => name
  | (['.'], _) => name
  | (start, _) => start.dropLast

/-- The path with another extension, or with none if `ext` is empty. What names no
file stays as it is, also where cutting off the old extension leaves the parent folder. -/
def withExtension (path ext : String) : String :=
  let (folder, name) := splitLast '/' path.toList
  if name = [] || name = ['.'] || name = ['.', '.'] then path
  else if stem name = ['.'] then String.ofList (folder ++ ['.', '.'])
  else
    String.ofList (folder ++ stem name) ++ if ext.isEmpty then "" else "." ++ ext

end Mis.Cli
