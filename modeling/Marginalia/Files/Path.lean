import Marginalia.Text.Line

/-!
Paths, written as texts with slashes between names.
-/

namespace Marginalia.Path

def isAbsolute (path : String) : Bool := path.toList.head? == some '/'

/-- A path with a name below it; a name that is a path from the root stands for itself. -/
def join (path name : String) : String :=
  if isAbsolute name ∨ path = "" then name
  else if path.toList.getLast? = some '/' then path ++ name
  else path ++ "/" ++ name

/-- What stands between the slashes of a path. -/
def steps (path : String) : List (List Char) := Text.splitOn '/' path.toList

/-- The last name of a path; a step up has none. -/
def fileName? (path : String) : Option (List Char) :=
  let names := (steps path).filter fun s => s ≠ [] && s ≠ ['.']
  names.getLast?.filter (· ≠ ['.', '.'])

/-- What follows the last dot of a file's name, unless the name begins with that dot. -/
def extension? (path : String) : Option (List Char) :=
  (fileName? path).bind fun name =>
    match Text.splitAtLast? ['.'] name with
    | some (_ :: _, ending) => some ending
    | _ => none

end Marginalia.Path
