import Marginalia.Files.Path

/-!
Files and folders held in memory. A path is walked name by name, and a walk goes on only from a
folder.
-/

namespace Marginalia.Files

/-- The names from the root to a place. -/
abbrev Place := List (List Char)

structure Tree where
  files : List (Place × List UInt8)
  /-- All folders but the root. -/
  folders : List Place
deriving Repr

namespace Tree

def empty : Tree := ⟨[], []⟩

def isFolder (t : Tree) (p : Place) : Bool := p.isEmpty || t.folders.contains p

def isFile (t : Tree) (p : Place) : Bool := (t.files.lookup p).isSome

/-- The place that some steps lead to. The last one may name a file, or nothing. -/
def walk? (t : Tree) (here : Place) : List (List Char) → Option Place
  | [] => some here
  | s :: steps =>
    if ! t.isFolder here then none
    else if s = [] ∨ s = ['.'] then t.walk? here steps
    else if s = ['.', '.'] then t.walk? here.dropLast steps
    else t.walk? (here ++ [s]) steps

/-- Walks some steps and adds the folders that are missing; a file on the way stops the walk. -/
def pave? (t : Tree) (here : Place) : List (List Char) → Option Tree
  | [] => some t
  | s :: steps =>
    if s = [] ∨ s = ['.'] then t.pave? here steps
    else if s = ['.', '.'] then t.pave? here.dropLast steps
    else
      let next := here ++ [s]
      if t.isFolder next then t.pave? next steps
      else if t.isFile next then none
      else pave? { t with folders := t.folders ++ [next] } next steps

/-- Where a walk begins: at the root, or in the folder one works in. -/
def origin (cwd : Place) (path : String) : Place := if Path.isAbsolute path then [] else cwd

/-- The bytes of the file at a path. -/
def read? (t : Tree) (cwd : Place) (path : String) : Option (List UInt8) :=
  if path = "" then none
  else (t.walk? (origin cwd path) (Path.steps path)).bind fun p => t.files.lookup p

/-- Adds the folder at a path, with the folders above it. -/
def createFolder? (t : Tree) (cwd : Place) (path : String) : Option Tree :=
  t.pave? (origin cwd path) (Path.steps path)

/-- Adds a file with the folders above it. -/
def addFile (t : Tree) (path : String) (bytes : List UInt8) : Tree :=
  let place := (Path.steps path).filter (· ≠ [])
  let t := (t.pave? [] place.dropLast).getD t
  { t with files := (place, bytes) :: t.files }

end Tree

end Marginalia.Files
