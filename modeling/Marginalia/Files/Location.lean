import Marginalia.Files.Path

/-!
Where the program's files belong: its folders below the bases that the user or the system names,
and the places of the configuration file.
-/

namespace Marginalia.Files

/-- What the surroundings tell about where files belong. -/
structure Surroundings where
  home : Option String
  configHome : Option String
  cacheHome : Option String
deriving DecidableEq, Repr

/-- The folders that the program makes its own. -/
inductive Folder where
  | config
  | cache
deriving DecidableEq, Repr

inductive FolderError where
  /-- There is no base for the folder. -/
  | homeless (f : Folder)
  /-- The folder at this path cannot be made. -/
  | blocked (path : String)
deriving DecidableEq, Repr

namespace Folder

def name : Folder → String
  | .config => "config"
  | .cache => "cache"

/-- The base of a folder. One that is named counts only as a path from the root. -/
def base? (s : Surroundings) (f : Folder) : Option String :=
  let (named, own) := match f with
    | .config => (s.configHome, ".config")
    | .cache => (s.cacheHome, ".cache")
  (named.filter Path.isAbsolute).or (s.home.map (Path.join · own))

def path? (s : Surroundings) (f : Folder) : Option String :=
  (f.base? s).map (Path.join · "diff-review")

/-- The path of a folder that `make` makes where it is missing. -/
def ensure (s : Surroundings) (make : String → Bool) (f : Folder) : Except FolderError String :=
  match f.path? s with
  | none => .error (.homeless f)
  | some path => if make path then .ok path else .error (.blocked path)

end Folder

def FolderError.message : FolderError → String
  | .homeless f => "Could not determine " ++ f.name ++ " directory"
  | .blocked path => "Failed to create " ++ path

/-- The name of the configuration file where one works, and at home. -/
def configFile : String := ".diff-review.toml"

/-- The places of the configuration file, the first to look at first. -/
def configFiles (s : Surroundings) (make : String → Bool) : List String :=
  [configFile] ++ (s.home.map (Path.join · configFile)).toList ++
    match Folder.config.ensure s make with
    | .ok path => [Path.join path "config.toml"]
    | .error _ => []

end Marginalia.Files
