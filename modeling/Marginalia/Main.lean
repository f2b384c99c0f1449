import Marginalia.CommandLine.Run
import Marginalia.Files.Location

/-!
The program: it reads the surroundings and the files, and prints the outcome.
-/

open Marginalia

def surroundings : IO Files.Surroundings := do
  let home ← IO.getEnv "HOME"
  return ⟨home.filter (· ≠ ""), ← IO.getEnv "XDG_CONFIG_HOME", ← IO.getEnv "XDG_CACHE_HOME"⟩

def makeFolder (path : String) : IO Bool :=
  try
    IO.FS.createDirAll path
    return true
  catch _ => return false

def readFile (path : String) : IO (Option (List UInt8)) :=
  try
    return some (← IO.FS.readBinFile path).toList
  catch _ => return none

def main (words : List String) : IO UInt32 := do
  let s ← surroundings
  let made ← match CommandLine.Request.ofWords words, Files.Folder.config.path? s with
    | .ok (.run _), some path => makeFolder path
    | _, _ => pure false
  let configFiles := Files.configFiles s fun _ => made
  let paths := configFiles ++ CommandLine.Request.paths words
  let files ← paths.mapM fun path => return (path, ← readFile path)
  let outcome := CommandLine.answer (fun path => (files.lookup path).join) configFiles words
  for line in outcome.lines do
    IO.println line
  match outcome.failure.bind CommandLine.Failure.message? with
  | some message => IO.eprintln ("Error: " ++ message)
  | none => pure ()
  return outcome.code
