import Reckoner.Bindings

/-!
# Files

A working directory as a value: contents by path. Its directories are those that the paths go
through.

* `Files.locate` — what stands at a path;
* `Files.read` — the content of a file;
* `Files.extension` — the end of a file's name from its last dot on.
-/

namespace Reckoner

/-- The content of a file. -/
abbrev Content := List UInt8

/-- Files by their paths. -/
abbrev Files := Bindings Content

/-- Why a file is not opened or read. -/
inductive FileError where
  | missing (path : String)
  | notDirectory (path : String)
  | isDirectory (operation path : String)

/-- The reason in words. -/
def FileError.message : FileError → String
  | missing path => "open " ++ path ++ ": no such file or directory"
  | notDirectory path => "open " ++ path ++ ": not a directory"
  | isDirectory operation path => operation ++ " " ++ path ++ ": is a directory"

namespace Files

/-- What stands at a path. -/
inductive Target where
  /-- A file, under its shortest path. -/
  | file (name : String) (content : Content)
  | directory
  /-- Nothing, in a directory that is there. -/
  | vacant (name : String)

/-- Follows the steps of a path from a directory, which is given by its names, the innermost first.
-/
def walk (files : Files) (path : String) (here : List String) :
    List String → Except FileError Target
  | [] => .ok .directory
  | step :: rest =>
    if step = "" ∨ step = "." then walk files path here rest
    else if step = ".." then
      match here with
      | [] => .error (.missing path)
      | _ :: outer => walk files path outer rest
    else
      let name := "/".intercalate (step :: here).reverse
      match files.get? name with
      | some content =>
        if rest.isEmpty then .ok (.file name content) else .error (.notDirectory path)
      | none =>
        if files.any fun file => (name ++ "/").toList.isPrefixOf file.1.toList then
          walk files path (step :: here) rest
        else if rest.isEmpty then .ok (.vacant name)
        else .error (.missing path)

/-- What stands at a path from the working directory. -/
def locate (files : Files) (path : String) : Except FileError Target :=
  match files.get? path, path.toList with
  | some content, _ => .ok (.file path content)
  | none, [] => .error (.missing path)
  | none, '/' :: _ => .error (.missing path)
  | none, _ => walk files path [] (path.splitOn "/")

/-- The content of the file at a path. -/
def read (files : Files) (path : String) : Except FileError Content :=
  match files.locate path with
  | .ok (.file _ content) => .ok content
  | .ok .directory => .error (.isDirectory "read" path)
  | .ok (.vacant _) => .error (.missing path)
  | .error e => .error e

/-- The end of a file's name from its last dot on, empty when it has none. -/
def extension (path : String) : String :=
  let name := (path.toList.reverse.takeWhile (· != '/'))
  match name.dropWhile (· != '.') with
  | [] => ""
  | _ => String.ofList ('.' :: (name.takeWhile (· != '.')).reverse)

end Files
end Reckoner
