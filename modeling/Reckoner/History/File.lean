import Reckoner.History.Codec
import Reckoner.Text.Blank

/-!
# The history file

The history is a JSON array in a file. It grows at its end: the closing bracket is cut off, and the
new entries are written in its place with another one. Only the tail of the file is looked at for
that, so the work does not grow with the history.

* `History.append` — the content with entries added;
* `History.entries?` — the entries of a content;
* `Appender` — a file opened for adding entries;
* `History.read?` — the entries of a file.
-/

namespace Reckoner.History

open Text (encodeText decodeBytes isBlank)

/-- Why a history is not opened or not added to. -/
inductive Error where
  | unwritable (reason : String)
  | noOpening
  | noClosing
  | nothingBeforeClosing
  | closed (operation path : String)
  | file (error : FileError)

/-- The reason in words. -/
def Error.message : Error → String
  | unwritable reason => reason
  | noOpening => "invalid history file: missing opening bracket"
  | noClosing => "invalid history file: missing closing bracket"
  | nothingBeforeClosing => "invalid history file: no content before closing bracket"
  | closed operation path => operation ++ " " ++ path ++ ": file already closed"
  | file error => error.message

/-! ## Content -/

/-- The opening bracket. -/
def opening : UInt8 := 0x5B

/-- The closing bracket. -/
def closing : UInt8 := 0x5D

/-- How many bytes are searched for the opening bracket. -/
def headSize : Nat := 16

/-- How many bytes are searched for the closing bracket. -/
def tailSize : Nat := 1024

/-- A content that can be a history: empty, or with an opening bracket near its beginning. -/
def checkOpening (content : Content) : Except Error Unit :=
  if content.isEmpty || (content.take headSize).contains opening then .ok () else .error .noOpening

/-- A byte that is a blank on its own. -/
def isBlankByte (b : UInt8) : Bool :=
  isBlank (Char.ofNat b.toNat)

/-- What stands between the last byte that is kept and the first new entry. -/
def separator (last : UInt8) : String :=
  if last = opening then "\n  " else ",\n  "

/-- The content before its closing bracket and the blanks there, with the last byte of it. -/
def cutClosing (content : Content) : Except Error (Content × UInt8) :=
  let start := content.length - tailSize
  match (content.drop start).reverse.dropWhile (· ≠ closing) with
  | [] => .error .noClosing
  | _ :: before =>
    match before.dropWhile isBlankByte with
    | [] => .error .nothingBeforeClosing
    | last :: rest => .ok (content.take start ++ (last :: rest).reverse, last)

/-- The texts of entries, or the reason why the first of them that cannot be written has none. -/
def entryTexts (codec : Codec) (entries : List Entry) : Except Error (List String) :=
  entries.mapM fun e => (codec.marshal e).mapError .unwritable

/-- Texts of entries with the closing bracket after them. -/
def closedText (texts : List String) : String :=
  ",\n  ".intercalate texts ++ "\n]\n"

/-- The content with new entries and a closing bracket at its end. -/
def appendText (content : Content) (text : String) : Except Error Content :=
  if content.isEmpty then .ok (encodeText ("[\n  " ++ text))
  else
    match cutClosing content with
    | .error e => .error e
    | .ok (kept, last) => .ok (kept ++ encodeText (separator last ++ text))

/-- The content with entries added. Without entries nothing is looked at or changed. -/
def append (codec : Codec) (content : Content) (entries : List Entry) : Except Error Content :=
  if entries.isEmpty then .ok content
  else
    match entryTexts codec entries with
    | .error e => .error e
    | .ok texts => appendText content (closedText texts)

/-- The entries of a content; a content of blanks has none. -/
def entries? (codec : Codec) (content : Content) : Option (List Entry) :=
  if (decodeBytes content).all isBlank then some [] else codec.unmarshal content

/-! ## Files -/

/-- A file opened for adding entries: the path that names it, and its place among the files. -/
structure Appender where
  path : String
  file : String := path
  isOpen : Bool := true

namespace Appender

/-- Opens a history, which is made if it is not there. -/
def start (files : Files) (path : String) : Except Error (Appender × Files) :=
  match files.locate path with
  | .ok (.file file content) => (checkOpening content).map fun _ => ({ path, file }, files)
  | .ok (.vacant file) => .ok ({ path, file }, files.set file [])
  | .ok .directory => .error (.file (.isDirectory "open" path))
  | .error e => .error (.file e)

/-- Adds entries, which are written down before the file is looked at. -/
def append (a : Appender) (codec : Codec) (files : Files) (entries : List Entry) :
    Except Error Files :=
  if entries.isEmpty then .ok files
  else
    match entryTexts codec entries with
    | .error e => .error e
    | .ok texts =>
      if a.isOpen then
        (appendText ((files.get? a.file).getD []) (closedText texts)).map fun content =>
          files.set a.file content
      else .error (.closed "stat" a.path)

/-- Ends adding. -/
def close (a : Appender) : Except Error Appender :=
  if a.isOpen then .ok { a with isOpen := false } else .error (.closed "close" a.path)

end Appender

/-- The entries of a file; a file that is not there has none. -/
def read? (codec : Codec) (files : Files) (path : String) : Option (List Entry) :=
  match files.locate path with
  | .ok (.file _ content) => entries? codec content
  | .ok (.vacant _) => some []
  | _ => none

end Reckoner.History
