/-
Where a script is read from: files in folders, found by path. A path is walked
part by part, and each slash asks that what stands before it be a folder. So a
slash behind a file's name is a mistake even where nothing follows it, and a
walk that fails says at which of its steps by the cause it gives.
-/
import Scriptlet.Entries

namespace Scriptlet

-- ========================================================== causes

/-- Why a path gives no text. -/
inductive Unreadable where
  | missing
  | forbidden
  | notFolder
  | isFolder
  | nameTooLong
  | notText
  | other (text : String)
  deriving DecidableEq, Repr

/-- The wording of a cause, with the system's number where it has one. -/
def Unreadable.message : Unreadable → String
  | missing => "No such file or directory (os error 2)"
  | forbidden => "Permission denied (os error 13)"
  | notFolder => "Not a directory (os error 20)"
  | isFolder => "Is a directory (os error 21)"
  | nameTooLong => "File name too long (os error 36)"
  | notText => "stream did not contain valid UTF-8"
  | other text => text

-- =========================================================== trees

/-- What a name in a folder stands for. -/
inductive Node where
  | file (text : String)
  | folder (entries : List (String × Node))

namespace Node

/-- The text of a file. -/
def text : Node → Except Unreadable String
  | file text => .ok text
  | folder _ => .error .isFolder

/-- What stands in a folder; a file holds nothing. -/
def entries : Node → Entries String Node
  | file _ => []
  | folder entries => entries

/-- Puts a file at a path, with the folders on the way to it. -/
def plant (text : String) : List String → Node → Node
  | [], _ => file text
  | part :: rest, node =>
      let next := (node.entries.get? part).getD (folder [])
      folder (node.entries.put part (plant text rest next))

/-- The bytes that the name of a file or folder may take. -/
def maxName : Nat := 255

/-- The bytes that a path may take. -/
def maxPath : Nat := 4095

/-- What a name stands for in a folder. -/
def find (name : String) (entries : Entries String Node) : Except Unreadable Node :=
  if maxName < name.utf8ByteSize then .error .nameTooLong
  else
    match entries.get? name with
    | some node => .ok node
    | none => .error .missing

/-- Walks the parts of a path from `here`, where `above` holds the folders around
it, the nearest first. A part that is empty or `.` stays, and `..` leaves the
folder; the outermost folder is around itself. -/
def walk (above : List Node) (here : Node) : List String → Except Unreadable (List Node × Node)
  | [] => .ok (above, here)
  | part :: rest =>
      match here with
      | file _ => .error .notFolder
      | folder entries =>
          if part = "" || part = "." then walk above here rest
          else if part = ".." then
            match above with
            | [] => walk [] here rest
            | outer :: further => walk further outer rest
          else
            match find part entries with
            | .ok next => walk (here :: above) next rest
            | .error cause => .error cause

/-- The text at a path, seen from the folder `home` inside `root`. A path that
begins with a slash is seen from `root`. -/
def read (root : Node) (home : List String) (path : String) : Except Unreadable String := do
  if maxPath < path.utf8ByteSize then throw .nameTooLong
  let parts := path.splitOn "/"
  let (above, here) ← walk [] root (if parts.head? = some "" then [] else home)
  let (_, found) ← walk above here parts
  found.text

end Node

end Scriptlet
