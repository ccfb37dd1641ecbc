import CommandScript.Bindings
import CommandScript.Text.Source

/-! The files around the program, and what a path leads to. A path is followed from the working directory, or from the
root, one part after another. -/

namespace CommandScript.CommandLine

open Text

inductive FileNode where
  /-- A regular file. What it holds need not be UTF-8. -/
  | regular (content : Source)
  /-- A regular file that may not be read. -/
  | locked
  /-- Something that can be read and is no regular file. -/
  | device (text : String)
  | directory
  deriving DecidableEq

/-- Why a path cannot be opened or, if what is there is not UTF-8, cannot be read. -/
inductive FileError where
  | missing | isDirectory | notDirectory | nameTooLong | nulCharacter | denied | undecodable
  deriving DecidableEq

def FileError.message : FileError → String
  | missing => "No such file or directory"
  | isDirectory => "Is a directory"
  | notDirectory => "Not a directory"
  | nameTooLong => "File name too long"
  | nulCharacter => "embedded null byte"
  | denied => "Permission denied"
  | undecodable => "not valid UTF-8"

/-- The parts of a path that are not empty. -/
def pathParts (path : String) : List String := (path.splitOn "/").filter (· ≠ "")

/-- A path without empty parts and without those that stay in place. -/
def tidyPath (path : String) : String :=
  let parts := (pathParts path).filter (· ≠ ".")
  let rooted := (path.toList.takeWhile (· = '/')).length
  let root := if rooted = 0 then "" else if rooted = 2 then "//" else "/"
  if parts.isEmpty && rooted = 0 then "." else root ++ "/".intercalate parts

/-! ### Places -/

/-- Where a path leads: from the root or from the working directory, a number of directories up, and then down by
name, the last name first. -/
structure Place where
  rooted : Bool := false
  up : Nat := 0
  down : List String := []

namespace Place

/-- The directory around a place. The root is its own. -/
def parent (p : Place) : Place :=
  match p.down with
  | _ :: down => { p with down }
  | [] => if p.rooted then p else { p with up := p.up + 1 }

def child (p : Place) (name : String) : Place := { p with down := name :: p.down }

def path (p : Place) : String :=
  (if p.rooted then "/" else "") ++ "/".intercalate (List.replicate p.up ".." ++ p.down.reverse)

end Place

/-! ### Trees -/

/-- What is known of the files, by tidy paths. The directories they are in need not be named. -/
abbrev FileTree := Bindings FileNode

namespace FileTree

/-- Files by any path without steps up. -/
def ofFiles (files : List (String × String)) : FileTree :=
  files.map fun (path, text) => (tidyPath path, .regular (.text text))

/-- What stands at a place. -/
def node? (t : FileTree) (p : Place) : Option FileNode :=
  if p.down.isEmpty then some .directory
  else
    match Bindings.get? t p.path with
    | some node => some node
    | none =>
      let inside := (p.path ++ "/").toList
      if t.any fun (path, _) => inside.isPrefixOf path.toList then some .directory else none

/-- The most bytes in one name, and in a whole path. -/
def longestName : Nat := 255
def longestPath : Nat := 4095

/-- Follows the parts of a path from a place at which `node` stands. -/
def follow (t : FileTree) (here : Place) (node : FileNode) : List String → Except FileError FileNode
  | [] => .ok node
  | part :: parts =>
    if node ≠ .directory then .error .notDirectory
    else if part = "." then follow t here .directory parts
    else if part = ".." then follow t here.parent .directory parts
    else if longestName < part.utf8ByteSize then .error .nameTooLong
    else
      match t.node? (here.child part) with
      | none => .error .missing
      | some node => follow t (here.child part) node parts

/-- What a path leads to. One that ends in a slash leads to a directory. -/
def resolve (t : FileTree) (path : String) : Except FileError FileNode :=
  if '\x00' ∈ path.toList then .error .nulCharacter
  else if path = "" then .error .missing
  else if longestPath < path.utf8ByteSize then .error .nameTooLong
  else
    let isOpen := path.toList.getLast? = some '/'
    t.follow { rooted := path.toList.head? = some '/' } .directory (pathParts path ++ if isOpen then ["."] else [])

/-- The text that is read from a path. -/
def read (t : FileTree) (path : String) : Except FileError String :=
  match t.resolve path with
  | .ok (.regular content) =>
    match content.decode? with
    | some text => .ok text
    | none => .error .undecodable
  | .ok .locked => .error .denied
  | .ok (.device text) => .ok text
  | .ok .directory => .error .isDirectory
  | .error e => .error e

end FileTree

end CommandScript.CommandLine
