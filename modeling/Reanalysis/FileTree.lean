/-
File trees as values: which places there are, and what stands at each. Reading a
path follows its text name by name from the top, as a file system would, and
fails with the system's own words.

Names are texts, and there are no symbolic links. What is special cannot be read,
and a directory that may not be listed may not be entered either.
-/

import Reanalysis.SourcePath
import Reanalysis.Utf8

namespace Reanalysis

/-- The names that lead from the top of a tree to one of its nodes. -/
abbrev Place := List String

/-- What stands at a place. A locked file may not be opened; a locked directory may be neither
listed nor entered, so what it holds is out of sight. What is special is neither a file nor a
directory, such as a socket, and cannot be opened. -/
inductive Node where
  | file (content : List UInt8)
  | directory
  | lockedFile
  | lockedDirectory
  | special
deriving DecidableEq, Repr

def Node.isFile : Node → Bool
  | .file _ | .lockedFile => true
  | .directory | .lockedDirectory | .special => false

def Node.isDirectory : Node → Bool
  | .directory | .lockedDirectory => true
  | .file _ | .lockedFile | .special => false

/-- Why a path could not be followed, or what it leads to could not be read. -/
inductive FileFault where
  | notFound
  | noSuchDevice
  | permissionDenied
  | notADirectory
  | isADirectory
  | nameTooLong
  | holdsNul
  | notUtf8
deriving DecidableEq, Repr

def FileFault.message : FileFault → String
  | .notFound => "No such file or directory (os error 2)"
  | .noSuchDevice => "No such device or address (os error 6)"
  | .permissionDenied => "Permission denied (os error 13)"
  | .notADirectory => "Not a directory (os error 20)"
  | .isADirectory => "Is a directory (os error 21)"
  | .nameTooLong => "File name too long (os error 36)"
  | .holdsNul => "file name contained an unexpected NUL byte"
  | .notUtf8 => "stream did not contain valid UTF-8"

/-- The nodes of a tree with their places. The top is a directory without an entry. -/
structure FileTree where
  nodes : List (Place × Node)

namespace FileTree

def empty : FileTree := ⟨[]⟩

def find? (tree : FileTree) (place : Place) : Option Node :=
  if place = [] then some .directory
  else (tree.nodes.find? (fun entry => entry.1 = place)).map Prod.snd

def isDirectoryAt (tree : FileTree) (place : Place) : Bool :=
  (tree.find? place).any Node.isDirectory

def isOpenAt (tree : FileTree) (place : Place) : Bool := tree.find? place = some .directory

def entries (tree : FileTree) (place : Place) : List String :=
  tree.nodes.filterMap fun (found, _) =>
    if found.dropLast = place then found.getLast? else none

def put (tree : FileTree) (place : Place) (node : Node) : FileTree :=
  ⟨tree.nodes.filter (fun entry => entry.1 ≠ place) ++ [(place, node)]⟩

/-- Makes a directory, and those above it, where there is nothing yet. -/
def makeDirectory (tree : FileTree) (place : Place) : FileTree :=
  (List.range place.length).foldl
    (fun grown size =>
      let above := place.take (size + 1)
      if (grown.find? above).isNone then grown.put above .directory else grown)
    tree

/-- Writes a file, making the directories above it. -/
def write (tree : FileTree) (place : Place) (content : List UInt8) : FileTree :=
  (tree.makeDirectory place.dropLast).put place (.file content)

def remove (tree : FileTree) (place : Place) : FileTree :=
  ⟨tree.nodes.filter (fun entry => !place.isPrefixOf entry.1)⟩

/-- The longest name, and the longest path with its closing byte, in bytes. -/
def nameLimit : Nat := 255

def pathLimit : Nat := 4096

def enter (tree : FileTree) (place : Place) (piece : List Char) :
    Except FileFault Place :=
  if !tree.isDirectoryAt place then .error .notADirectory
  else if piece = [] then .ok place
  else if !tree.isOpenAt place then .error .permissionDenied
  else if piece = ['.'] then .ok place
  else if piece = ['.', '.'] then .ok place.dropLast
  else
    let name := String.ofList piece
    if nameLimit < name.utf8ByteSize then .error .nameTooLong
    else if (tree.find? (place ++ [name])).isNone then .error .notFound
    else .ok (place ++ [name])

/-- Where a path leads. -/
def resolve (tree : FileTree) (path : SourcePath) : Except FileFault Place :=
  let chars := path.text.toList
  if chars.contains (Char.ofNat 0) then .error .holdsNul
  else if chars = [] then .error .notFound
  else if pathLimit ≤ path.text.utf8ByteSize then .error .nameTooLong
  else (Text.pieces '/' chars).foldlM (enter tree) []

def read (tree : FileTree) (path : SourcePath) : Except FileFault (List UInt8) := do
  match tree.find? (← tree.resolve path) with
  | some (.file content) => .ok content
  | some .lockedFile => .error .permissionDenied
  | some .directory => .error .isADirectory
  | some .lockedDirectory => .error .permissionDenied
  | some .special => .error .noSuchDevice
  | none => .error .notFound

def readText (tree : FileTree) (path : SourcePath) : Except FileFault String := do
  match Utf8.decode (← tree.read path) with
  | .ok text => .ok text
  | .error _ => .error .notUtf8

/-- Why nothing can be started at a path: what stands in a tree may not be run. A name without
a slash is that of an installed program, and none is; but `.` and `..` are directories
wherever one looks. -/
def launchFault (tree : FileTree) (path : SourcePath) : String :=
  let chars := path.text.toList
  let refused := "Permission denied (os error 13)"
  if chars.contains (Char.ofNat 0) then "nul byte found in provided data"
  else if chars.contains '/' then
    match tree.resolve path with
    | .ok _ => refused
    | .error fault => fault.message
  else if chars = ['.'] ∨ chars = ['.', '.'] then refused
  else if nameLimit < path.text.utf8ByteSize then FileFault.nameTooLong.message
  else FileFault.notFound.message

def nodeAt? (tree : FileTree) (path : SourcePath) : Option Node :=
  match tree.resolve path with
  | .ok place => tree.find? place
  | .error _ => none

def isFile (tree : FileTree) (path : SourcePath) : Bool := (tree.nodeAt? path).any Node.isFile

def directoryAt? (tree : FileTree) (path : SourcePath) : Option Place :=
  match tree.resolve path with
  | .ok place => if tree.isDirectoryAt place then some place else none
  | .error _ => none

end FileTree

end Reanalysis
