/-
Paths of source files. A path keeps the text it was written with; two paths are
the same file name when their components agree. This module defines the
components, their order, and the operations on whole paths. It does not look at
any file tree.
-/

import Reanalysis.Text

namespace Reanalysis

/-- One step of a path. A `.` is a step of its own only at the front. -/
inductive Component where
  | root
  | here
  | parent
  | name (text : String)
deriving DecidableEq, Repr

/-- The kinds stand in the order of their declaration, and names follow their bytes. -/
def Component.key : Component → Nat × String
  | .root => (0, "")
  | .here => (1, "")
  | .parent => (2, "")
  | .name text => (3, text)

def Component.order (left right : Component) : Ordering :=
  compareLex (compareOn Prod.fst) (compareOn Prod.snd) left.key right.key

instance : Ord Component := ⟨Component.order⟩

abbrev keyOrder : Nat × String → Nat × String → Ordering :=
  compareLex (compareOn Prod.fst) (compareOn Prod.snd)

instance : Std.TransOrd Component where
  eq_swap := fun {left right} =>
    @Std.OrientedCmp.eq_swap _ keyOrder inferInstance left.key right.key
  isLE_trans := fun {first second third} =>
    @Std.TransCmp.isLE_trans _ keyOrder inferInstance first.key second.key third.key

def Component.text : Component → String
  | .root => "/"
  | .here => "."
  | .parent => ".."
  | .name text => text

structure SourcePath where
  text : String
deriving DecidableEq, Repr

instance : Inhabited SourcePath := ⟨⟨""⟩⟩

instance : ToString SourcePath := ⟨SourcePath.text⟩

namespace SourcePath

def isAbsolute (path : SourcePath) : Bool := path.text.toList.head? = some '/'

def component (piece : List Char) : Option Component :=
  if piece = [] ∨ piece = ['.'] then none
  else if piece = ['.', '.'] then some .parent
  else some (.name (String.ofList piece))

/-- Repeated and trailing separators vanish, and so does every `.` after the front. -/
def components (path : SourcePath) : List Component :=
  let cut := Text.pieces '/' path.text.toList
  let body := cut.filterMap component
  if path.isAbsolute then .root :: body
  else if cut.head? = some ['.'] then .here :: body
  else body

/-- File order: component by component, a path before those it is a front of. -/
instance : Ord SourcePath := ⟨fun left right => compare left.components right.components⟩

instance : Std.TransOrd SourcePath where
  eq_swap := fun {left right} =>
    @Std.OrientedCmp.eq_swap _ (compare : List Component → List Component → Ordering)
      inferInstance left.components right.components
  isLE_trans := fun {first second third} =>
    @Std.TransCmp.isLE_trans _ (compare : List Component → List Component → Ordering)
      inferInstance first.components second.components third.components

/-- Whether two paths name the same file, however they are spelled. -/
def same (left right : SourcePath) : Bool := compare left right = .eq

def precedes (left right : SourcePath) : Prop := compare left right = .lt

theorem precedes_trans {first second third : SourcePath}
    (before : first.precedes second) (after : second.precedes third) : first.precedes third :=
  Std.TransCmp.lt_trans before after

theorem precedes_of_gt {first second : SourcePath}
    (above : compare first second = .gt) : second.precedes first :=
  Std.OrientedCmp.gt_iff_lt.mp above

def ofComponents (parts : List Component) : SourcePath :=
  match parts with
  | .root :: rest => ⟨"/" ++ String.intercalate "/" (rest.map Component.text)⟩
  | rest => ⟨String.intercalate "/" (rest.map Component.text)⟩

/-- Appends a path; an absolute one takes the place of the first. -/
def join (base path : SourcePath) : SourcePath :=
  if path.isAbsolute then path
  else if base.text = "" then path
  else if base.text.toList.getLast? = some '/' then ⟨base.text ++ path.text⟩
  else ⟨base.text ++ "/" ++ path.text⟩

/-- Whether the first components of a path are those of another. -/
def startsWith (path front : SourcePath) : Bool :=
  front.components.isPrefixOf path.components

/-- The components that remain after those of `front`, if it is one. -/
def below (path front : SourcePath) : Option (List Component) :=
  if path.startsWith front then some (path.components.drop front.components.length) else none

/-- The directory a path lies in; the top and the empty path have none. -/
def directory (path : SourcePath) : Option SourcePath :=
  match path.components.getLast? with
  | none => none
  | some .root => none
  | some _ => some (ofComponents path.components.dropLast)

end SourcePath

end Reanalysis
