import Std.Data.ExtTreeMap
import NodeReshape.Path
import NodeReshape.Utf8

/-! A file system as a finite map from locations to entries, and the walk of a path through it.
A location is the list of names from the root, with no links on the way; locations are ordered
name by name and names by their characters, which is also the order of their bytes. A walk follows
links by putting the segments of the target in front of what is left of the path. -/
namespace NodeReshape

abbrev Location := List Text

inductive Entry where
  | file (content : Bytes)
  | directory
  | link (target : Text)
  deriving DecidableEq

/-- All entries below the root, which is itself a directory, and the location where relative paths
begin. -/
structure Disk where
  entries : Std.ExtTreeMap Location Entry
  workingDirectory : Location

inductive SystemError where
  | noEntry
  | notDirectory
  | isDirectory
  | alreadyExists
  | linkLoop
  | nameTooLong
  deriving DecidableEq

/-- What a path is looked up for. The last segment is found through links to look at it or to write
it, and taken for itself to make or remove an entry. A path to write must not end in a slash. -/
inductive Purpose where
  | look
  | write
  | make
  deriving DecidableEq

/-- Where a path leads: to an entry, or to a free name in a directory. -/
inductive Place where
  | found (location : Location) (entry : Entry)
  | free (location : Location)
  | failed (error : SystemError)
  deriving DecidableEq

/-- How far a walk comes without following a link. -/
inductive Stretch where
  | arrived (place : Place)
  | atLink (directory : Location) (target : Text) (rest : List Text)
  deriving DecidableEq

namespace Disk

def get? (d : Disk) (l : Location) : Option Entry :=
  if l = [] then some .directory else d.entries[l]?

def put (d : Disk) (l : Location) (e : Entry) : Disk := { d with entries := d.entries.insert l e }

/-- The disk with the directories of these names, each in the one before it and the first one in
`here`. -/
def putNested (d : Disk) (here : Location) : List Text → Disk
  | [] => d
  | name :: rest => (d.put (here ++ [name]) .directory).putNested (here ++ [name]) rest

/-- The disk that holds the working directory, empty, and the directories around it. -/
def fresh (workingDirectory : Location) : Disk :=
  putNested ⟨.empty, workingDirectory⟩ [] workingDirectory

/-- Nothing is left at the location or below it. -/
def clear (d : Disk) (l : Location) : Disk :=
  { d with entries := d.entries.filter fun k _ => (after? l k).isNone }

/-- All entries in order, each directory before its contents. -/
def toList (d : Disk) : List (Location × Entry) := d.entries.toList

def children (d : Disk) (l : Location) : List (Text × Entry) :=
  d.toList.filterMap fun (k, e) =>
    match after? l k with
    | some [name] => some (name, e)
    | _ => none

@[simp] theorem get?_put (d : Disk) (l k : Location) (e : Entry) (h : k ≠ []) :
    (d.put l e).get? k = if l = k then some e else d.get? k := by
  simp [get?, put, h, Std.ExtTreeMap.getElem?_insert]

@[simp] theorem workingDirectory_put (d : Disk) (l : Location) (e : Entry) :
    (d.put l e).workingDirectory = d.workingDirectory := rfl

theorem workingDirectory_putNested (d : Disk) (here : Location) (names : List Text) :
    (d.putNested here names).workingDirectory = d.workingDirectory := by
  induction names generalizing d here with
  | nil => rfl
  | cons name rest ih => exact ih _ _

@[simp] theorem workingDirectory_fresh (l : Location) : (fresh l).workingDirectory = l :=
  workingDirectory_putNested _ _ _

theorem mem_toList_iff {d : Disk} {l : Location} {e : Entry} :
    (l, e) ∈ d.toList ↔ d.entries[l]? = some e :=
  Std.ExtTreeMap.mem_toList_iff_getElem?_eq_some

theorem mem_children_iff {d : Disk} {l : Location} {name : Text} {e : Entry} :
    (name, e) ∈ d.children l ↔ d.get? (l ++ [name]) = some e := by
  have h : l ++ [name] ≠ [] := by simp
  simp only [children, List.mem_filterMap, get?, h, if_false, Prod.exists, mem_toList_iff]
  constructor
  · rintro ⟨k, e', hk, hm⟩
    split at hm
    · rename_i n ha
      obtain ⟨rfl, rfl⟩ := Prod.mk.inj (Option.some.inj hm)
      rwa [after?_eq_some_iff.mp ha] at hk
    · exact absurd hm (by simp)
  · intro he
    exact ⟨l ++ [name], e, he, by simp [after?_append]⟩

/-- The longest name that an entry can have, in bytes. -/
def nameLimit : Nat := 255

/-- A path must have fewer bytes than this. -/
def pathLimit : Nat := 4096

/-- The number of links that one walk may follow. -/
def linkLimit : Nat := 40

/-- The walk from a directory up to the first link that has to be followed. -/
def stretch (d : Disk) (purpose : Purpose) (here : Location) : List Text → Stretch
  | [] => .arrived (.found here .directory)
  | name :: rest =>
    let last := rest.all (· = [])
    if name = [] ∨ name = Path.dot then stretch d purpose here rest
    else if name = Path.dotdot then stretch d purpose here.dropLast rest
    else if purpose = .write ∧ last ∧ rest ≠ [] then .arrived (.failed .isDirectory)
    else if nameLimit < Utf8.size name then .arrived (.failed .nameTooLong)
    else
      let there := here ++ [name]
      match d.entries[there]? with
      | none => .arrived (if last then .free there else .failed .noEntry)
      | some .directory => stretch d purpose there rest
      | some (.file content) =>
        if rest = [] ∨ (purpose = .make ∧ last) then .arrived (.found there (.file content))
        else .arrived (.failed .notDirectory)
      | some (.link target) =>
        if purpose = .make ∧ last then .arrived (.found there (.link target))
        else .atLink here target rest

/-- The directory where a path begins that is met in the directory `here`. -/
def startOf (here : Location) (p : Text) : Location := if Path.isAbsolute p then [] else here

/-- The walk from a directory along these segments, with the number of links it may follow. -/
def walk (d : Disk) (purpose : Purpose) : Nat → Location → List Text → Place
  | 0, here, names =>
    match d.stretch purpose here names with
    | .arrived p => p
    | .atLink _ _ _ => .failed .linkLoop
  | links + 1, here, names =>
    match d.stretch purpose here names with
    | .arrived p => p
    | .atLink directory target rest =>
      d.walk purpose links (startOf directory target) (Path.segments target ++ rest)

def locate (d : Disk) (purpose : Purpose) (p : Text) : Place :=
  if p = [] then .failed .noEntry
  else if pathLimit ≤ Utf8.size p then .failed .nameTooLong
  else d.walk purpose linkLimit (startOf d.workingDirectory p) (Path.segments p)

end Disk
end NodeReshape
