import NodeReshape.DiskAccess

/-! A disk seen from its working directory: preparing entries there, and listing what a job has
changed. -/
namespace NodeReshape.Disk

/-- The disk with an entry at the path, and the directories on the way to it. The disk is left as it
is where the entry cannot be made. -/
def plant (d : Disk) (p : Text) (e : Entry) : Disk :=
  let d := match Path.parent? p with
    | some q => (d.ensureDirectory q).1
    | none => d
  match e with
  | .file content => (d.write p content).toOption.getD d
  | .directory => (d.ensureDirectory p).1
  | .link target =>
    match d.locate .make p with
    | .free l => d.put l (.link target)
    | _ => d

def remove (d : Disk) (p : Text) : Disk :=
  match d.locate .make p with
  | .found l _ => d.clear l
  | _ => d

/-- The entries below the working directory in order, each directory before its contents. -/
def view (d : Disk) : List (Text × Entry) :=
  d.toList.filterMap fun (l, e) =>
    (after? d.workingDirectory l).bind fun names =>
      if names = [] then none else some (Path.ofSegments names, e)

/-- The entries that are new or different since an earlier state. -/
def changesSince (d before : Disk) : List (Text × Entry) :=
  let old := before.view
  d.view.filter fun (p, e) => lookup? p old ≠ some e

/-- The paths of an earlier state at which nothing is left. -/
def removalsSince (d before : Disk) : List Text :=
  let new := d.view
  (before.view.map Prod.fst).filter fun p => (lookup? p new).isNone

end NodeReshape.Disk
