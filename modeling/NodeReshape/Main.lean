import NodeReshape.DiskView
import NodeReshape.Run

/-! The command line. Standard input describes a file tree, one entry a line, with tabs between the
parts: `dir` and a path, `file`, a path and the bytes in hexadecimal, or `link`, a path and its
target. The migration with the default settings is run on that tree: progress goes to standard
output, log records go to standard error, and the exit code is that of the migration. With the
argument `changes`, the entries that it changed follow the progress in the same notation. -/
namespace NodeReshape.CommandLine

/-- The bytes written as pairs of hexadecimal digits. -/
def bytesOfHex? : List Char → Option Bytes
  | [] => some []
  | [_] => none
  | a :: b :: rest => do
    let high ← JsonText.hexDigit? a
    let low ← JsonText.hexDigit? b
    return UInt8.ofNat (16 * high + low) :: (← bytesOfHex? rest)

def hexOfBytes (bytes : Bytes) : String :=
  String.ofList <| bytes.flatMap fun b =>
    [Nat.digitChar (b.toNat / 16), Nat.digitChar (b.toNat % 16)]

/-- The entry that a line describes. -/
def entryOfLine? (line : String) : Option (Text × Entry) :=
  match line.splitOn "\t" with
  | ["dir", path] => some (path.toList, .directory)
  | ["file", path, hex] => (bytesOfHex? hex.toList).map fun bytes => (path.toList, .file bytes)
  | ["link", path, target] => some (path.toList, .link target.toList)
  | _ => none

def lineOfEntry (path : Text) : Entry → String
  | .directory => "dir\t" ++ String.ofList path
  | .file bytes => "file\t" ++ String.ofList path ++ "\t" ++ hexOfBytes bytes
  | .link target => "link\t" ++ String.ofList path ++ "\t" ++ String.ofList target

/-- The lines up to the end of the input, without their line feeds. -/
partial def readLines (input : IO.FS.Stream) : IO (List String) := do
  let line ← input.getLine
  if line.isEmpty then return []
  let rest ← readLines input
  return String.ofList (line.toList.filter (· != '\n')) :: rest

end NodeReshape.CommandLine

open NodeReshape CommandLine in
def main (args : List String) : IO UInt32 := do
  let lines ← readLines (← IO.getStdin)
  let env : Environment :=
    ⟨(← IO.getEnv "LOG_LEVEL").map String.toList, (← IO.getEnv "NODE_ENV").map String.toList⟩
  let before := (lines.filterMap entryOfLine?).foldl (fun d e => d.plant e.1 e.2)
    (Disk.fresh ["work".toList])
  let result := runProcess env before
  for line in result.lines do
    IO.println (String.ofList line)
  for record in result.records do
    IO.eprintln (String.ofList (recordLine record))
  if args = ["changes"] then
    for e in result.disk.changesSince before do
      IO.println (lineOfEntry e.1 e.2)
  return UInt32.ofNat result.exitCode
