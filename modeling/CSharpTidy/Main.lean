import CSharpTidy.Log.Invocation
import CSharpTidy.Output.Instant
import Std.Time.DateTime.Timestamp

namespace CSharpTidy

namespace FileTree

/-- The tree with what the disk has at a path. What is not there stays out of the tree. -/
def fetch (tree : FileTree) (path : Path) : IO FileTree := do
  try
    let here ← IO.currentDir
    match (← (here / path.text).metadata).type with
    | .dir => return tree.addDirectory path
    | _ =>
        let bytes ← IO.FS.readBinFile ⟨path.text⟩
        return tree.addFile path (.ofBytes bytes.toList) defaultMode
  catch _ => return tree

/-- The tree with the source files that the disk has in a directory and below. -/
partial def fetchSources (tree : FileTree) (directory : Path) : IO FileTree := do
  let here ← IO.currentDir
  let mut tree := tree.addDirectory directory
  for entry in ← (here / directory.text).readDir do
    let path := directory.join ⟨entry.fileName⟩
    match (← entry.path.symlinkMetadata).type with
    | .dir =>
        unless Sources.isSkipped entry.fileName.toList do tree ← tree.fetchSources path
    | .file => if path.extension? == some "cs" then tree ← tree.fetch path
    | _ => pure ()
  return tree

/-- The files on disk that an invocation can come to read. -/
def ofDisk (environment : Environment) (arguments : List String) (source : SettingsSource) :
    IO FileTree := do
  let here : Path := ⟨toString (← IO.currentDir)⟩
  let mut tree := bare (here.segments.filter (· ≠ []))
  let .ok line := CommandLine.read environment arguments | return tree
  for path in Settings.files environment line.config (line.projectRoot tree) source do
    tree ← tree.fetch path
  for target in line.target.toList do
    tree ← tree.fetch target
    for project in Loading.projects tree target do
      tree ← tree.fetch project
      if tree.isFile project then tree ← tree.fetchSources project.directory
  return tree

end FileTree

namespace Account

/-- The number of the user, as the system tells it of a process. -/
def number? (status : Text) : Option Text :=
  status.lines.findSome? fun line => (line.skip? "Uid:\t".toList).map (·.takeWhile Char.isDigit)

/-- The home of the user with a number in a list of accounts. -/
def home? (accounts number : Text) : Option Path :=
  accounts.lines.findSome? fun line =>
    match line.split ':' with
    | _ :: _ :: other :: _ :: _ :: home :: _ =>
        if other = number ∧ home ≠ [] then some ⟨String.ofList home⟩ else none
    | _ => none

/-- The home of the account under which the program runs, where the system keeps a list of accounts. -/
def fetchHome? : IO (Option Path) := do
  try
    let status ← IO.FS.readFile "/proc/self/status"
    let accounts ← IO.FS.readFile "/etc/passwd"
    return (number? status.toList).bind (home? accounts.toList)
  catch _ => return none

end Account

end CSharpTidy

open CSharpTidy

def main (arguments : List String) : IO UInt32 := do
  let bindings ← Environment.names.filterMapM fun name => return (← IO.getEnv name).map (name, ·)
  let environment : Environment := ⟨bindings⟩
  let now ← Std.Time.Timestamp.now
  let timestamp := (Instant.mk now.toNanosecondsSinceUnixEpoch.val.toNat).render
  let terminal ← (← IO.getStdout).isTty
  let libraries := Libraries.standard (← Account.fetchHome?)
  let before ← FileTree.ofDisk environment arguments libraries.settings
  let (exit, after) := invoke timestamp terminal environment arguments before libraries
  for (path, contents) in after.newFiles before do
    IO.FS.writeBinFile ⟨path.text⟩ ⟨contents.toBytes.toArray⟩
  for event in Log.invoke environment arguments before libraries do
    IO.eprintln event.render
  IO.print exit.stdout
  IO.eprint exit.stderr
  return exit.code.toUInt32
