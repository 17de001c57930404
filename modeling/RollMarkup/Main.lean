import RollMarkup.Shell.Run

/-!
# The command line

Reads what the program is asked to look at, and writes its response.
-/

namespace RollMarkup.Shell

/-- What a path leads to. Links inside a folder are passed over. -/
partial def load? (path : String) : IO (Option Entry) := do
  let place := ({ root := path, fileName := "" } : IO.FS.DirEntry).root
  if ← place.isDir then
    let items ← (← place.readDir).toList.filterMapM fun item => do
      match (← item.path.symlinkMetadata).type with
      | .dir | .file => return (← load? item.path.toString).map fun e => (item.fileName, e)
      | _ => return none
    return some (.folder items)
  else if ← place.pathExists then
    return some (.file (← IO.FS.readBinFile place))
  else return none

/-- Loads what the arguments ask for. -/
def loadAll (args : List String) : IO (ByteArray × List (String × Entry)) := do
  match Invocation.ofArguments args with
  | .error _ => return (.empty, [])
  | .ok invocation =>
    let input ← if invocation.readsInput then (← IO.getStdin).readBinToEnd else pure .empty
    let entries ← invocation.paths.filterMapM fun path => do
      return (← load? path).map fun e => (path, e)
    return (input, entries)

end RollMarkup.Shell

def main (args : List String) : IO UInt32 := do
  let (input, entries) ← RollMarkup.Shell.loadAll args
  let response := RollMarkup.Shell.run args input fun path => entries.lookup path
  (← IO.getStdout).putStr response.stdout
  (← IO.getStderr).putStr response.stderr
  return UInt32.ofNat response.code
