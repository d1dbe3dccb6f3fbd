/-
  Coverage.Main

  The command line.

  There is no database behind it: the cache is kept in its file as the bundle of its entries,
  and a file that is not there is an empty cache. So there is no record of when an entry was
  written, and the column for that time holds a dash.
-/

import Coverage.Command
import Coverage.Command.Arguments

namespace Coverage.Command

/-- The bytes of a file, or what the system says of it. -/
def readFile (path : String) : IO (Except String Bytes) := do
  try
    return .ok (← IO.FS.readBinFile path).toList
  catch failure => return .error (toString failure)

/-- The bytes of the file of a cache, if there is one, or what the system says of it. -/
def readCache (path : String) : IO (Except String (Option Bytes)) := do
  try
    return .ok (some (← IO.FS.readBinFile path).toList)
  catch
    | .noFileOrDirectory .. => return .ok none
    | failure => return .error (toString failure)

/-- Writes a file, or gives what the system says of it. -/
def writeFile (path : String) (bytes : Bytes) : IO (Except String Unit) := do
  try
    IO.FS.writeBinFile path ⟨bytes.toArray⟩
    return .ok ()
  catch failure => return .error (toString failure)

/-- Tells of a failure. -/
def complain (failed : String) (why : Option String) : IO UInt32 := do
  IO.eprint (failureText failed why)
  return 1

/-- What the system says, if a file could not be read. -/
def systemText? {α : Type} : Except String α → Option String
  | .ok _ => none
  | .error text => some text

/-- Prints a text, or tells of a fault. -/
def report (result : Except Fault (List Char)) (why : Option String) : IO UInt32 := do
  match result with
  | .ok text =>
    IO.print (String.ofList text)
    return 0
  | .error fault => complain fault.message why

/-- Keeps a cache in a file, and then reports. -/
def keepCache (path : String) (s : Cache.Store) (text : List Char) : IO UInt32 := do
  match s.exportBundle with
  | .error fault => complain fault.message none
  | .ok bundle =>
    match ← writeFile path (Text.Utf8.encode bundle) with
    | .ok _ => report (.ok text) none
    | .error why => complain (Fault.unwritableFile path).message why

/-- Carries out a request that needs no cache, or one on the cache of a file. -/
def runOnCache (path : String) (s : Cache.Store) : Request → IO UInt32
  | .exportCache none => report s.exportBundle none
  | .exportCache (some output) => do
    match exportFile s output with
    | .error fault => complain fault.message none
    | .ok (bundle, text) =>
      match ← writeFile output (Text.Utf8.encode bundle) with
      | .ok _ => report (.ok text) none
      | .error why => complain (Fault.unwritableFile output).message why
  | .importCache bundle => do
    let found ← readFile bundle
    match importFile s bundle found.toOption with
    | .error fault => complain fault.message (systemText? found)
    | .ok (text, s) => keepCache path s text
  | .listCache => report (cacheList s fun _ => "-") none
  | .clearCache => keepCache path s.clear.2 (clearedText s.clear.1)
  | .analyze tree => do
    let found ← readFile tree
    report (analyze tree found.toOption) (systemText? found)
  | .summary trace => do
    let found ← readFile trace
    report (summary trace found.toOption) (systemText? found)

/-- Whether a request is one on the cache. -/
def Request.needsCache : Request → Bool
  | .analyze _ => false
  | .summary _ => false
  | _ => true

/-- Carries out what the arguments ask for. -/
def runArguments (a : Arguments) : IO UInt32 := do
  if a.request.needsCache then
    match ← readCache a.cacheFile with
    | .error why => complain (openFailure a.cacheFile) (some why)
    | .ok none => runOnCache a.cacheFile .empty a.request
    | .ok (some bytes) =>
      match Cache.Store.ofBundle bytes with
      | .error fault => complain (openFailure a.cacheFile) (some fault.message)
      | .ok s => runOnCache a.cacheFile s a.request
  else runOnCache a.cacheFile .empty a.request

end Coverage.Command

/-- Runs the command line. -/
def main (args : List String) : IO UInt32 := do
  match Coverage.Command.Arguments.parse? args with
  | none =>
    IO.eprint Coverage.Command.Arguments.usage
    return 2
  | some a => Coverage.Command.runArguments a
