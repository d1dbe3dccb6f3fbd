/-
  Coverage.Command.Arguments

  The command line: what is asked for, and which file the cache is kept in.
-/

namespace Coverage.Command

/-- What the command line asks for. -/
inductive Request where
  /-- The map of the tree in a file. -/
  | analyze (tree : String)
  /-- The totals of the trace in a file. -/
  | summary (trace : String)
  /-- The bundle of the cache, into a file or to the output. -/
  | exportCache (output : Option String)
  /-- Reading a bundle into the cache. -/
  | importCache (bundle : String)
  /-- The entries of the cache. -/
  | listCache
  /-- Removing all entries of the cache. -/
  | clearCache
  deriving DecidableEq, Repr

/-- A request with the file that the cache is kept in. -/
structure Arguments where
  cacheFile : String
  request : Request
  deriving DecidableEq, Repr

namespace Arguments

/-- Where the cache is kept unless another file is named. -/
def defaultCacheFile : String := ".scriptcov-cache.db"

/-- Takes the option that names the cache file out of the arguments, wherever it stands. -/
def takeCacheFile : List String → Option (String × List String)
  | [] => some (defaultCacheFile, [])
  | ["--cache"] => none
  | "--cache" :: path :: rest => (takeCacheFile rest).map fun r => (path, r.2)
  | arg :: rest => (takeCacheFile rest).map fun r => (r.1, arg :: r.2)

/-- The request that the remaining arguments make. -/
def request? : List String → Option Request
  | ["analyze", tree] => some (.analyze tree)
  | ["summary", trace] => some (.summary trace)
  | ["cache", "export"] => some (.exportCache none)
  | ["cache", "export", "--output", path] => some (.exportCache (some path))
  | ["cache", "export", "-o", path] => some (.exportCache (some path))
  | ["cache", "import", bundle] => some (.importCache bundle)
  | ["cache", "list"] => some .listCache
  | ["cache", "clear"] => some .clearCache
  | _ => none

/-- What some arguments ask for, if they make sense. -/
def parse? (args : List String) : Option Arguments := do
  let (cacheFile, rest) ← takeCacheFile args
  return ⟨cacheFile, ← request? rest⟩

/-- How the command line is used. -/
def usage : String :=
  "usage: coverage [--cache FILE] COMMAND\n" ++
  "  analyze TREE              print the coverage map of a JSON syntax tree\n" ++
  "  summary TRACE             show line, branch and function totals of a trace\n" ++
  "  cache export [-o FILE]    write every cache entry as one bundle\n" ++
  "  cache import BUNDLE       merge a bundle into the cache\n" ++
  "  cache list                list cache entries\n" ++
  "  cache clear               delete every cache entry\n"

end Arguments
end Coverage.Command
