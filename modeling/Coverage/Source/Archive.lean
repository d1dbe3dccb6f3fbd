/-
  Coverage.Source.Archive

  Resources that are packed with a program, by URI. They may be replaced or withdrawn at
  any time.
-/

import Coverage.Text.Utf8

namespace Coverage

/-- The resources of an archive. -/
structure Archive where
  resources : List (String × Bytes)

namespace Archive

/-- An archive without resources. -/
def empty : Archive :=
  ⟨[]⟩

/-- The bytes of a resource. -/
def lookup? (a : Archive) (uri : String) : Option Bytes :=
  a.resources.lookup uri

/-- The archive without a resource. -/
def withdraw (a : Archive) (uri : String) : Archive :=
  ⟨a.resources.filter (·.1 ≠ uri)⟩

/-- The archive with a resource, in place of any other under its URI. -/
def add (a : Archive) (uri : String) (bytes : Bytes) : Archive :=
  ⟨(uri, bytes) :: (a.withdraw uri).resources⟩

end Archive
end Coverage
