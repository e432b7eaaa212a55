import ApiPages.Graph.Tree
import ApiPages.Settings.Basic

/-!
# Crates and their type graphs

Where the type graphs of a crate lie, and which crate a request for a published one means.

* `Crate.emittedPath` is where a target's graph is emitted, `Crate.keptPath` where it is kept;
* `CrateSpec.ofText` reads `name@version`;
* `RustdocSettings.modeOfFile` decides from a file's name how the graph in it is documented.
-/

namespace ApiPages

/-! ## Paths -/

structure Crate where
  dir : String := ""
  /-- The name that stands in output paths. -/
  name : String := ""
  /-- The stem of the library's graph file. -/
  graphName : String := ""
  toolchain : String := ""
  deriving DecidableEq, Repr

namespace Crate

def docDir (c : Crate) : String :=
  SlashPath.join [c.dir, "target", "doc"]

/-- Where the graph of a target is emitted.  A binary named like the crate shares the library's
place. -/
def emittedPath (c : Crate) (t : Target) : String :=
  SlashPath.join [c.docDir, (if t.isBinary then t.stem else c.graphName) ++ ".json"]

/-- Where the graph of a target is kept, apart from those of the other targets. -/
def keptPath (c : Crate) (t : Target) : String :=
  SlashPath.join [c.docDir, c.graphName ++ "_" ++ t.stem ++ ".json"]

end Crate

namespace RustdocSettings

def crate (s : RustdocSettings) : Crate where
  dir := s.crateDir
  name := s.crateName
  graphName := s.graphName
  toolchain := s.toolchain

end RustdocSettings

/-! ## Modes -/

def Target.mode (t : Target) : Mode :=
  if t.isBinary then .executable else .library

namespace RustdocSettings

/-- The stem of a graph file, packed or not. -/
def graphStem (path : String) : String :=
  Text.cutSuffix (Text.cutSuffix (SlashPath.base path) ".zst") ".json"

/-- Whether the stem is one of those under which the graph of a binary is emitted or kept. -/
def namesTarget (s : RustdocSettings) (stem : String) (t : Target) : Bool :=
  t.isBinary && (stem == t.stem || stem == s.graphName ++ "_" ++ t.stem)

/-- A graph file documents an executable if its stem names a binary target; the library's own names
come first. -/
def modeOfFile (s : RustdocSettings) (path : String) : Mode :=
  let stem := graphStem path
  if stem == s.graphName || stem == s.graphName ++ "_lib" then .library
  else if s.targets.any (s.namesTarget stem) then .executable
  else .library

end RustdocSettings

/-! ## Published crates -/

structure CrateSpec where
  name : String
  version : String
  deriving DecidableEq, Repr

namespace CrateSpec

def latest : String := "latest"

/-- A version that is not given is the latest. -/
def versionOrLatest (version : String) : String :=
  if version.isEmpty then latest else version

/-- Reads a name with an optional version after the first `@`. -/
def ofText (text : String) : CrateSpec :=
  let (name, version) := Text.cutAt '@' text
  { name, version := versionOrLatest version }

end CrateSpec
end ApiPages
