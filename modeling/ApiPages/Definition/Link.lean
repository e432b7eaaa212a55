import ApiPages.Definition.Reader
import ApiPages.Definition.Rules
import ApiPages.Definition.Standard
import ApiPages.Schema.Compare

/-!
# Checking definition files

A file is accepted when it can be read, its imports are accepted, everything it uses is declared,
and all declarations keep the rules.  An accepted file has a `Descriptor`.

* `LinkedFile` is a file whose names have been looked up;
* `Definition.link?` checks a file together with its imports;
* `Definition.crossCheck?` compares an accepted file with a schema.
-/

namespace ApiPages
namespace Definition

/-! ## Files -/

structure LinkedFile where
  path : String
  file : FileDef
  symbols : List Symbol
  pool : Pool
  /-- What the file shows to those that import it: its own names and those of its public imports. -/
  shown : List Symbol
  shownPackages : List String

/-- The files that have been linked, the last one first. -/
abbrev Files := List LinkedFile

namespace Files

def find? (fs : Files) (path : String) : Option LinkedFile := List.find? (·.path == path) fs

def pool (fs : Files) : Pool := fs.foldl (fun p f => p.append f.pool) {}

/-- What is visible in a file whose imports have been linked. -/
def view (fs : Files) (f : FileDef) : View :=
  let imported := f.imports.filterMap fun i => fs.find? i.path
  { package := f.package
    symbols := f.symbols ++ imported.flatMap (·.shown)
    packages := f.package :: imported.flatMap (·.shownPackages) }

/-- A file with its names looked up, if they are found. -/
def linked? (fs : Files) (path : String) (f : FileDef) : Option LinkedFile := do
  let isPublic := f.imports.filter (·.isPublic)
  let shown := isPublic.filterMap fun i => fs.find? i.path
  return {
    path, file := f
    symbols := f.symbols
    pool := ← f.pool? (fs.view f)
    shown := f.symbols ++ shown.flatMap (·.shown)
    shownPackages := f.package :: shown.flatMap (·.shownPackages) }

end Files

/-! ## Options -/

/-- The declarations of the options themselves, which are there without being imported. -/
def optionPool : Pool :=
  let f := Standard.descriptor
  (f.pool? { package := f.package, symbols := f.symbols, packages := [f.package] }).getD {}

/-! ## Linking -/

/-- Whether a well-formed file that has been linked keeps all rules. -/
def Files.accepts (fs : Files) (f : LinkedFile) : Bool :=
  let v := fs.view f.file
  let all := (f.pool.append fs.pool).append optionPool
  let imported := f.file.imports.filterMap fun i => (fs.find? i.path).map (·.file.options)
  f.file.hasMethodTypes v && f.file.setsOptions all v &&
    f.pool.keepsRules all && f.file.keepsRules imported

/-- The deepest chain of imports that is followed. -/
def maxImports : Nat := 1000

/-- Links a file after its imports; `source` gives the text of a file.  A file is not imported on
the way to itself, and standard files need no check. -/
def link? (source : String → Option String) (fuel : Nat) (above : List String) (path : String)
    (fs : Files) : Option Files :=
  match fuel with
  | 0 => none
  | fuel + 1 =>
      if above.contains path then none
      else if (fs.find? path).isSome then some fs
      else
        let importAll (f : FileDef) : Option Files :=
          f.imports.foldlM (fun fs i => link? source fuel (path :: above) i.path fs) fs
        match source path with
        | some text => do
            let f ← (parse? text).filter FileDef.isWellFormed
            let fs ← importAll f
            let l ← fs.linked? path f
            if Files.accepts fs l then some (l :: fs) else none
        -- a file that is not there may be one of the standard files
        | none => do
            let f ← Standard.file? path
            let fs ← importAll f
            some ((← fs.linked? path f) :: fs)

/-! ## All files together -/

/-- Whether no name is declared twice, and none is the name of a package as well. -/
def Files.haveOwnNames (fs : Files) : Bool :=
  let names := fs.flatMap fun f => f.symbols.map (·.name)
  let spaces := (fs.map (·.file.package)).eraseDups.flatMap enclosing
  decide names.Nodup && spaces.all fun s => !names.contains s

/-- Whether no two extensions of a message have one number. -/
def Files.haveOwnNumbers (fs : Files) : Bool :=
  let own := fs.flatMap fun f => f.pool.extensions.map fun x => (x.owner, x.decl.number)
  decide own.Nodup

/-- Whether no extension is declared for two numbers. -/
def Files.haveOwnDeclarations (fs : Files) : Bool :=
  let declared := fs.flatMap fun f => f.pool.messages.flatMap fun m =>
    m.item.ranges.flatMap fun r => r.declarations.filterMap fun d =>
      d.name?.map fun name => (name, m.name, d.number?)
  declared.all fun a => declared.all fun b => a.1 != b.1 || a == b

/-! ## Descriptors -/

def declaredMessage (m : MessageDef) : DeclaredMessage :=
  { name := m.name
    fields := m.fields.length
    nested := m.nested.map fun n => { name := n.name, isMapEntry := n.isEntry }
    enums := m.enums.map (·.name) }

def descriptorOf (path : String) (f : FileDef) : Descriptor :=
  { path
    package := f.package
    services := f.services.map fun s => { name := s.name, methods := s.methods.length }
    messages := f.messages.map declaredMessage
    enums := f.enums.map (·.name) }

/-- The descriptor of a file, if the file is accepted. -/
def describe? (source : String → Option String) (path : String) : Option Descriptor := do
  let fs ← link? source maxImports [] path []
  if fs.haveOwnNames && fs.haveOwnNumbers && fs.haveOwnDeclarations then
    (fs.find? path).map fun f => descriptorOf path f.file
  else none

/-- Compares a schema with what its file declares; none if the file is not accepted. -/
def crossCheck? (source : String → Option String) (path : String) (s : Schema) :
    Option (List Finding) :=
  (describe? source path).map fun d => d.compare s

end Definition
end ApiPages
