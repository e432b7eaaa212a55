import ApiPages.Run.Workspace

/-!
# Documenting definitions with protoc

`Tool.protocDocument` has a document written for a definition file.  The document goes to a scratch
directory that is empty before and gone afterwards.
-/

namespace ApiPages
namespace Tool

/-- The name under which the document of a file is written. -/
def documentName (file : String) : String :=
  SlashPath.stem file ++ ".md"

def protocCall (scratch file : String) : Call where
  dir := ""
  name := "protoc"
  args := ["--doc_out=" ++ scratch, "--doc_opt=markdown," ++ documentName file, "-I",
    SlashPath.dir file, file]

/-- Why there is no place for temporary files: the environment names one that does not exist.  What
lies outside of the working directory is no part of the files, and a place named from the root is
taken to be there. -/
def scratchError? (env : Environment) (files : FileTree) : Option OsError :=
  match env.value? "TMPDIR" with
  | none => none
  | some dir =>
      if SlashPath.isRooted dir || files.exists? dir then none
      else some ⟨"stat " ++ dir, .notFound⟩

/-- Has the document written into a fresh directory, reads it and clears the directory away. -/
def protocDocumentIn (scratch file : String) : Action (Except Failure String) := do
  let room := Place.ofPath scratch
  modify fun w => { w with files := (w.files.erase room).set room .dir }
  let reply ← Action.call (protocCall scratch file)
  -- read before it is known whether the program has failed, since the directory goes away
  let document := (← Action.files).text? (SlashPath.join [scratch, documentName file])
  modify fun w => { w with files := w.files.erase room }
  match reply.fault? with
  | some fault => return .error (.tool (.protoc (SlashPath.base file) fault reply.output))
  | none =>
      match document with
      | some text => return .ok text
      | none => return .error (.tool (.noDocument (SlashPath.base file)))

def protocDocument (file : String) : Action (Except Failure String) := do
  let w ← get
  match scratchError? w.environment w.files with
  | some e => return .error (.noScratch e)
  | none => protocDocumentIn w.scratch file

end Tool
end ApiPages
