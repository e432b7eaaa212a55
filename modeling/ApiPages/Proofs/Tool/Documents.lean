import ApiPages.Proofs.Files.Frames
import ApiPages.Proofs.Run.Actions
import ApiPages.Tool.Protoc

/-!
# Documents of a program

A program documents a definition file in a scratch directory, which is empty before and gone
afterwards.  What a path outside of that directory leads to is only changed by the program itself.

* `Tool.Spares` says that the program leaves alone what one path leads to, `Tool.Confined` that it
  changes nothing outside of the scratch directory;
* `Tool.look_protocDocument` shows that a path that is spared leads to the same afterwards.
-/

namespace ApiPages

open SlashPath FileTree

namespace Tool

variable {tools : Toolbox} {scratch path : String} {w : Workspace} {n : FileNode}

/-- A path that lies outside of the scratch directory and leads to the same after every call. -/
structure Spares (tools : Toolbox) (scratch path : String) : Prop where
  outside : ¬ Place.ofPath scratch <+: Place.ofPath path
  keeps : ∀ file files n, files.look path = .ok n →
    (tools.run (protocCall scratch file) files).1.look path = .ok n

/-- Calls change nothing outside of the scratch directory. -/
def Confined (tools : Toolbox) (scratch : String) : Prop :=
  ∀ file files, SameOutside (Place.ofPath scratch) files
    (tools.run (protocCall scratch file) files).1

/-- A program that keeps to the scratch directory spares every path outside of it. -/
theorem Confined.spares (h : Confined tools scratch) (hclean : IsClean path)
    (hout : ¬ Place.ofPath scratch <+: Place.ofPath path) : Spares tools scratch path where
  outside := hout
  keeps file files _ hlook := (h file files).look hclean hout hlook

theorem keeps_protocDocumentIn (scratch file : String) :
    Action.Keeps (protocDocumentIn scratch file) := by
  unfold protocDocumentIn
  dsimp only
  let room := Place.ofPath scratch
  have hprepare := Action.keeps_modifyFiles fun t => (t.erase room).set room .dir
  have hclear := Action.keeps_modifyFiles fun t => t.erase room
  refine hprepare.bind fun _ => (Action.keeps_call _).bind fun reply => ?_
  refine Action.keeps_files.bind fun files => hclear.bind fun _ => ?_
  split
  · exact Action.keeps_pure _
  · split <;> exact Action.keeps_pure _

theorem keeps_protocDocument (file : String) : Action.Keeps (protocDocument file) := by
  unfold protocDocument
  refine Action.keeps_get.bind fun w => ?_
  split
  · exact Action.keeps_pure _
  · exact keeps_protocDocumentIn w.scratch file

/-- The files that a program leaves, with the scratch directory cleared away. -/
theorem files_protocDocumentIn (scratch file : String) (w : Workspace) :
    ((protocDocumentIn scratch file).run w).2.files =
      (w.tools.run (protocCall scratch file)
        ((w.files.erase (Place.ofPath scratch)).set (Place.ofPath scratch) .dir)).1.erase
          (Place.ofPath scratch) := by
  let room := Place.ofPath scratch
  unfold protocDocumentIn
  dsimp only
  rw [Action.run_bind, Action.run_modifyFiles fun t => (t.erase room).set room .dir,
    Action.run_bind, Action.run_call]
  dsimp only
  rw [Action.run_bind, Action.run_files, Action.run_bind,
    Action.run_modifyFiles fun t => t.erase room]
  split
  · rfl
  · split <;> rfl

/-- Documenting a file leaves alone what a spared path leads to. -/
theorem look_protocDocument (h : Spares w.tools w.scratch path) (hclean : IsClean path)
    (file : String) (hlook : w.files.look path = .ok n) :
    ((protocDocument file).run w).2.files.look path = .ok n := by
  unfold protocDocument
  rw [Action.run_bind, Action.run_get]
  dsimp only
  cases scratchError? w.environment w.files with
  | some e =>
      exact hlook
  | none =>
      dsimp only
      rw [files_protocDocumentIn]
      -- the scratch directory is made, the program runs, the directory is cleared away
      have hprepared : SameOutside (Place.ofPath w.scratch) w.files
          ((w.files.erase (Place.ofPath w.scratch)).set (Place.ofPath w.scratch) .dir) :=
        (sameOutside_erase _ _).trans (sameOutside_set _ _ _)
      have hcalled := h.keeps file _ n (hprepared.look hclean h.outside hlook)
      exact (sameOutside_erase _ _).look hclean h.outside hcalled

end Tool
end ApiPages
