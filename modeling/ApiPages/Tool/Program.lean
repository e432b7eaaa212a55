import ApiPages.Run.Workspace

/-!
# Installed programs

`Toolbox.ofPrograms` makes a toolbox out of programs that are found by name.  A program that is not
found is unavailable, one whose directory cannot be entered does not start, and one that exits with
a status other than zero has failed.
-/

namespace ApiPages

/-- What a program does in a directory, given its arguments: the files it leaves, what it prints and
its exit status. -/
abbrev Program := String → List String → FileTree → FileTree × String × Nat

namespace Toolbox

def ofPrograms (find? : String → Option Program) : Toolbox where
  isInstalled name := (find? name).isSome
  run c t :=
    match find? c.name with
    | none => (t, { fault? := some ("tool unavailable: " ++ c.name) })
    | some program =>
        let entered : Except OsReason Unit :=
          if c.dir.isEmpty then .ok ()
          else
            match t.look c.dir with
            | .ok .dir => .ok ()
            | .ok (.file _) => .error .notDirectory
            | .error r => .error r
        match entered with
        | .error r => (t, { fault? := some (c.name ++ ": chdir " ++ c.dir ++ ": " ++ r.message) })
        | .ok () =>
            let (t, output, status) := program c.dir c.args t
            let fault? :=
              if status == 0 then none
              else some (c.name ++ ": exit status " ++ toString status)
            (t, { output, fault? })

end Toolbox
end ApiPages
