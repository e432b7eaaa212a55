import ApiPages.Run.Workspace

/-!
# Running actions

What the basic actions give and leave, one lemma each.  A composed action is taken apart with
`Action.run_bind`.

Actions change files and leave a trace.  The rest of a workspace is what they are run in:
`Workspace.SameSetting` says that it is the same, and `Action.Keeps` that an action leaves it so.
-/

namespace ApiPages
namespace Action

variable {α β : Type} {w : Workspace}

theorem run_bind (x : Action α) (f : α → Action β) :
    (x >>= f).run w = (f (x.run w).1).run (x.run w).2 := rfl

theorem run_pure (a : α) : (pure a : Action α).run w = (a, w) := rfl

theorem run_get : (get : Action Workspace).run w = (w, w) := rfl

theorem run_files : files.run w = (w.files, w) := rfl

theorem run_setFiles (t : FileTree) : (setFiles t).run w = ((), { w with files := t }) := rfl

theorem run_modifyFiles (f : FileTree → FileTree) :
    (modify fun w => { w with files := f w.files } : Action Unit).run w =
      ((), { w with files := f w.files }) := rfl

theorem run_record (level : Level) (message : String) (attributes : List (String × LogValue)) :
    (record level message attributes).run w =
      ((), { w with log := w.log ++ [{ level, message, attributes }] }) := rfl

theorem run_call (c : Call) : (call c).run w =
    ((w.tools.run c w.files).2,
      { w with files := (w.tools.run c w.files).1, calls := w.calls ++ [c] }) := rfl

theorem run_change_ok {f : FileTree → Except OsError FileTree} {t : FileTree}
    (h : f w.files = .ok t) : (change f).run w = (none, { w with files := t }) := by
  rw [change, run_bind, run_files]
  dsimp only
  rw [h]
  rfl

theorem run_change_error {f : FileTree → Except OsError FileTree} {e : OsError}
    (h : f w.files = .error e) : (change f).run w = (some e, w) := by
  rw [change, run_bind, run_files]
  dsimp only
  rw [h]
  rfl

theorem run_mapM_cons (f : α → Action β) (x : α) (xs : List α) :
    ((x :: xs).mapM f).run w =
      (((f x).run w).1 :: ((xs.mapM f).run ((f x).run w).2).1,
        ((xs.mapM f).run ((f x).run w).2).2) := by
  rw [List.mapM_cons, run_bind, run_bind]
  rfl

/-- The second part of a row of actions starts with what the first one leaves. -/
theorem run_mapM_append (f : α → Action β) (xs ys : List α) :
    ((xs ++ ys).mapM f).run w =
      (((xs.mapM f).run w).1 ++ ((ys.mapM f).run ((xs.mapM f).run w).2).1,
        ((ys.mapM f).run ((xs.mapM f).run w).2).2) := by
  induction xs generalizing w with
  | nil =>
      rfl
  | cons x xs ih =>
      rw [List.cons_append, run_mapM_cons, run_mapM_cons, ih]
      rfl

end Action

/-! ## What stays the same -/

/-- Workspaces that differ at most in their files and in the trace that a run leaves. -/
structure Workspace.SameSetting (w w' : Workspace) : Prop where
  environment : w'.environment = w.environment
  formats : w'.formats = w.formats
  tools : w'.tools = w.tools
  web : w'.web = w.web
  registry : w'.registry = w.registry
  scratch : w'.scratch = w.scratch
  isCancelled : w'.isCancelled = w.isCancelled

theorem Workspace.SameSetting.refl (w : Workspace) : SameSetting w w :=
  ⟨rfl, rfl, rfl, rfl, rfl, rfl, rfl⟩

/-- The files and the trace of a run belong to no setting. -/
theorem Workspace.sameSetting_with (w : Workspace) (files : FileTree) (calls : List Call)
    (requests : List String) (log : List Record) :
    SameSetting w { w with files, calls, requests, log } :=
  ⟨rfl, rfl, rfl, rfl, rfl, rfl, rfl⟩

theorem Workspace.SameSetting.trans {w w' w'' : Workspace} (h : SameSetting w w')
    (h' : SameSetting w' w'') : SameSetting w w'' where
  environment := h'.environment.trans h.environment
  formats := h'.formats.trans h.formats
  tools := h'.tools.trans h.tools
  web := h'.web.trans h.web
  registry := h'.registry.trans h.registry
  scratch := h'.scratch.trans h.scratch
  isCancelled := h'.isCancelled.trans h.isCancelled

namespace Action

/-- An action that changes at most the files and the trace. -/
def Keeps {α : Type} (x : Action α) : Prop :=
  ∀ w, Workspace.SameSetting w (x.run w).2

variable {α β : Type}

theorem keeps_pure (a : α) : Keeps (pure a) :=
  fun w => .refl w

theorem Keeps.bind {x : Action α} {f : α → Action β} (hx : Keeps x) (hf : ∀ a, Keeps (f a)) :
    Keeps (x >>= f) := by
  intro w
  rw [run_bind]
  exact (hx w).trans (hf (x.run w).1 (x.run w).2)

theorem keeps_get : Keeps (get : Action Workspace) :=
  fun w => .refl w

theorem keeps_files : Keeps files :=
  fun w => .refl w

theorem keeps_setFiles (t : FileTree) : Keeps (setFiles t) :=
  fun w => w.sameSetting_with ..

theorem keeps_modifyFiles (f : FileTree → FileTree) :
    Keeps (modify fun w => { w with files := f w.files } : Action Unit) :=
  fun w => w.sameSetting_with ..

theorem keeps_record (level : Level) (message : String) (attributes : List (String × LogValue)) :
    Keeps (record level message attributes) :=
  fun w => w.sameSetting_with ..

theorem keeps_call (c : Call) : Keeps (call c) :=
  fun w => w.sameSetting_with ..

theorem keeps_request (url : String) : Keeps (request url) :=
  fun w => w.sameSetting_with ..

theorem keeps_change (f : FileTree → Except OsError FileTree) : Keeps (change f) := by
  refine keeps_files.bind fun t => ?_
  cases f t with
  | ok t' =>
      exact (keeps_setFiles t').bind fun _ => keeps_pure _
  | error e =>
      exact keeps_pure _

/-- An action that changes no file. -/
def LeavesFiles {α : Type} (x : Action α) : Prop :=
  ∀ w, (x.run w).2.files = w.files

theorem leavesFiles_pure (a : α) : LeavesFiles (pure a) :=
  fun _ => rfl

theorem LeavesFiles.bind {x : Action α} {f : α → Action β} (hx : LeavesFiles x)
    (hf : ∀ a, LeavesFiles (f a)) : LeavesFiles (x >>= f) := by
  intro w
  rw [run_bind]
  exact (hf (x.run w).1 (x.run w).2).trans (hx w)

theorem leavesFiles_get : LeavesFiles (get : Action Workspace) :=
  fun _ => rfl

theorem leavesFiles_request (url : String) : LeavesFiles (request url) :=
  fun _ => rfl

end Action
end ApiPages
