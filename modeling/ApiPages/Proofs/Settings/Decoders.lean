import ApiPages.Settings.Weak
import Mathlib.Data.List.Forall2

/-!
# What decoders promise

`Decoder.Documented` says how a decoder treats the values that a hook is asked about.  What is said
of settings holds for every such decoder; `Decoder.weak_documented` says that the decoder of the
program is one.

* `Checked.problems` are the problems of a checked value, and checking loses none of them;
* `Setting.field_enter_self` and `Setting.field_enter_of_not_names` look up what was entered in a
  table;
* `Decoder.rustdocOf_targets` and `Decoder.settingsOf_targets` put targets into decoded settings.
-/

namespace ApiPages

open Setting (Members field enter)

/-! ## Checking -/

namespace Checked

variable {α β γ : Type}

def problems : Checked α → List SettingProblem
  | .ok _ => []
  | .error ps => ps

@[simp] theorem problems_app (f : Checked (α → β)) (a : Checked α) :
    (app f a).problems = f.problems ++ a.problems := by
  cases f <;> cases a <;> simp [app, problems]

theorem problems_all (cs : List (Checked α)) : (all cs).problems = cs.flatMap problems := by
  induction cs with
  | nil =>
      rfl
  | cons c cs ih =>
      rw [all, problems_app, problems_app, ih]
      rfl

theorem eq_error_of_mem {a : Checked α} {p : SettingProblem} (h : p ∈ a.problems) :
    ∃ ps, a = .error ps ∧ p ∈ ps := by
  cases a with
  | ok a =>
      cases h
  | error ps =>
      exact ⟨ps, rfl, h⟩

theorem app_ok (f : Checked (α → β)) (a : α) : app f (.ok a) = f.map fun g => g a := by
  cases f <;> rfl

theorem map_app (g : β → γ) (f : Checked (α → β)) (a : Checked α) :
    (app f a).map g = app (f.map fun h x => g (h x)) a := by
  cases f <;> cases a <;> rfl

theorem app_map (f : Checked (β → γ)) (g : α → β) (a : Checked α) :
    app f (a.map g) = app (f.map fun h x => h (g x)) a := by
  cases f <;> cases a <;> rfl

theorem map_ok (f : α → β) (a : α) : Except.map f (.ok a : Checked α) = .ok (f a) :=
  rfl

end Checked

/-! ## Fields -/

namespace Setting

variable {key name : String}

theorem find?_enter_self (key : String) (v : Setting) (ms : Members) :
    (enter key v ms).find? (fun m => m.1 == key) = some (key, v) := by
  induction ms with
  | nil =>
      simp [enter]
  | cons m ms ih =>
      rw [enter]
      split
      · simp
      · next hne =>
          rw [List.find?_cons_of_neg (by exact hne), ih]

/-- What is entered under a key is not found by a search that passes the key. -/
theorem find?_enter {p : String → Bool} (h : p key = false) (v : Setting) (ms : Members) :
    (enter key v ms).find? (fun m => p m.1) = ms.find? fun m => p m.1 := by
  induction ms with
  | nil =>
      simp [enter, h]
  | cons m ms ih =>
      rw [enter]
      split
      · next hkey =>
          have hm : p m.1 = false := beq_iff_eq.1 hkey ▸ h
          rw [List.find?_cons_of_neg (by rw [h]; exact Bool.false_ne_true),
            List.find?_cons_of_neg (by rw [hm]; exact Bool.false_ne_true)]
      · rw [List.find?_cons, List.find?_cons, ih]

theorem field_enter_self (key : String) (v : Setting) (ms : Members) :
    field (enter key v ms) key = v := by
  rw [field, find?_enter_self]

theorem field_enter_of_not_names (h : Json.names key name = false) (v : Setting) (ms : Members) :
    field (enter key v ms) name = field ms name := by
  have hne : (key == name) = false := (Bool.or_eq_false_iff.1 h).1
  rw [field, find?_enter (p := (· == name)) hne, find?_enter (p := (Json.names · name)) h, field]

end Setting

/-! ## Targets in settings -/

namespace Settings

/-- The settings with the given targets. -/
def withTargets (ts : List Target) (s : Settings) : Settings :=
  { s with rustdoc := { s.rustdoc with targets := ts } }

/-- The settings of a table in which the targets are given by a value, whatever else there is in the
table and in its part about crates. -/
def givenTargets (v : Setting) (ms r : Members) : Members :=
  enter "rustdoc" (.table (enter "targets" v r)) ms

/-- The place of a target in a list. -/
def targetPlace (i : Nat) : String :=
  "rustdoc.targets[" ++ toString i ++ "]"

end Settings

open Settings (withTargets givenTargets targetPlace)

/-! ## Promises -/

/-- Whether a hook leaves tables as they are. -/
def Hook.PassesTables (hook : Hook) : Prop :=
  ∀ ms, hook .table (.value (.table ms)) = .ok (.value (.table ms))

/-- What a decoder promises.  The hook for lists makes texts of the parts of a text and lets every
other value pass; composed hooks are asked in order, each about what the one before has given; and
where a list is wanted its items are decoded one by one, a target that a hook has given being taken
as it is and a refusal being reported with the place of the item. -/
structure Decoder.Documented (D : Decoder) : Prop where
  splitting_text : ∀ mark want s, want.isList = true →
    D.splitting mark want (.value (.text s)) =
      .ok (.value (.list (if s.isEmpty then [] else (Text.pieces mark s).map .text)))
  splitting_list : ∀ mark want items,
    D.splitting mark want (.value (.list items)) = .ok (.value (.list items))
  splitting_item : ∀ mark want d, want.isList = false → D.splitting mark want d = .ok d
  compose_eq : ∀ hooks want d, D.compose hooks want d = hooks.foldlM (fun d hook => hook want d) d
  decode_targets : ∀ (hook : Hook) (ms r : Members) (v : Setting) (items : List Setting)
    (ts : List Target), hook.PassesTables →
    hook .targets (.value v) = .ok (.value (.list items)) →
    hook .targets (.value (.list [])) = .ok (.value (.list [])) →
    List.Forall₂ (fun item t => hook .target (.value item) = .ok (.target t)) items ts →
    D.decode hook (givenTargets v ms r) =
      (D.decode hook (givenTargets (.list []) ms r)).map (withTargets ts)
  decode_refused : ∀ (hook : Hook) (ms r : Members) (v : Setting) (items : List Setting)
    (i : Nat) (item : Setting) (message : String), hook.PassesTables →
    hook .targets (.value v) = .ok (.value (.list items)) → items[i]? = some item →
    hook .target (.value item) = .error message →
    ∃ problems, D.decode hook (givenTargets v ms r) = .error problems ∧
      .refused (targetPlace i) message ∈ problems

/-! ## The decoder of the program -/

namespace Decoder

variable {hook : Hook} {v : Setting} {items : List Setting} {ts : List Target} {ms r : Members}

theorem targetOf_ok {item : Setting} {t : Target} (h : hook .target (.value item) = .ok (.target t))
    (place : String) : targetOf hook place item = .ok t := by
  rw [targetOf, Hook.before, h]

theorem targetOf_error {item : Setting} {message : String}
    (h : hook .target (.value item) = .error message) (place : String) :
    targetOf hook place item = .error [.refused place message] := by
  rw [targetOf, Hook.before, h]

theorem itemsOf_ok
    (h : List.Forall₂ (fun item t => hook .target (.value item) = .ok (.target t)) items ts)
    (place : String) : itemsOf (targetOf hook) place items = .ok ts := by
  -- the places of the rest of a list are not counted from its beginning
  have hall : ∀ read : Setting × Nat → Checked Target,
      (∀ s i, read (s, i) = targetOf hook (place ++ "[" ++ toString i ++ "]") s) →
        ∀ start : Nat, Checked.all ((items.zipIdx start).map read) = .ok ts := by
    intro read hread
    induction h with
    | nil =>
        exact fun _ => rfl
    | cons hitem _ ih =>
        intro start
        rw [List.zipIdx_cons, List.map_cons, Checked.all, ih, hread, targetOf_ok hitem]
        rfl
  exact hall _ (fun _ _ => rfl) 0

theorem problem_mem_itemsOf {i : Nat} {item : Setting} {message : String}
    (hitem : items[i]? = some item) (h : hook .target (.value item) = .error message)
    (place : String) :
    .refused (place ++ "[" ++ toString i ++ "]") message ∈
      (itemsOf (targetOf hook) place items).problems := by
  have hplace : (item, i) ∈ items.zipIdx := List.mem_zipIdx_iff_getElem?.2 hitem
  rw [itemsOf, Checked.problems_all, List.mem_flatMap]
  refine ⟨_, List.mem_map_of_mem hplace, ?_⟩
  dsimp only
  rw [targetOf_error h]
  exact List.mem_singleton_self _

theorem listOf_targets (h : hook .targets (.value v) = .ok (.value (.list items)))
    (place : String) :
    listOf hook .targets (targetOf hook) place v = itemsOf (targetOf hook) place items := by
  rw [listOf, Hook.before, h]
  rfl

theorem tableOf_table {α : Type} (h : hook.PassesTables) (place : String)
    (read : Members → Checked α) (ms : Members) :
    tableOf hook place read (.table ms) = read ms := by
  rw [tableOf, Hook.before, h]
  rfl

/-- The targets of a crate are decoded apart from everything else about it. -/
theorem rustdocOf_targets
    (h : listOf hook .targets (targetOf hook) "rustdoc.targets" v = .ok ts)
    (hnone : listOf hook .targets (targetOf hook) "rustdoc.targets" (.list []) = .ok []) :
    rustdocOf hook (enter "targets" v r) =
      (rustdocOf hook (enter "targets" (.list []) r)).map fun s => { s with targets := ts } := by
  have hsame : ∀ v : Setting, rustdocOf hook (enter "targets" v r) =
      .app (.app (.app (.app (.app (.app (.app (.app (.app (.ok RustdocSettings.mk)
        (textOf hook "rustdoc.crate_dir" (field r "crate_dir")))
        (textOf hook "rustdoc.crate_name" (field r "crate_name")))
        (textOf hook "rustdoc.json_name" (field r "json_name")))
        (textOf hook "rustdoc.toolchain" (field r "toolchain")))
        (listOf hook .targets (targetOf hook) "rustdoc.targets" v))
        (textOf hook "rustdoc.output_dir" (field r "output_dir")))
        (textOf hook "rustdoc.runtime_title" (field r "runtime_title")))
        (textOf hook "rustdoc.link_base" (field r "link_base")))
        (flagOf hook "rustdoc.archive" (field r "archive")) := by
    intro v
    simp (disch := decide +kernel) only [rustdocOf, Setting.field_enter_self,
      Setting.field_enter_of_not_names]
    rfl
  -- the list of targets is one argument among checked ones, and the others are the same
  rw [hsame, hsame, h, hnone]
  simp only [Checked.app_ok, Checked.map_app, Checked.map_ok]

/-- All settings but those about crates are decoded from the same fields whatever the targets
are. -/
theorem settingsOf_enter (h : hook.PassesTables) (r ms : Members) :
    settingsOf hook (enter "rustdoc" (.table r) ms) =
      .app (.app (.app (.app (.app (.app (.ok Settings.mk)
        (textOf hook "ext" (field ms "ext")))
        (flagOf hook "strict" (field ms "strict")))
        (listOf hook .texts (textOf hook) "ci_env" (field ms "ci_env")))
        (tableOf hook "proto" (protoOf hook) (field ms "proto")))
        (rustdocOf hook r))
        (tableOf hook "html" (htmlOf hook) (field ms "html")) := by
  simp (disch := decide +kernel) only [settingsOf, Setting.field_enter_self,
    Setting.field_enter_of_not_names, tableOf_table h]

theorem settingsOf_targets (htables : hook.PassesTables)
    (h : listOf hook .targets (targetOf hook) "rustdoc.targets" v = .ok ts)
    (hnone : listOf hook .targets (targetOf hook) "rustdoc.targets" (.list []) = .ok []) :
    settingsOf hook (givenTargets v ms r) =
      (settingsOf hook (givenTargets (.list []) ms r)).map (withTargets ts) := by
  rw [givenTargets, givenTargets, settingsOf_enter htables, settingsOf_enter htables,
    rustdocOf_targets h hnone]
  simp only [Checked.app_map, Checked.map_app, Checked.map_ok]
  rfl

theorem problem_mem_settingsOf (htables : hook.PassesTables) {p : SettingProblem}
    (h : p ∈ (listOf hook .targets (targetOf hook) "rustdoc.targets" v).problems) :
    p ∈ (settingsOf hook (givenTargets v ms r)).problems := by
  have hrustdoc : p ∈ (rustdocOf hook (enter "targets" v r)).problems := by
    simp [rustdocOf, Setting.field_enter_self, h]
  rw [givenTargets, settingsOf_enter htables]
  simp [hrustdoc]

theorem weak_documented : weak.Documented where
  splitting_text mark want s hlist := by
    dsimp only [weak, Hook.splitting]
    rw [if_pos hlist]
  splitting_list _ _ _ := rfl
  splitting_item mark want d hitem := by
    cases d with
    | target t =>
        rfl
    | value s =>
        cases s with
        | text s =>
            dsimp only [weak, Hook.splitting]
            rw [if_neg (by rw [hitem]; exact Bool.false_ne_true)]
        | _ =>
            rfl
  compose_eq _ _ _ := rfl
  decode_targets hook ms r v items ts htables hv hnone hitems := by
    refine settingsOf_targets htables ?_ ?_
    · rw [listOf_targets hv, itemsOf_ok hitems]
    · rw [listOf_targets hnone]
      rfl
  decode_refused hook ms r v items i item message htables hv hitem hrefused := by
    -- problems are gathered, so the one of the item is among those of the whole
    refine Checked.eq_error_of_mem (problem_mem_settingsOf htables ?_)
    have hfront : "rustdoc.targets[" = "rustdoc.targets" ++ "[" := by
      decide
    have hplace : targetPlace i = "rustdoc.targets" ++ "[" ++ toString i ++ "]" :=
      congrArg (fun front => front ++ toString i ++ "]") hfront
    rw [listOf_targets hv, hplace]
    exact problem_mem_itemsOf hitem hrefused "rustdoc.targets"

end Decoder
end ApiPages
