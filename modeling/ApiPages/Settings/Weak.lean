import ApiPages.Json.Record
import ApiPages.Settings.Decode

/-!
# Generous decoding

The decoder of the program.  A number or a truth value may stand for a text, a text for a truth
value, and one value for a list.  Everything that cannot be understood is reported together.

* `Setting.toText`, `Setting.toFlag`, `Setting.toItems` and `Setting.toMembers` understand one
  value;
* `Hook.before` asks a hook about a value before it is understood;
* `Decoder.weak` is the decoder.
-/

namespace ApiPages

namespace Checked

/-- Applies a function that may have met problems to an argument that may have met some too. -/
def app {α β : Type} (f : Checked (α → β)) (a : Checked α) : Checked β :=
  match f, a with
  | .ok f, .ok a => .ok (f a)
  | .error p, .ok _ => .error p
  | .ok _, .error q => .error q
  | .error p, .error q => .error (p ++ q)

/-- The values of a list, or the problems of all its members. -/
def all {α : Type} : List (Checked α) → Checked (List α)
  | [] => .ok []
  | a :: rest => app (app (.ok List.cons) a) (all rest)

def ofOption {α : Type} : Option α → Checked α
  | some a => .ok a
  | none => .error [.shape]

end Checked

/-! ## Single values -/

namespace Setting

def isZero (spelling : String) : Bool :=
  spelling == "0" || spelling == "-0"

/-- The text a value stands for.  Nothing leaves a text empty. -/
def toText : Setting → Option String
  | null => some ""
  | text s => some s
  | number spelling => some spelling
  | bool true => some "1"
  | bool false => some "0"
  | _ => none

/-- The truth value a value stands for.  Nothing, and the empty text, stand for no. -/
def toFlag : Setting → Option Bool
  | null => some false
  | bool b => some b
  | number spelling => some (!isZero spelling)
  | text s =>
      if trueWords.contains s then some true
      else if falseWords.contains s || s.isEmpty then some false
      else none
  | _ => none

/-- The values a value stands for where a list is wanted. -/
def toItems : Setting → List Setting
  | null => []
  | list items => items
  | table [] => []
  | text s => if s.isEmpty then [] else [text s]
  | s => [s]

/-- The members of a value where a table is wanted. -/
def toMembers : Setting → Option Members
  | null => some []
  | instant => some []
  | table members => some members
  | _ => none

/-- The value of a field: that of its own key, or else of a key that differs only in case. -/
def field (members : Members) (name : String) : Setting :=
  match members.find? (fun m => m.1 == name) with
  | some m => m.2
  | none =>
      match members.find? (fun m => Json.names m.1 name) with
      | some m => m.2
      | none => null

end Setting

/-! ## Hooks -/

namespace Hook

/-- Takes a text apart at a mark where a list is wanted. -/
def splitting (mark : Char) : Hook
  | want, .value (.text s) =>
      .ok (.value (if want.isList then
        .list (if s.isEmpty then [] else (Text.pieces mark s).map .text)
      else .text s))
  | _, d => .ok d

/-- Asks several hooks in order. -/
def inOrder (hooks : List Hook) : Hook :=
  fun want d => hooks.foldlM (fun d hook => hook want d) d

variable {α : Type}

/-- Asks a hook about a value at a place, and understands what it gives. -/
def before (hook : Hook) (want : Want) (place : String) (understand : Datum → Checked α)
    (s : Setting) : Checked α :=
  match hook want (.value s) with
  | .ok d => understand d
  | .error message => .error [.refused place message]

/-- A value that is no target is understood by a function of its own. -/
def onValue (understand : Setting → Option α) : Datum → Checked α
  | .value s => Checked.ofOption (understand s)
  | .target _ => .error [.shape]

end Hook

namespace Decoder

variable {α : Type}

/-! ## Parts of a table -/

def textOf (hook : Hook) (place : String) (s : Setting) : Checked String :=
  hook.before .text place (Hook.onValue Setting.toText) s

def flagOf (hook : Hook) (place : String) (s : Setting) : Checked Bool :=
  hook.before .flag place (Hook.onValue Setting.toFlag) s

def tableOf (hook : Hook) (place : String) (read : Setting.Members → Checked α) (s : Setting) :
    Checked α :=
  hook.before .table place (fun d => (Hook.onValue Setting.toMembers d).bind read) s

/-- A target is one already, or a table of its parts. -/
def targetOf (hook : Hook) (place : String) (s : Setting) : Checked Target :=
  hook.before .target place
    (fun
      | .target t => .ok t
      | .value s =>
          (Checked.ofOption s.toMembers).bind fun ms =>
            Checked.app (.app (.ok fun kind name => { kind, name })
              (textOf hook (place ++ ".Kind") (Setting.field ms "Kind")))
              (textOf hook (place ++ ".Name") (Setting.field ms "Name")))
    s

/-- The items of a list, each at its place. -/
def itemsOf (item : String → Setting → Checked α) (place : String) (items : List Setting) :
    Checked (List α) :=
  Checked.all (items.zipIdx.map fun (s, i) => item (place ++ "[" ++ toString i ++ "]") s)

def listOf (hook : Hook) (want : Want) (item : String → Setting → Checked α) (place : String)
    (s : Setting) : Checked (List α) :=
  hook.before want place
    (fun
      | .target _ => .error [.shape]
      | .value s => itemsOf item place s.toItems)
    s

/-! ## Tables -/

def protoOf (hook : Hook) (ms : Setting.Members) : Checked ProtoSettings :=
  let text (name : String) := textOf hook ("proto." ++ name) (Setting.field ms name)
  let flag (name : String) := flagOf hook ("proto." ++ name) (Setting.field ms name)
  .app (.app (.app (.app (.ok ProtoSettings.mk)
    (text "dir")) (text "output_dir")) (flag "use_tool")) (flag "cross_check")

def rustdocOf (hook : Hook) (ms : Setting.Members) : Checked RustdocSettings :=
  let text (name : String) := textOf hook ("rustdoc." ++ name) (Setting.field ms name)
  .app (.app (.app (.app (.app (.app (.app (.app (.app (.ok RustdocSettings.mk)
    (text "crate_dir")) (text "crate_name")) (text "json_name")) (text "toolchain"))
    (listOf hook .targets (targetOf hook) "rustdoc.targets" (Setting.field ms "targets")))
    (text "output_dir")) (text "runtime_title")) (text "link_base"))
    (flagOf hook "rustdoc.archive" (Setting.field ms "archive"))

def htmlOf (hook : Hook) (ms : Setting.Members) : Checked HtmlSettings :=
  .app (.ok HtmlSettings.mk) (textOf hook "html.output_dir" (Setting.field ms "output_dir"))

def settingsOf (hook : Hook) (ms : Setting.Members) : Checked Settings :=
  .app (.app (.app (.app (.app (.app (.ok Settings.mk)
    (textOf hook "ext" (Setting.field ms "ext")))
    (flagOf hook "strict" (Setting.field ms "strict")))
    (listOf hook .texts (textOf hook) "ci_env" (Setting.field ms "ci_env")))
    (tableOf hook "proto" (protoOf hook) (Setting.field ms "proto")))
    (tableOf hook "rustdoc" (rustdocOf hook) (Setting.field ms "rustdoc")))
    (tableOf hook "html" (htmlOf hook) (Setting.field ms "html"))

def weak : Decoder where
  splitting := Hook.splitting
  compose := Hook.inOrder
  decode := settingsOf

end Decoder
end ApiPages
