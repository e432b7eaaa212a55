import ApiPages.Settings.Decode

/-!
# Command lines

A command line names a command and sets flags, in any order.

* `CommandName.flags` are the flags a command takes, besides those of every command;
* `Arguments.splitWord?` finds the command in a command line;
* `Arguments.parse` reads the flags.
-/

namespace ApiPages

/-! ## Commands and flags -/

inductive CommandName where
  | proto
  | rustdoc
  | html
  | all
  | probe
  deriving DecidableEq, Repr

inductive FlagKind where
  | switch
  | text
  /-- A flag that may be set several times, to several values each time. -/
  | texts
  deriving DecidableEq, Repr

inductive FlagValue where
  | switch (on : Bool)
  | text (s : String)
  | texts (items : List String)
  deriving DecidableEq, Repr

namespace CommandName

def word : CommandName → String
  | proto => "proto"
  | rustdoc => "rustdoc"
  | html => "html"
  | all => "all"
  | probe => "probe"

def every : List CommandName := [proto, rustdoc, html, all, probe]

def ofWord? (s : String) : Option CommandName :=
  every.find? fun c => c.word == s

/-- The flags of every command. -/
def commonFlags : List (String × FlagKind) :=
  [("debug", .switch), ("config", .text), ("strict", .switch), ("ext", .text), ("help", .switch)]

def ownFlags : CommandName → List (String × FlagKind)
  | proto => [("dir", .text), ("out", .text), ("no-tool", .switch), ("cross-check", .switch)]
  | rustdoc =>
      [("json", .texts), ("crate", .texts), ("from-archive", .switch), ("out", .text),
        ("link-base", .text), ("archive", .switch)]
  | html => [("out", .text)]
  | all => [("html", .switch)]
  | probe => []

def flags (c : CommandName) : List (String × FlagKind) := c.ownFlags ++ commonFlags

/-- The settings that the common flags override. -/
def commonBindings : List (String × String) := [("strict", "strict"), ("ext", "ext")]

/-- The settings that the flags of a command override. -/
def ownBindings : CommandName → List (String × String)
  | proto =>
      [("dir", "proto.dir"), ("out", "proto.output_dir"), ("cross-check", "proto.cross_check")]
  | rustdoc =>
      [("out", "rustdoc.output_dir"), ("link-base", "rustdoc.link_base"),
        ("archive", "rustdoc.archive")]
  | html => [("out", "html.output_dir")]
  | _ => []

/-- All settings that some flag overrides. -/
def boundSettings : List String :=
  commonBindings.map (·.2) ++ every.flatMap fun c => c.ownBindings.map (·.2)

end CommandName

namespace Arguments

/-! ## Finding the command -/

/-- Whether an argument is a flag whose value is the next argument, as far as the common flags
tell. -/
def takesNext (arg : String) : Bool :=
  match arg.toList with
  | '-' :: '-' :: name =>
      !name.contains '=' && CommandName.commonFlags.lookup (String.ofList name) != some .switch
  | ['-', c] => c != 'h' && c != '='
  | _ => false

/-- Splits a command line at the first word that is neither a flag nor the value of one. -/
def splitWord? (before : List String) : List String → Option (String × List String)
  | [] => none
  | arg :: rest =>
      if arg == "--" then none
      else if takesNext arg then
        match rest with
        | value :: next :: more => splitWord? (value :: arg :: before) (next :: more)
        | _ => none
      else if arg.isEmpty || Text.startsWith arg "-" then splitWord? (arg :: before) rest
      else some (arg, before.reverse ++ rest)
termination_by args => args.length

/-! ## Reading values -/

/-- The rest of a quoted item after its opening quote. -/
def quotedItem (acc : List Char) : List Char → Option (List Char × List Char)
  | [] => none
  | '"' :: '"' :: rest => quotedItem ('"' :: acc) rest
  | '"' :: rest => some (acc.reverse, rest)
  | c :: rest => quotedItem (c :: acc) rest

/-- Items separated by commas; an item with a comma in it is quoted. -/
def items? : Nat → List Char → Option (List String)
  | 0, _ => none
  | fuel + 1, cs =>
      match cs with
      | '"' :: rest => do
          let (item, rest) ← quotedItem [] rest
          match rest with
          | [] => return [String.ofList item]
          | ',' :: more => return String.ofList item :: (← items? fuel more)
          | _ => none
      | _ =>
          let item := cs.takeWhile (· != ',')
          if item.contains '"' then none
          else
            match cs.dropWhile (· != ',') with
            | _ :: more => (items? fuel more).map (String.ofList item :: ·)
            | [] => some [String.ofList item]

def value? (kind : FlagKind) (s : String) : Option FlagValue :=
  match kind with
  | .text => some (.text s)
  | .switch =>
      if Setting.trueWords.contains s then some (.switch true)
      else if Setting.falseWords.contains s then some (.switch false)
      else none
  | .texts =>
      if s.isEmpty then some (.texts [])
      else (items? (s.length + 1) (s.toList.takeWhile (· != '\n'))).map .texts

/-! ## Reading flags -/

/-- The flags that were set, in order. -/
abbrev Settled := List (String × FlagValue)

/-- Reads the flags of a command.  Other words are passed over, and none of them after `--` is a
flag. -/
def parse (flags : List (String × FlagKind)) : List String → Option Settled
  | [] => some []
  | arg :: rest =>
      match arg.toList with
      | '-' :: '-' :: [] => some []
      | '-' :: '-' :: body =>
          let name := String.ofList (body.takeWhile (· != '='))
          match flags.lookup name, body.dropWhile (· != '=') with
          | none, _ => none
          | some kind, _ :: value => do
              let v ← value? kind (String.ofList value)
              return (name, v) :: (← parse flags rest)
          | some .switch, [] => (parse flags rest).map ((name, .switch true) :: ·)
          | some kind, [] =>
              match rest with
              | value :: more => do
                  let v ← value? kind value
                  return (name, v) :: (← parse flags more)
              | [] => none
      | '-' :: c :: letters =>
          if (c :: letters).all (· == 'h') then
            (parse flags rest).map (("help", .switch true) :: ·)
          else none
      | _ => parse flags rest

/-! ## Using flags -/

/-- The value a flag was set to last. -/
def last? (s : Settled) (name : String) : Option FlagValue :=
  s.reverse.lookup name

def isOn (s : Settled) (name : String) : Bool :=
  last? s name == some (.switch true)

def textOf (s : Settled) (name : String) : String :=
  match last? s name with
  | some (.text t) => t
  | _ => ""

/-- Everything a flag was set to, over all its uses. -/
def textsOf (s : Settled) (name : String) : List String :=
  s.flatMap fun (n, v) =>
    match v with
    | .texts items => if n == name then items else []
    | _ => []

def toSetting : FlagValue → Setting
  | .switch on => .bool on
  | .text t => .text t
  | .texts items => .list (items.map .text)

/-- The settings that flags override: all that can be, with the value of those that are. -/
def overrides (c : CommandName) (s : Settled) : List (String × Option Setting) :=
  let bindings := CommandName.commonBindings ++ c.ownBindings
  CommandName.boundSettings.map fun setting =>
    (setting,
      ((bindings.find? fun b => b.2 == setting).bind fun b => last? s b.1).map toSetting)

end Arguments
end ApiPages
