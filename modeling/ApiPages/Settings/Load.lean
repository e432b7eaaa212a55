import ApiPages.Json.Reader
import ApiPages.Settings.Decode
import ApiPages.Settings.Layer
import ApiPages.Toml.Reader
import ApiPages.Yaml.Reader

/-!
# Loading settings

The settings of a run are the merged layers, understood.  The settings file is the one that is asked
for, or the first that lies where such files are looked for; only the latter may be missing.

* `SettingsFormat` is how files are read and values decoded;
* `Settings.load` gives the settings, or says what is wrong with them.
-/

namespace ApiPages

/-! ## Files -/

structure SettingsFormat where
  /-- The settings in a text of the named format; formats that are not known have none. -/
  read? : (format text : String) → Option Setting.Members
  decoder : Decoder

namespace SettingsFile

/-- The endings a settings file may have; it may also have none. -/
def endings : List String :=
  ["json", "toml", "yaml", "yml", "properties", "props", "prop", "hcl", "tfvars", "dotenv", "env",
    "ini"]

/-- The paths where a settings file is looked for.  Whatever its ending, it is read as one
format. -/
def searchPaths (env : Environment) : List String :=
  env.searchDirs.flatMap fun dir =>
    SlashPath.join [dir, "refdocs"] ::
      endings.map fun e => SlashPath.join [dir, "refdocs." ++ e]

end SettingsFile

/-! ## Defaults -/

namespace Settings

def defaults : Setting.Members :=
  [("ext", .text ".mdx"), ("strict", .bool false),
    ("ci_env", .list [.text "CI", .text "VERCEL", .text "NETLIFY"]),
    ("proto", .table [("dir", .text "engine/proto"),
      ("output_dir", .text "docs/src/content/docs/reference"), ("use_tool", .bool true),
      ("cross_check", .bool false)]),
    ("rustdoc", .table [("crate_dir", .text "engine"), ("crate_name", .text "engine"),
      ("json_name", .text ""), ("toolchain", .text "+nightly"), ("targets", .text "lib"),
      ("output_dir", .text "docs/src/content/docs/reference/rust"), ("runtime_title", .text ""),
      ("link_base", .text ""), ("archive", .bool false)]),
    ("html", .table [("output_dir", .text "docs/public/reference/rustdoc/html")])]

/-! ## Loading -/

inductive LoadError where
  /-- The settings file is missing or cannot be read. -/
  | unreadable
  | undecodable (problems : List SettingProblem)
  deriving DecidableEq, Repr

/-- The settings of the file, of which `read` gives the text.  An empty name asks for the file to be
looked for. -/
def fileMembers? (f : SettingsFormat) (file : String) (read : String → Option String)
    (env : Environment) :
    Option Setting.Members :=
  if file.isEmpty then
    match (SettingsFile.searchPaths env).findSome? read with
    | some text => f.read? "toml" text
    | none => some []
  else (read file).bind (f.read? (String.ofList ((SlashPath.ext file).toList.drop 1)))

def load (f : SettingsFormat) (file : String) (read : String → Option String) (env : Environment)
    (flags : List (String × Option Setting)) : Except LoadError Settings :=
  match fileMembers? f file read env with
  | none => .error .unreadable
  | some members =>
      let layers : Layers := { flags, environment := env, file := members, defaults }
      match decode f.decoder layers.merged with
      | .ok s => .ok s
      | .error problems => .error (.undecodable problems)

end Settings
end ApiPages
