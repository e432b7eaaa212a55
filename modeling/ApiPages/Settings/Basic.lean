import ApiPages.Settings.Target
import ApiPages.Text.SlashPath

/-!
# Settings

What a run is told: where its inputs are, where its pages go, and how they look.

* `Settings` collects the settings of the three kinds of runs;
* `Environment` is the variables of the process; a variable that is set to nothing counts as not
  set.
-/

namespace ApiPages

structure ProtoSettings where
  dir : String := ""
  outputDir : String := ""
  useTool : Bool := false
  crossCheck : Bool := false
  deriving DecidableEq, Repr, Inhabited

structure RustdocSettings where
  crateDir : String := ""
  crateName : String := ""
  /-- The stem of the library's type graph file. -/
  graphName : String := ""
  toolchain : String := ""
  targets : List Target := []
  outputDir : String := ""
  runtimeTitle : String := ""
  linkBase : String := ""
  archive : Bool := false
  deriving DecidableEq, Repr, Inhabited

structure HtmlSettings where
  outputDir : String := ""
  deriving DecidableEq, Repr, Inhabited

structure Settings where
  extension : String := ""
  strict : Bool := false
  /-- The variables any of which marks a continuous integration environment. -/
  ciVariables : List String := []
  proto : ProtoSettings := {}
  rustdoc : RustdocSettings := {}
  html : HtmlSettings := {}
  deriving DecidableEq, Repr, Inhabited

/-! ## Environment -/

abbrev Environment := List (String × String)

namespace Environment

/-- The value of a variable, if it is set to something. -/
def value? (env : Environment) (name : String) : Option String :=
  (env.lookup name).filter (fun v => !v.isEmpty)

/-- Whether any of the variables is set. -/
def hasAny (env : Environment) (names : List String) : Bool :=
  names.any fun n => (env.value? n).isSome

/-- Where caches go: the cache directory named by the environment, else the one below the home
directory, else a temporary one. -/
def cacheDir (env : Environment) : String :=
  match env.value? "XDG_CACHE_HOME" with
  | some dir => SlashPath.join [dir, "refdocs"]
  | none =>
      match env.value? "HOME" with
      | some home => SlashPath.join [home, ".cache", "refdocs"]
      | none => SlashPath.join [(env.value? "TMPDIR").getD "/tmp", "refdocs"]

def archiveDir (env : Environment) : String :=
  SlashPath.join [env.cacheDir, "cas"]

/-- Where a settings file is looked for, in order. -/
def searchDirs (env : Environment) : List String :=
  "." ::
    match env.value? "XDG_CONFIG_HOME" with
    | some dir => [SlashPath.join [dir, "refdocs"]]
    | none =>
        match env.value? "HOME" with
        | some home => [SlashPath.join [home, ".config", "refdocs"]]
        | none => []

end Environment
end ApiPages
