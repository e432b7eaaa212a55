/-!
# Surveys of a document

A document is edited line by line, but every edit asks first what a reader of the format finds in
it.  A `Surveyor` answers: whether there is any heading, whether there is a fenced block of shell
commands, and where the links lead.  The laws of the edits hold for every surveyor.
-/

namespace ApiPages
namespace Markdown

/-- What the edits ask about a document. -/
structure Survey where
  hasHeading : Bool := false
  hasShellFence : Bool := false
  /-- The destinations of the links, in document order. -/
  destinations : List String := []
  deriving DecidableEq, Repr

abbrev Surveyor := String → Survey

/-- The names that mark a fenced block as shell commands. -/
def shellNames : List String := ["bash", "sh", "zsh", "shell", "console"]

end Markdown
end ApiPages
