import ApiPages.Markdown.Line
import ApiPages.Markdown.Survey

/-!
# Framing shell commands

A fenced block of shell commands is shown without a frame.  The line that opens it says so, unless
it says something about frames already.
-/

namespace ApiPages
namespace Markdown

/-- An opening line with the attribute added that takes the frame away. -/
def framedOpening (line : List Char) : List Char :=
  Text.trimEnd (fun c => c == ' ' || c == '\t') line ++ " frame=\"none\"".toList

/-- Adds the attribute to the lines that open shell blocks. -/
def frameLines (fence : Option Fence) : List (List Char) → List (List Char)
  | [] => []
  | line :: rest =>
      match fence with
      | some f => line :: frameLines (if f.closes line then none else some f) rest
      | none =>
          match Fence.opening? line with
          | none => line :: frameLines none rest
          | some o =>
              let isShell := shellNames.contains (String.ofList o.word)
              let isFramed := Text.occurs "frame=".toList o.rest
              (if isShell && !isFramed then framedOpening line else line) ::
                frameLines (some o.fence) rest

/-- Adds the attribute to the shell blocks of a document, if it has any. -/
def frameShellBlocks (survey : Surveyor) (src : String) : String :=
  if (survey src).hasShellFence then
    String.ofList (['\n'].intercalate (frameLines none (src.toList.splitOn '\n')))
  else src

end Markdown
end ApiPages
