import ApiPages.TypeExpr.Basic
import ApiPages.Text.Search

/-!
# Writing type expressions

`TypeExpr.format` writes a type as source text.  It is total: a node it cannot express is written as
a fixed placeholder.  Beside it stands `TypeExpr.notes`, the list of everything that was not
expressed, in the order in which the placeholders are written.
-/

namespace ApiPages
namespace TypeExpr

/-! ## What could not be written -/

/-- Why a placeholder stands in the text. -/
inductive Gap where
  | absent
  | namelessPrimitive
  | namelessPath
  | boundlessObject
  | namelessBinding
  | openBinding
  | unrecognised (raw : String)
  deriving DecidableEq, Repr

namespace Gap

/-- Nothing was there to begin with, so the gap is not worth a warning. -/
def isQuiet : Gap → Bool
  | unrecognised raw => raw.isEmpty || raw == "\x7b\x7d"
  | _ => true

/-- The reason in words; an absent type has none. -/
def reason? : Gap → Option String
  | absent => none
  | namelessPrimitive => some "primitive without a name"
  | namelessPath => some "path without a name"
  | boundlessObject => some "trait object without bounds"
  | namelessBinding => some "binding without a name"
  | openBinding => some "binding without a constraint"
  | unrecognised _ => some "unrecognised type shape"

end Gap

/-- Written in place of a type that cannot be expressed. -/
def placeholder : String := "/* unknown type */"

/-! ## Text -/

mutual

def format : TypeExpr → String
  | .absent => placeholder
  | .primitive name => if name.isEmpty then placeholder else name
  | .path name args parenthesized output =>
      if name.isEmpty then placeholder
      else if parenthesized then
        name ++ "(" ++ Text.joined ", " (formatAll args) ++ ")" ++
          (if output.isAbsent then "" else " -> " ++ format output)
      else if args.isEmpty then name
      else name ++ "<" ++ Text.joined ", " (formatAll args) ++ ">"
  | .reference lifetime isMutable inner =>
      "&" ++ (if lifetime.isEmpty then "" else withTick lifetime ++ " ") ++
        (if isMutable then "mut " else "") ++ format inner
  | .rawPointer isMutable inner => (if isMutable then "*mut " else "*const ") ++ format inner
  | .functionPointer inputs output =>
      "fn(" ++ Text.joined ", " (formatAll inputs) ++ ")" ++
        (if output.isAbsent then "" else " -> " ++ format output)
  | .tuple elems => "(" ++ Text.joined ", " (formatAll elems) ++ ")"
  | .slice inner => "[" ++ format inner ++ "]"
  | .array inner length =>
      "[" ++ format inner ++ "; " ++ (if length.isEmpty then "?" else length) ++ "]"
  | .traitObject isDyn bounds lifetime =>
      if bounds.isEmpty && lifetime.isEmpty then placeholder
      else
        (if isDyn then "dyn " else "impl ") ++
          Text.joined " + "
            (formatAll bounds ++ (if lifetime.isEmpty then [] else [withTick lifetime]))
  | .binding name equals bounds =>
      if name.isEmpty then placeholder
      else if !equals.isAbsent then name ++ " = " ++ format equals
      else if bounds.isEmpty then placeholder
      else name ++ ": " ++ Text.joined " + " (formatAll bounds)
  | .unknown _ => placeholder
termination_by structural t => t

def formatAll : List TypeExpr → List String
  | [] => []
  | t :: rest => format t :: formatAll rest
termination_by structural ts => ts

end

/-! ## Gaps -/

mutual

/-- The gaps behind the placeholders of `format`, from left to right. -/
def notes : TypeExpr → List Gap
  | .absent => [.absent]
  | .primitive name => if name.isEmpty then [.namelessPrimitive] else []
  | .path name args parenthesized output =>
      if name.isEmpty then [.namelessPath]
      else if parenthesized then
        notesOfAll args ++ (if output.isAbsent then [] else notes output)
      else notesOfAll args
  | .reference _ _ inner => notes inner
  | .rawPointer _ inner => notes inner
  | .functionPointer inputs output =>
      notesOfAll inputs ++ (if output.isAbsent then [] else notes output)
  | .tuple elems => notesOfAll elems
  | .slice inner => notes inner
  | .array inner _ => notes inner
  | .traitObject _ bounds lifetime =>
      if bounds.isEmpty && lifetime.isEmpty then [.boundlessObject] else notesOfAll bounds
  | .binding name equals bounds =>
      if name.isEmpty then [.namelessBinding]
      else if !equals.isAbsent then notes equals
      else if bounds.isEmpty then [.openBinding]
      else notesOfAll bounds
  | .unknown raw => [.unrecognised raw]
termination_by structural t => t

def notesOfAll : List TypeExpr → List Gap
  | [] => []
  | t :: rest => notes t ++ notesOfAll rest
termination_by structural ts => ts

end

end TypeExpr
end ApiPages
