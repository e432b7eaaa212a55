/-!
# Type expressions

`TypeExpr` is the canonical form of a type as it occurs in a signature.  Every position that holds
a type may also hold `absent`: a function without a result, or a value built by hand with a part
left out.

* `TypeExpr.children` lists the types directly below a node;
* `TypeExpr.orUnknown` keeps composite nodes total when a part is missing from the source.
-/

namespace ApiPages

inductive TypeExpr where
  /-- No type at all. -/
  | absent
  /-- A bare name: a builtin type, a type parameter, a lifetime argument or the inferred type. -/
  | primitive (name : String)
  /-- A named type with arguments; with `parenthesized` the arguments are inputs and `output` the
  result. -/
  | path (name : String) (args : List TypeExpr) (parenthesized : Bool) (output : TypeExpr)
  | reference (lifetime : String) (isMutable : Bool) (inner : TypeExpr)
  | rawPointer (isMutable : Bool) (inner : TypeExpr)
  | functionPointer (inputs : List TypeExpr) (output : TypeExpr)
  /-- Without elements, the unit type. -/
  | tuple (elems : List TypeExpr)
  | slice (inner : TypeExpr)
  /-- The length is text, since it may be a constant expression. -/
  | array (inner : TypeExpr) (length : String)
  /-- A trait object, or an opaque type when `isDyn` is off. -/
  | traitObject (isDyn : Bool) (bounds : List TypeExpr) (lifetime : String)
  /-- An associated type argument, fixed by `equals` or restricted by `bounds`. -/
  | binding (name : String) (equals : TypeExpr) (bounds : List TypeExpr)
  /-- A shape that is not recognised, with its source text. -/
  | unknown (raw : String)
  deriving Inhabited

namespace TypeExpr

def isAbsent : TypeExpr → Bool
  | absent => true
  | _ => false

/-- The types directly below a node, in the order they are written. -/
def children : TypeExpr → List TypeExpr
  | path _ args _ output => args ++ [output]
  | reference _ _ inner => [inner]
  | rawPointer _ inner => [inner]
  | functionPointer inputs output => inputs ++ [output]
  | tuple elems => elems
  | slice inner => [inner]
  | array inner _ => [inner]
  | traitObject _ bounds _ => bounds
  | binding _ equals bounds => equals :: bounds
  | _ => []

/-- A missing part becomes an unknown type with the source that stood there. -/
def orUnknown (raw : String) : TypeExpr → TypeExpr
  | absent => unknown raw
  | t => t

/-- Lifetimes are written with a leading tick. -/
def withTick (lifetime : String) : String :=
  if lifetime.toList.head? == some '\'' then lifetime else "'" ++ lifetime

end TypeExpr
end ApiPages
