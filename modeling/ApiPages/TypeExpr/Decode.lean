import ApiPages.Json.Reader
import ApiPages.Json.Record
import ApiPages.Text.Blank
import ApiPages.TypeExpr.Basic

/-!
# Reading type expressions

The index of a crate spells types as JSON, and the spelling has drifted between versions of its
producer.  `TypeExpr.ofText` accepts every known spelling and never fails: `null` and the empty text
are an absent type, and a shape that is not recognised becomes `TypeExpr.unknown` with its source.

Two recursions run through the reader: types contain types, and bounds contain paths.  The helpers
take both as the argument `sub : Nested`, and `nested` ties the knot, one unit of fuel per level of
nesting; `ofJson` supplies as much fuel as the value is deep.
-/

namespace ApiPages
namespace TypeExpr

open Json (record optionalRecord names)

/-- The two readers for what is nested in a value. -/
structure Nested where
  type : Json → TypeExpr
  path : Option Json → TypeExpr

def sourceOf (j : Option Json) : String :=
  match j with
  | some j => j.source
  | none => ""

/-- A type that may be missing from the text. -/
def Nested.type? (sub : Nested) : Option Json → TypeExpr
  | some j => sub.type j
  | none => .absent

/-- A type in a position that must hold one. -/
def Nested.typeOrUnknown (sub : Nested) (j : Option Json) : TypeExpr :=
  (sub.type? j).orUnknown (sourceOf j)

/-! ## Names -/

/-- A name on its own; `null` counts as the empty name. -/
def ofName (j : Json) : TypeExpr :=
  match Json.Field.text "" j with
  | some name => if name.isEmpty then .unknown j.source else .primitive name
  | none => .unknown j.source

/-- The name of one path segment: a string, or an object with a name. -/
def segmentName (j : Json) : String :=
  match Json.Field.text "" j with
  | some name => name
  | none =>
      (record ""
        (fun name key v => if names key "name" then Json.Field.text name v else some name) j).getD
        ""

def lastSegment (segments : List Json) : String :=
  match segments.getLast? with
  | some j => segmentName j
  | none => ""

/-- The display name of a path: a string, a list of segments, or an object with such a list. -/
def pathName (j : Option Json) : String :=
  match j with
  | none => ""
  | some .null => ""
  | some (.string _ s) => s
  | some (.array _ segments) => lastSegment segments
  | some j =>
      match record (none : Option (List Json))
          (fun old key v => if names key "segments" then Json.Field.items v else some old) j with
      | some segments => lastSegment (segments.getD [])
      | none => ""

/-- A lifetime in argument position. -/
def ofLifetime (j : Json) : TypeExpr :=
  match Json.Field.text "" j with
  | some name => if name.isEmpty then .unknown j.source else .primitive (withTick name)
  | none => .unknown j.source

/-! ## Bounds and associated types -/

structure TraitRef where
  trait : Option Json := none

def TraitRef.put (r : TraitRef) (key : String) (v : Json) : Option TraitRef :=
  if names key "trait" then some { r with trait := some v } else some r

structure Bound where
  traitBound : Option TraitRef := none
  outlives : Option String := none

def Bound.put (b : Bound) (key : String) (v : Json) : Option Bound :=
  if names key "trait_bound" then
    (optionalRecord {} TraitRef.put b.traitBound v).map fun t => { b with traitBound := t }
  else if names key "outlives" then
    (Json.Field.optionalText v).map fun l => { b with outlives := l }
  else some b

/-- A trait with its arguments, or a lifetime. -/
def ofBound (sub : Nested) (j : Json) : TypeExpr :=
  match record {} Bound.put j with
  | none => .unknown j.source
  | some b =>
      -- a trait goes before a lifetime if both are given
      match b.traitBound with
      | some t => sub.path t.trait
      | none =>
          match b.outlives with
          | some l => if l.isEmpty then .unknown j.source else .primitive (withTick l)
          | none => .unknown j.source

def expressionOf (j : Json) : Option String :=
  record "" (fun old key v => if names key "expr" then Json.Field.text old v else some old) j

/-- The right-hand side of an associated type: a constant, or a type. -/
def ofTerm (sub : Nested) (j : Json) : TypeExpr :=
  match j.get? "constant" with
  | some c =>
      match expressionOf c with
      | some e => if e.isEmpty then .unknown j.source else .primitive e
      | none => .unknown j.source
  | none => sub.typeOrUnknown (some j)

structure Restriction where
  equality : Option Json := none
  constraint : Option (List Json) := none

def Restriction.put (r : Restriction) (key : String) (v : Json) : Option Restriction :=
  if names key "equality" then some { r with equality := some v }
  else if names key "constraint" then
    (Json.Field.items v).map fun js => { r with constraint := js }
  else some r

structure Association where
  name : String := ""
  restriction : Restriction := {}

def Association.put (a : Association) (key : String) (v : Json) : Option Association :=
  if names key "name" then (Json.Field.text a.name v).map fun n => { a with name := n }
  else if names key "binding" then
    (record a.restriction Restriction.put v).map fun r => { a with restriction := r }
  else some a

/-- An associated type argument. -/
def ofBinding (sub : Nested) (j : Json) : TypeExpr :=
  match record {} Association.put j with
  | none => .unknown j.source
  | some a =>
      if a.name.isEmpty then .unknown j.source
      else
        let equals := match a.restriction.equality with
          | some e => ofTerm sub e
          | none => .absent
        let bounds := (a.restriction.constraint.getD []).map (ofBound sub)
        if equals.isAbsent && bounds.isEmpty then .unknown j.source
        else .binding a.name equals bounds

/-! ## Generic arguments -/

structure ConstArg where
  expr : String := ""
  value : Option String := none

def ConstArg.put (c : ConstArg) (key : String) (v : Json) : Option ConstArg :=
  if names key "expr" then (Json.Field.text c.expr v).map fun e => { c with expr := e }
  else if names key "value" then (Json.Field.optionalText v).map fun s => { c with value := s }
  else some c

def ofConst (j : Json) (c : Json) : TypeExpr :=
  match record {} ConstArg.put c with
  | none => .unknown j.source
  | some k =>
      if !k.expr.isEmpty then .primitive k.expr
      else
        match k.value with
        | some v => if v.isEmpty then .unknown j.source else .primitive v
        | none => .unknown j.source

/-- One argument between angle brackets. -/
def ofArgument (sub : Nested) (j : Json) : TypeExpr :=
  match j with
  | .string _ s => if s == "infer" then .primitive "_" else .unknown j.source
  | .object _ members =>
      let get key := Json.lookup key members
      -- the first of the keys that is there decides
      match get "type", get "lifetime", get "const", get "infer" with
      | some t, _, _, _ => sub.typeOrUnknown (some t)
      | none, some l, _, _ => ofLifetime l
      | none, none, some c, _ => ofConst j c
      | none, none, none, some _ => .primitive "_"
      | none, none, none, none => .unknown j.source
  | _ => .unknown j.source

structure AngleArgs where
  args : Option (List Json) := none
  constraints : Option (List Json) := none
  bindings : Option (List Json) := none

def AngleArgs.put (a : AngleArgs) (key : String) (v : Json) : Option AngleArgs :=
  if names key "args" then (Json.Field.items v).map fun js => { a with args := js }
  else if names key "constraints" then (Json.Field.items v).map fun js =>
    { a with constraints := js }
  else if names key "bindings" then (Json.Field.items v).map fun js => { a with bindings := js }
  else some a

/-- The inputs and the result of a signature. -/
structure Signature where
  inputs : Option (List Json) := none
  output : Option Json := none

def Signature.put (s : Signature) (key : String) (v : Json) : Option Signature :=
  if names key "inputs" then (Json.Field.items v).map fun js => { s with inputs := js }
  else if names key "output" then some { s with output := some v }
  else some s

structure GenericArgs where
  angle : Option AngleArgs := none
  parens : Option Signature := none

def GenericArgs.put (g : GenericArgs) (key : String) (v : Json) : Option GenericArgs :=
  if names key "angle_bracketed" then
    (optionalRecord {} AngleArgs.put g.angle v).map fun a => { g with angle := a }
  else if names key "parenthesized" then
    (optionalRecord {} Signature.put g.parens v).map fun p => { g with parens := p }
  else some g

/-- A path with the arguments that follow its name. -/
def withArguments (sub : Nested) (name : String) (args : Option Json) : TypeExpr :=
  match args with
  | none => .path name [] false .absent
  | some .null => .path name [] false .absent
  | some j =>
      match record {} GenericArgs.put j with
      | none => .path name [.unknown j.source] false .absent
      | some g =>
          -- parentheses go before angle brackets if both are given
          match g.parens with
          | some p =>
              .path name ((p.inputs.getD []).map fun i => sub.typeOrUnknown (some i)) true
                (sub.type? p.output)
          | none =>
              match g.angle with
              | none => .path name [] false .absent
              | some a =>
                  .path name
                    ((a.args.getD []).map (ofArgument sub) ++
                      (a.constraints.getD [] ++ a.bindings.getD []).map (ofBinding sub))
                    false .absent

structure PathShape where
  name : String := ""
  path : Option Json := none
  args : Option Json := none

def PathShape.put (p : PathShape) (key : String) (v : Json) : Option PathShape :=
  if names key "name" then (Json.Field.text p.name v).map fun n => { p with name := n }
  else if names key "path" then some { p with path := some v }
  else if names key "args" then some { p with args := some v }
  else some p

/-- A resolved or qualified path. -/
def ofPath (sub : Nested) (j : Option Json) : TypeExpr :=
  match j with
  | none => .unknown ""
  | some j =>
      match record {} PathShape.put j with
      | none => .unknown j.source
      | some p =>
          let name := if p.name.isEmpty then pathName p.path else p.name
          if name.isEmpty then .unknown j.source else withArguments sub name p.args

/-! ## Shapes -/

structure GenericShape where
  name : String := ""
  resolved : Option Json := none

def GenericShape.put (g : GenericShape) (key : String) (v : Json) : Option GenericShape :=
  if names key "name" then (Json.Field.text g.name v).map fun n => { g with name := n }
  else if names key "resolved_path" then some { g with resolved := some v }
  else some g

/-- A type parameter: a plain name, or an object with a name or a path. -/
def ofGeneric (sub : Nested) (j : Json) : TypeExpr :=
  match Json.Field.text "" j with
  | some name => if name.isEmpty then .unknown j.source else .primitive name
  | none =>
      match record {} GenericShape.put j with
      | none => .unknown j.source
      | some g =>
          match g.resolved with
          | some p => sub.path (some p)
          | none => if g.name.isEmpty then .unknown j.source else .primitive g.name

structure Pointer where
  lifetime : Option String := none
  isMutable : Bool := false
  alsoMutable : Bool := false
  target : Option Json := none

/-- Reads a pointer; only references have a lifetime. -/
def Pointer.put (hasLifetime : Bool) (p : Pointer) (key : String) (v : Json) : Option Pointer :=
  if hasLifetime && names key "lifetime" then
    (Json.Field.optionalText v).map fun l => { p with lifetime := l }
  else if names key "mutable" then (Json.Field.flag p.isMutable v).map fun b =>
    { p with isMutable := b }
  else if names key "is_mutable" then
    (Json.Field.flag p.alsoMutable v).map fun b => { p with alsoMutable := b }
  else if names key "type" then some { p with target := some v }
  else some p

def ofReference (sub : Nested) (j : Json) : TypeExpr :=
  match record {} (Pointer.put true) j with
  | none => .unknown j.source
  | some p =>
      .reference (p.lifetime.getD "") (p.isMutable || p.alsoMutable) (sub.typeOrUnknown p.target)

def ofRawPointer (sub : Nested) (j : Json) : TypeExpr :=
  match record {} (Pointer.put false) j with
  | none => .unknown j.source
  | some p => .rawPointer (p.isMutable || p.alsoMutable) (sub.typeOrUnknown p.target)

structure FunctionShape where
  sig : Option Signature := none
  decl : Option Signature := none
  plain : Signature := {}

def FunctionShape.put (f : FunctionShape) (key : String) (v : Json) : Option FunctionShape :=
  if names key "sig" then
    (optionalRecord {} Signature.put f.sig v).map fun s => { f with sig := s }
  else if names key "decl" then
    (optionalRecord {} Signature.put f.decl v).map fun s => { f with decl := s }
  -- the members of a signature may also stand in the function itself
  else (f.plain.put key v).map fun s => { f with plain := s }

/-- The signature of a function, under one of two keys or spelled inline. -/
def signature? (j : Option Json) : Option Signature :=
  match j.bind (record {} FunctionShape.put) with
  | none => none
  | some f =>
      match f.sig, f.decl with
      | some s, _ => some s
      | none, some s => some s
      | none, none =>
          if f.plain.inputs.isSome || f.plain.output.isSome then some f.plain else none

/-- One input of a signature with its name; a bare type has no name. -/
def inputOf (sub : Nested) (j : Json) : String × TypeExpr :=
  match j with
  | .null => ("", .unknown j.source)
  | .array _ [name, type] =>
      ((Json.Field.text "" name).getD "", sub.typeOrUnknown (some type))
  | .array _ _ => ("", .unknown j.source)
  | _ => ("", sub.typeOrUnknown (some j))

def ofFunctionPointer (sub : Nested) (j : Json) : TypeExpr :=
  match signature? (some j) with
  | none => .unknown j.source
  | some s =>
      .functionPointer ((s.inputs.getD []).map fun i => (inputOf sub i).2) (sub.type? s.output)

/-- A list of elements; a single element may stand without the list. -/
def ofTuple (sub : Nested) (j : Json) : TypeExpr :=
  match j with
  | .array _ items => .tuple (items.map fun i => sub.typeOrUnknown (some i))
  | .null => .tuple []
  | _ => .tuple [sub.typeOrUnknown (some j)]

structure ArrayShape where
  inner : Option Json := none
  length : Option Json := none

def ArrayShape.put (a : ArrayShape) (key : String) (v : Json) : Option ArrayShape :=
  if names key "type" then some { a with inner := some v }
  else if names key "len" then some { a with length := some v }
  else some a

def ofArray (sub : Nested) (j : Json) : TypeExpr :=
  match record {} ArrayShape.put j with
  | none => .unknown j.source
  | some a => .array (sub.typeOrUnknown a.inner) ((a.length.bind Json.identifier?).getD "")

/-- Traits read on top of those that are there, each on its own predecessor. -/
def putTraits : List TraitRef → List Json → Option (List TraitRef)
  | _, [] => some []
  | old, j :: js => do
      let t ← record (old.head?.getD {}) TraitRef.put j
      return t :: (← putTraits old.tail js)

structure DynShape where
  traits : List TraitRef := []
  lifetime : Option String := none

def DynShape.put (d : DynShape) (key : String) (v : Json) : Option DynShape :=
  if names key "traits" then
    match v with
    | .array _ js => (putTraits d.traits js).map fun traits => { d with traits }
    | .null => some { d with traits := [] }
    | _ => none
  else if names key "lifetime" then
    (Json.Field.optionalText v).map fun l => { d with lifetime := l }
  else some d

def ofDyn (sub : Nested) (j : Json) : TypeExpr :=
  match record {} DynShape.put j with
  | none => .unknown j.source
  | some d =>
      if d.traits.isEmpty then .unknown j.source
      else .traitObject true (d.traits.map fun t => sub.path t.trait) (d.lifetime.getD "")

def ofImpl (sub : Nested) (j : Json) : TypeExpr :=
  match j with
  | .array _ (b :: bs) => .traitObject false ((b :: bs).map (ofBound sub)) ""
  | _ => .unknown j.source

/-! ## Types -/

/-- The shapes of a type in order of precedence: the first key that is present decides. -/
def shapes : List (String × (Nested → Json → TypeExpr)) :=
  [("primitive", fun _ => ofName),
   ("generic", ofGeneric),
   ("resolved_path", fun sub j => sub.path (some j)),
   ("qualified_path", fun sub j => sub.path (some j)),
   ("borrowed_ref", ofReference),
   ("raw_pointer", ofRawPointer),
   ("function_pointer", ofFunctionPointer),
   ("fn_pointer", ofFunctionPointer),
   ("tuple", ofTuple),
   ("slice", fun sub j => .slice (sub.type j)),
   ("array", ofArray),
   ("dyn_trait", ofDyn),
   ("impl_trait", ofImpl),
   ("infer", fun _ _ => .primitive "_")]

/-- The first shape whose key is a member. -/
def ofShape (sub : Nested) (j : Json) (members : List (String × Json)) : TypeExpr :=
  match shapes.findSome? fun (key, read) => (Json.lookup key members).map (read sub) with
  | some t => t
  | none => .unknown j.source

/-- One level of a type; an object under `type` is a wrapper and read in its place. -/
def ofValue (sub : Nested) (j : Json) : TypeExpr :=
  match j with
  | .null => .absent
  | .object _ members =>
      match Json.lookup "type" members with
      | some inner => if inner.isObject then sub.type inner else ofShape sub j members
      | none => ofShape sub j members
  | _ => .unknown j.source

/-- The readers for values nested less deep than the fuel. -/
def nested : Nat → Nested
  | 0 => ⟨fun j => .unknown j.source, fun j => .unknown (sourceOf j)⟩
  | fuel + 1 => ⟨ofValue (nested fuel), ofPath (nested fuel)⟩

/-- The readers with enough fuel for everything inside the given value. -/
def nestedFor (j : Json) : Nested :=
  nested (j.depth + 1)

def ofJson (j : Json) : TypeExpr :=
  (nestedFor j).type j

def ofOptional : Option Json → TypeExpr
  | some j => ofJson j
  | none => .absent

/-! ## Texts -/

/-- Reads the text of a type. -/
def ofText (text : String) : TypeExpr :=
  let raw := Text.strip text
  if raw.isEmpty then .absent
  else
    match Json.parse? raw with
    | some j => ofJson j
    | none => .unknown raw

/-- Reads one input of a signature with its name. -/
def inputOfJson (j : Json) : String × TypeExpr :=
  inputOf (nestedFor j) j

/-- Reads the text of one input of a signature.  A list that is no pair is kept as it is written,
with the white space around it. -/
def inputOfText (text : String) : String × TypeExpr :=
  match Json.parse? text with
  | some (.array src [name, type]) => inputOfJson (.array src [name, type])
  | some (.array _ _) | some .null => ("", .unknown text)
  | _ => ("", (ofText text).orUnknown (Text.strip text))

end TypeExpr
end ApiPages
