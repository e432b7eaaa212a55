import ApiPages.Proofs.Json.Fields
import ApiPages.TypeExpr.Basic
import Mathlib.Data.List.Forall2

/-!
# How types are encoded

`Encodes t j` says that the value `j` is an encoding of the type `t`.  An encoding is described by
the members it has, not by how it is read: each constructor is one way of writing one kind of node,
and at every node the ways are free to choose.  Members under other keys may stand beside those that
are named, in any order.

* `Encodes` for types, with a wrapper around any of them;
* `EncodesPath` with `IsPathName` and `EncodesArguments` for named types;
* `EncodesAssociation`, `EncodesBound` and `EncodesSignature` for what else is nested in a type.
-/

namespace ApiPages
namespace TypeExpr

open Json (lookup Plain Missing IsText IsFlag IsList)

/-! ## Keys -/

/-- The keys that say what an object is when it stands for a type. -/
def typeKeys : List String :=
  ["type", "primitive", "generic", "resolved_path", "qualified_path", "borrowed_ref", "raw_pointer",
    "function_pointer", "fn_pointer", "tuple", "slice", "array", "dyn_trait", "impl_trait", "infer"]

/-- The one key of the members that says what they are, and its value. -/
structure Only (key : String) (ms : List (String × Json)) (v : Json) : Prop where
  value : lookup key ms = some v
  others : ∀ k ∈ typeKeys, k ≠ key → lookup k ms = none

/-! ## Names -/

inductive IsSegment : Json → String → Prop
  | text {src name : String} : IsSegment (.string src name) name
  | object {src s name : String} {ms : List (String × Json)} : Plain ["name"] ms →
      lookup "name" ms = some (.string s name) → IsSegment (.object src ms) name

/-- The display name of a path, from its `name` and `path` members. -/
inductive IsPathName : Option Json → Option Json → String → Prop
  | name {src name : String} {path : Option Json} : name ≠ "" →
        IsPathName (some (.string src name)) path name
  | text {name : Option Json} {src path : String} : IsText name "" →
      IsPathName name (some (.string src path)) path
  | segments {name : Option Json} {src last : String} {before : List Json} {segment : Json} :
      IsText name "" → IsSegment segment last →
      IsPathName name (some (.array src (before ++ [segment]))) last
  | object {name : Option Json} {src list last : String} {ms : List (String × Json)}
        {before : List Json}
      {segment : Json} : IsText name "" → Plain ["segments"] ms →
      lookup "segments" ms = some (.array list (before ++ [segment])) → IsSegment segment last →
      IsPathName name (some (.object src ms)) last

/-- The length of an array is spelled as a text or as a number. -/
inductive IsLength : Option Json → String → Prop
  | missing {o : Option Json} : Missing o → IsLength o ""
  | text {src length : String} : IsLength (some (.string src length)) length
  | number {literal : String} : IsLength (some (.number literal)) literal

/-! ## Types -/

mutual

/-- An encoding of a type. -/
inductive Encodes : TypeExpr → Json → Prop
  | wrapped {t : TypeExpr} {src : String} {ms : List (String × Json)} {j : Json} :
      lookup "type" ms = some j → Encodes t j → Encodes t (.object src ms)
  | unknown {src : String} {ms : List (String × Json)} : (∀ k ∈ typeKeys, lookup k ms = none) →
      Encodes (.unknown src) (.object src ms)
  | primitive {src s name : String} {ms : List (String × Json)} :
        Only "primitive" ms (.string s name) →
      name ≠ "" → Encodes (.primitive name) (.object src ms)
  | generic {src s name : String} {ms : List (String × Json)} : Only "generic" ms (.string s name) →
      name ≠ "" → Encodes (.primitive name) (.object src ms)
  | genericName {src s n name : String} {ms gs : List (String × Json)} :
        Only "generic" ms (.object s gs) →
      Plain ["name", "resolved_path"] gs → lookup "name" gs = some (.string n name) → name ≠ "" →
      lookup "resolved_path" gs = none → Encodes (.primitive name) (.object src ms)
  | genericPath {t : TypeExpr} {src s name : String} {ms gs : List (String × Json)} {p : Json} :
      Only "generic" ms (.object s gs) → Plain ["name", "resolved_path"] gs →
      IsText (lookup "name" gs) name →
      lookup "resolved_path" gs = some p → EncodesPath t p → Encodes t (.object src ms)
  | infer {src : String} {ms : List (String × Json)} {v : Json} : Only "infer" ms v →
      Encodes (.primitive "_") (.object src ms)
  | path {t : TypeExpr} {key src : String} {ms : List (String × Json)} {p : Json} :
      key = "resolved_path" ∨ key = "qualified_path" → Only key ms p → EncodesPath t p →
      Encodes t (.object src ms)
  | reference {inner : TypeExpr} {src s lifetime : String} {a b : Bool}
        {ms ps : List (String × Json)}
      {j : Json} :
      Only "borrowed_ref" ms (.object s ps) →
      Plain ["lifetime", "mutable", "is_mutable", "type"] ps →
      IsText (lookup "lifetime" ps) lifetime → IsFlag (lookup "mutable" ps) a →
      IsFlag (lookup "is_mutable" ps) b → lookup "type" ps = some j → Encodes inner j →
      Encodes (.reference lifetime (a || b) inner) (.object src ms)
  | rawPointer {inner : TypeExpr} {src s : String} {a b : Bool} {ms ps : List (String × Json)}
        {j : Json} :
      Only "raw_pointer" ms (.object s ps) → Plain ["mutable", "is_mutable", "type"] ps →
      IsFlag (lookup "mutable" ps) a → IsFlag (lookup "is_mutable" ps) b →
      lookup "type" ps = some j →
      Encodes inner j → Encodes (.rawPointer (a || b) inner) (.object src ms)
  | functionPointer {inputs : List TypeExpr} {output : TypeExpr} {key src s : String}
      {ms fs : List (String × Json)} : key = "function_pointer" ∨ key = "fn_pointer" →
      Only key ms (.object s fs) → EncodesSignature inputs output fs →
      Encodes (.functionPointer inputs output) (.object src ms)
  | tuple {elems : List TypeExpr} {src s : String} {ms : List (String × Json)} {js : List Json} :
      Only "tuple" ms (.array s js) → List.Forall₂ Encodes elems js →
        Encodes (.tuple elems) (.object src ms)
  | unit {src : String} {ms : List (String × Json)} : Only "tuple" ms .null →
      Encodes (.tuple []) (.object src ms)
  | single {t : TypeExpr} {src : String} {ms : List (String × Json)} {j : Json} :
        Only "tuple" ms j →
      Encodes t j → Encodes (.tuple [t]) (.object src ms)
  | slice {inner : TypeExpr} {src : String} {ms : List (String × Json)} {j : Json} :
        Only "slice" ms j →
      Encodes inner j → Encodes (.slice inner) (.object src ms)
  | array {inner : TypeExpr} {src s length : String} {ms as : List (String × Json)} {j : Json} :
      Only "array" ms (.object s as) → Plain ["type", "len"] as → lookup "type" as = some j →
      Encodes inner j → IsLength (lookup "len" as) length →
      Encodes (.array inner length) (.object src ms)
  | dynTrait {bound : TypeExpr} {bounds : List TypeExpr} {src s list lifetime : String}
      {ms ds : List (String × Json)} {js : List Json} : Only "dyn_trait" ms (.object s ds) →
      Plain ["traits", "lifetime"] ds → lookup "traits" ds = some (.array list js) →
      List.Forall₂ EncodesTrait (bound :: bounds) js → IsText (lookup "lifetime" ds) lifetime →
      Encodes (.traitObject true (bound :: bounds) lifetime) (.object src ms)
  | implTrait {bound : TypeExpr} {bounds : List TypeExpr} {src s : String}
        {ms : List (String × Json)}
      {js : List Json} : Only "impl_trait" ms (.array s js) →
      List.Forall₂ EncodesBound (bound :: bounds) js →
      Encodes (.traitObject false (bound :: bounds) "") (.object src ms)

/-- A named type, without the key that says so. -/
inductive EncodesPath : TypeExpr → Json → Prop
  | mk {name src : String} {args : List TypeExpr} {parenthesized : Bool} {output : TypeExpr}
      {ps : List (String × Json)} : Plain ["name", "path", "args"] ps →
      IsPathName (lookup "name" ps) (lookup "path" ps) name → name ≠ "" →
      EncodesArguments (lookup "args" ps) args parenthesized output →
      EncodesPath (.path name args parenthesized output) (.object src ps)

/-- What follows the name of a path. -/
inductive EncodesArguments : Option Json → List TypeExpr → Bool → TypeExpr → Prop
  | missing {o : Option Json} : Missing o → EncodesArguments o [] false .absent
  | empty {src : String} {gs : List (String × Json)} :
        Plain ["angle_bracketed", "parenthesized"] gs →
      Missing (lookup "angle_bracketed" gs) → Missing (lookup "parenthesized" gs) →
      EncodesArguments (some (.object src gs)) [] false .absent
  | angle {args associations : List TypeExpr} {src s : String} {gs as : List (String × Json)}
      {xs cs bs : List Json} : Plain ["angle_bracketed", "parenthesized"] gs →
      Missing (lookup "parenthesized" gs) → lookup "angle_bracketed" gs = some (.object s as) →
      Plain ["args", "constraints", "bindings"] as → IsList (lookup "args" as) xs →
      IsList (lookup "constraints" as) cs → IsList (lookup "bindings" as) bs →
      List.Forall₂ EncodesArgument args xs →
      List.Forall₂ EncodesAssociation associations (cs ++ bs) →
      EncodesArguments (some (.object src gs)) (args ++ associations) false .absent
  | parenthesized {inputs : List TypeExpr} {output : TypeExpr} {src s : String}
        {gs ps : List (String × Json)}
      {xs : List Json} : Plain ["angle_bracketed", "parenthesized"] gs →
      Missing (lookup "angle_bracketed" gs) → lookup "parenthesized" gs = some (.object s ps) →
      Plain ["inputs", "output"] ps → IsList (lookup "inputs" ps) xs →
      List.Forall₂ Encodes inputs xs →
      EncodesOutput (lookup "output" ps) output →
      EncodesArguments (some (.object src gs)) inputs true output

/-- A result, which may be missing. -/
inductive EncodesOutput : Option Json → TypeExpr → Prop
  | missing {o : Option Json} : Missing o → EncodesOutput o .absent
  | type {t : TypeExpr} {j : Json} : Encodes t j → EncodesOutput (some j) t

/-- One argument between angle brackets. -/
inductive EncodesArgument : TypeExpr → Json → Prop
  | type {t : TypeExpr} {src : String} {ms : List (String × Json)} {j : Json} : lookup "type" ms =
        some j →
      Encodes t j → EncodesArgument t (.object src ms)
  | lifetime {src s lifetime : String} {ms : List (String × Json)} : lookup "type" ms = none →
      lookup "lifetime" ms = some (.string s lifetime) → lifetime ≠ "" →
      EncodesArgument (.primitive (withTick lifetime)) (.object src ms)
  | expression {src s e expr value : String} {ms cs : List (String × Json)} :
        lookup "type" ms = none →
      lookup "lifetime" ms = none → lookup "const" ms = some (.object s cs) →
      Plain ["expr", "value"] cs →
      lookup "expr" cs = some (.string e expr) → expr ≠ "" → IsText (lookup "value" cs) value →
      EncodesArgument (.primitive expr) (.object src ms)
  | value {src s v value : String} {ms cs : List (String × Json)} : lookup "type" ms = none →
      lookup "lifetime" ms = none → lookup "const" ms = some (.object s cs) →
      Plain ["expr", "value"] cs →
      IsText (lookup "expr" cs) "" → lookup "value" cs = some (.string v value) → value ≠ "" →
      EncodesArgument (.primitive value) (.object src ms)
  | infer {src : String} : EncodesArgument (.primitive "_") (.string src "infer")
  | inferObject {src : String} {ms : List (String × Json)} {v : Json} : lookup "type" ms = none →
      lookup "lifetime" ms = none → lookup "const" ms = none → lookup "infer" ms = some v →
      EncodesArgument (.primitive "_") (.object src ms)

/-- An associated type that is fixed or restricted. -/
inductive EncodesAssociation : TypeExpr → Json → Prop
  | mk {name src n b : String} {equals : TypeExpr} {bounds : List TypeExpr}
        {ms rs : List (String × Json)}
      {js : List Json} : Plain ["name", "binding"] ms → lookup "name" ms = some (.string n name) →
      name ≠ "" →
      lookup "binding" ms = some (.object b rs) → Plain ["equality", "constraint"] rs →
      EncodesEquality (lookup "equality" rs) equals → IsList (lookup "constraint" rs) js →
      List.Forall₂ EncodesBound bounds js → equals ≠ .absent ∨ bounds ≠ [] →
      EncodesAssociation (.binding name equals bounds) (.object src ms)

/-- The type that an associated type is fixed to, or a constant.  A type stands there directly or
under a key, and in either case beside no constant. -/
inductive EncodesEquality : Option Json → TypeExpr → Prop
  | missing : EncodesEquality none .absent
  | type {t : TypeExpr} {j : Json} : j.get? "constant" = none → Encodes t j →
        EncodesEquality (some j) t
  | constant {j : Json} {s e expr : String} {cs : List (String × Json)} :
      j.get? "constant" = some (.object s cs) → Plain ["expr"] cs →
      lookup "expr" cs = some (.string e expr) → expr ≠ "" →
      EncodesEquality (some j) (.primitive expr)

/-- A trait with its arguments, or a lifetime. -/
inductive EncodesBound : TypeExpr → Json → Prop
  | trait {t : TypeExpr} {src s lifetime : String} {ms ts : List (String × Json)} {p : Json} :
      Plain ["trait_bound", "outlives"] ms → lookup "trait_bound" ms = some (.object s ts) →
      IsText (lookup "outlives" ms) lifetime → Plain ["trait"] ts → lookup "trait" ts = some p →
      EncodesPath t p → EncodesBound t (.object src ms)
  | outlives {src s lifetime : String} {ms : List (String × Json)} :
        Plain ["trait_bound", "outlives"] ms →
      Missing (lookup "trait_bound" ms) → lookup "outlives" ms = some (.string s lifetime) →
      lifetime ≠ "" →
      EncodesBound (.primitive (withTick lifetime)) (.object src ms)

/-- One trait of a trait object. -/
inductive EncodesTrait : TypeExpr → Json → Prop
  | mk {t : TypeExpr} {src : String} {ts : List (String × Json)} {p : Json} : Plain ["trait"] ts →
      lookup "trait" ts = some p → EncodesPath t p → EncodesTrait t (.object src ts)

/-- A signature under one of two keys, or spelled among the members themselves. -/
inductive EncodesSignature : List TypeExpr → TypeExpr → List (String × Json) → Prop
  | nested {inputs : List TypeExpr} {output : TypeExpr} {key other s : String}
        {fs ss : List (String × Json)}
      {js : List Json} : key = "sig" ∧ other = "decl" ∨ key = "decl" ∧ other = "sig" →
      Plain ["sig", "decl", "inputs", "output"] fs → lookup key fs = some (.object s ss) →
      Missing (lookup other fs) → Missing (lookup "inputs" fs) → Missing (lookup "output" fs) →
      Plain ["inputs", "output"] ss → IsList (lookup "inputs" ss) js →
      List.Forall₂ EncodesInput inputs js →
      EncodesOutput (lookup "output" ss) output → EncodesSignature inputs output fs
  | inline {inputs : List TypeExpr} {output : TypeExpr} {fs : List (String × Json)}
        {js : List Json} :
      Plain ["sig", "decl", "inputs", "output"] fs → Missing (lookup "sig" fs) →
      Missing (lookup "decl" fs) →
      IsList (lookup "inputs" fs) js → List.Forall₂ EncodesInput inputs js →
      EncodesOutput (lookup "output" fs) output →
      ¬ Missing (lookup "inputs" fs) ∨ lookup "output" fs ≠ none → EncodesSignature inputs output fs

/-- An input with its name, or without. -/
inductive EncodesInput : TypeExpr → Json → Prop
  | named {t : TypeExpr} {src : String} {name j : Json} : Encodes t j →
        EncodesInput t (.array src [name, j])
  | bare {t : TypeExpr} {j : Json} : Encodes t j → EncodesInput t j

end

end TypeExpr
end ApiPages
