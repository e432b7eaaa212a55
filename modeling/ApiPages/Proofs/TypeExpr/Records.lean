import ApiPages.Proofs.Json.Fields
import ApiPages.TypeExpr.Decode

/-!
# Records inside types

What each record of the reader holds after an object that names its fields at most once.  The field
of a record is the value of its member, whatever stands around that member, and the initial value
when there is none.
-/

namespace ApiPages
namespace TypeExpr

open Json

variable {ms : List (String × Json)}

/-! ## Names -/

theorem PathShape.record_eq (h : Plain ["name", "path", "args"] ms) {name : String}
    (hname : IsRead Field.text "" (lookup "name" ms) name) (src : String) :
    record {} PathShape.put (.object src ms) =
      some { name, path := lookup "path" ms, args := lookup "args" ms } := by
  rw [← hname.readOf_eq]
  -- as for all records here: members under other keys change nothing, and a member under one of the
  -- keys gives its field whatever the other fields hold
  refine Json.record_eq PathShape.put h (fun look =>
    { name := readOf Field.text "" (look "name"), path := look "path", args := look "args" })
      ?_ ?_ src
  · intro r key v hkey
    simp at hkey
    simp [PathShape.put, hkey]
  · intro f hf look v hlook hv
    simp only [List.mem_cons, List.not_mem_nil, or_false] at hf
    rcases hf with rfl | rfl | rfl
    · exact hname.map_eq hlook hv fun n => PathShape.mk n (look "path") (look "args")
    · rfl
    · rfl

theorem GenericShape.record_eq (h : Plain ["name", "resolved_path"] ms) {name : String}
    (hname : IsRead Field.text "" (lookup "name" ms) name) (src : String) :
    record {} GenericShape.put (.object src ms) =
      some { name, resolved := lookup "resolved_path" ms } := by
  rw [← hname.readOf_eq]
  refine Json.record_eq GenericShape.put h (fun look =>
    { name := readOf Field.text "" (look "name"), resolved := look "resolved_path" }) ?_ ?_ src
  · intro r key v hkey
    simp at hkey
    simp [GenericShape.put, hkey]
  · intro f hf look v hlook hv
    simp only [List.mem_cons, List.not_mem_nil, or_false] at hf
    rcases hf with rfl | rfl
    · exact hname.map_eq hlook hv fun n => GenericShape.mk n (look "resolved_path")
    · rfl

/-! ## Bounds and associated types -/

theorem TraitRef.record_eq (h : Plain ["trait"] ms) (src : String) :
    record {} TraitRef.put (.object src ms) = some { trait := lookup "trait" ms } := by
  refine Json.record_eq TraitRef.put h (fun look => { trait := look "trait" }) ?_ ?_ src
  · intro r key v hkey
    simp at hkey
    simp [TraitRef.put, hkey]
  · intro f hf look v hlook hv
    rw [List.mem_singleton.1 hf]
    rfl

theorem Bound.record_eq (h : Plain ["trait_bound", "outlives"] ms) {t : Option TraitRef}
    {l : Option String}
    (ht : IsRead (optionalRecord {} TraitRef.put) none (lookup "trait_bound" ms) t)
    (hl : IsRead (fun _ => Field.optionalText) none (lookup "outlives" ms) l) (src : String) :
    record {} Bound.put (.object src ms) = some { traitBound := t, outlives := l } := by
  rw [← ht.readOf_eq, ← hl.readOf_eq]
  refine Json.record_eq Bound.put h (fun look =>
    { traitBound := readOf (optionalRecord {} TraitRef.put) none (look "trait_bound")
      outlives := readOf (fun _ => Field.optionalText) none (look "outlives") }) ?_ ?_ src
  · intro r key v hkey
    simp at hkey
    simp [Bound.put, hkey]
  · intro f hf look v hlook hv
    simp only [List.mem_cons, List.not_mem_nil, or_false] at hf
    rcases hf with rfl | rfl
    · exact ht.map_eq hlook hv fun t =>
        Bound.mk t (readOf (fun _ => Field.optionalText) none (look "outlives"))
    · exact hl.map_eq hlook hv fun l =>
        Bound.mk (readOf (optionalRecord {} TraitRef.put) none (look "trait_bound")) l

theorem Restriction.record_eq (h : Plain ["equality", "constraint"] ms) {js : Option (List Json)}
    (hjs : IsRead (fun _ => Field.items) none (lookup "constraint" ms) js) (src : String) :
    record {} Restriction.put (.object src ms) =
      some { equality := lookup "equality" ms, constraint := js } := by
  rw [← hjs.readOf_eq]
  refine Json.record_eq Restriction.put h (fun look =>
    { equality := look "equality",
      constraint := readOf (fun _ => Field.items) none (look "constraint") })
    ?_ ?_ src
  · intro r key v hkey
    simp at hkey
    simp [Restriction.put, hkey]
  · intro f hf look v hlook hv
    simp only [List.mem_cons, List.not_mem_nil, or_false] at hf
    rcases hf with rfl | rfl
    · rfl
    · exact hjs.map_eq hlook hv fun js => Restriction.mk (look "equality") js

theorem Association.record_eq (h : Plain ["name", "binding"] ms) {name : String}
    {restriction : Restriction} (hname : IsRead Field.text "" (lookup "name" ms) name)
    (hrestriction : IsRead (fun r => record r Restriction.put) {} (lookup "binding" ms) restriction)
    (src : String) :
    record {} Association.put (.object src ms) = some { name, restriction } := by
  rw [← hname.readOf_eq, ← hrestriction.readOf_eq]
  refine Json.record_eq Association.put h (fun look =>
    { name := readOf Field.text "" (look "name")
      restriction := readOf (fun r => record r Restriction.put) {} (look "binding") }) ?_ ?_ src
  · intro r key v hkey
    simp at hkey
    simp [Association.put, hkey]
  · intro f hf look v hlook hv
    simp only [List.mem_cons, List.not_mem_nil, or_false] at hf
    rcases hf with rfl | rfl
    · exact hname.map_eq hlook hv fun n =>
        Association.mk n (readOf (fun r => record r Restriction.put) {} (look "binding"))
    · exact hrestriction.map_eq hlook hv fun r =>
        Association.mk (readOf Field.text "" (look "name")) r

/-! ## Generic arguments -/

theorem ConstArg.record_eq (h : Plain ["expr", "value"] ms) {expr : String} {value : Option String}
    (hexpr : IsRead Field.text "" (lookup "expr" ms) expr)
    (hvalue : IsRead (fun _ => Field.optionalText) none (lookup "value" ms) value) (src : String) :
    record {} ConstArg.put (.object src ms) = some { expr, value } := by
  rw [← hexpr.readOf_eq, ← hvalue.readOf_eq]
  refine Json.record_eq ConstArg.put h (fun look =>
    { expr := readOf Field.text "" (look "expr")
      value := readOf (fun _ => Field.optionalText) none (look "value") }) ?_ ?_ src
  · intro r key v hkey
    simp at hkey
    simp [ConstArg.put, hkey]
  · intro f hf look v hlook hv
    simp only [List.mem_cons, List.not_mem_nil, or_false] at hf
    rcases hf with rfl | rfl
    · exact hexpr.map_eq hlook hv fun e =>
        ConstArg.mk e (readOf (fun _ => Field.optionalText) none (look "value"))
    · exact hvalue.map_eq hlook hv fun v => ConstArg.mk (readOf Field.text "" (look "expr")) v

theorem AngleArgs.record_eq (h : Plain ["args", "constraints", "bindings"] ms)
    {args constraints bindings : Option (List Json)}
    (hargs : IsRead (fun _ => Field.items) none (lookup "args" ms) args)
    (hconstraints : IsRead (fun _ => Field.items) none (lookup "constraints" ms) constraints)
    (hbindings : IsRead (fun _ => Field.items) none (lookup "bindings" ms) bindings)
    (src : String) :
    record {} AngleArgs.put (.object src ms) = some { args, constraints, bindings } := by
  rw [← hargs.readOf_eq, ← hconstraints.readOf_eq, ← hbindings.readOf_eq]
  let items := readOf (fun _ : Option (List Json) => Field.items) none
  refine Json.record_eq AngleArgs.put h (fun look =>
    { args := items (look "args")
      constraints := items (look "constraints")
      bindings := items (look "bindings") }) ?_ ?_ src
  · intro r key v hkey
    simp at hkey
    simp [AngleArgs.put, hkey]
  · intro f hf look v hlook hv
    simp only [List.mem_cons, List.not_mem_nil, or_false] at hf
    rcases hf with rfl | rfl | rfl
    · exact hargs.map_eq hlook hv fun js =>
        AngleArgs.mk js (items (look "constraints")) (items (look "bindings"))
    · exact hconstraints.map_eq hlook hv fun js =>
        AngleArgs.mk (items (look "args")) js (items (look "bindings"))
    · exact hbindings.map_eq hlook hv fun js =>
        AngleArgs.mk (items (look "args")) (items (look "constraints")) js

theorem Signature.record_eq (h : Plain ["inputs", "output"] ms) {inputs : Option (List Json)}
    (hinputs : IsRead (fun _ => Field.items) none (lookup "inputs" ms) inputs) (src : String) :
    record {} Signature.put (.object src ms) = some { inputs, output := lookup "output" ms } := by
  rw [← hinputs.readOf_eq]
  refine Json.record_eq Signature.put h (fun look =>
    { inputs := readOf (fun _ => Field.items) none (look "inputs"), output := look "output" })
      ?_ ?_ src
  · intro r key v hkey
    simp at hkey
    simp [Signature.put, hkey]
  · intro f hf look v hlook hv
    simp only [List.mem_cons, List.not_mem_nil, or_false] at hf
    rcases hf with rfl | rfl
    · exact hinputs.map_eq hlook hv fun js => Signature.mk js (look "output")
    · rfl

theorem GenericArgs.record_eq (h : Plain ["angle_bracketed", "parenthesized"] ms)
    {angle : Option AngleArgs} {parens : Option Signature}
    (hangle : IsRead (optionalRecord {} AngleArgs.put) none (lookup "angle_bracketed" ms) angle)
    (hparens : IsRead (optionalRecord {} Signature.put) none (lookup "parenthesized" ms) parens)
    (src : String) : record {} GenericArgs.put (.object src ms) = some { angle, parens } := by
  rw [← hangle.readOf_eq, ← hparens.readOf_eq]
  refine Json.record_eq GenericArgs.put h (fun look =>
    { angle := readOf (optionalRecord {} AngleArgs.put) none (look "angle_bracketed")
      parens := readOf (optionalRecord {} Signature.put) none (look "parenthesized") }) ?_ ?_ src
  · intro r key v hkey
    simp at hkey
    simp [GenericArgs.put, hkey]
  · intro f hf look v hlook hv
    simp only [List.mem_cons, List.not_mem_nil, or_false] at hf
    rcases hf with rfl | rfl
    · exact hangle.map_eq hlook hv fun a =>
        GenericArgs.mk a (readOf (optionalRecord {} Signature.put) none (look "parenthesized"))
    · exact hparens.map_eq hlook hv fun p =>
        GenericArgs.mk (readOf (optionalRecord {} AngleArgs.put) none (look "angle_bracketed")) p

/-! ## Shapes -/

theorem Pointer.record_eq_reference (h : Plain ["lifetime", "mutable", "is_mutable", "type"] ms)
    {lifetime : Option String} {a b : Bool}
    (hlifetime : IsRead (fun _ => Field.optionalText) none (lookup "lifetime" ms) lifetime)
    (ha : IsRead Field.flag false (lookup "mutable" ms) a)
    (hb : IsRead Field.flag false (lookup "is_mutable" ms) b) (src : String) :
    record {} (Pointer.put true) (.object src ms) =
      some { lifetime, isMutable := a, alsoMutable := b, target := lookup "type" ms } := by
  rw [← hlifetime.readOf_eq, ← ha.readOf_eq, ← hb.readOf_eq]
  let text := readOf (fun _ : Option String => Field.optionalText) none
  let flag := readOf Field.flag false
  refine Json.record_eq (Pointer.put true) h (fun look =>
    { lifetime := text (look "lifetime")
      isMutable := flag (look "mutable")
      alsoMutable := flag (look "is_mutable")
      target := look "type" }) ?_ ?_ src
  · intro r key v hkey
    simp at hkey
    simp [Pointer.put, hkey]
  · intro f hf look v hlook hv
    simp only [List.mem_cons, List.not_mem_nil, or_false] at hf
    rcases hf with rfl | rfl | rfl | rfl
    · exact hlifetime.map_eq hlook hv fun l =>
        Pointer.mk l (flag (look "mutable")) (flag (look "is_mutable")) (look "type")
    · exact ha.map_eq hlook hv fun b =>
        Pointer.mk (text (look "lifetime")) b (flag (look "is_mutable")) (look "type")
    · exact hb.map_eq hlook hv fun b =>
        Pointer.mk (text (look "lifetime")) (flag (look "mutable")) b (look "type")
    · rfl

/-- A raw pointer has no lifetime, and a member of that name is not looked at. -/
theorem Pointer.record_eq_rawPointer (h : Plain ["mutable", "is_mutable", "type"] ms) {a b : Bool}
    (ha : IsRead Field.flag false (lookup "mutable" ms) a)
    (hb : IsRead Field.flag false (lookup "is_mutable" ms) b) (src : String) :
    record {} (Pointer.put false) (.object src ms) =
      some { isMutable := a, alsoMutable := b, target := lookup "type" ms } := by
  rw [← ha.readOf_eq, ← hb.readOf_eq]
  let flag := readOf Field.flag false
  refine Json.record_eq (Pointer.put false) h (fun look =>
    { isMutable := flag (look "mutable")
      alsoMutable := flag (look "is_mutable")
      target := look "type" }) ?_ ?_ src
  · intro r key v hkey
    simp at hkey
    simp [Pointer.put, hkey]
  · intro f hf look v hlook hv
    simp only [List.mem_cons, List.not_mem_nil, or_false] at hf
    rcases hf with rfl | rfl | rfl
    · exact ha.map_eq hlook hv fun b => Pointer.mk none b (flag (look "is_mutable")) (look "type")
    · exact hb.map_eq hlook hv fun b => Pointer.mk none (flag (look "mutable")) b (look "type")
    · rfl

theorem ArrayShape.record_eq (h : Plain ["type", "len"] ms) (src : String) :
    record {} ArrayShape.put (.object src ms) =
      some { inner := lookup "type" ms, length := lookup "len" ms } := by
  refine Json.record_eq ArrayShape.put h
    (fun look => { inner := look "type", length := look "len" }) ?_ ?_ src
  · intro r key v hkey
    simp at hkey
    simp [ArrayShape.put, hkey]
  · intro f hf look v hlook hv
    simp only [List.mem_cons, List.not_mem_nil, or_false] at hf
    rcases hf with rfl | rfl
    · rfl
    · rfl

/-- The traits of a trait object as one reader. -/
def readTraits (old : List TraitRef) : Json → Option (List TraitRef)
  | .array _ js => putTraits old js
  | .null => some []
  | _ => none

theorem DynShape.put_traits (d : DynShape) (v : Json) :
    d.put "traits" v = (readTraits d.traits v).map fun traits => { d with traits } := by
  cases v with
  | null | bool | number | string | array | object =>
      rfl

theorem DynShape.record_eq (h : Plain ["traits", "lifetime"] ms) {traits : List TraitRef}
    {lifetime : Option String} (htraits : IsRead readTraits [] (lookup "traits" ms) traits)
    (hlifetime : IsRead (fun _ => Field.optionalText) none (lookup "lifetime" ms) lifetime)
    (src : String) :
    record {} DynShape.put (.object src ms) = some { traits, lifetime } := by
  rw [← htraits.readOf_eq, ← hlifetime.readOf_eq]
  refine Json.record_eq DynShape.put h (fun look =>
    { traits := readOf readTraits [] (look "traits")
      lifetime := readOf (fun _ => Field.optionalText) none (look "lifetime") }) ?_ ?_ src
  · intro r key v hkey
    simp at hkey
    simp [DynShape.put, hkey]
  · intro f hf look v hlook hv
    simp only [List.mem_cons, List.not_mem_nil, or_false] at hf
    rcases hf with rfl | rfl
    · rw [put_traits]
      exact htraits.map_eq hlook hv fun ts =>
        DynShape.mk ts (readOf (fun _ => Field.optionalText) none (look "lifetime"))
    · exact hlifetime.map_eq hlook hv fun l => DynShape.mk (readOf readTraits [] (look "traits")) l

theorem FunctionShape.record_eq (h : Plain ["sig", "decl", "inputs", "output"] ms)
    {sig decl : Option Signature} {inputs : Option (List Json)}
    (hsig : IsRead (optionalRecord {} Signature.put) none (lookup "sig" ms) sig)
    (hdecl : IsRead (optionalRecord {} Signature.put) none (lookup "decl" ms) decl)
    (hinputs : IsRead (fun _ => Field.items) none (lookup "inputs" ms) inputs) (src : String) :
    record {} FunctionShape.put (.object src ms) =
      some { sig, decl, plain := { inputs, output := lookup "output" ms } } := by
  rw [← hsig.readOf_eq, ← hdecl.readOf_eq, ← hinputs.readOf_eq]
  let signature := readOf (optionalRecord {} Signature.put) none
  let items := readOf (fun _ : Option (List Json) => Field.items) none
  refine Json.record_eq FunctionShape.put h (fun look =>
    { sig := signature (look "sig")
      decl := signature (look "decl")
      plain := { inputs := items (look "inputs"), output := look "output" } }) ?_ ?_ src
  · intro r key v hkey
    simp at hkey
    simp [FunctionShape.put, Signature.put, hkey]
  · intro f hf look v hlook hv
    simp only [List.mem_cons, List.not_mem_nil, or_false] at hf
    rcases hf with rfl | rfl | rfl | rfl
    · exact hsig.map_eq hlook hv fun s =>
        FunctionShape.mk s (signature (look "decl")) ⟨items (look "inputs"), look "output"⟩
    · exact hdecl.map_eq hlook hv fun s =>
        FunctionShape.mk (signature (look "sig")) s ⟨items (look "inputs"), look "output"⟩
    · -- the last two keys belong to the signature that is spelled among the members
      have hplain := hinputs.map_eq hlook hv fun js => Signature.mk js (look "output")
      exact congrArg
        (Option.map (FunctionShape.mk (signature (look "sig")) (signature (look "decl")))) hplain
    · rfl

end TypeExpr
end ApiPages
