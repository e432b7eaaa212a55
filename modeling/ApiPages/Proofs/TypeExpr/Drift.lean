import ApiPages.Proofs.Json.Completeness
import ApiPages.Proofs.Text.Blank
import ApiPages.Proofs.TypeExpr.Encoding
import ApiPages.Proofs.TypeExpr.Records

/-!
# Every encoding of a type is read as that type

The readers take what is nested in a value as an argument, so each of them is followed on its own:
if the nested readers are right about values of a bounded depth, it is right about one level more.
The induction on the fuel is then two lines.

* `Nested.Reads` is what the nested readers are assumed to do, one lemma a reader uses it;
* `reads_nested` closes the recursion;
* `ofText_encodes` says that the text of any encoding is read as the type it encodes.
-/

namespace ApiPages
namespace TypeExpr

open Json

/-! ## Types and their encodings -/

theorem Encodes.eq_object {t : TypeExpr} {j : Json} (h : Encodes t j) :
    ∃ src ms, j = .object src ms := by
  cases h with
  | _ =>
      exact ⟨_, _, rfl⟩

theorem EncodesPath.ne_absent {t : TypeExpr} {j : Json} (h : EncodesPath t j) : t ≠ .absent := by
  cases h with
  | mk =>
      nofun

/-- No encoding stands for a missing type.  Only a wrapper has to be looked through. -/
theorem Encodes.ne_absent {t : TypeExpr} {j : Json} (h : Encodes t j) : t ≠ .absent := by
  -- a wrapper is deeper than what it holds; `Encodes` is mutual, so the depth carries the induction
  have hall : ∀ n (j : Json), j.depth < n → Encodes t j → t ≠ .absent := by
    intro n
    induction n with
    | zero =>
        intro j hdepth
        omega
    | succ n ih =>
        intro j hdepth hj
        cases hj with
        | @wrapped _ src ms k hlookup hinner =>
            have hk : k.depth < (Json.object src ms).depth := depth_lt_of_lookup hlookup
            exact ih k (by omega) hinner
        | genericPath _ _ _ _ hpath | path _ _ hpath =>
            exact hpath.ne_absent
        | _ =>
            nofun
  exact hall (j.depth + 1) j (by omega) h

/-- The nested readers give back the types that are encoded less deep than the fuel. -/
structure Nested.Reads (sub : Nested) (fuel : Nat) : Prop where
  type : ∀ {t j}, Encodes t j → j.depth < fuel → sub.type j = t
  path : ∀ {t j}, EncodesPath t j → j.depth < fuel → sub.path (some j) = t
  null : 0 < fuel → sub.type .null = .absent

/-- A reader that is right about each item of a list is right about the list. -/
theorem map_eq_of_forall₂ {R : TypeExpr → Json → Prop} {read : Json → TypeExpr} {ts : List TypeExpr}
    {js : List Json} (h : List.Forall₂ R ts js) (hread : ∀ t, ∀ j ∈ js, R t j → read j = t) :
    js.map read = ts := by
  induction h with
  | nil =>
      rfl
  | @cons t j ts js hj _ ih =>
      have hfirst : read j = t := hread t j (List.mem_cons_self ..) hj
      have hrest := ih fun t k hk => hread t k (List.mem_cons_of_mem j hk)
      rw [List.map_cons, hfirst, hrest]

section Readers

variable {sub : Nested} {fuel : Nat}

theorem Nested.Reads.typeOrUnknown_eq (h : sub.Reads fuel) {t : TypeExpr} {j : Json}
    (ht : Encodes t j) (hdepth : j.depth < fuel) : sub.typeOrUnknown (some j) = t := by
  have hread : sub.type j = t := h.type ht hdepth
  have hne := ht.ne_absent
  -- the reader puts an unknown type in place of a missing one only
  simp only [Nested.typeOrUnknown, Nested.type?, hread]
  cases t with
  | absent =>
      exact absurd rfl hne
  | _ =>
      rfl

theorem Nested.Reads.output_eq (h : sub.Reads fuel) {t : TypeExpr} {key : String} (src : String)
    {ms : List (String × Json)} (ht : EncodesOutput (lookup key ms) t)
    (hdepth : (Json.object src ms).depth ≤ fuel) : sub.type? (lookup key ms) = t := by
  generalize ho : lookup key ms = o at ht
  cases ht with
  | missing hmissing =>
      rcases hmissing with rfl | rfl
      · rfl
      · have hpos : 0 < (Json.object src ms).depth := by
          simp only [Json.depth]
          omega
        exact h.null (by omega)
  | @type t j ht =>
      have hj : j.depth < (Json.object src ms).depth := depth_lt_of_lookup ho
      exact h.type ht (by omega)

/-! ## Names -/

theorem segmentName_eq {j : Json} {name : String} (h : IsSegment j name) :
    segmentName j = name := by
  cases h with
  | text =>
      rfl
  | @object src s name ms hplain hname =>
      have hrecord := record_single hplain (isRead_text hname) src
      have htext : Field.text "" (.object src ms) = none := rfl
      simp [segmentName, htext, hrecord]

theorem lastSegment_eq {before : List Json} {segment : Json} {name : String}
    (h : IsSegment segment name) :
    lastSegment (before ++ [segment]) = name := by
  simp [lastSegment, segmentName_eq h]

theorem pathName_eq {name : String} {n path : Option Json} (h : IsPathName n path name) :
    ∃ s, IsRead Field.text "" n s ∧ (if s.isEmpty then pathName path else s) = name := by
  cases h with
  | name hne =>
      exact ⟨name, rfl, by simp [hne]⟩
  | text hn =>
      exact ⟨"", hn.isRead, rfl⟩
  | segments hn hsegment =>
      exact ⟨"", hn.isRead, lastSegment_eq hsegment⟩
  | @object _ src list _ ms before segment hn hplain hlist hsegment =>
      refine ⟨"", hn.isRead, ?_⟩
      have hrecord := record_single hplain (isRead_items hlist) src
      have hname : pathName (some (.object src ms)) = lastSegment (before ++ [segment]) := by
        simp [pathName, hrecord]
      simp [hname, lastSegment_eq hsegment]

/-! ## Bounds and associated types -/

theorem ofBound_eq (h : sub.Reads fuel) {t : TypeExpr} {j : Json} (hj : EncodesBound t j)
    (hdepth : j.depth ≤ fuel) : ofBound sub j = t := by
  cases hj with
  | @trait t src s lifetime ms ts p hplain htrait hlifetime htplain hp hpath =>
      rcases hlifetime.isRead_optional with ⟨l, hl, -⟩
      have hrecord := TraitRef.record_eq htplain s
      have ht : IsRead (optionalRecord {} TraitRef.put) none (lookup "trait_bound" ms)
          (some { trait := some p }) := by
        rw [htrait]
        rw [hp] at hrecord
        exact isRead_record hrecord
      have hinner : (Json.object s ts).depth < (Json.object src ms).depth :=
        depth_lt_of_lookup htrait
      have hpdepth : p.depth < (Json.object s ts).depth := depth_lt_of_lookup hp
      have hread : sub.path (some p) = t := h.path hpath (by omega)
      simp [ofBound, Bound.record_eq hplain ht hl, hread]
  | @outlives src s lifetime ms hplain htrait houtlives hne =>
      have hl := isRead_optionalText houtlives
      simp [ofBound, Bound.record_eq hplain htrait.isRead_record hl, hne]

theorem ofTerm_eq (h : sub.Reads fuel) {t : TypeExpr} {j : Json} (hj : EncodesEquality (some j) t)
    (hdepth : j.depth < fuel) : ofTerm sub j = t := by
  cases hj with
  | type hnone ht =>
      simp only [ofTerm, hnone]
      exact h.typeOrUnknown_eq ht hdepth
  | @constant _ s e expr cs hconstant hplain hexpr hne =>
      have hrecord : expressionOf (.object s cs) = some expr :=
        record_single hplain (isRead_text hexpr) s
      simp [ofTerm, hconstant, hrecord, hne]

theorem ofBinding_eq (h : sub.Reads fuel) {t : TypeExpr} {j : Json} (hj : EncodesAssociation t j)
    (hdepth : j.depth ≤ fuel) : ofBinding sub j = t := by
  cases hj with
  | @mk name src n b equals bounds ms rs js hplain hname hne hbinding hrs hequals hjs hbounds
        hsome =>
      have hreadName := isRead_text hname
      rcases hjs.isRead with ⟨l, hl, hitems⟩
      have hread : IsRead (fun r => record r Restriction.put) {} (lookup "binding" ms)
          { equality := lookup "equality" rs, constraint := l } := by
        rw [hbinding]
        exact Restriction.record_eq hrs hl b
      have hinner : (Json.object b rs).depth < (Json.object src ms).depth :=
        depth_lt_of_lookup hbinding
      have hlist : js.map (ofBound sub) = bounds := by
        refine map_eq_of_forall₂ hbounds fun t k hk ht => ofBound_eq h ht ?_
        have hdeep : k.depth < (Json.object b rs).depth := hjs.depth_lt hk
        omega
      -- one of the two is there, and the reader keeps the association for that
      have hkept : ¬ (equals.isAbsent = true ∧ bounds = []) := by
        rintro ⟨habsent, hnil⟩
        rcases hsome with hequals | hbounds
        · cases equals with
          | absent =>
              exact hequals rfl
          | _ =>
              cases habsent
        · exact hbounds hnil
      cases he : lookup "equality" rs with
      | none =>
          rw [he] at hread hequals
          cases hequals
          simp [ofBinding, Association.record_eq hplain hreadName hread, hne, hitems, hlist, hkept]
      | some e =>
          rw [he] at hread hequals
          have hdeep : e.depth < (Json.object b rs).depth := depth_lt_of_lookup he
          have hterm : ofTerm sub e = equals := ofTerm_eq h hequals (by omega)
          simp [ofBinding, Association.record_eq hplain hreadName hread, hne, hitems, hlist,
            hterm, hkept]

/-! ## Generic arguments -/

theorem ofArgument_eq (h : sub.Reads fuel) {t : TypeExpr} {j : Json} (hj : EncodesArgument t j)
    (hdepth : j.depth ≤ fuel) : ofArgument sub j = t := by
  cases hj with
  | @type t src ms j htype ht =>
      have hdeep : j.depth < (Json.object src ms).depth := depth_lt_of_lookup htype
      have hread := h.typeOrUnknown_eq ht (by omega)
      simp [ofArgument, htype, hread]
  | lifetime htype hlifetime hne =>
      simp [ofArgument, htype, hlifetime, ofLifetime, Field.text, hne]
  | @expression src s e expr value ms cs htype hlifetime hconst hplain hexpr hne hvalue =>
      have hread := isRead_text hexpr
      rcases hvalue.isRead_optional with ⟨v, hv, -⟩
      simp [ofArgument, htype, hlifetime, hconst, ofConst, ConstArg.record_eq hplain hread hv, hne]
  | @value src s v value ms cs htype hlifetime hconst hplain hexpr hvalue hne =>
      have hread := isRead_optionalText hvalue
      simp [ofArgument, htype, hlifetime, hconst, ofConst,
        ConstArg.record_eq hplain hexpr.isRead hread, hne]
  | infer =>
      simp [ofArgument]
  | inferObject htype hlifetime hconst hinfer =>
      simp [ofArgument, htype, hlifetime, hconst, hinfer]

theorem withArguments_eq (h : sub.Reads fuel) {o : Option Json} {args : List TypeExpr}
    {parenthesized : Bool} {output : TypeExpr} (ho : EncodesArguments o args parenthesized output)
    (hdepth : ∀ j, o = some j → j.depth ≤ fuel) (name : String) :
    withArguments sub name o = .path name args parenthesized output := by
  cases ho with
  | missing hmissing =>
      rcases hmissing with rfl | rfl
      · rfl
      · rfl
  | @empty src gs hplain hangle hparens =>
      simp [withArguments, GenericArgs.record_eq hplain hangle.isRead_record hparens.isRead_record]
  | @angle args associations src s gs as xs cs bs hplain hparens hangle has hxs hcs hbs hargs
        hassociations =>
      have hall : (Json.object src gs).depth ≤ fuel := hdepth _ rfl
      have hinner : (Json.object s as).depth < (Json.object src gs).depth :=
        depth_lt_of_lookup hangle
      rcases hxs.isRead with ⟨lx, hlx, hitems⟩
      rcases hcs.isRead with ⟨lc, hlc, hconstraints⟩
      rcases hbs.isRead with ⟨lb, hlb, hbindings⟩
      have hread : IsRead (optionalRecord {} AngleArgs.put) none (lookup "angle_bracketed" gs)
          (some { args := lx, constraints := lc, bindings := lb }) := by
        rw [hangle]
        exact isRead_record (AngleArgs.record_eq has hlx hlc hlb s)
      have harguments : xs.map (ofArgument sub) = args := by
        refine map_eq_of_forall₂ hargs fun t k hk ht => ofArgument_eq h ht ?_
        have hdeep : k.depth < (Json.object s as).depth := hxs.depth_lt hk
        omega
      have hassoc : (cs ++ bs).map (ofBinding sub) = associations := by
        refine map_eq_of_forall₂ hassociations fun t k hk ht => ofBinding_eq h ht ?_
        rcases List.mem_append.1 hk with hk | hk
        · have hdeep : k.depth < (Json.object s as).depth := hcs.depth_lt hk
          omega
        · have hdeep : k.depth < (Json.object s as).depth := hbs.depth_lt hk
          omega
      simp only [withArguments, GenericArgs.record_eq hplain hread hparens.isRead_record, hitems,
        hconstraints, hbindings, harguments, hassoc]
  | @parenthesized _ _ src s gs ps xs hplain hangle hparens hps hxs hinputs houtput =>
      have hall : (Json.object src gs).depth ≤ fuel := hdepth _ rfl
      have hinner : (Json.object s ps).depth < (Json.object src gs).depth :=
        depth_lt_of_lookup hparens
      rcases hxs.isRead with ⟨l, hl, hitems⟩
      have hread : IsRead (optionalRecord {} Signature.put) none (lookup "parenthesized" gs)
          (some { inputs := l, output := lookup "output" ps }) := by
        rw [hparens]
        exact isRead_record (Signature.record_eq hps hl s)
      have hlist : xs.map (fun i => sub.typeOrUnknown (some i)) = args := by
        refine map_eq_of_forall₂ hinputs fun t k hk ht => h.typeOrUnknown_eq ht ?_
        have hdeep : k.depth < (Json.object s ps).depth := hxs.depth_lt hk
        omega
      have hresult : sub.type? (lookup "output" ps) = output := h.output_eq s houtput (by omega)
      simp only [withArguments, GenericArgs.record_eq hplain hangle.isRead_record hread, hitems,
        hlist, hresult]

theorem ofPath_eq (h : sub.Reads fuel) {t : TypeExpr} {j : Json} (hj : EncodesPath t j)
    (hdepth : j.depth ≤ fuel + 1) : ofPath sub (some j) = t := by
  cases hj with
  | @mk name src args parenthesized output ps hplain hname hne hargs =>
      rcases pathName_eq hname with ⟨s, hs, hchoice⟩
      have hdeep : ∀ k, lookup "args" ps = some k → k.depth ≤ fuel := by
        intro k hk
        have hlt : k.depth < (Json.object src ps).depth := depth_lt_of_lookup hk
        omega
      have hread := withArguments_eq h hargs hdeep name
      simp only [ofPath, PathShape.record_eq hplain hs, hchoice, hread]
      simp [hne]

/-! ## Shapes -/

theorem ofGeneric_name {name : String} (h : name ≠ "") (s : String) :
    ofGeneric sub (.string s name) = .primitive name := by
  simp [ofGeneric, Field.text, h]

theorem ofGeneric_object {gs : List (String × Json)} (h : Plain ["name", "resolved_path"] gs)
    {name s : String} (hname : IsText (lookup "name" gs) name)
    (hresolved : lookup "resolved_path" gs = none) (hne : name ≠ "") :
    ofGeneric sub (.object s gs) = .primitive name := by
  simp [ofGeneric, Field.text, GenericShape.record_eq h hname.isRead, hresolved, hne]

theorem ofGeneric_path {gs : List (String × Json)} (h : Plain ["name", "resolved_path"] gs)
    {name s : String} (hname : IsText (lookup "name" gs) name) {p : Json}
    (hresolved : lookup "resolved_path" gs = some p) :
    ofGeneric sub (.object s gs) = sub.path (some p) := by
  simp [ofGeneric, Field.text, GenericShape.record_eq h hname.isRead, hresolved]

theorem inputOf_eq (h : sub.Reads fuel) {t : TypeExpr} {j : Json} (hj : EncodesInput t j)
    (hdepth : j.depth < fuel) : (inputOf sub j).2 = t := by
  cases hj with
  | @named t src name k ht =>
      have hk : k.depth < (Json.array src [name, k]).depth := depth_lt_of_mem (by simp)
      exact h.typeOrUnknown_eq ht (by omega)
  | bare ht =>
      have hread := h.typeOrUnknown_eq ht hdepth
      rcases ht.eq_object with ⟨src, ms, rfl⟩
      exact hread

theorem inputs_eq (h : sub.Reads fuel) {inputs : List TypeExpr} {js : List Json} {key : String}
    (src : String) {ms : List (String × Json)} (hlist : IsList (lookup key ms) js)
    (hjs : List.Forall₂ EncodesInput inputs js) (hdepth : (Json.object src ms).depth ≤ fuel) :
    js.map (fun i => (inputOf sub i).2) = inputs := by
  refine map_eq_of_forall₂ hjs fun t k hk ht => inputOf_eq h ht ?_
  have hdeep : k.depth < (Json.object src ms).depth := hlist.depth_lt hk
  omega

/-- The signature that a function pointer is read from. -/
theorem exists_signature (h : sub.Reads fuel) {inputs : List TypeExpr} {output : TypeExpr}
    {src : String} {fs : List (String × Json)} (hfs : EncodesSignature inputs output fs)
    (hdepth : (Json.object src fs).depth ≤ fuel) :
    ∃ s, signature? (some (.object src fs)) = some s ∧
      (s.inputs.getD []).map (fun i => (inputOf sub i).2) = inputs ∧
      sub.type? s.output = output := by
  cases hfs with
  | @nested _ _ key other s _ ss js hkeys hplain hnested hother hinputs _ hss hjs hlist houtput =>
      rcases hjs.isRead with ⟨l, hl, hitems⟩
      rcases (IsList.missing hinputs).isRead with ⟨l', hl', -⟩
      have hrecord : IsRead (optionalRecord {} Signature.put) none (lookup key fs)
          (some { inputs := l, output := lookup "output" ss }) := by
        rw [hnested]
        exact isRead_record (Signature.record_eq hss hl s)
      have hinner : (Json.object s ss).depth < (Json.object src fs).depth :=
        depth_lt_of_lookup hnested
      refine ⟨{ inputs := l, output := lookup "output" ss }, ?_, ?_, ?_⟩
      · -- the two keys differ only in precedence, and the other one is missing
        rcases hkeys with ⟨rfl, rfl⟩ | ⟨rfl, rfl⟩
        · simp [signature?, FunctionShape.record_eq hplain hrecord hother.isRead_record hl']
        · simp [signature?, FunctionShape.record_eq hplain hother.isRead_record hrecord hl']
      · rw [hitems]
        exact inputs_eq h s hjs hlist (by omega)
      · exact h.output_eq s houtput (by omega)
  | @inline _ _ _ js hplain hsig hdecl hjs hlist houtput hsome =>
      rcases hjs.isRead with ⟨l, hl, hitems⟩
      -- without a signature under a key, inputs or an output make the object a function
      have hgiven : (l.isSome || (lookup "output" fs).isSome) = true := by
        rcases hsome with hsome | hsome
        · generalize lookup "inputs" fs = o at hjs hl hsome
          cases hjs with
          | missing hmissing =>
              exact absurd hmissing hsome
          | array =>
              rw [← Option.some.inj hl]
              rfl
        · cases ho : lookup "output" fs with
          | none =>
              exact absurd ho hsome
          | some =>
              simp
      refine ⟨{ inputs := l, output := lookup "output" fs }, ?_, ?_, ?_⟩
      · simp [signature?,
          FunctionShape.record_eq hplain hsig.isRead_record hdecl.isRead_record hl, hgiven]
      · rw [hitems]
        exact inputs_eq h src hjs hlist hdepth
      · exact h.output_eq src houtput hdepth

theorem ofFunctionPointer_eq (h : sub.Reads fuel) {inputs : List TypeExpr} {output : TypeExpr}
    {src : String} {fs : List (String × Json)} (hfs : EncodesSignature inputs output fs)
    (hdepth : (Json.object src fs).depth ≤ fuel) :
    ofFunctionPointer sub (.object src fs) = .functionPointer inputs output := by
  rcases exists_signature h hfs hdepth with ⟨s, hs, hinputs, houtput⟩
  simp only [ofFunctionPointer, hs, hinputs, houtput]

theorem ofTuple_array (h : sub.Reads fuel) {elems : List TypeExpr} {s : String} {js : List Json}
    (hjs : List.Forall₂ Encodes elems js) (hdepth : (Json.array s js).depth ≤ fuel) :
    ofTuple sub (.array s js) = .tuple elems := by
  have hlist : js.map (fun i => sub.typeOrUnknown (some i)) = elems := by
    refine map_eq_of_forall₂ hjs fun t k hk ht => h.typeOrUnknown_eq ht ?_
    have hdeep : k.depth < (Json.array s js).depth := depth_lt_of_mem hk
    omega
  simp only [ofTuple, hlist]

theorem ofTuple_single (h : sub.Reads fuel) {t : TypeExpr} {j : Json} (ht : Encodes t j)
    (hdepth : j.depth < fuel) : ofTuple sub j = .tuple [t] := by
  have hread := h.typeOrUnknown_eq ht hdepth
  rcases ht.eq_object with ⟨src, ms, rfl⟩
  simp only [ofTuple, hread]

theorem identifier?_eq {o : Option Json} {length : String} (h : IsLength o length) :
    (o.bind identifier?).getD "" = length := by
  cases h with
  | missing h =>
      rcases h with rfl | rfl
      · rfl
      · rfl
  | text | number =>
      rfl

theorem readTraits_eq {ts : List TypeExpr} {js : List Json} (h : List.Forall₂ EncodesTrait ts js)
    (src : String) :
    readTraits [] (.array src js) = some (js.map fun j => { trait := j.get? "trait" }) := by
  show putTraits [] js = _
  induction h with
  | nil =>
      rfl
  | @cons t j ts js hj _ ih =>
      cases hj with
      | @mk t src ms p hplain hp hpath =>
          have hrecord := TraitRef.record_eq hplain src
          have hget : (Json.object src ms).get? "trait" = lookup "trait" ms := rfl
          simp [putTraits, hrecord, ih, hget]

theorem ofDyn_eq (h : sub.Reads fuel) {bounds : List TypeExpr} {s list lifetime : String}
    {ds : List (String × Json)} {js : List Json} (hplain : Plain ["traits", "lifetime"] ds)
    (hlookup : lookup "traits" ds = some (.array list js))
    (hjs : List.Forall₂ EncodesTrait bounds js) (hne : bounds ≠ [])
    (hlifetime : IsText (lookup "lifetime" ds) lifetime)
    (hdepth : (Json.object s ds).depth ≤ fuel) :
    ofDyn sub (.object s ds) = .traitObject true bounds lifetime := by
  have htraits : IsRead readTraits [] (lookup "traits" ds)
      (js.map fun j => { trait := j.get? "trait" }) := by
    rw [hlookup]
    exact readTraits_eq hjs list
  rcases hlifetime.isRead_optional with ⟨l, hl, htext⟩
  have hinner : (Json.array list js).depth < (Json.object s ds).depth := depth_lt_of_lookup hlookup
  have hbounds : js.map (fun j => sub.path (j.get? "trait")) = bounds := by
    refine map_eq_of_forall₂ hjs fun t k hk ht => ?_
    have hdeep : k.depth < (Json.array list js).depth := depth_lt_of_mem hk
    cases ht with
    | @mk t src ts p _ hp hpath =>
        have hpdepth : p.depth < (Json.object src ts).depth := depth_lt_of_lookup hp
        have hget : (Json.object src ts).get? "trait" = some p := hp
        rw [hget]
        exact h.path hpath (by omega)
  have hsome : js ≠ [] := by
    rintro rfl
    cases hjs
    exact hne rfl
  simp [ofDyn, DynShape.record_eq hplain htraits hl, hsome, htext, Function.comp_def, hbounds]

theorem ofImpl_eq (h : sub.Reads fuel) {bounds : List TypeExpr} {s : String} {js : List Json}
    (hjs : List.Forall₂ EncodesBound bounds js) (hne : bounds ≠ [])
    (hdepth : (Json.array s js).depth ≤ fuel) :
    ofImpl sub (.array s js) = .traitObject false bounds "" := by
  have hbounds : js.map (ofBound sub) = bounds := by
    refine map_eq_of_forall₂ hjs fun t k hk ht => ofBound_eq h ht ?_
    have hdeep : k.depth < (Json.array s js).depth := depth_lt_of_mem hk
    omega
  cases hjs with
  | nil =>
      exact absurd rfl hne
  | cons =>
      simp only [ofImpl, hbounds]

/-- The only key that is present decides, whatever comes before it. -/
theorem findSome?_only (sub : Nested) {key : String} {read : Nested → Json → TypeExpr}
    {ms : List (String × Json)} {v : Json} (hkey : lookup key ms = some v)
    {l : List (String × (Nested → Json → TypeExpr))} (hmem : (key, read) ∈ l)
    (hnodup : (l.map Prod.fst).Nodup)
    (hothers : ∀ k ∈ l.map Prod.fst, k ≠ key → lookup k ms = none) :
    l.findSome? (fun (key, read) => (lookup key ms).map (read sub)) = some (read sub v) := by
  induction l with
  | nil =>
      cases hmem
  | cons x l ih =>
      rw [List.map_cons, List.nodup_cons] at hnodup
      rcases List.mem_cons.1 hmem with rfl | hmem
      · simp [hkey]
      · have hne : x.1 ≠ key := by
          rintro rfl
          exact hnodup.1 (List.mem_map.2 ⟨_, hmem, rfl⟩)
        have hnone : lookup x.1 ms = none := hothers x.1 (List.mem_cons_self ..) hne
        have hrest := ih hmem hnodup.2 fun k hk => hothers k (List.mem_cons_of_mem x.1 hk)
        simpa [hnone] using hrest

/-- An object with one type key is read by the shape of that key. -/
theorem ofValue_of_only {key src : String} (read : Nested → Json → TypeExpr)
    {ms : List (String × Json)} {v : Json} (h : Only key ms v) (hmem : (key, read) ∈ shapes) :
    ofValue sub (.object src ms) = read sub v := by
  have hkeys : ∀ k ∈ shapes.map Prod.fst, k ∈ typeKeys ∧ k ≠ "type" := by decide
  have hnodup : (shapes.map Prod.fst).Nodup := by decide
  have hkey := hkeys key (List.mem_map_of_mem hmem)
  have htype : lookup "type" ms = none := h.others "type" (by decide) hkey.2.symm
  have hfirst := findSome?_only sub h.value hmem hnodup fun k hk => h.others k (hkeys k hk).1
  simp only [ofValue, htype, ofShape, hfirst]

end Readers

/-! ## Types -/

theorem ofValue_unknown {sub : Nested} {src : String} {ms : List (String × Json)}
    (h : ∀ k ∈ typeKeys, lookup k ms = none) : ofValue sub (.object src ms) = .unknown src := by
  have htype : lookup "type" ms = none := h "type" (by decide)
  have hnone : (shapes.findSome? fun (key, read) => (lookup key ms).map (read sub)) = none := by
    rw [List.findSome?_eq_none_iff]
    intro x hx
    have hkeys : ∀ k ∈ shapes.map Prod.fst, k ∈ typeKeys := by decide
    simp [h x.1 (hkeys x.1 (List.mem_map_of_mem hx))]
  simp only [ofValue, htype, ofShape, hnone]
  rfl

/-- One level of reading, one case for each way to write a type. -/
theorem ofValue_eq {sub : Nested} {fuel : Nat} (h : sub.Reads fuel) {t : TypeExpr} {j : Json}
    (hj : Encodes t j) (hdepth : j.depth ≤ fuel) : ofValue sub j = t := by
  cases hj with
  | @wrapped t src ms k htype ht =>
      have hk : k.depth < (Json.object src ms).depth := depth_lt_of_lookup htype
      have hread : sub.type k = t := h.type ht (by omega)
      -- a wrapper is recognised by what it holds: only an object is looked through
      have hobject : k.isObject = true := by
        rcases ht.eq_object with ⟨src, ms, rfl⟩
        rfl
      simp [ofValue, htype, hobject, hread]
  | unknown hnone =>
      exact ofValue_unknown hnone
  | primitive honly hne =>
      rw [ofValue_of_only (fun _ => ofName) honly (by simp [shapes])]
      simp [ofName, Field.text, hne]
  | generic honly hne =>
      rw [ofValue_of_only ofGeneric honly (by simp [shapes])]
      exact ofGeneric_name hne _
  | genericName honly hplain hname hne hresolved =>
      rw [ofValue_of_only ofGeneric honly (by simp [shapes])]
      exact ofGeneric_object hplain (hname ▸ .text) hresolved hne
  | @genericPath t src s _ ms gs p honly hplain hname hresolved hpath =>
      rw [ofValue_of_only ofGeneric honly (by simp [shapes]), ofGeneric_path hplain hname hresolved]
      have hgs : (Json.object s gs).depth < (Json.object src ms).depth :=
        depth_lt_of_lookup honly.value
      have hp : p.depth < (Json.object s gs).depth := depth_lt_of_lookup hresolved
      exact h.path hpath (by omega)
  | infer honly =>
      exact ofValue_of_only (fun _ _ => .primitive "_") honly (by simp [shapes])
  | @path t key src ms p hkey honly hpath =>
      have hp : p.depth < (Json.object src ms).depth := depth_lt_of_lookup honly.value
      -- both keys have the same reader
      have hread : ofValue sub (.object src ms) = sub.path (some p) := by
        rcases hkey with rfl | rfl
        · exact ofValue_of_only (fun sub j => sub.path (some j)) honly (by simp [shapes])
        · exact ofValue_of_only (fun sub j => sub.path (some j)) honly (by simp [shapes])
      rw [hread]
      exact h.path hpath (by omega)
  | @reference _ src s _ a b ms ps k honly hplain hlifetime ha hb htarget ht =>
      have hps : (Json.object s ps).depth < (Json.object src ms).depth :=
        depth_lt_of_lookup honly.value
      have hk : k.depth < (Json.object s ps).depth := depth_lt_of_lookup htarget
      have hread := h.typeOrUnknown_eq ht (by omega)
      rcases hlifetime.isRead_optional with ⟨l, hl, htext⟩
      rw [ofValue_of_only ofReference honly (by simp [shapes])]
      simp only [ofReference, Pointer.record_eq_reference hplain hl ha.isRead hb.isRead, htext,
        htarget, hread]
  | @rawPointer _ src s a b ms ps k honly hplain ha hb htarget ht =>
      have hps : (Json.object s ps).depth < (Json.object src ms).depth :=
        depth_lt_of_lookup honly.value
      have hk : k.depth < (Json.object s ps).depth := depth_lt_of_lookup htarget
      have hread := h.typeOrUnknown_eq ht (by omega)
      rw [ofValue_of_only ofRawPointer honly (by simp [shapes])]
      simp only [ofRawPointer, Pointer.record_eq_rawPointer hplain ha.isRead hb.isRead,
        htarget, hread]
  | @functionPointer _ _ key src s ms fs hkey honly hfs =>
      have hdeep : (Json.object s fs).depth < (Json.object src ms).depth :=
        depth_lt_of_lookup honly.value
      have hread : ofValue sub (.object src ms) = ofFunctionPointer sub (.object s fs) := by
        rcases hkey with rfl | rfl
        · exact ofValue_of_only ofFunctionPointer honly (by simp [shapes])
        · exact ofValue_of_only ofFunctionPointer honly (by simp [shapes])
      rw [hread]
      exact ofFunctionPointer_eq h hfs (by omega)
  | @tuple _ src s ms js honly hjs =>
      have hdeep : (Json.array s js).depth < (Json.object src ms).depth :=
        depth_lt_of_lookup honly.value
      rw [ofValue_of_only ofTuple honly (by simp [shapes])]
      exact ofTuple_array h hjs (by omega)
  | unit honly =>
      exact ofValue_of_only ofTuple honly (by simp [shapes])
  | @single _ src ms k honly ht =>
      have hk : k.depth < (Json.object src ms).depth := depth_lt_of_lookup honly.value
      rw [ofValue_of_only ofTuple honly (by simp [shapes])]
      exact ofTuple_single h ht (by omega)
  | @slice _ src ms k honly ht =>
      have hk : k.depth < (Json.object src ms).depth := depth_lt_of_lookup honly.value
      have hread := h.type ht (by omega)
      rw [ofValue_of_only (fun sub j => .slice (sub.type j)) honly (by simp [shapes]), hread]
  | @array _ src s _ ms as k honly hplain htype ht hlength =>
      have has : (Json.object s as).depth < (Json.object src ms).depth :=
        depth_lt_of_lookup honly.value
      have hk : k.depth < (Json.object s as).depth := depth_lt_of_lookup htype
      have hread := h.typeOrUnknown_eq ht (by omega)
      rw [ofValue_of_only ofArray honly (by simp [shapes])]
      simp only [ofArray, ArrayShape.record_eq hplain, htype, hread, identifier?_eq hlength]
  | @dynTrait _ _ src s _ _ ms ds _ honly hplain htraits hjs hlifetime =>
      have hds : (Json.object s ds).depth < (Json.object src ms).depth :=
        depth_lt_of_lookup honly.value
      rw [ofValue_of_only ofDyn honly (by simp [shapes])]
      exact ofDyn_eq h hplain htraits hjs (List.cons_ne_nil _ _) hlifetime (by omega)
  | @implTrait _ _ src s ms js honly hjs =>
      have hdeep : (Json.array s js).depth < (Json.object src ms).depth :=
        depth_lt_of_lookup honly.value
      rw [ofValue_of_only ofImpl honly (by simp [shapes])]
      exact ofImpl_eq h hjs (List.cons_ne_nil _ _) (by omega)

theorem reads_nested (fuel : Nat) : (nested fuel).Reads fuel := by
  induction fuel with
  | zero =>
      constructor
      · intro t j _ hdepth
        omega
      · intro t j _ hdepth
        omega
      · intro hpos
        omega
  | succ fuel ih =>
      constructor
      · intro t j hj hdepth
        exact ofValue_eq ih hj (by omega)
      · intro t j hj hdepth
        exact ofPath_eq ih hj (by omega)
      · intro _
        rfl

theorem ofJson_encodes {t : TypeExpr} {j : Json} (h : Encodes t j) : ofJson j = t :=
  (reads_nested (j.depth + 1)).type h (by omega)

/-! ## Texts -/

/-- The text of an object begins and ends with its braces. -/
theorem braces_of_spells {src : String} {ms : List (String × Json)} {cs : List Char}
    (h : Spells (.object src ms) cs) : ∃ mid, cs = '\x7b' :: mid ++ ['\x7d'] := by
  cases h with
  | @emptyObject g hg =>
      exact ⟨g, rfl⟩
  | @object _ g cs hg hms =>
      exact ⟨g ++ cs, by simp⟩

/-- Blanks around the text of an encoding are dropped, and nothing else is. -/
theorem strip_spells {src : String} {ms : List (String × Json)} {before cs after : List Char}
    (h : Spells (.object src ms) cs) (hbefore : ∀ c ∈ before, Text.isBlank c = true)
    (hafter : ∀ c ∈ after, Text.isBlank c = true) :
    Text.strip (String.ofList (before ++ (cs ++ after))) = String.ofList cs := by
  have hopen : Text.isBlank '\x7b' = false := by decide
  have hclose : Text.isBlank '\x7d' = false := by decide
  rcases braces_of_spells h with ⟨mid, rfl⟩
  rw [Text.strip, String.toList_ofList, Text.trim_append_left hbefore]
  have hright := Text.trim_append_right hafter hopen (mid ++ ['\x7d'])
  have htext : '\x7b' :: mid ++ ['\x7d'] ++ after = '\x7b' :: (mid ++ ['\x7d']) ++ after := rfl
  rw [htext, hright]
  exact congrArg String.ofList (Text.trim_of_ends mid hopen hclose)

/-- Every text of every encoding of a type is read as that type. -/
theorem ofText_encodes {t : TypeExpr} {j : Json} {before cs after : List Char} (h : Encodes t j)
    (hj : Spells j cs) (hdepth : j.depth ≤ maxDepth) (hbefore : ∀ c ∈ before, Text.isBlank c = true)
    (hafter : ∀ c ∈ after, Text.isBlank c = true) :
    ofText (String.ofList (before ++ (cs ++ after))) = t := by
  rcases h.eq_object with ⟨src, ms, rfl⟩
  have hraw := strip_spells hj hbefore hafter
  have hparse : parse? (String.ofList cs) = some (.object src ms) := by
    have hempty : Gap [] := by simp [Gap]
    have hfull := parse?_spells hj hempty hempty hdepth
    rwa [List.nil_append, List.append_nil] at hfull
  -- a text with braces is not taken for a missing one
  have hsome : (String.ofList cs).isEmpty = false := by
    rcases braces_of_spells hj with ⟨mid, rfl⟩
    simp
  simp only [ofText, hraw, hsome, hparse, Bool.false_eq_true, if_false]
  exact ofJson_encodes h

/-- A mutable reference to a shape that is not recognised and has a wrapper. -/
theorem ofText_encodes_reference :
    ofText ("\t\x7b\"borrowed_ref\":\x7b\"is_mutable\":true," ++
        "\"type\": \x7b\"type\":\x7b\"pat\":null\x7d\x7d\x7d\x7d\n") =
      .reference "" true (.unknown "\x7b\"pat\":null\x7d") := by
  have hnone : Gap [] := by simp [Gap]
  have hspace : Gap [' '] := by simp [Gap, isGap]
  have hmember : ∀ (key : String) {gap cs : List Char} {j : Json},
      key.toList.all (fun c => 0x20 ≤ c.toNat && c != '"' && c != '\\') = true → Gap gap →
        Spells j cs →
        SpellsMember (key, j) ('"' :: key.toList ++ ['"'] ++ ':' :: (gap ++ cs)) := by
    intro key gap cs j hkey hgap hj
    have hspelled := SpellsMember.mk (quoted_self hkey) hnone hgap hj
    rwa [String.ofList_toList] at hspelled
  -- the values from the inside out, each with its text
  have hleaf := Spells.object hnone (.last (hmember "pat" (by decide) hnone .null) hnone)
  have hwrapper := Spells.object hnone (.last (hmember "type" (by decide) hnone hleaf) hnone)
  have hmutable := hmember "is_mutable" (by decide) hnone .isTrue
  have htype := hmember "type" (by decide) hspace hwrapper
  have htarget := Spells.object hnone (.cons hmutable hnone hnone (.last htype hnone))
  have htext := Spells.object hnone (.last (hmember "borrowed_ref" (by decide) hnone htarget) hnone)
  -- what the values encode does not depend on how they are spelled
  have hencodes : ∀ leaf wrapper target src, Encodes (.reference "" true (.unknown leaf))
      (.object src [("borrowed_ref", .object target [("is_mutable", .bool true),
        ("type", .object wrapper [("type", .object leaf [("pat", .null)])])])]) := by
    intro leaf wrapper target src
    have hunknown : Encodes (.unknown leaf) (.object leaf [("pat", .null)]) :=
      .unknown (by simp [typeKeys, lookup])
    have honly : Only "borrowed_ref" [("borrowed_ref", .object target [("is_mutable", .bool true),
        ("type", .object wrapper [("type", .object leaf [("pat", .null)])])])] _ :=
      ⟨rfl, by simp [typeKeys, lookup]⟩
    have hplain : ∀ j, Plain ["lifetime", "mutable", "is_mutable", "type"]
        [("is_mutable", .bool true), ("type", j)] := by
      intro j
      exact ⟨by simp, by simp; decide⟩
    exact .reference (a := false) (b := true) honly (hplain _) (.missing (.inl rfl))
      (.missing (.inl rfl))
      .bool rfl (.wrapped rfl hunknown)
  have hbefore : ∀ c ∈ ['\t'], Text.isBlank c = true := List.all_eq_true.1 (by decide)
  have hafter : ∀ c ∈ ['\n'], Text.isBlank c = true := List.all_eq_true.1 (by decide)
  have hread :=
    ofText_encodes (hencodes _ _ _ _) htext (by simp [Json.depth, depthOfMembers, maxDepth])
    hbefore hafter
  simpa using hread

end TypeExpr
end ApiPages
