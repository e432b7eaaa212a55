import ApiPages.Proofs.TypeExpr.Drift
import ApiPages.Proofs.TypeExpr.Placeholders
import ApiPages.Proofs.TypeExpr.Sources

/-!
# What is read is well formed

Whatever text a type is read from, its nodes have names where they need them, and a part that the
text leaves out is filled with an unknown type.  The readers take what is nested in a value as an
argument, so each of them is followed on its own, on the assumption that the nested ones are sound;
the knot is tied by an induction on the fuel.

* `WellNamed` and `Excused` say what is known of a single node, the latter where the filling is
  missing;
* `Nested.Sound` is what the nested readers are assumed to do with the parts of one value;
* `sound_nested` closes the recursion, and `ofText_wellNamed` and `ofText_filled` are about whole
  texts.
-/

namespace ApiPages
namespace TypeExpr

open Json (record IsPart)

/-! ## Nodes -/

/-- Names are not empty, only a parenthesized path has a result, an associated type is fixed or
restricted, and a trait object has bounds. -/
def WellNamed : TypeExpr → Prop
  | .primitive name => name ≠ ""
  | .path name _ parenthesized output => name ≠ "" ∧ (parenthesized = false → output = .absent)
  | .traitObject _ bounds _ => bounds ≠ []
  | .binding name equals bounds => name ≠ "" ∧ (equals ≠ .absent ∨ bounds ≠ [])
  | _ => True

/-- The types directly below a node other than its result. -/
def seats : TypeExpr → List TypeExpr
  | .path _ args _ _ => args
  | .functionPointer inputs _ => inputs
  | t => t.children

/-- The nodes without a type in one of their seats: a slice of nothing, and an associated type that
is restricted by bounds and not fixed. -/
inductive Excused (root : Json) : TypeExpr → Prop where
  | slice {j : Json} : IsPart j root → j.get? "slice" = some .null → Excused root (.slice .absent)
  | restricted {j : Json} {a : Association} {bounds : List TypeExpr} : IsPart j root →
      record {} Association.put j = some a → a.restriction.equality = none → .absent ∉ bounds →
      bounds ≠ [] → Excused root (.binding a.name .absent bounds)

/-- A node as it is read from a part of the value. -/
structure IsDecoded (root : Json) (u : TypeExpr) : Prop where
  named : WellNamed u
  seated : .absent ∉ u.seats ∨ Excused root u

/-- A type that is there, and whose nodes are as they are read. -/
structure Filled (root : Json) (t : TypeExpr) : Prop where
  present : t.isAbsent = false
  nodes : t.Everywhere (IsDecoded root)

section Filled

variable {root : Json}

theorem everywhere_absent : Everywhere (IsDecoded root) .absent :=
  everywhere_leaf rfl ⟨trivial, .inl (by simp [seats, children])⟩

theorem Filled.ne_absent {t : TypeExpr} (h : Filled root t) : t ≠ .absent := by
  rintro rfl
  cases h.present

theorem absent_not_mem {ts : List TypeExpr} (h : ∀ s ∈ ts, Filled root s) : .absent ∉ ts :=
  fun hmem => (h _ hmem).ne_absent rfl

/-- A node whose seats are all taken. -/
theorem Filled.node {t : TypeExpr} (ht : t.isAbsent = false) (hnamed : WellNamed t)
    (hseats : ∀ s ∈ t.seats, Filled root s)
    (hbelow : ∀ s ∈ t.children, s ∈ t.seats ∨ s.Everywhere (IsDecoded root)) : Filled root t := by
  refine ⟨ht, everywhere_iff.2 ⟨⟨hnamed, .inl (absent_not_mem hseats)⟩, fun s hs => ?_⟩⟩
  rcases hbelow s hs with hseat | hs
  · exact (hseats s hseat).nodes
  · exact hs

theorem filled_unknown (raw : String) : Filled root (.unknown raw) :=
  .node rfl trivial nofun nofun

theorem filled_primitive {name : String} (h : name ≠ "") : Filled root (.primitive name) :=
  .node rfl h nofun nofun

/-- What needs a name is unknown without it. -/
theorem filled_named {name : String} (raw : String) {t : TypeExpr} (h : name ≠ "" → Filled root t) :
    Filled root (if name.isEmpty then .unknown raw else t) := by
  split
  · exact filled_unknown raw
  · rename_i hname
    exact h (by simpa using hname)

theorem withTick_ne_empty {lifetime : String} (h : lifetime ≠ "") : withTick lifetime ≠ "" := by
  rw [withTick]
  split
  · exact h
  · simp

/-- Only the result of a path may be missing. -/
theorem filled_path {name : String} (hname : name ≠ "") {args : List TypeExpr}
    (hargs : ∀ s ∈ args, Filled root s) {parenthesized : Bool} {output : TypeExpr}
    (houtput : output.Everywhere (IsDecoded root))
    (hplain : parenthesized = false → output = .absent) :
    Filled root (.path name args parenthesized output) := by
  refine .node rfl ⟨hname, hplain⟩ hargs fun s hs => ?_
  rcases List.mem_append.1 hs with hs | hs
  · exact .inl hs
  · exact .inr (List.mem_singleton.1 hs ▸ houtput)

theorem filled_functionPointer {inputs : List TypeExpr} (hinputs : ∀ s ∈ inputs, Filled root s)
    {output : TypeExpr} (houtput : output.Everywhere (IsDecoded root)) :
    Filled root (.functionPointer inputs output) := by
  refine .node rfl trivial hinputs fun s hs => ?_
  rcases List.mem_append.1 hs with hs | hs
  · exact .inl hs
  · exact .inr (List.mem_singleton.1 hs ▸ houtput)

/-- A reader that is right about each item of a list is right about the list. -/
theorem filled_map {α : Type} {read : α → TypeExpr} {items : List α}
    (h : ∀ i ∈ items, Filled root (read i)) : ∀ s ∈ items.map read, Filled root s := by
  intro s hs
  rcases List.mem_map.1 hs with ⟨i, hi, rfl⟩
  exact h i hi

end Filled

/-! ## Nested readers -/

/-- What the nested readers make of the parts of a value.  Only `null` is read as an absent type,
and a path is always there. -/
structure Nested.Sound (sub : Nested) (root : Json) : Prop where
  type : ∀ {j}, IsPart j root → (sub.type j).Everywhere (IsDecoded root)
  null : ∀ {j}, IsPart j root → sub.type j = .absent → j = .null
  path : ∀ {o}, (∀ j, o = some j → IsPart j root) → Filled root (sub.path o)

section Readers

variable {sub : Nested} {root : Json}

theorem Nested.Sound.type? (h : sub.Sound root) {o : Option Json} (ho : ∀ j ∈ o, IsPart j root) :
    (sub.type? o).Everywhere (IsDecoded root) := by
  cases o with
  | none =>
      exact everywhere_absent
  | some j =>
      exact h.type (ho j rfl)

theorem Nested.Sound.typeOrUnknown (h : sub.Sound root) {o : Option Json}
    (ho : ∀ j ∈ o, IsPart j root) :
    Filled root (sub.typeOrUnknown o) := by
  have htype := h.type? ho
  rw [Nested.typeOrUnknown]
  -- only an absent type is replaced
  cases ht : sub.type? o with
  | absent =>
      exact filled_unknown _
  | _ =>
      rw [ht] at htype
      exact ⟨rfl, htype⟩

theorem Nested.Sound.typeOrUnknown_some (h : sub.Sound root) {j : Json} (hj : IsPart j root) :
    Filled root (sub.typeOrUnknown (some j)) :=
  h.typeOrUnknown fun _ hk => Option.some.inj hk ▸ hj

/-! ## Names -/

theorem filled_ofName (j : Json) : Filled root (ofName j) := by
  rw [ofName]
  split
  · exact filled_named _ filled_primitive
  · exact filled_unknown _

theorem filled_ofLifetime (j : Json) : Filled root (ofLifetime j) := by
  rw [ofLifetime]
  split
  · exact filled_named _ fun hname => filled_primitive (withTick_ne_empty hname)
  · exact filled_unknown _

theorem filled_ofConst (j c : Json) : Filled root (ofConst j c) := by
  rw [ofConst]
  split
  · exact filled_unknown _
  split
  · rename_i hexpr
    exact filled_primitive (by simpa using hexpr)
  split
  · exact filled_named _ filled_primitive
  · exact filled_unknown _

/-! ## Bounds and associated types -/

theorem filled_ofBound (h : sub.Sound root) {j : Json} (hj : IsPart j root) :
    Filled root (ofBound sub j) := by
  rw [ofBound]
  cases hb : record {} Bound.put j with
  | none =>
      exact filled_unknown _
  | some b =>
      have hdraws := Bound.draws.fresh rfl hb
      simp only
      cases ht : b.traitBound with
      | some t =>
          refine h.path fun p hp => (hdraws p ?_).trans hj
          simp [Bound.values, Json.valuesOf, TraitRef.values, ht, hp]
      | none =>
          simp only
          split
          · exact filled_named _ fun hname => filled_primitive (withTick_ne_empty hname)
          · exact filled_unknown _

theorem filled_ofTerm (h : sub.Sound root) {j : Json} (hj : IsPart j root) :
    Filled root (ofTerm sub j) := by
  rw [ofTerm]
  split
  · split
    · exact filled_named _ filled_primitive
    · exact filled_unknown _
  · exact h.typeOrUnknown_some hj

theorem filled_ofBinding (h : sub.Sound root) {j : Json} (hj : IsPart j root) :
    Filled root (ofBinding sub j) := by
  rw [ofBinding]
  cases ha : record {} Association.put j with
  | none =>
      exact filled_unknown _
  | some a =>
      have hdraws := Association.draws.fresh rfl ha
      have hbounds : ∀ s ∈ (a.restriction.constraint.getD []).map (ofBound sub), Filled root s :=
        filled_map fun k hk => filled_ofBound h
          ((hdraws k (List.mem_append_right _ hk)).trans hj)
      refine filled_named _ fun hname => ?_
      cases he : a.restriction.equality with
      | some e =>
          have hterm : Filled root (ofTerm sub e) := by
            refine filled_ofTerm h ((hdraws e ?_).trans hj)
            simp [Association.values, Restriction.values, he]
          simp only
          split
          · exact filled_unknown _
          · refine .node rfl ⟨hname, .inl hterm.ne_absent⟩ ?_ fun _ => .inl
            exact List.forall_mem_cons.2 ⟨hterm, hbounds⟩
      | none =>
          -- without an equality there are bounds, or nothing is known of the associated type
          simp only [isAbsent, Bool.true_and]
          split
          · exact filled_unknown _
          · rename_i hsome
            have hne : (a.restriction.constraint.getD []).map (ofBound sub) ≠ [] := by
              simpa using hsome
            refine ⟨rfl, everywhere_iff.2 ⟨⟨⟨hname, .inr hne⟩, .inr ?_⟩, fun s hs => ?_⟩⟩
            · exact .restricted hj ha he (absent_not_mem hbounds) hne
            · rcases List.mem_cons.1 hs with rfl | hs
              · exact everywhere_absent
              · exact (hbounds s hs).nodes

/-! ## Paths -/

theorem filled_ofArgument (h : sub.Sound root) {j : Json} (hj : IsPart j root) :
    Filled root (ofArgument sub j) := by
  cases j with
  | object src ms =>
      simp only [ofArgument]
      split
      · rename_i t ht
        exact h.typeOrUnknown_some ((Json.isPart_of_lookup ht src).trans hj)
      · exact filled_ofLifetime _
      · exact filled_ofConst _ _
      · exact filled_primitive (by simp)
      · exact filled_unknown _
  | string src s =>
      rw [ofArgument]
      split
      · exact filled_primitive (by simp)
      · exact filled_unknown _
  | null | bool | number | array =>
      exact filled_unknown _

theorem filled_withArguments (h : sub.Sound root) {name : String} (hname : name ≠ "")
    {o : Option Json} (ho : ∀ j ∈ o, IsPart j root) : Filled root (withArguments sub name o) := by
  have hbare : Filled root (.path name [] false .absent) :=
    filled_path hname (by simp) everywhere_absent fun _ => rfl
  rw [withArguments.eq_def]
  split
  · exact hbare
  · exact hbare
  · rename_i j _
    have hj : IsPart j root := ho j rfl
    cases hg : record {} GenericArgs.put j with
    | none =>
        refine filled_path hname (fun s hs => ?_) everywhere_absent fun _ => rfl
        exact List.mem_singleton.1 hs ▸ filled_unknown _
    | some g =>
        have hdraws := GenericArgs.draws.fresh rfl hg
        simp only
        -- inputs in parentheses take precedence over arguments between angle brackets
        cases hp : g.parens with
        | some p =>
            have hparens : ∀ v ∈ p.values, IsPart v root := fun v hv =>
              (hdraws v (by simp [GenericArgs.values, Json.valuesOf, hp, hv])).trans hj
            refine filled_path hname (filled_map fun i hi => ?_) (h.type? fun v hv => ?_) (by simp)
            · exact h.typeOrUnknown_some (hparens i (List.mem_append_left _ hi))
            · exact hparens v (List.mem_append_right _ (Option.mem_toList.2 hv))
        | none =>
            simp only
            cases ha : g.angle with
            | none =>
                exact hbare
            | some a =>
                have hangle : ∀ v ∈ a.values, IsPart v root := fun v hv =>
                  (hdraws v (by simp [GenericArgs.values, Json.valuesOf, ha, hv])).trans hj
                refine filled_path hname (fun s hs => ?_) everywhere_absent fun _ => rfl
                rcases List.mem_append.1 hs with hs | hs
                · refine filled_map (fun i hi => ?_) s hs
                  exact filled_ofArgument h (hangle i (List.mem_append_left _ hi))
                · refine filled_map (fun i hi => ?_) s hs
                  exact filled_ofBinding h (hangle i (List.mem_append_right _ hi))

theorem filled_ofPath (h : sub.Sound root) {o : Option Json}
    (ho : ∀ j, o = some j → IsPart j root) :
    Filled root (ofPath sub o) := by
  cases o with
  | none =>
      exact filled_unknown _
  | some j =>
      rw [ofPath]
      cases hp : record {} PathShape.put j with
      | none =>
          exact filled_unknown _
      | some p =>
          have hdraws := PathShape.draws.fresh rfl hp
          simp only
          generalize (if p.name.isEmpty then pathName p.path else p.name) = name
          refine filled_named _ fun hname => filled_withArguments h hname fun k hk => ?_
          exact (hdraws k (Option.mem_toList.2 hk)).trans (ho j rfl)

/-! ## Shapes -/

theorem filled_ofGeneric (h : sub.Sound root) {j : Json} (hj : IsPart j root) :
    Filled root (ofGeneric sub j) := by
  rw [ofGeneric]
  split
  · exact filled_named _ filled_primitive
  · cases hg : record {} GenericShape.put j with
    | none =>
        exact filled_unknown _
    | some g =>
        have hdraws := GenericShape.draws.fresh rfl hg
        simp only
        split
        · rename_i p hp
          refine h.path fun k hk => (hdraws k ?_).trans hj
          rw [← Option.some.inj hk]
          exact Option.mem_toList.2 hp
        · exact filled_named _ filled_primitive

/-- The type that a pointer points to. -/
theorem filled_target (h : sub.Sound root) {j : Json} (hj : IsPart j root) {hasLifetime : Bool}
    {p : Pointer} (hp : record {} (Pointer.put hasLifetime) j = some p) :
    Filled root (sub.typeOrUnknown p.target) := by
  refine h.typeOrUnknown fun k hk => ?_
  exact ((Pointer.draws hasLifetime).fresh rfl hp k (Option.mem_toList.2 hk)).trans hj

theorem filled_ofReference (h : sub.Sound root) {j : Json} (hj : IsPart j root) :
    Filled root (ofReference sub j) := by
  rw [ofReference]
  split
  · exact filled_unknown _
  · rename_i p hp
    exact .node rfl trivial (List.forall_mem_singleton.2 (filled_target h hj hp)) fun _ => .inl

theorem filled_ofRawPointer (h : sub.Sound root) {j : Json} (hj : IsPart j root) :
    Filled root (ofRawPointer sub j) := by
  rw [ofRawPointer]
  split
  · exact filled_unknown _
  · rename_i p hp
    exact .node rfl trivial (List.forall_mem_singleton.2 (filled_target h hj hp)) fun _ => .inl

theorem filled_inputOf (h : sub.Sound root) {j : Json} (hj : IsPart j root) :
    Filled root (inputOf sub j).2 := by
  rw [inputOf.eq_def]
  split
  · exact filled_unknown _
  · rename_i src name type
    have htype : type ∈ [name, type] := List.mem_cons_of_mem name (List.mem_cons_self ..)
    exact h.typeOrUnknown_some ((Json.isPart_of_mem htype src).trans hj)
  · exact filled_unknown _
  · exact h.typeOrUnknown_some hj

theorem filled_ofFunctionPointer (h : sub.Sound root) {j : Json} (hj : IsPart j root) :
    Filled root (ofFunctionPointer sub j) := by
  rw [ofFunctionPointer]
  split
  · exact filled_unknown _
  · rename_i s hs
    have hvalues : ∀ v ∈ s.values, IsPart v root :=
      fun v hv => (isPart_of_signature? hs v hv).trans hj
    refine filled_functionPointer (filled_map fun i hi => ?_) (h.type? fun v hv => ?_)
    · exact filled_inputOf h (hvalues i (List.mem_append_left _ hi))
    · exact hvalues v (List.mem_append_right _ (Option.mem_toList.2 hv))

theorem filled_ofTuple (h : sub.Sound root) {j : Json} (hj : IsPart j root) :
    Filled root (ofTuple sub j) := by
  rw [ofTuple.eq_def]
  split
  · refine .node rfl trivial (filled_map fun i hi => ?_) fun _ => .inl
    exact h.typeOrUnknown_some ((Json.isPart_of_mem hi _).trans hj)
  · exact .node rfl trivial (by simp [seats, children]) (by simp [children])
  · exact .node rfl trivial (List.forall_mem_singleton.2 (h.typeOrUnknown_some hj)) fun _ => .inl

theorem filled_ofArray (h : sub.Sound root) {j : Json} (hj : IsPart j root) :
    Filled root (ofArray sub j) := by
  rw [ofArray]
  split
  · exact filled_unknown _
  · rename_i a ha
    have hinner : Filled root (sub.typeOrUnknown a.inner) := h.typeOrUnknown fun k hk =>
      (ArrayShape.draws.fresh rfl ha k (Option.mem_toList.2 hk)).trans hj
    exact .node rfl trivial (List.forall_mem_singleton.2 hinner) fun _ => .inl

theorem filled_ofDyn (h : sub.Sound root) {j : Json} (hj : IsPart j root) :
    Filled root (ofDyn sub j) := by
  rw [ofDyn]
  split
  · exact filled_unknown _
  · rename_i d hd
    split
    · exact filled_unknown _
    · rename_i htraits
      refine .node rfl (show List.map _ _ ≠ [] by simpa using htraits) (filled_map fun t ht => ?_)
        fun _ => .inl
      refine h.path fun k hk => (DynShape.draws.fresh rfl hd k ?_).trans hj
      exact List.mem_flatMap.2 ⟨t, ht, Option.mem_toList.2 hk⟩

theorem filled_ofImpl (h : sub.Sound root) {j : Json} (hj : IsPart j root) :
    Filled root (ofImpl sub j) := by
  rw [ofImpl.eq_def]
  split
  · refine .node rfl (List.cons_ne_nil _ _) (filled_map fun b hb => ?_) fun _ => .inl
    exact filled_ofBound h ((Json.isPart_of_mem hb _).trans hj)
  · exact filled_unknown _

/-- The type of a slice is the only part of a shape that is not filled when it is missing. -/
theorem filled_slice (h : sub.Sound root) {src : String} {ms : List (String × Json)}
    (hj : IsPart (.object src ms) root) {v : Json} (hv : Json.lookup "slice" ms = some v) :
    Filled root (.slice (sub.type v)) := by
  have hpart : IsPart v root := (Json.isPart_of_lookup hv src).trans hj
  refine ⟨rfl, everywhere_iff.2 ⟨⟨trivial, ?_⟩, fun s hs => ?_⟩⟩
  · by_cases habsent : sub.type v = .absent
    · rw [habsent]
      rw [h.null hpart habsent] at hv
      exact .inr (.slice hj hv)
    · refine .inl fun hmem => habsent ?_
      exact (List.mem_singleton.1 hmem).symm
  · exact List.mem_singleton.1 hs ▸ h.type hpart

theorem filled_ofShape (h : sub.Sound root) {src : String} {ms : List (String × Json)}
    (hj : IsPart (.object src ms) root) : Filled root (ofShape sub (.object src ms) ms) := by
  -- each reader of the table is one of those above
  have hall : ∀ shape ∈ shapes, ∀ v, Json.lookup shape.1 ms = some v →
      Filled root (shape.2 sub v) := by
    have hpart : ∀ {key v}, Json.lookup key ms = some v → IsPart v root :=
      fun hv => (Json.isPart_of_lookup hv src).trans hj
    have hpath : ∀ {key v}, Json.lookup key ms = some v → Filled root (sub.path (some v)) :=
      fun hv => h.path fun _ hk => Option.some.inj hk ▸ hpart hv
    simp only [shapes, List.forall_mem_cons]
    refine ⟨?_, ?_, ?_, ?_, ?_, ?_, ?_, ?_, ?_, ?_, ?_, ?_, ?_, ?_, by simp⟩
    · exact fun v _ => filled_ofName v
    · exact fun v hv => filled_ofGeneric h (hpart hv)
    · exact fun v hv => hpath hv
    · exact fun v hv => hpath hv
    · exact fun v hv => filled_ofReference h (hpart hv)
    · exact fun v hv => filled_ofRawPointer h (hpart hv)
    · exact fun v hv => filled_ofFunctionPointer h (hpart hv)
    · exact fun v hv => filled_ofFunctionPointer h (hpart hv)
    · exact fun v hv => filled_ofTuple h (hpart hv)
    · exact fun v hv => filled_slice h hj hv
    · exact fun v hv => filled_ofArray h (hpart hv)
    · exact fun v hv => filled_ofDyn h (hpart hv)
    · exact fun v hv => filled_ofImpl h (hpart hv)
    · exact fun v _ => filled_primitive (by simp)
  rw [ofShape]
  split
  · rename_i t ht
    rcases List.exists_of_findSome?_eq_some ht with ⟨shape, hmem, hshape⟩
    rcases Option.map_eq_some_iff.1 hshape with ⟨v, hv, rfl⟩
    exact hall shape hmem v hv
  · exact filled_unknown _

/-! ## Types -/

/-- One level of a type: `null` is absent, and everything else is there. -/
theorem ofValue_sound (h : sub.Sound root) {j : Json} (hj : IsPart j root) :
    (ofValue sub j).Everywhere (IsDecoded root) ∧ (ofValue sub j = .absent → j = .null) := by
  have hfilled : ∀ {t : TypeExpr}, Filled root t →
      t.Everywhere (IsDecoded root) ∧ (t = .absent → j = .null) :=
    fun ht => ⟨ht.nodes, fun habsent => absurd habsent ht.ne_absent⟩
  cases j with
  | null =>
      exact ⟨everywhere_absent, fun _ => rfl⟩
  | object src ms =>
      rw [ofValue]
      split
      · rename_i inner hinner
        split
        · rename_i hobject
          have hpart : IsPart inner root := (Json.isPart_of_lookup hinner src).trans hj
          -- a wrapper holds an object, which is no `null`
          refine ⟨h.type hpart, fun habsent => ?_⟩
          rw [h.null hpart habsent] at hobject
          cases hobject
        · exact hfilled (filled_ofShape h hj)
      · exact hfilled (filled_ofShape h hj)
  | bool | number | string | array =>
      exact hfilled (filled_unknown _)

end Readers

theorem sound_nested (root : Json) (fuel : Nat) : (nested fuel).Sound root := by
  induction fuel with
  | zero =>
      refine ⟨fun _ => (filled_unknown _).nodes, fun _ habsent => ?_, fun _ => filled_unknown _⟩
      cases habsent
  | succ fuel ih =>
      exact ⟨fun hj => (ofValue_sound ih hj).1, fun hj => (ofValue_sound ih hj).2, filled_ofPath ih⟩

theorem ofJson_decoded (j : Json) : (ofJson j).Everywhere (IsDecoded j) :=
  (sound_nested j _).type (.root j)

/-- A position whose value is missing from the text is read as an unknown type. -/
theorem nested_missing (fuel : Nat) {o : Option Json} (h : Json.Missing o) :
    (nested (fuel + 1)).typeOrUnknown o = .unknown (sourceOf o) ∧
      (nested (fuel + 1)).path o = .unknown (sourceOf o) := by
  rcases h with rfl | rfl
  · exact ⟨rfl, rfl⟩
  · exact ⟨rfl, rfl⟩

/-! ## Texts -/

/-- A text is read as an absent type, kept as it is, or read as a value. -/
theorem everywhere_ofText {p : TypeExpr → Prop} {text : String} (habsent : p .absent)
    (hunknown : p (.unknown (Text.strip text)))
    (hjson : ∀ j, Json.parse? (Text.strip text) = some j → (ofJson j).Everywhere p) :
    (ofText text).Everywhere p := by
  simp only [ofText]
  split
  · exact everywhere_leaf rfl habsent
  split
  · rename_i j hj
    exact hjson j hj
  · exact everywhere_leaf rfl hunknown

theorem everywhere_wellNamed (text : String) : (ofText text).Everywhere WellNamed :=
  everywhere_ofText trivial trivial fun j _ => (ofJson_decoded j).mono fun _ hu => hu.named

theorem everywhere_wellNamed_input (text : String) : (inputOfText text).2.Everywhere WellNamed := by
  have hunknown : ∀ raw, (unknown raw).Everywhere WellNamed :=
    fun raw => everywhere_leaf rfl trivial
  rw [inputOfText]
  -- a pair, a list that is no pair, `null`, and any other text, which is the type itself
  split
  · exact (filled_inputOf (sound_nested _ _) (.root _)).nodes.mono fun _ hu => hu.named
  · exact hunknown text
  · exact hunknown text
  · have hnamed := everywhere_wellNamed text
    cases ht : ofText text with
    | absent =>
        exact hunknown _
    | _ =>
        rwa [ht] at hnamed

/-- A node that is well named is given up only if there is no type, or none that is recognised. -/
theorem gap?_of_wellNamed {u : TypeExpr} (h : WellNamed u) {g : Gap} (hg : gap? u = some g) :
    g = .absent ∨ ∃ raw, g = .unrecognised raw := by
  cases u with
  | absent =>
      exact .inl (Option.some.inj hg).symm
  | unknown raw =>
      exact .inr ⟨raw, (Option.some.inj hg).symm⟩
  | primitive name =>
      have hname : name ≠ "" := h
      simp [gap?, hname] at hg
  | path name args parenthesized output =>
      have hname : name ≠ "" := h.1
      simp [gap?, hname] at hg
  | traitObject isDyn bounds lifetime =>
      have hbounds : bounds ≠ [] := h
      simp [gap?, hbounds] at hg
  | binding name equals bounds =>
      rcases h with ⟨hname, hsome⟩
      -- a binding is given up when it neither fixes nor restricts its type
      have hkept : ¬ (equals.isAbsent = true ∧ bounds = []) := by
        rintro ⟨habsent, hnil⟩
        rcases hsome with hequals | hbounds
        · exact hequals (isAbsent_iff.1 habsent)
        · exact hbounds hnil
      simp [gap?, hname, hkept] at hg
  | reference | rawPointer | functionPointer | tuple | slice | array =>
      cases hg

theorem isNode_of_mem_reached {u t : TypeExpr} (h : u ∈ t.reached) : IsNode u t := by
  induction t using childwise with
  | step t ih =>
      rw [reached_eq] at h
      rcases List.mem_cons.1 h with rfl | h
      · exact .root _
      · rcases List.mem_flatMap.1 h with ⟨s, hs, hu⟩
        have hchild : s ∈ t.children := mem_children_of_mem_shown hs
        exact .step hchild (ih s hchild hu)

theorem log_of_wellNamed {t : TypeExpr} (h : t.Everywhere WellNamed) {r : Record} (hr : r ∈ t.log) :
    r = RustdocRun.gapRecord .absent ∨ ∃ raw, r = RustdocRun.gapRecord (.unrecognised raw) := by
  rw [log, notes_eq_filterMap] at hr
  rcases List.mem_map.1 hr with ⟨g, hg, rfl⟩
  rcases List.mem_filterMap.1 hg with ⟨u, hu, hgap⟩
  rcases gap?_of_wellNamed (h u (isNode_of_mem_reached hu)) hgap with rfl | ⟨raw, rfl⟩
  · exact .inl rfl
  · exact .inr ⟨raw, rfl⟩

/-- Whatever text a type or an input is read from, its nodes are well named, and so nothing is
logged of it but absent types and shapes that are not recognised. -/
theorem ofText_wellNamed (text : String) :
    (ofText text).Everywhere WellNamed ∧ (inputOfText text).2.Everywhere WellNamed ∧
      ∀ r ∈ (ofText text).log ++ (inputOfText text).2.log,
        r = RustdocRun.gapRecord .absent ∨ ∃ raw, r = RustdocRun.gapRecord (.unrecognised raw) := by
  have htype := everywhere_wellNamed text
  have hinput := everywhere_wellNamed_input text
  refine ⟨htype, hinput, fun r hr => ?_⟩
  rcases List.mem_append.1 hr with hr | hr
  · exact log_of_wellNamed htype hr
  · exact log_of_wellNamed hinput hr

/-- A slice of nothing. -/
theorem ofText_slice_null : ofText "\x7b\"slice\":null\x7d" = .slice .absent := by
  have hnone : Json.Gap [] := by simp [Json.Gap]
  have hblank : ∀ c ∈ ([] : List Char), Text.isBlank c = true := by simp
  have hkey : Json.Quoted "slice".toList ('"' :: "slice".toList ++ ['"']) :=
    Json.quoted_self (by decide)
  -- the text is spelled out once, for the stripping and for the parser
  have htext := Json.Spells.object hnone (.last (.mk hkey hnone hnone .null) hnone)
  have hstrip : Text.strip "\x7b\"slice\":null\x7d" = "\x7b\"slice\":null\x7d" := by
    simpa using strip_spells htext hblank hblank
  have hparse : Json.parse? "\x7b\"slice\":null\x7d" =
      some (.object "\x7b\"slice\":null\x7d" [("slice", .null)]) := by
    simpa using Json.parse?_spells htext hnone hnone (by decide)
  have hread : ofJson (.object "\x7b\"slice\":null\x7d" [("slice", .null)]) = .slice .absent := rfl
  simpa [ofText, hstrip, hparse] using hread

/-- The entry about the type of that slice. -/
theorem ofText_wellNamed_slice :
    RustdocRun.gapRecord .absent ∈ (ofText "\x7b\"slice\":null\x7d").log ∧
      (RustdocRun.gapRecord .absent = RustdocRun.gapRecord .absent ∨
        ∃ raw, RustdocRun.gapRecord .absent = RustdocRun.gapRecord (.unrecognised raw)) := by
  have hlog : RustdocRun.gapRecord .absent ∈ (ofText "\x7b\"slice\":null\x7d").log := by
    rw [ofText_slice_null]
    exact List.mem_singleton.2 rfl
  exact ⟨hlog, (ofText_wellNamed _).2.2 _ (List.mem_append_left _ hlog)⟩

/-- Whatever text a type is read from, the only seats without a type are that of a slice whose value
is `null`, and that of the type an associated type is not fixed to where it has bounds instead.  A
value that is missing is read as an unknown type. -/
theorem ofText_filled (text : String) :
    ((ofText text).Everywhere fun u =>
        .absent ∉ u.seats ∨ ∃ j, Json.parse? (Text.strip text) = some j ∧ Excused j u) ∧
      ∀ fuel o, Json.Missing o →
        (nested (fuel + 1)).typeOrUnknown o = .unknown (sourceOf o) ∧
          (nested (fuel + 1)).path o = .unknown (sourceOf o) := by
  refine ⟨?_, fun fuel o ho => nested_missing fuel ho⟩
  refine everywhere_ofText
    (.inl (by simp [seats, children])) (.inl (by simp [seats, children])) fun j hj => ?_
  exact (ofJson_decoded j).mono fun u hu => hu.seated.imp_right fun hexcused => ⟨j, hj, hexcused⟩

/-- A reference to nothing refers to an unknown type. -/
theorem ofText_filled_null :
    Json.Missing (some .null) ∧ (nested 1).typeOrUnknown (some .null) = .unknown "null" :=
  ⟨.inr rfl, ((ofText_filled "\x7b\"slice\":null\x7d").2 0 _ (.inr rfl)).1⟩

/-- A slice of nothing is no slice of an unknown type. -/
theorem ofText_slice_unfilled :
    ¬ ∀ text, (ofText text).Everywhere fun u =>
      .absent ∈ u.seats → ∃ name bounds, u = .binding name .absent bounds := by
  intro h
  have hself := (h "\x7b\"slice\":null\x7d").self
  rw [ofText_slice_null] at hself
  rcases hself (List.mem_singleton.2 rfl) with ⟨name, bounds, heq⟩
  cases heq

end TypeExpr
end ApiPages
