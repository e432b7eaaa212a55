import ApiPages.Proofs.Json.Parts
import ApiPages.TypeExpr.Decode
import Mathlib.Tactic.Tauto

/-!
# Where nested types come from

The records behind the shapes of types hold values that are read later.  One lemma a record:
whatever a member puts into it is inside of that member, and so the nested types are read from parts
of the value that the record is read from.
-/

namespace ApiPages
namespace TypeExpr

open Json (Draws IsPart valuesOf isPart_of_items)

/-! ## Paths and parameters -/

def PathShape.values (p : PathShape) : List Json :=
  p.args.toList

theorem PathShape.draws : Draws values put := by
  intro p key v p' h w hw
  rw [put] at h
  split at h
  · rcases Option.map_eq_some_iff.1 h with ⟨n, -, rfl⟩
    exact .inl hw
  split at h
  · rw [← Option.some.inj h] at hw
    exact .inl hw
  split at h
  · rw [← Option.some.inj h] at hw
    exact .inr (List.mem_singleton.1 hw ▸ .root v)
  · rw [← Option.some.inj h] at hw
    exact .inl hw

def GenericShape.values (g : GenericShape) : List Json :=
  g.resolved.toList

theorem GenericShape.draws : Draws values put := by
  intro g key v g' h w hw
  rw [put] at h
  split at h
  · rcases Option.map_eq_some_iff.1 h with ⟨n, -, rfl⟩
    exact .inl hw
  split at h
  · rw [← Option.some.inj h] at hw
    exact .inr (List.mem_singleton.1 hw ▸ .root v)
  · rw [← Option.some.inj h] at hw
    exact .inl hw

/-! ## Bounds and associated types -/

def TraitRef.values (t : TraitRef) : List Json :=
  t.trait.toList

theorem TraitRef.draws : Draws values put := by
  intro t key v t' h w hw
  rw [put] at h
  split at h
  · rw [← Option.some.inj h] at hw
    exact .inr (List.mem_singleton.1 hw ▸ .root v)
  · rw [← Option.some.inj h] at hw
    exact .inl hw

def Bound.values (b : Bound) : List Json :=
  valuesOf TraitRef.values b.traitBound

theorem Bound.draws : Draws values put := by
  intro b key v b' h w hw
  rw [put] at h
  split at h
  · rcases Option.map_eq_some_iff.1 h with ⟨t, ht, rfl⟩
    exact TraitRef.draws.optional rfl ht w hw
  split at h
  · rcases Option.map_eq_some_iff.1 h with ⟨l, -, rfl⟩
    exact .inl hw
  · rw [← Option.some.inj h] at hw
    exact .inl hw

def Restriction.values (r : Restriction) : List Json :=
  r.equality.toList ++ r.constraint.getD []

theorem Restriction.draws : Draws values put := by
  intro r key v r' h w hw
  rw [put] at h
  split at h
  · rw [← Option.some.inj h] at hw
    rcases List.mem_append.1 hw with hw | hw
    · exact .inr (List.mem_singleton.1 hw ▸ .root v)
    · exact .inl (List.mem_append_right _ hw)
  split at h
  · rcases Option.map_eq_some_iff.1 h with ⟨js, hjs, rfl⟩
    rcases List.mem_append.1 hw with hw | hw
    · exact .inl (List.mem_append_left _ hw)
    · exact .inr (isPart_of_items hjs w hw)
  · rw [← Option.some.inj h] at hw
    exact .inl hw

def Association.values (a : Association) : List Json :=
  a.restriction.values

theorem Association.draws : Draws values put := by
  intro a key v a' h w hw
  rw [put] at h
  split at h
  · rcases Option.map_eq_some_iff.1 h with ⟨n, -, rfl⟩
    exact .inl hw
  split at h
  · rcases Option.map_eq_some_iff.1 h with ⟨r, hr, rfl⟩
    exact Restriction.draws.record hr w hw
  · rw [← Option.some.inj h] at hw
    exact .inl hw

/-! ## Arguments and signatures -/

def AngleArgs.values (a : AngleArgs) : List Json :=
  a.args.getD [] ++ (a.constraints.getD [] ++ a.bindings.getD [])

theorem AngleArgs.draws : Draws values put := by
  intro a key v a' h w hw
  rw [put] at h
  -- each of the three lists is replaced by items of the member
  split at h
  · rcases Option.map_eq_some_iff.1 h with ⟨js, hjs, rfl⟩
    have hitem := isPart_of_items hjs w
    simp only [values, List.mem_append] at hw ⊢
    tauto
  split at h
  · rcases Option.map_eq_some_iff.1 h with ⟨js, hjs, rfl⟩
    have hitem := isPart_of_items hjs w
    simp only [values, List.mem_append] at hw ⊢
    tauto
  split at h
  · rcases Option.map_eq_some_iff.1 h with ⟨js, hjs, rfl⟩
    have hitem := isPart_of_items hjs w
    simp only [values, List.mem_append] at hw ⊢
    tauto
  · rw [← Option.some.inj h] at hw
    exact .inl hw

def Signature.values (s : Signature) : List Json :=
  s.inputs.getD [] ++ s.output.toList

theorem Signature.draws : Draws values put := by
  intro s key v s' h w hw
  rw [put] at h
  split at h
  · rcases Option.map_eq_some_iff.1 h with ⟨js, hjs, rfl⟩
    rcases List.mem_append.1 hw with hw | hw
    · exact .inr (isPart_of_items hjs w hw)
    · exact .inl (List.mem_append_right _ hw)
  split at h
  · rw [← Option.some.inj h] at hw
    rcases List.mem_append.1 hw with hw | hw
    · exact .inl (List.mem_append_left _ hw)
    · exact .inr (List.mem_singleton.1 hw ▸ .root v)
  · rw [← Option.some.inj h] at hw
    exact .inl hw

def GenericArgs.values (g : GenericArgs) : List Json :=
  valuesOf AngleArgs.values g.angle ++ valuesOf Signature.values g.parens

theorem GenericArgs.draws : Draws values put := by
  intro g key v g' h w hw
  rw [put] at h
  split at h
  · rcases Option.map_eq_some_iff.1 h with ⟨a, ha, rfl⟩
    have hangle := AngleArgs.draws.optional rfl ha w
    simp only [values, List.mem_append] at hw ⊢
    tauto
  split at h
  · rcases Option.map_eq_some_iff.1 h with ⟨p, hp, rfl⟩
    have hparens := Signature.draws.optional rfl hp w
    simp only [values, List.mem_append] at hw ⊢
    tauto
  · rw [← Option.some.inj h] at hw
    exact .inl hw

def FunctionShape.values (f : FunctionShape) : List Json :=
  valuesOf Signature.values f.sig ++ (valuesOf Signature.values f.decl ++ f.plain.values)

theorem FunctionShape.draws : Draws values put := by
  intro f key v f' h w hw
  rw [put] at h
  split at h
  · rcases Option.map_eq_some_iff.1 h with ⟨s, hs, rfl⟩
    have hsig := Signature.draws.optional rfl hs w
    simp only [values, List.mem_append] at hw ⊢
    tauto
  split at h
  · rcases Option.map_eq_some_iff.1 h with ⟨s, hs, rfl⟩
    have hdecl := Signature.draws.optional rfl hs w
    simp only [values, List.mem_append] at hw ⊢
    tauto
  · rcases Option.map_eq_some_iff.1 h with ⟨s, hs, rfl⟩
    have hplain := Signature.draws hs w
    simp only [values, List.mem_append] at hw ⊢
    tauto

/-- Whichever signature is chosen, its values come from the value it is read from. -/
theorem isPart_of_signature? {j : Json} {s : Signature} (h : signature? (some j) = some s) :
    ∀ w ∈ s.values, IsPart w j := by
  intro w hw
  rw [signature?, Option.bind_some] at h
  cases hf : Json.record {} FunctionShape.put j with
  | none =>
      rw [hf] at h
      cases h
  | some f =>
      have hfresh := FunctionShape.draws.fresh rfl hf w
      simp only [FunctionShape.values, List.mem_append] at hfresh
      simp only [hf] at h
      -- the two keys come first, then what is spelled inline
      cases hsig : f.sig with
      | some sig =>
          simp only [hsig, Option.some.injEq] at h
          subst h
          exact hfresh (.inl (hsig ▸ hw))
      | none =>
          cases hdecl : f.decl with
          | some decl =>
              simp only [hsig, hdecl, Option.some.injEq] at h
              subst h
              exact hfresh (.inr (.inl (hdecl ▸ hw)))
          | none =>
              simp only [hsig, hdecl] at h
              split at h
              · rw [Option.some.inj h] at hfresh
                exact hfresh (.inr (.inr hw))
              · cases h

/-! ## Pointers, arrays and trait objects -/

def Pointer.values (p : Pointer) : List Json :=
  p.target.toList

theorem Pointer.draws (hasLifetime : Bool) : Draws values (put hasLifetime) := by
  intro p key v p' h w hw
  rw [put] at h
  split at h
  · rcases Option.map_eq_some_iff.1 h with ⟨l, -, rfl⟩
    exact .inl hw
  split at h
  · rcases Option.map_eq_some_iff.1 h with ⟨b, -, rfl⟩
    exact .inl hw
  split at h
  · rcases Option.map_eq_some_iff.1 h with ⟨b, -, rfl⟩
    exact .inl hw
  split at h
  · rw [← Option.some.inj h] at hw
    exact .inr (List.mem_singleton.1 hw ▸ .root v)
  · rw [← Option.some.inj h] at hw
    exact .inl hw

def ArrayShape.values (a : ArrayShape) : List Json :=
  a.inner.toList

theorem ArrayShape.draws : Draws values put := by
  intro a key v a' h w hw
  rw [put] at h
  split at h
  · rw [← Option.some.inj h] at hw
    exact .inr (List.mem_singleton.1 hw ▸ .root v)
  split at h
  · rw [← Option.some.inj h] at hw
    exact .inl hw
  · rw [← Option.some.inj h] at hw
    exact .inl hw

theorem isPart_of_putTraits {old ts : List TraitRef} {js : List Json}
    (h : putTraits old js = some ts) :
    ∀ w ∈ ts.flatMap TraitRef.values, w ∈ old.flatMap TraitRef.values ∨ ∃ j ∈ js, IsPart w j := by
  induction js generalizing old ts with
  | nil =>
      rw [← Option.some.inj h]
      nofun
  | cons j js ih =>
      intro w hw
      rcases Option.bind_eq_some_iff.1 h with ⟨t, ht, hrest⟩
      rcases Option.bind_eq_some_iff.1 hrest with ⟨ts', hts, heq⟩
      rw [← Option.some.inj heq, List.flatMap_cons, List.mem_append] at hw
      rcases hw with hw | hw
      · -- the first trait is read on top of the first one that was there
        rcases TraitRef.draws.record ht w hw with hw | hw
        · cases old with
          | nil =>
              cases hw
          | cons t₀ old =>
              exact .inl (List.mem_append_left _ hw)
        · exact .inr ⟨j, List.mem_cons_self .., hw⟩
      · rcases ih hts w hw with hw | ⟨k, hk, hw⟩
        · cases old with
          | nil =>
              cases hw
          | cons t₀ old =>
              exact .inl (List.mem_append_right _ hw)
        · exact .inr ⟨k, List.mem_cons_of_mem j hk, hw⟩

def DynShape.values (d : DynShape) : List Json :=
  d.traits.flatMap TraitRef.values

theorem DynShape.draws : Draws values put := by
  intro d key v d' h w hw
  simp only [put] at h
  split at h
  · cases v with
    | array src js =>
        rcases Option.map_eq_some_iff.1 h with ⟨traits, htraits, rfl⟩
        rcases isPart_of_putTraits htraits w hw with hw | ⟨j, hj, hw⟩
        · exact .inl hw
        · exact .inr (.item hj hw)
    | null =>
        rw [← Option.some.inj h] at hw
        cases hw
    | bool | number | string | object =>
        cases h
  split at h
  · rcases Option.map_eq_some_iff.1 h with ⟨l, -, rfl⟩
    exact .inl hw
  · rw [← Option.some.inj h] at hw
    exact .inl hw

end TypeExpr
end ApiPages
