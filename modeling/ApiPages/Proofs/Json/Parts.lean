import ApiPages.Proofs.Json.Fields

/-!
# The values inside of a value

What a record is read into holds values that are read later, and all of them come from the text:
they are inside of the value the record was read from.

* `IsPart v j` says that `v` is somewhere inside of `j`, or `j` itself;
* `Draws values put` says that reading a member brings nothing into the record but parts of that
  member, and `Draws.record`, `Draws.optional` carry this to whole records.
-/

namespace ApiPages
namespace Json

/-! ## Parts -/

/-- A value inside of another, itself included. -/
inductive IsPart : Json → Json → Prop where
  | root (j : Json) : IsPart j j
  | item {v j : Json} {src : String} {items : List Json} : j ∈ items → IsPart v j →
      IsPart v (.array src items)
  | member {v : Json} {src : String} {ms : List (String × Json)} {m : String × Json} : m ∈ ms →
      IsPart v m.2 → IsPart v (.object src ms)

theorem IsPart.trans {u v j : Json} (huv : IsPart u v) (hvj : IsPart v j) : IsPart u j := by
  induction hvj with
  | root =>
      exact huv
  | item hmem _ ih =>
      exact .item hmem ih
  | member hmem _ ih =>
      exact .member hmem ih

theorem isPart_of_mem {v : Json} {items : List Json} (h : v ∈ items) (src : String) :
    IsPart v (.array src items) :=
  .item h (.root v)

theorem isPart_of_lookup {key : String} {ms : List (String × Json)} {v : Json}
    (h : lookup key ms = some v) (src : String) : IsPart v (.object src ms) :=
  .member (mem_of_lookup h) (.root v)

/-! ## What a record holds -/

section Draws

variable {α : Type} {values : α → List Json} {put : α → String → Json → Option α} {initial : α}

/-- A member puts nothing into the record but what is inside of the member. -/
def Draws (values : α → List Json) (put : α → String → Json → Option α) : Prop :=
  ∀ ⦃r : α⦄ ⦃key : String⦄ ⦃v : Json⦄ ⦃r' : α⦄, put r key v = some r' →
    ∀ w ∈ values r', w ∈ values r ∨ IsPart w v

/-- The values of a record come from what it was read from, or were there before. -/
theorem Draws.record (h : Draws values put) {j : Json} {r : α}
    (hr : Json.record initial put j = some r) :
    ∀ w ∈ values r, w ∈ values initial ∨ IsPart w j := by
  cases j with
  | null =>
      rw [← Option.some.inj hr]
      exact fun w hw => .inl hw
  | object src ms =>
      -- the members before have put in what is inside of them
      have hfold : ∀ rest : List (String × Json), (∀ m ∈ rest, m ∈ ms) → ∀ r₀,
          rest.foldlM (fun r m => put r m.1 m.2) r₀ = some r →
            ∀ w ∈ values r, w ∈ values r₀ ∨ IsPart w (.object src ms) := by
        intro rest
        induction rest with
        | nil =>
            intro _ r₀ hr₀ w hw
            rw [List.foldlM_nil] at hr₀
            exact .inl (Option.some.inj hr₀ ▸ hw)
        | cons m rest ih =>
            intro hrest r₀ hr₀ w hw
            rw [List.foldlM_cons] at hr₀
            rcases Option.bind_eq_some_iff.1 hr₀ with ⟨r₁, hput, hafter⟩
            rcases ih (fun x hx => hrest x (List.mem_cons_of_mem m hx)) r₁ hafter w hw with hw | hw
            · rcases h hput w hw with hw | hw
              · exact .inl hw
              · exact .inr (.member (hrest m (List.mem_cons_self ..)) hw)
            · exact .inr hw
      exact hfold ms (fun m hm => hm) initial hr
  | bool | number | string | array =>
      cases hr

/-- The values of a record that may be missing. -/
def valuesOf (values : α → List Json) (o : Option α) : List Json :=
  o.elim [] values

theorem Draws.optional (h : Draws values put) (hinitial : values initial = []) {old new : Option α}
    {v : Json} (hnew : optionalRecord initial put old v = some new) :
    ∀ w ∈ valuesOf values new, w ∈ valuesOf values old ∨ IsPart w v := by
  have hstart : values (old.getD initial) = valuesOf values old := by
    cases old with
    | none =>
        exact hinitial
    | some r =>
        rfl
  cases v with
  | null =>
      rw [← Option.some.inj hnew]
      nofun
  | bool | number | string | array =>
      cases hnew
  | object src ms =>
      rcases Option.map_eq_some_iff.1 hnew with ⟨r, hr, rfl⟩
      intro w hw
      rw [← hstart]
      exact h.record hr w hw

/-- A record that is read from nothing before it. -/
theorem Draws.fresh (h : Draws values put) (hinitial : values initial = []) {j : Json} {r : α}
    (hr : Json.record initial put j = some r) : ∀ w ∈ values r, IsPart w j := by
  intro w hw
  rcases h.record hr w hw with hw | hw
  · rw [hinitial] at hw
    cases hw
  · exact hw

theorem isPart_of_items {v : Json} {js : Option (List Json)} (h : Field.items v = some js) :
    ∀ w ∈ js.getD [], IsPart w v := by
  cases v with
  | null =>
      rw [← Option.some.inj h]
      nofun
  | array src items =>
      rw [← Option.some.inj h]
      exact fun w hw => isPart_of_mem hw src
  | bool | number | string | object =>
      cases h

end Draws

end Json
end ApiPages
