import ApiPages.TypeExpr.Format
import Mathlib.Data.List.Basic

/-!
# The nodes of a type

A type is a tree, and what is said about it is often said of every node.

* `IsNode u t` says that `u` is one of the nodes of `t`, and `Everywhere p t` that all of them have
  the property `p`;
* `childwise` is the induction that goes with `children`: a property of a type may be assumed of the
  types directly below it;
* `formatAll_eq_map` and `notesOfAll_eq_flatMap` put the lists of the writer into the terms of the
  list library.
-/

namespace ApiPages
namespace TypeExpr

/-! ## Induction -/

theorem sizeOf_lt_of_mem_children {s t : TypeExpr} (h : s ∈ t.children) : sizeOf s < sizeOf t := by
  -- the nodes fall into classes by what stands directly below them: nothing, one type, a list, or
  -- both
  cases t with
  | absent | primitive _ | unknown _ =>
      cases h
  | reference _ _ inner | rawPointer _ inner | slice inner | array inner _ =>
      rw [List.mem_singleton.1 h]
      simp only [reference.sizeOf_spec, rawPointer.sizeOf_spec, slice.sizeOf_spec,
        array.sizeOf_spec]
      omega
  | tuple elems | traitObject _ elems _ =>
      have hlt : sizeOf s < sizeOf elems := List.sizeOf_lt_of_mem h
      simp only [tuple.sizeOf_spec, traitObject.sizeOf_spec]
      omega
  | path _ elems _ last | functionPointer elems last =>
      rcases List.mem_append.1 h with hs | hs
      · have hlt : sizeOf s < sizeOf elems := List.sizeOf_lt_of_mem hs
        simp only [path.sizeOf_spec, functionPointer.sizeOf_spec]
        omega
      · rw [List.mem_singleton.1 hs]
        simp only [path.sizeOf_spec, functionPointer.sizeOf_spec]
        omega
  | binding _ first elems =>
      rcases List.mem_cons.1 h with rfl | hs
      · simp only [binding.sizeOf_spec]
        omega
      · have hlt : sizeOf s < sizeOf elems := List.sizeOf_lt_of_mem hs
        simp only [binding.sizeOf_spec]
        omega

/-- What holds of a type as soon as it holds of the types directly below it holds of all types. -/
theorem childwise {motive : TypeExpr → Prop} (step : ∀ t, (∀ s ∈ t.children, motive s) → motive t)
    (t : TypeExpr) : motive t :=
  step t fun s hs =>
    have : sizeOf s < sizeOf t := sizeOf_lt_of_mem_children hs
    childwise step s
termination_by sizeOf t

/-! ## Nodes -/

/-- One of the nodes of a type, itself included. -/
inductive IsNode : TypeExpr → TypeExpr → Prop where
  | root (t : TypeExpr) : IsNode t t
  | step {u s t : TypeExpr} : s ∈ t.children → IsNode u s → IsNode u t

/-- All nodes of a type have the property. -/
def Everywhere (p : TypeExpr → Prop) (t : TypeExpr) : Prop :=
  ∀ u, IsNode u t → p u

section Everywhere

variable {p q : TypeExpr → Prop} {t : TypeExpr}

theorem everywhere_iff : Everywhere p t ↔ p t ∧ ∀ s ∈ t.children, Everywhere p s := by
  constructor
  · intro h
    exact ⟨h t (.root t), fun s hs u hu => h u (.step hs hu)⟩
  · rintro ⟨hself, hbelow⟩ u hu
    cases hu with
    | root =>
        exact hself
    | step hs hu =>
        exact hbelow _ hs u hu

theorem Everywhere.self (h : Everywhere p t) : p t :=
  h t (.root t)

theorem Everywhere.child (h : Everywhere p t) {s : TypeExpr} (hs : s ∈ t.children) :
    Everywhere p s :=
  fun u hu => h u (.step hs hu)

theorem Everywhere.mono (h : Everywhere p t) (hpq : ∀ u, p u → q u) : Everywhere q t :=
  fun u hu => hpq u (h u hu)

/-- A node with nothing below it. -/
theorem everywhere_leaf (ht : t.children = []) (hp : p t) : Everywhere p t :=
  everywhere_iff.2 ⟨hp, by simp [ht]⟩

end Everywhere

/-! ## Lists of texts and of gaps -/

theorem formatAll_eq_map (ts : List TypeExpr) : formatAll ts = ts.map format := by
  induction ts with
  | nil =>
      rfl
  | cons t ts ih =>
      rw [formatAll, ih, List.map_cons]

theorem notesOfAll_eq_flatMap (ts : List TypeExpr) : notesOfAll ts = ts.flatMap notes := by
  induction ts with
  | nil =>
      rfl
  | cons t ts ih =>
      rw [notesOfAll, ih, List.flatMap_cons]

theorem isAbsent_iff {t : TypeExpr} : t.isAbsent = true ↔ t = .absent := by
  cases t with
  | absent =>
      exact ⟨fun _ => rfl, fun _ => rfl⟩
  | _ =>
      exact ⟨nofun, nofun⟩

end TypeExpr
end ApiPages
