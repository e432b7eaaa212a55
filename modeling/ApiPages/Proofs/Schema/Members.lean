import ApiPages.Proofs.Schema.Nesting
import ApiPages.Proofs.Schema.Printer
import ApiPages.Proofs.Schema.Scanning
import ApiPages.Proofs.Schema.Steps

/-!
# What members look like

The fields and values of a schema that was read come from statements, and what a recogniser takes
for a name, a number or a type holds few characters.

* `fieldAfter?_eq_some`, `field?_shape` and `enumValue?_shape` say what is recognised;
* `Schema.Recognised` says that every field and every value was recognised once, up to its comments;
  `Reader.recognised_statement` is the step and `Schema.recognised_parse` says so of every text;
* `Schema.shape_of_mem_fields` and `Schema.shape_of_mem_values` put the two together.
-/

namespace ApiPages

open Recognize (Block)

/-! ## Recognised members -/

namespace Recognize

open Printer (IsWord IsDigits IsNumber)

variable {cs run rest : List Char} {f : MessageField}

theorem of_run?_eq_some {p : Char → Bool} (h : run? p cs = some (run, rest)) :
    run ≠ [] ∧ ∀ c ∈ run, p c = true := by
  have hne := Nesting.ne_nil_of_run?_eq_some h
  simp only [run?] at h
  split at h
  · cases h
  · cases h
    exact ⟨hne, fun c hc => List.mem_takeWhile_imp hc⟩

theorem isWord_of_word? (h : word? cs = some (run, rest)) : IsWord (String.ofList run) := by
  obtain ⟨hne, hrun⟩ := of_run?_eq_some h
  refine ⟨mt String.ofList_eq_empty_iff.1 hne, ?_⟩
  rwa [String.toList_ofList]

theorem isDigits_of_run? (h : run? Char.isDigit cs = some (run, rest)) :
    IsDigits (String.ofList run) := by
  obtain ⟨hne, hrun⟩ := of_run?_eq_some h
  refine ⟨mt String.ofList_eq_empty_iff.1 hne, ?_⟩
  rwa [String.toList_ofList]

/-- Behind a type stand a name and a number. -/
theorem fieldAfter?_eq_some {type : List Char} (h : fieldAfter? type cs = some f) :
    IsWord f.name ∧ IsDigits f.number ∧ f.type = String.ofList (normalizeType type) := by
  simp only [fieldAfter?, Option.bind_eq_bind, Option.bind_eq_some_iff] at h
  obtain ⟨_, _, _, hname, _, _, _, hnumber, h⟩ := h
  split at h
  · cases h
    exact ⟨isWord_of_word? hname, isDigits_of_run? hnumber, rfl⟩
  · cases h

/-- A map type is normalised, since it begins with the word that says so. -/
theorem isPrefixOf_mapType? {type : List Char} (h : mapType? cs = some (type, rest)) :
    "map".toList.isPrefixOf type = true := by
  simp only [mapType?, Option.bind_eq_bind, Option.bind_eq_some_iff] at h
  obtain ⟨behind, hword, inside, hopen, rest', hclose, h⟩ := h
  cases h
  have hcs : cs = "map".toList ++ behind :=
    (List.isPrefixOf?_eq_some_iff_append_eq.1 hword).symm
  -- what is left behind the type is shorter than what stands behind its first word
  have hle : rest.length ≤ behind.length := by
    have hinside := congrArg List.length (List.isPrefixOf?_eq_some_iff_append_eq.1 hopen)
    have hrest := congrArg List.length (List.isPrefixOf?_eq_some_iff_append_eq.1 hclose)
    have hskip : (skipSpaces behind).length ≤ behind.length := List.length_dropWhile_le ..
    have hdrop : (inside.dropWhile (· != '>')).length ≤ inside.length := List.length_dropWhile_le ..
    rw [List.length_append] at hinside hrest
    omega
  have hlength : "map".toList.length ≤ cs.length - rest.length := by
    rw [hcs, List.length_append]
    omega
  rw [List.isPrefixOf_iff_prefix, hcs]
  exact List.prefix_take_iff.2 ⟨List.prefix_append .., by rwa [hcs] at hlength⟩

/-- Of white space a normalised map type holds spaces only. -/
theorem mem_normalizeType_map {type : List Char} (h : "map".toList.isPrefixOf type = true)
    {c : Char} (hc : c ∈ normalizeType type) : c = ' ' ∨ Text.isSpace c = false := by
  rw [normalizeType, if_pos h] at hc
  obtain ⟨d, hd, hc⟩ := List.mem_flatMap.1 hc
  have hspace : Text.isSpace d = false := by
    simpa using (List.mem_filter.1 hd).2
  split at hc
  · have hcomma : Text.isSpace ',' = false := by decide
    simp only [List.mem_cons, List.not_mem_nil, or_false] at hc
    rcases hc with rfl | rfl
    · exact .inr hcomma
    · exact .inl rfl
  · rw [List.mem_singleton.1 hc]
    exact .inr hspace

/-- Of white space a name that stands for a type holds nothing, whether it is normalised or not. -/
theorem mem_normalizeType_name {type : List Char} (h : ∀ c ∈ type, isNamePart c = true) {c : Char}
    (hc : c ∈ normalizeType type) : c = ' ' ∨ Text.isSpace c = false := by
  by_cases hmap : "map".toList.isPrefixOf type = true
  · exact mem_normalizeType_map hmap hc
  · rw [normalizeType, if_neg hmap] at hc
    refine .inr (Bool.eq_false_iff.2 fun hspace => ?_)
    have hblank := Text.isBlank_of_isSpace hspace
    rw [Text.isBlank_of_isNamePart (h c hc)] at hblank
    cases hblank

theorem unlabelled?_shape (h : unlabelled? cs = some f) :
    IsWord f.name ∧ IsDigits f.number ∧ ∀ c ∈ f.type.toList, c = ' ' ∨ Text.isSpace c = false := by
  rcases Option.or_eq_some_iff.1 h with h | ⟨-, h⟩
  · obtain ⟨⟨type, rest⟩, hmap, hafter⟩ := Option.bind_eq_some_iff.1 h
    obtain ⟨hname, hnumber, htype⟩ := fieldAfter?_eq_some hafter
    rw [htype, String.toList_ofList]
    exact ⟨hname, hnumber, fun c hc => mem_normalizeType_map (isPrefixOf_mapType? hmap) hc⟩
  · obtain ⟨⟨type, rest⟩, hrun, hafter⟩ := Option.bind_eq_some_iff.1 h
    obtain ⟨hname, hnumber, htype⟩ := fieldAfter?_eq_some hafter
    rw [htype, String.toList_ofList]
    exact ⟨hname, hnumber, fun c hc => mem_normalizeType_name (of_run?_eq_some hrun).2 hc⟩

/-- A field has a word for its name, digits for its number, and of white space its type holds spaces
only. -/
theorem field?_shape (h : field? cs = some f) :
    IsWord f.name ∧ IsDigits f.number ∧ ∀ c ∈ f.type.toList, c = ' ' ∨ Text.isSpace c = false := by
  obtain ⟨k, -, hk⟩ := List.exists_of_findSome?_eq_some h
  obtain ⟨f', hf', rfl⟩ := Option.map_eq_some_iff.1 hk
  have hshape : IsWord f'.name ∧ IsDigits f'.number ∧
      ∀ c ∈ f'.type.toList, c = ' ' ∨ Text.isSpace c = false := unlabelled?_shape hf'
  exact hshape

/-- A value has a word for its name and digits for its number, possibly behind a sign. -/
theorem enumValue?_shape {v : EnumValue} (h : enumValue? cs = some v) :
    IsWord v.name ∧ IsNumber v.number := by
  simp only [enumValue?, Option.bind_eq_bind, Option.bind_eq_some_iff] at h
  obtain ⟨_, hname, _, _, _, hdigits, h⟩ := h
  split at h
  · cases h
    refine ⟨isWord_of_word? hname, ?_⟩
    have hnumber := isDigits_of_run? hdigits
    dsimp only
    split
    · exact .inr ⟨_, hnumber, by rw [String.ofList_append]⟩
    · exact .inl hnumber
  · cases h

end Recognize

/-! ## Members of a schema -/

/-- Every field and every value was recognised in some statement, up to its comments. -/
structure Schema.Recognised (s : Schema) : Prop where
  fields : ∀ m ∈ s.messages, ∀ f ∈ m.fields, ∃ stmt, Recognize.field? stmt = some f.undocumented
  values : ∀ e ∈ s.enums, ∀ v ∈ e.values, ∃ stmt, Recognize.enumValue? stmt = some v.undocumented

theorem mem_modifyLast {α : Type} {f : α → α} {l : List α} {a : α} (h : a ∈ modifyLast f l) :
    a ∈ l ∨ ∃ b ∈ l, a = f b := by
  rcases List.eq_nil_or_concat l with rfl | ⟨l, b, rfl⟩
  · cases h
  · rw [List.concat_eq_append] at h ⊢
    rw [modifyLast_append_singleton, List.mem_append, List.mem_singleton] at h
    rcases h with h | rfl
    · exact .inl (List.mem_append_left _ h)
    · exact .inr ⟨b, by simp, rfl⟩

namespace Reader

variable {r : Reader}

/-- An item begins without members. -/
theorem recognised_openBlock (h : r.schema.Recognised) (block : Block) (name : String) :
    (r.openBlock block name).1.schema.Recognised := by
  have hmessage : ∀ m ∈ r.schema.messages ++ [{ name, docs := r.pending }],
      ∀ f ∈ m.fields, ∃ stmt, Recognize.field? stmt = some f.undocumented := by
    intro m hm f hf
    rcases List.mem_append.1 hm with hm | hm
    · exact h.fields m hm f hf
    · rw [List.mem_singleton.1 hm] at hf
      cases hf
  have henum : ∀ e ∈ r.schema.enums ++ [{ name, docs := r.pending }],
      ∀ v ∈ e.values, ∃ stmt, Recognize.enumValue? stmt = some v.undocumented := by
    intro e he v hv
    rcases List.mem_append.1 he with he | he
    · exact h.values e he v hv
    · rw [List.mem_singleton.1 he] at hv
      cases hv
  cases block with
  | service =>
      exact ⟨h.fields, h.values⟩
  | message =>
      exact ⟨hmessage, h.values⟩
  | enum =>
      exact ⟨h.fields, henum⟩

/-- A member that is added was recognised. -/
theorem recognised_member (h : r.schema.Recognised) (block : Block) (s : List Char) :
    (r.member block s).1.schema.Recognised := by
  cases block with
  | service =>
      cases hrpc : Recognize.rpc? s with
      | none =>
          simpa only [member, hrpc] using h
      | some rpc =>
          simp only [member, hrpc]
          exact ⟨h.fields, h.values⟩
  | message =>
      cases hfield : Recognize.field? s with
      | none =>
          simpa only [member, hfield] using h
      | some field =>
          simp only [member, hfield]
          refine ⟨fun m hm f hf => ?_, h.values⟩
          rcases mem_modifyLast hm with hm | ⟨m', hm', rfl⟩
          · exact h.fields m hm f hf
          · rcases List.mem_append.1 hf with hf | hf
            · exact h.fields m' hm' f hf
            · have hdocs := Nesting.docs_eq_nil_of_field? hfield
              rw [List.mem_singleton.1 hf]
              exact ⟨s, by rw [hfield, MessageField.undocumented, ← hdocs]⟩
  | enum =>
      cases hvalue : Recognize.enumValue? s with
      | none =>
          simpa only [member, hvalue] using h
      | some value =>
          simp only [member, hvalue]
          refine ⟨h.fields, fun e he v hv => ?_⟩
          rcases mem_modifyLast he with he | ⟨e', he', rfl⟩
          · exact h.values e he v hv
          · rcases List.mem_append.1 hv with hv | hv
            · exact h.values e' he' v hv
            · have hdocs := Nesting.docs_eq_nil_of_enumValue? hvalue
              rw [List.mem_singleton.1 hv]
              exact ⟨s, by rw [hvalue, EnumValue.undocumented, ← hdocs]⟩

theorem recognised_statement (h : r.schema.Recognised) (s : List Char) :
    (r.statement s).1.schema.Recognised := by
  refine statement_elim (motive := fun r' _ => r'.schema.Recognised) r s h ?_ ?_ ?_ ?_
  · exact recognised_openBlock h
  · intro _
    obtain ⟨depth, hdeep⟩ := deepened_eq (r.declaration s) s
    obtain ⟨package, dialect, imports, hheaded⟩ := r.schema.headed_eq s
    rw [hdeep, declaration_eq]
    dsimp only
    rw [hheaded]
    exact ⟨h.fields, h.values⟩
  · intro _
    obtain ⟨depth, hdeep⟩ := deepened_eq r s
    rw [hdeep]
    exact h
  · intro block _
    obtain ⟨depth, hdeep⟩ := deepened_eq (r.member block s).1 s
    rw [hdeep]
    exact recognised_member h block s

theorem recognised_take (h : r.schema.Recognised) (stmts : List (List Char)) :
    (r.take stmts).schema.Recognised := by
  induction stmts generalizing r with
  | nil =>
      exact h
  | cons s stmts ih =>
      exact ih (recognised_statement h s)

/-- Dropping an item that is left open takes members away with it, and adds none. -/
theorem recognised_finish (h : r.schema.Recognised) : r.finish.Recognised := by
  unfold finish
  split
  · exact h
  · exact ⟨h.fields, h.values⟩
  · exact ⟨fun m hm => h.fields m (List.dropLast_subset _ hm), h.values⟩
  · exact ⟨h.fields, fun e he => h.values e (List.dropLast_subset _ he)⟩

end Reader

namespace Schema

open Printer (IsWord IsDigits IsNumber)

theorem recognised_of_undocumented {s : Schema} (h : s.undocumented.Recognised) : s.Recognised where
  fields m hm f hf :=
    h.fields m.undocumented (List.mem_map_of_mem hm) f.undocumented (List.mem_map_of_mem hf)
  values e he v hv :=
    h.values e.undocumented (List.mem_map_of_mem he) v.undocumented (List.mem_map_of_mem hv)

/-- Every field and every value of a schema that was read comes from a statement. -/
theorem recognised_parse (text : String) : (parse text).Recognised := by
  have hstart : ({} : Reader).schema.Recognised := ⟨by simp, by simp⟩
  apply recognised_of_undocumented
  rw [undocumented_parse]
  exact Reader.recognised_finish (Reader.recognised_take hstart _)

/-- A field that was read has a word for its name, digits for its number, and of white space its
type holds spaces only. -/
theorem shape_of_mem_fields {text : String} {m : Message} {f : MessageField}
    (hm : m ∈ (parse text).messages) (hf : f ∈ m.fields) : IsWord f.name ∧ IsDigits f.number ∧
      ∀ c ∈ f.type.toList, c = ' ' ∨ Text.isSpace c = false := by
  obtain ⟨stmt, hstmt⟩ := (recognised_parse text).fields m hm f hf
  have hshape : IsWord f.undocumented.name ∧ IsDigits f.undocumented.number ∧
      ∀ c ∈ f.undocumented.type.toList, c = ' ' ∨ Text.isSpace c = false :=
        Recognize.field?_shape hstmt
  exact hshape

/-- A value that was read has a word for its name and a number. -/
theorem shape_of_mem_values {text : String} {e : EnumDecl} {v : EnumValue}
    (he : e ∈ (parse text).enums) (hv : v ∈ e.values) : IsWord v.name ∧ IsNumber v.number := by
  obtain ⟨stmt, hstmt⟩ := (recognised_parse text).values e he v hv
  have hshape : IsWord v.undocumented.name ∧ IsNumber v.undocumented.number :=
    Recognize.enumValue?_shape hstmt
  exact hshape

end Schema
end ApiPages
