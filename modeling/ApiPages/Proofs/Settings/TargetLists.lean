import ApiPages.Proofs.Settings.Decoders
import ApiPages.Proofs.Text.Blank
import ApiPages.Proofs.Text.Endings

/-!
# Lists of targets in settings

Targets are given as one text with commas in it or as a list of texts.  Both give the targets whose
labels they hold, and a text that is no target is reported together with its place.

* `Target.parse?_of_isSpelling` reads a label back, whatever blanks stand around it;
* `Settings.hook_targets` takes both forms of a list to its items, and `Settings.hook_target` reads
  one;
* `Settings.decode_targetLists` is about both forms, for every decoder that keeps its promises.
-/

namespace ApiPages

/-! ## Spellings -/

namespace Target

variable {t : Target} {text : String}

/-- The label of a target, with blanks around it. -/
def IsSpelling (t : Target) (text : String) : Prop :=
  ∃ before after : List Char, text.toList = before ++ t.label.toList ++ after ∧
    (∀ c ∈ before, Text.isBlank c = true) ∧ ∀ c ∈ after, Text.isBlank c = true

@[simp] theorem label_binary (name : String) : (binary name).label = "bin:" ++ name :=
  rfl

/-- What is read is the library or a binary, and its label is the text without the blanks around
it. -/
theorem label_of_parse? (h : parse? text = some t) :
    t.label = Text.strip text ∧ (t = library ∨ ∃ name, t = binary name) := by
  simp only [parse?] at h
  split at h
  · next hlib =>
      cases h
      exact ⟨(beq_iff_eq.1 hlib).symm, .inl rfl⟩
  · split at h
    · next hbin =>
        cases h
        rw [Bool.and_eq_true] at hbin
        rcases List.isPrefixOf_iff_prefix.1 hbin.1 with ⟨name, hname⟩
        have hcut : Text.cutPrefix (Text.strip text) "bin:" = String.ofList name := by
          rw [Text.cutPrefix, List.isPrefixOf?_eq_some_iff_append_eq.2 hname]
        refine ⟨String.toList_injective ?_, .inr ⟨_, rfl⟩⟩
        rw [label_binary, hcut, String.toList_append, ← hname]
        simp
    · cases h

/-- A target that can stand in a list: some text is read as it, and there is no comma in its
name. -/
def IsListable (t : Target) : Prop :=
  (∃ written, parse? written = some t) ∧ ',' ∉ t.name.toList

theorem strip_of_isSpelling (h : IsSpelling t text) : Text.strip text = Text.strip t.label := by
  rcases h with ⟨before, after, htext, hbefore, hafter⟩
  rw [Text.strip, htext, Text.trim_append_blanks hafter, Text.trim_append_left hbefore, Text.strip]

theorem parse?_of_isSpelling (ht : t.IsListable) (h : IsSpelling t text) :
    parse? text = some t := by
  rcases ht.1 with ⟨written, hwritten⟩
  have hstrip : Text.strip text = Text.strip written := by
    rw [strip_of_isSpelling h, (label_of_parse? hwritten).1, Text.strip, Text.strip,
      String.toList_ofList, Text.trim_trim]
  rw [← hwritten, parse?, hstrip, parse?]

theorem comma_not_mem_of_isSpelling (ht : t.IsListable) (h : IsSpelling t text) :
    ',' ∉ text.toList := by
  have hlabel : ',' ∉ t.label.toList := by
    rcases ht with ⟨⟨written, hwritten⟩, hname⟩
    rcases (label_of_parse? hwritten).2 with rfl | ⟨name, rfl⟩
    · decide
    · have hshort : ',' ∉ name.toList := hname
      simpa using hshort
  rcases h with ⟨before, after, htext, hbefore, hafter⟩
  rw [htext, List.append_assoc, List.mem_append, List.mem_append]
  rintro (hmem | hmem | hmem)
  · exact absurd (hbefore _ hmem) (by decide)
  · exact hlabel hmem
  · exact absurd (hafter _ hmem) (by decide)

theorem parse?_of_spellings {ts : List Target} {items : List String} (hts : ∀ t ∈ ts, t.IsListable)
    (h : List.Forall₂ IsSpelling ts items) :
    List.Forall₂ (fun t item => parse? item = some t) ts items ∧ ∀ item ∈ items,
      ',' ∉ item.toList := by
  induction h with
  | nil =>
      exact ⟨.nil, fun _ hitem => (nomatch hitem)⟩
  | cons hspell _ ih =>
      rcases List.forall_mem_cons.1 hts with ⟨hfirst, hrest⟩
      rcases ih hrest with ⟨hparse, hcomma⟩
      exact ⟨.cons (parse?_of_isSpelling hfirst hspell) hparse,
        List.forall_mem_cons.2 ⟨comma_not_mem_of_isSpelling hfirst hspell, hcomma⟩⟩

end Target

/-! ## Forms of a list -/

namespace Text

/-- A joined text falls apart into the texts that were joined, unless it was made of none. -/
theorem pieces_joined {mark : Char} {separator : String} (hmark : separator.toList = [mark])
    {parts : List String} (hparts : parts ≠ []) (h : ∀ part ∈ parts, mark ∉ part.toList) :
    pieces mark (joined separator parts) = parts := by
  have hsplit : (joined separator parts).toList.splitOn mark = parts.map String.toList := by
    rw [joined, String.toList_intercalate, hmark]
    refine List.splitOn_intercalate mark ?_ (by simpa using hparts)
    simpa using h
  rw [pieces, hsplit, List.map_map]
  simp [Function.comp_def]

end Text

namespace Setting

/-- The forms in which a list of texts is given. -/
def IsListOf (items : List String) (s : Setting) : Prop :=
  s = text (Text.joined "," items) ∨ s = list (items.map text)

end Setting

namespace Settings

open Setting (IsListOf Members)

variable {D : Decoder} {items : List String} {v : Setting} {ms r : Members}

/-! ## The hook -/

theorem hook_eq (hD : D.Documented) (want : Want) (d : Datum) :
    hook D want d = (D.splitting ',' want d).bind (Hook.targets want) := by
  rw [hook, hD.compose_eq, List.foldlM_cons]
  refine congrArg _ (funext fun d => ?_)
  rw [List.foldlM_cons]
  exact bind_pure (Hook.targets want d)

theorem hook_passesTables (hD : D.Documented) : (hook D).PassesTables := by
  intro ms
  rw [hook_eq hD, hD.splitting_item _ _ _ rfl]
  rfl

theorem hook_list (hD : D.Documented) (items : List Setting) :
    hook D .targets (.value (.list items)) = .ok (.value (.list items)) := by
  rw [hook_eq hD, hD.splitting_list]
  rfl

/-- Both forms give the texts; one empty text cannot be told from none in the first. -/
theorem hook_targets (hD : D.Documented) (hlist : IsListOf items v) (hone : items ≠ [""])
    (hcomma : ∀ item ∈ items, ',' ∉ item.toList) :
    hook D .targets (.value v) = .ok (.value (.list (items.map .text))) := by
  rcases hlist with rfl | rfl
  · have hparts : (if (Text.joined "," items).isEmpty then []
        else (Text.pieces ',' (Text.joined "," items)).map Setting.text) = items.map .text := by
      cases items with
      | nil =>
          rfl
      | cons item rest =>
          have hpieces : Text.pieces ',' (Text.joined "," (item :: rest)) = item :: rest :=
            Text.pieces_joined (by decide) (List.cons_ne_nil _ _) hcomma
          -- the empty text is the list of no texts, and only one empty text is joined to it, too
          have hne : (Text.joined "," (item :: rest)).isEmpty = false := by
            rw [Bool.eq_false_iff, Ne, String.isEmpty_iff]
            intro hempty
            rw [hempty] at hpieces
            exact hone hpieces.symm
          rw [hne, if_neg Bool.false_ne_true, hpieces]
    rw [hook_eq hD, hD.splitting_text _ _ _ rfl, hparts]
    rfl
  · exact hook_list hD _

theorem hook_target (hD : D.Documented) (item : String) :
    hook D .target (.value (.text item)) = match Target.parse? item with
      | some t => .ok (.target t)
      | none => .error (Target.refusal item) := by
  rw [hook_eq hD, hD.splitting_item _ _ _ rfl]
  rfl

/-! ## Lists -/

/-- Settings that give targets in either form are decoded as those without targets are, with the
targets put in; a text that is no target makes decoding fail, with a problem that says where it
stands. -/
theorem decode_targetLists (hD : D.Documented) (hlist : IsListOf items v) (ms r : Members) :
    (∀ ts : List Target, (∀ t ∈ ts, t.IsListable) → List.Forall₂ Target.IsSpelling ts items →
      decode D (givenTargets v ms r) =
        (decode D (givenTargets (.list []) ms r)).map (withTargets ts)) ∧
    ((∀ item ∈ items, ',' ∉ item.toList ∧ Text.strip item ≠ "") →
      ∀ (i : Nat) (item : String), items[i]? = some item → Target.parse? item = none →
        ∃ problems, decode D (givenTargets v ms r) = .error problems ∧
          .refused (targetPlace i) (Target.refusal item) ∈ problems) := by
  constructor
  · intro ts hts hspell
    obtain ⟨hparse, hcomma⟩ := Target.parse?_of_spellings hts hspell
    have hone : items ≠ [""] := by
      rintro rfl
      cases hparse with
      | cons hfirst _ =>
          have hnone : Target.parse? "" = none := by
            decide
          exact Option.some_ne_none _ (hfirst.symm.trans hnone)
    -- each text is handed on as it is and read where a target is wanted
    have hread : List.Forall₂ (fun item t => hook D .target (.value item) = .ok (.target t))
        (items.map .text) ts := by
      rw [List.forall₂_map_left_iff]
      refine hparse.flip.imp fun item t hitem => ?_
      rw [hook_target hD, show Target.parse? item = some t from hitem]
    have hdecode := hD.decode_targets (hook D) ms r v _ ts (hook_passesTables hD)
      (hook_targets hD hlist hone hcomma) (hook_list hD []) hread
    -- what is filled in afterwards depends on no target
    rw [decode, decode, hdecode]
    cases D.decode (hook D) (givenTargets (.list []) ms r) <;> rfl
  · intro hitems i item hitem hparse
    have hone : items ≠ [""] := by
      rintro rfl
      exact (hitems "" List.mem_cons_self).2 rfl
    have hfound := hook_targets hD hlist hone fun item hitem => (hitems item hitem).1
    have hplace : (items.map Setting.text)[i]? = some (.text item) := by
      rw [List.getElem?_map, hitem]
      rfl
    have hrefused : hook D .target (.value (.text item)) = .error (Target.refusal item) := by
      rw [hook_target hD, hparse]
    obtain ⟨problems, hdecode, hmem⟩ := hD.decode_refused (hook D) ms r v _ i _ _
      (hook_passesTables hD) hfound hplace hrefused
    refine ⟨problems, ?_, hmem⟩
    rw [decode, hdecode]
    rfl

/-- Settings that give two targets in one text. -/
def twoTargets (second : String) : Members :=
  givenTargets (.text ("lib," ++ second)) [] [("crate_name", .text "engine")]

theorem decode_targetLists_two :
    (decode .weak (twoTargets " bin:x:y\t")).map (fun s => s.rustdoc.targets) =
        .ok [.library, .binary "x:y"] ∧
      ∃ problems, decode .weak (twoTargets " bin") = .error problems ∧
        .refused "rustdoc.targets[1]" "invalid target \"bin\": want lib or bin:<name>" ∈
          problems := by
  have hlist : ∀ second, IsListOf ["lib", second] (.text ("lib," ++ second)) := by
    intro second
    exact .inl (congrArg Setting.text (by simp [Text.joined, String.intercalate_cons_cons]))
  constructor
  · have hts : ∀ t ∈ [Target.library, .binary "x:y"], t.IsListable := by
      intro t ht
      rcases List.mem_pair.1 ht with rfl | rfl
      · exact ⟨⟨"lib", by decide⟩, by decide⟩
      · exact ⟨⟨"bin:x:y", by decide +kernel⟩, by decide⟩
    have hspell : List.Forall₂ Target.IsSpelling [.library, .binary "x:y"]
        ["lib", " bin:x:y\t"] := by
      refine .cons
        ⟨[], [], by decide, by simp, by simp⟩ (.cons ⟨[' '], ['\t'], by decide, ?_, ?_⟩ .nil)
      · exact List.forall_mem_singleton.2 rfl
      · exact List.forall_mem_singleton.2 rfl
    rw [twoTargets,
      (decode_targetLists Decoder.weak_documented (hlist " bin:x:y\t") [] _).1 _ hts hspell]
    decide +kernel
  · have hitems : ∀ item ∈ ["lib", " bin"], ',' ∉ item.toList ∧ Text.strip item ≠ "" := by
      decide +kernel
    have hrefused := (decode_targetLists Decoder.weak_documented (hlist " bin") []
      [("crate_name", .text "engine")]).2 hitems 1 " bin" rfl (by decide)
    have hplace : targetPlace 1 = "rustdoc.targets[1]" := by
      decide +kernel
    have hmessage : Target.refusal " bin" = "invalid target \"bin\": want lib or bin:<name>" := by
      decide +kernel
    rwa [hplace, hmessage] at hrefused

end Settings
end ApiPages
