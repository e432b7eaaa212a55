import ApiPages.Proofs.TypeExpr.Nodes
import ApiPages.Run.Rustdoc

/-!
# What is not expressed is logged

`format` writes a placeholder wherever a node cannot be expressed, and the log has one entry for
each of them.  The text is searched without knowledge of how it was written, so the placeholders
that are found there have to be the ones that were put there: this holds as long as no name brings
slashes of its own.

* `Text.occurrences` counts the places of a text where a needle stands;
* `Scattered n cs` are the texts with `n` placeholders and no other slash;
* `reached` lists the nodes that the writer comes to, and `notes_eq_filterMap` reads the gaps off
  them;
* `format_accounted` puts the text, the log and the nodes together.
-/

namespace ApiPages

/-! ## Counting -/

namespace Text

/-- At how many places of a text the needle stands. -/
def occurrences (needle : List Char) : List Char → Nat
  | [] => 0
  | c :: cs => occurrences needle cs + if needle.isPrefixOf (c :: cs) then 1 else 0

/-- A needle does not begin in a stretch without its first character. -/
theorem occurrences_append {d : Char} {cs : List Char} (h : d ∉ cs) (needle rest : List Char) :
    occurrences (d :: needle) (cs ++ rest) = occurrences (d :: needle) rest := by
  induction cs with
  | nil =>
      rfl
  | cons c cs ih =>
      have hne : d ≠ c := fun heq => h (heq ▸ List.mem_cons_self ..)
      have hrest := ih fun hmem => h (List.mem_cons_of_mem c hmem)
      rw [List.cons_append, occurrences, hrest]
      simp [List.isPrefixOf, hne]

end Text

namespace TypeExpr

open Text (occurrences)

/-! ## Texts with placeholders -/

/-- A text with so many placeholders and no other slash.  After a placeholder it does not go on with
a star, which together with the last slash could be the beginning of another one. -/
inductive Scattered : Nat → List Char → Prop where
  | plain {cs : List Char} : '/' ∉ cs → Scattered 0 cs
  | gap {n : Nat} {before after : List Char} : '/' ∉ before → after.head? ≠ some '*' →
      Scattered n after →
      Scattered (n + 1) (before ++ (placeholder.toList ++ after))

/-- The placeholder between its two slashes. -/
theorem exists_placeholder_eq : ∃ mid, placeholder.toList = '/' :: (mid ++ ['/']) ∧ '/' ∉ mid ∧
    mid.head? = some '*' :=
  ⟨"* unknown type *".toList, by simp [placeholder], by simp, by simp⟩

theorem occurrences_placeholder {rest : List Char} (h : rest.head? ≠ some '*') :
    occurrences placeholder.toList (placeholder.toList ++ rest) =
      occurrences placeholder.toList rest + 1 := by
  rcases exists_placeholder_eq with ⟨mid, htext, hmid, hstar⟩
  have hfirst : placeholder.toList.isPrefixOf (placeholder.toList ++ rest) = true :=
    List.isPrefixOf_iff_prefix.2 (List.prefix_append _ _)
  -- the slash at the end of the placeholder does not begin another one
  have hlast : placeholder.toList.isPrefixOf ('/' :: rest) = false := by
    rw [Bool.eq_false_iff, Ne, List.isPrefixOf_iff_prefix, htext]
    rintro ⟨more, hmore⟩
    have hrest : mid ++ ['/'] ++ more = rest := (List.cons.inj hmore).2
    refine h ?_
    rw [← hrest, List.append_assoc, List.head?_append, hstar]
    rfl
  have htail : occurrences placeholder.toList (mid ++ '/' :: rest) =
      occurrences placeholder.toList rest := by
    have hskip := Text.occurrences_append hmid (mid ++ ['/']) ('/' :: rest)
    rw [← htext] at hskip
    rw [hskip, occurrences, hlast]
    rfl
  have hsplit : placeholder.toList ++ rest = '/' :: (mid ++ '/' :: rest) := by
    rw [htext]
    simp
  rw [hsplit] at hfirst ⊢
  rw [occurrences, hfirst, htail, if_pos rfl]

namespace Scattered

variable {m n : Nat} {cs rest : List Char}

theorem count (h : Scattered n cs) : occurrences placeholder.toList cs = n := by
  rcases exists_placeholder_eq with ⟨mid, htext, -, -⟩
  induction h with
  | @plain cs hcs =>
      rw [← List.append_nil cs, htext, Text.occurrences_append hcs]
      rfl
  | @gap n before after hbefore hafter _ ih =>
      have hskip : occurrences placeholder.toList (before ++ (placeholder.toList ++ after)) =
          occurrences placeholder.toList (placeholder.toList ++ after) := by
        rw [htext]
        exact Text.occurrences_append hbefore _ _
      rw [hskip, occurrences_placeholder hafter, ih]

theorem prepend (hcs : '/' ∉ cs) (h : Scattered n rest) : Scattered n (cs ++ rest) := by
  cases h with
  | plain hrest =>
      refine .plain fun hmem => ?_
      rcases List.mem_append.1 hmem with hmem | hmem
      · exact hcs hmem
      · exact hrest hmem
  | gap hbefore hafter hrest =>
      rw [← List.append_assoc]
      refine .gap (fun hmem => ?_) hafter hrest
      rcases List.mem_append.1 hmem with hmem | hmem
      · exact hcs hmem
      · exact hbefore hmem

/-- Two texts one after the other, when the second does not begin with a star. -/
theorem append (h : Scattered m cs) (hrest : Scattered n rest) (hstar : rest.head? ≠ some '*') :
    Scattered (m + n) (cs ++ rest) := by
  induction h with
  | plain hcs =>
      rw [Nat.zero_add]
      exact hrest.prepend hcs
  | @gap m before after hbefore hafter _ ih =>
      have hhead : (after ++ rest).head? ≠ some '*' := by
        cases after with
        | nil =>
            exact hstar
        | cons =>
            exact hafter
      rw [List.append_assoc, List.append_assoc, Nat.add_right_comm]
      exact .gap hbefore hhead ih

/-- A text between two fixed ones. -/
theorem enclosed (h : Scattered n cs) (front back : List Char) (hfront : '/' ∉ front)
    (hback : '/' ∉ back) (hstar : back.head? ≠ some '*') : Scattered n (front ++ cs ++ back) := by
  rw [List.append_assoc]
  exact (h.append (.plain hback) hstar).prepend hfront

theorem placeholder : Scattered 1 TypeExpr.placeholder.toList := by
  have hgap : Scattered 1 ([] ++ (TypeExpr.placeholder.toList ++ [])) :=
    .gap (by simp) (by simp) (.plain (by simp))
  rwa [List.nil_append, List.append_nil] at hgap

/-- Texts with the gaps behind their placeholders, joined by a fixed text. -/
theorem joined {separator : String} (hsep : '/' ∉ separator.toList)
    (hstar : ∀ rest, (separator.toList ++ rest).head? ≠ some '*') (parts : List (List Gap × String))
    (h : ∀ p ∈ parts, Scattered p.1.length p.2.toList) :
    Scattered (parts.flatMap Prod.fst).length
      (Text.joined separator (parts.map Prod.snd)).toList := by
  rw [Text.joined, String.toList_intercalate, List.map_map]
  induction parts with
  | nil =>
      exact .plain (by simp)
  | cons p parts ih =>
      have hp := h p (List.mem_cons_self ..)
      cases parts with
      | nil =>
          simpa using hp
      | cons q parts =>
          have hrest := (ih fun r hr => h r (List.mem_cons_of_mem p hr)).prepend hsep
          simpa using hp.append hrest (hstar _)

end Scattered

/-! ## The written text -/

/-- The texts that a node brings itself: its name, lifetime or length. -/
def ownTexts : TypeExpr → List String
  | .primitive name => [name]
  | .path name _ _ _ => [name]
  | .reference lifetime _ _ => [lifetime]
  | .array _ length => [length]
  | .traitObject _ _ lifetime => [lifetime]
  | .binding name _ _ => [name]
  | _ => []

/-- No text of the node has a slash. -/
def IsSlashless (u : TypeExpr) : Prop :=
  ∀ s ∈ u.ownTexts, '/' ∉ s.toList

theorem slash_not_mem_withTick {lifetime : String} (h : '/' ∉ lifetime.toList) :
    '/' ∉ (withTick lifetime).toList := by
  rw [withTick]
  split
  · exact h
  · simpa using h

/-- Types, and after them texts of another kind, joined by a fixed text. -/
theorem scattered_joined (separator : String) (hsep : '/' ∉ separator.toList)
    (hstar : ∀ rest, (separator.toList ++ rest).head? ≠ some '*') {ts : List TypeExpr}
    (h : ∀ t ∈ ts, Scattered t.notes.length t.format.toList) (more : List String)
    (hmore : ∀ s ∈ more, '/' ∉ s.toList) :
    Scattered (notesOfAll ts).length (Text.joined separator (formatAll ts ++ more)).toList := by
  have hparts := Scattered.joined hsep hstar
    (ts.map (fun t => (t.notes, t.format)) ++ more.map fun s => ([], s)) ?_
  · simpa [notesOfAll_eq_flatMap, formatAll_eq_map, List.flatMap_map, Function.comp_def]
      using hparts
  · intro p hp
    rcases List.mem_append.1 hp with hp | hp
    · rcases List.mem_map.1 hp with ⟨t, ht, rfl⟩
      exact h t ht
    · rcases List.mem_map.1 hp with ⟨s, hs, rfl⟩
      exact .plain (hmore s hs)

/-- A list of types between commas. -/
theorem scattered_list {ts : List TypeExpr}
    (h : ∀ t ∈ ts, Scattered t.notes.length t.format.toList) :
    Scattered (notesOfAll ts).length (Text.joined ", " (formatAll ts)).toList := by
  have hlist := scattered_joined ", " (by simp) (by simp) h [] (by simp)
  rwa [List.append_nil] at hlist

/-- Bounds between plus signs, with a lifetime after them. -/
theorem scattered_bounds {bounds : List TypeExpr}
    (h : ∀ t ∈ bounds, Scattered t.notes.length t.format.toList) (more : List String)
    (hmore : ∀ s ∈ more, '/' ∉ s.toList) :
    Scattered (notesOfAll bounds).length (Text.joined " + " (formatAll bounds ++ more)).toList :=
  scattered_joined " + " (by simp) (by simp) h more hmore

/-- Inputs in parentheses and a result, which is left out when it is absent. -/
theorem scattered_signature (front : String) (hfront : '/' ∉ front.toList) {inputs : List TypeExpr}
    (hinputs : ∀ t ∈ inputs, Scattered t.notes.length t.format.toList) {output : TypeExpr}
    (houtput : Scattered output.notes.length output.format.toList) :
    Scattered (notesOfAll inputs ++ if output.isAbsent then [] else output.notes).length
      (front ++ Text.joined ", " (formatAll inputs) ++ ")" ++
        if output.isAbsent then "" else " -> " ++ output.format).toList := by
  have hlist := scattered_list hinputs
  split
  · simpa using hlist.enclosed front.toList [')'] hfront (by simp) (by simp)
  · have harrow : '/' ∉ ") -> ".toList := by simp
    have hall := (hlist.append (houtput.prepend harrow) (by simp)).prepend hfront
    simpa using hall

/-- A path is given up with all its parts when it has no name. -/
theorem scattered_path {name : String} (hname : '/' ∉ name.toList) {args : List TypeExpr}
    (hargs : ∀ s ∈ args, Scattered s.notes.length s.format.toList) (parenthesized : Bool)
    {output : TypeExpr} (houtput : Scattered output.notes.length output.format.toList) :
    Scattered (notes (.path name args parenthesized output)).length
      (format (.path name args parenthesized output)).toList := by
  rw [notes, format]
  -- without a name, with parentheses, without arguments, and with angle brackets
  split
  · exact .placeholder
  split
  · exact scattered_signature (name ++ "(") (by simpa using hname) hargs houtput
  split
  · rename_i hnil
    rw [List.isEmpty_iff.1 hnil]
    exact .plain hname
  · have hfront : '/' ∉ name.toList ++ ['<'] := by simpa using hname
    simpa using (scattered_list hargs).enclosed _ ['>'] hfront (by simp) (by simp)

/-- A trait object without bounds and without a lifetime has nothing to be written by. -/
theorem scattered_object (isDyn : Bool) {bounds : List TypeExpr}
    (hbounds : ∀ s ∈ bounds, Scattered s.notes.length s.format.toList) {lifetime : String}
    (hlifetime : '/' ∉ lifetime.toList) :
    Scattered (notes (.traitObject isDyn bounds lifetime)).length
      (format (.traitObject isDyn bounds lifetime)).toList := by
  have hmore : ∀ s ∈ (if lifetime.isEmpty then [] else [withTick lifetime]), '/' ∉ s.toList := by
    split
    · nofun
    · simpa using slash_not_mem_withTick hlifetime
  rw [notes, format]
  split
  · exact .placeholder
  · rw [String.toList_append]
    refine (scattered_bounds hbounds _ hmore).prepend ?_
    cases isDyn with
    | true =>
        simp
    | false =>
        simp

/-- What fixes an associated type comes before what restricts it. -/
theorem scattered_binding {name : String} (hname : '/' ∉ name.toList) {equals : TypeExpr}
    (hequals : Scattered equals.notes.length equals.format.toList) {bounds : List TypeExpr}
    (hbounds : ∀ s ∈ bounds, Scattered s.notes.length s.format.toList) :
    Scattered (notes (.binding name equals bounds)).length
      (format (.binding name equals bounds)).toList := by
  have hlist := scattered_bounds hbounds [] (by simp)
  rw [List.append_nil] at hlist
  rw [notes, format]
  split
  · exact .placeholder
  split
  · rw [String.toList_append]
    exact hequals.prepend (by simpa using hname)
  split
  · exact .placeholder
  · rw [String.toList_append]
    exact hlist.prepend (by simpa using hname)

/-- Each node leaves as many placeholders in the text as gaps in the notes. -/
theorem scattered_format {t : TypeExpr} (h : t.Everywhere IsSlashless) :
    Scattered t.notes.length t.format.toList := by
  induction t using childwise with
  | step t ih =>
      have hown : t.IsSlashless := h.self
      have hbelow : ∀ s ∈ t.children, Scattered s.notes.length s.format.toList :=
        fun s hs => ih s hs (h.child hs)
      cases t with
      | absent | unknown raw =>
          exact .placeholder
      | primitive name =>
          have hname : '/' ∉ name.toList := hown name (List.mem_singleton.2 rfl)
          rw [notes, format]
          split
          · exact .placeholder
          · exact .plain hname
      | path name args parenthesized output =>
          have hname : '/' ∉ name.toList := hown name (List.mem_singleton.2 rfl)
          have hargs : ∀ s ∈ args, Scattered s.notes.length s.format.toList :=
            fun s hs => hbelow s (List.mem_append_left _ hs)
          have houtput := hbelow output (List.mem_append_right _ (List.mem_singleton.2 rfl))
          exact scattered_path hname hargs parenthesized houtput
      | reference lifetime isMutable inner =>
          have hlifetime : '/' ∉ lifetime.toList := hown lifetime (List.mem_singleton.2 rfl)
          have hinner := hbelow inner (List.mem_singleton.2 rfl)
          rw [notes, format, String.toList_append]
          refine hinner.prepend ?_
          cases isMutable <;> by_cases hl : lifetime.isEmpty <;>
            simp [hl, slash_not_mem_withTick hlifetime]
      | rawPointer isMutable inner =>
          have hinner := hbelow inner (List.mem_singleton.2 rfl)
          rw [notes, format, String.toList_append]
          refine hinner.prepend ?_
          cases isMutable with
          | true =>
              simp
          | false =>
              simp
      | functionPointer inputs output =>
          have houtput := hbelow output (List.mem_append_right _ (List.mem_singleton.2 rfl))
          rw [notes, format]
          exact scattered_signature "fn("
            (by simp) (fun s hs => hbelow s (List.mem_append_left _ hs)) houtput
      | tuple elems =>
          have helems : ∀ s ∈ elems, Scattered s.notes.length s.format.toList := hbelow
          rw [notes, format]
          simpa using (scattered_list helems).enclosed ['('] [')'] (by simp) (by simp) (by simp)
      | slice inner =>
          have hinner := hbelow inner (List.mem_singleton.2 rfl)
          rw [notes, format]
          simpa using hinner.enclosed ['['] [']'] (by simp) (by simp) (by simp)
      | array inner length =>
          have hlength : '/' ∉ length.toList := hown length (List.mem_singleton.2 rfl)
          have hinner := hbelow inner (List.mem_singleton.2 rfl)
          have hback : '/' ∉ ("; " ++ (if length.isEmpty then "?" else length) ++ "]").toList := by
            split
            · simp
            · simpa using hlength
          rw [notes, format]
          simpa [String.append_assoc] using hinner.enclosed ['['] _ (by simp) hback (by simp)
      | traitObject isDyn bounds lifetime =>
          exact scattered_object isDyn hbelow (hown lifetime (List.mem_singleton.2 rfl))
      | binding name equals bounds =>
          have hname : '/' ∉ name.toList := hown name (List.mem_singleton.2 rfl)
          have hbounds : ∀ s ∈ bounds, Scattered s.notes.length s.format.toList :=
            fun s hs => hbelow s (List.mem_cons_of_mem equals hs)
          exact scattered_binding hname (hbelow equals (List.mem_cons_self ..)) hbounds

/-- Nothing is written as the empty text. -/
theorem format_ne_empty (t : TypeExpr) : t.format ≠ "" := by
  have hplaceholder : placeholder ≠ "" := by decide
  cases t with
  | absent | unknown raw =>
      exact hplaceholder
  | primitive name =>
      rw [format]
      split
      · exact hplaceholder
      · rename_i hname
        simpa using hname
  | path name args parenthesized output =>
      rw [format]
      split
      · exact hplaceholder
      · rename_i hname
        have hne : name ≠ "" := by simpa using hname
        split
        · simp [hne]
        · split
          · exact hne
          · simp [hne]
  | traitObject isDyn bounds lifetime =>
      rw [format]
      split
      · exact hplaceholder
      · cases isDyn with
        | true =>
            simp
        | false =>
            simp
  | binding name equals bounds =>
      rw [format]
      split
      · exact hplaceholder
      · split
        · simp
        · split
          · exact hplaceholder
          · simp
  | rawPointer isMutable inner =>
      cases isMutable with
      | true =>
          simp [format]
      | false =>
          simp [format]
  | reference | functionPointer | tuple | slice | array =>
      simp [format]

/-! ## The nodes that are reached -/

/-- The parts of a node that are written.  A node without its name is given up with all its parts,
only a parenthesized path has a result, and an associated type that is fixed shows no bounds. -/
def shown : TypeExpr → List TypeExpr
  | .path name args parenthesized output =>
      if name.isEmpty then []
        else args ++ if parenthesized && !output.isAbsent then [output] else []
  | .functionPointer inputs output => inputs ++ if output.isAbsent then [] else [output]
  | .binding name equals bounds =>
      if name.isEmpty then [] else if equals.isAbsent then bounds else [equals]
  | t => t.children

theorem mem_children_of_mem_shown {s t : TypeExpr} (h : s ∈ t.shown) : s ∈ t.children := by
  cases t with
  | path name args parenthesized output =>
      rw [shown] at h
      split at h
      · cases h
      · rcases List.mem_append.1 h with hs | hs
        · exact List.mem_append_left _ hs
        · split at hs
          · exact List.mem_append_right _ hs
          · cases hs
  | functionPointer inputs output =>
      rcases List.mem_append.1 h with hs | hs
      · exact List.mem_append_left _ hs
      · split at hs
        · cases hs
        · exact List.mem_append_right _ hs
  | binding name equals bounds =>
      rw [shown] at h
      split at h
      · cases h
      · split at h
        · exact List.mem_cons_of_mem equals h
        · rw [List.mem_singleton.1 h]
          exact List.mem_cons_self ..
  | _ =>
      exact h

/-- The nodes that the writer comes to, in the order of the text. -/
def reached (t : TypeExpr) : List TypeExpr :=
  t :: t.shown.attach.flatMap fun s => reached s.1
termination_by sizeOf t
decreasing_by
  exact sizeOf_lt_of_mem_children (mem_children_of_mem_shown s.2)

theorem reached_eq (t : TypeExpr) : t.reached = t :: t.shown.flatMap reached := by
  have hparts : (t.shown.attach.flatMap fun s => reached s.1) = t.shown.flatMap reached := by
    rw [← List.flatMap_map, List.attach_map_subtype_val]
  rw [reached, hparts]

/-- What keeps a node from being written. -/
def gap? : TypeExpr → Option Gap
  | .absent => some .absent
  | .primitive name => if name.isEmpty then some .namelessPrimitive else none
  | .path name _ _ _ => if name.isEmpty then some .namelessPath else none
  | .traitObject _ bounds lifetime =>
      if bounds.isEmpty && lifetime.isEmpty then some .boundlessObject else none
  | .binding name equals bounds =>
      if name.isEmpty then some .namelessBinding
      else if equals.isAbsent && bounds.isEmpty then some .openBinding
      else none
  | .unknown raw => some (.unrecognised raw)
  | _ => none

/-- The notes are the gaps of the nodes that are reached. -/
theorem notes_eq_filterMap (t : TypeExpr) : t.notes = t.reached.filterMap gap? := by
  induction t using childwise with
  | step t ih =>
      have hshown : t.shown.flatMap (fun s => s.reached.filterMap gap?) = t.shown.flatMap notes :=
        List.flatMap_congr fun s hs => (ih s (mem_children_of_mem_shown hs)).symm
      rw [reached_eq, List.filterMap_cons, List.filterMap_flatMap, hshown]
      cases t with
      | absent | unknown raw =>
          rfl
      | primitive name =>
          rw [notes, gap?]
          split
          · rfl
          · rfl
      | path name args parenthesized output =>
          simp only [notes, gap?, shown, notesOfAll_eq_flatMap]
          by_cases hname : name.isEmpty
          · simp [hname]
          · cases parenthesized <;> cases hout : output.isAbsent <;> simp [hname]
      | functionPointer inputs output =>
          simp only [notes, gap?, shown, notesOfAll_eq_flatMap]
          cases hout : output.isAbsent <;> simp
      | traitObject isDyn bounds lifetime =>
          simp only [notes, gap?, shown, children, notesOfAll_eq_flatMap]
          split
          · rename_i hnone
            have hbounds : bounds = [] := by simpa using (Bool.and_eq_true_iff.1 hnone).1
            rw [hbounds]
            rfl
          · rfl
      | binding name equals bounds =>
          simp only [notes, gap?, shown, notesOfAll_eq_flatMap]
          by_cases hname : name.isEmpty
          · simp [hname]
          · cases hequals : equals.isAbsent <;> cases hbounds : bounds.isEmpty <;> simp_all
      | tuple elems =>
          exact notesOfAll_eq_flatMap elems
      | reference _ _ inner | rawPointer _ inner | slice inner | array inner _ =>
          simp [notes, shown, gap?, children]

/-! ## The log -/

/-- The log entries of a type that is written. -/
def log (t : TypeExpr) : List Record :=
  t.notes.map RustdocRun.gapRecord

/-- The warning about a node whose source has a shape that is not recognised. -/
def warning? : TypeExpr → Option Record
  | .unknown raw =>
      if raw = "" ∨ raw = "\x7b\x7d" then none
      else
        some
          { level := .warn
            message := "formatting unknown type"
            attributes := [("reason", .text "unrecognised type shape"), ("raw", .text raw)] }
  | _ => none

theorem warning?_eq (u : TypeExpr) :
    ((gap? u).map RustdocRun.gapRecord).filter (fun r => r.level = .warn) = warning? u := by
  cases u with
  | unknown raw =>
      by_cases hquiet : raw = "" ∨ raw = "\x7b\x7d"
      · rcases hquiet with rfl | rfl
        · decide
        · decide
      · rcases not_or.1 hquiet with ⟨hempty, hbraces⟩
        simp [gap?, warning?, RustdocRun.gapRecord, Gap.isQuiet, Gap.reason?, hempty, hbraces]
  | primitive name | path name _ _ _ | traitObject _ bounds lifetime =>
      rw [gap?]
      split
      · rfl
      · rfl
  | binding name equals bounds =>
      rw [gap?]
      split
      · rfl
      · split
        · rfl
        · rfl
  | absent | reference | rawPointer | functionPointer | tuple | slice | array =>
      rfl

/-- Every type is written as some text.  As long as no name, lifetime or length has a slash, the
text has a placeholder for each entry of the log, and the warnings are those about the nodes reached
whose source was not recognised. -/
theorem format_accounted (t : TypeExpr) :
    t.format ≠ "" ∧
      (t.Everywhere IsSlashless →
        occurrences placeholder.toList t.format.toList = t.log.length) ∧
      t.log.filter (fun r => r.level = .warn) = t.reached.filterMap warning? := by
  refine ⟨format_ne_empty t, ?_, ?_⟩
  · intro h
    rw [log, List.length_map]
    exact (scattered_format h).count
  · rw [log, notes_eq_filterMap, List.map_filterMap, List.filter_filterMap]
    exact List.filterMap_congr fun u _ => warning?_eq u

/-- Inputs that are missing, have no name, are of an unknown shape and of no shape at all. -/
theorem format_accounted_inputs :
    (functionPointer [.absent, .primitive "", .unknown "\x7b\"pat\":1\x7d", .unknown "\x7b\x7d"]
        .absent).Everywhere IsSlashless ∧
      occurrences placeholder.toList
        (functionPointer [.absent, .primitive "", .unknown "\x7b\"pat\":1\x7d", .unknown "\x7b\x7d"]
          .absent).format.toList = 4 := by
  have hslashless : (functionPointer
      [.absent, .primitive "", .unknown "\x7b\"pat\":1\x7d", .unknown "\x7b\x7d"]
        .absent).Everywhere
      IsSlashless := by
    refine everywhere_iff.2 ⟨by simp [IsSlashless, ownTexts], fun s hs => ?_⟩
    -- all inputs are leaves, and the only name among them is empty
    refine everywhere_leaf ?_ ?_
    · revert s
      simp [children]
    · revert s
      simp [children, IsSlashless, ownTexts]
  exact ⟨hslashless, (format_accounted _).2.1 hslashless⟩

end TypeExpr
end ApiPages
