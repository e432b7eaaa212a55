import ApiPages.Proofs.Archive.Layout
import ApiPages.Proofs.Files.Patterns
import ApiPages.Proofs.Tool.Emission

/-!
# Graph files and how they are documented

A graph file is named after the target whose graph it holds.  When it is documented later its name
is all that is left, and a name may be that of several targets: the library's own names come first.

* `RustdocSettings.IsCopy` are the paths under which a graph file can be met again;
* `RustdocSettings.graphStem_of_isCopy` reads the stem off each of them;
* `RustdocSettings.modeOfFile_eq_executable_iff` says which stems are those of an executable;
* `RustdocSettings.modeOfFile_copy` puts this together for the two paths of a target.
-/

namespace ApiPages

open SlashPath

/-! ## Names of graph files -/

theorem Target.slash_not_mem_stem {t : Target} (h : t.isBinary = true → '/' ∉ t.name.toList) :
    '/' ∉ t.stem.toList := by
  unfold stem
  split
  · next hbinary =>
      have hform : (fileForm t.name).toList = t.name.toList.map fun c => if c = '-' then '_'
          else c := by
        rw [fileForm, Text.replaced, String.toList_ofList]
        exact Text.replaceAll_single '-' '_' t.name.toList
      rw [hform, List.mem_map]
      rintro ⟨c, hc, heq⟩
      split at heq
      · cases heq
      · exact h hbinary (heq ▸ hc)
  · decide

namespace RustdocSettings

/-- The paths under which a file can be met again: the one it had, or its name in the working
directory or in any other one, each of them as it is or with the ending of a packed file. -/
def IsCopy (original path : String) : Prop :=
  ∃ suffix ∈ ["", ".zst"], path = original ++ suffix ∨ path = base original ++ suffix ∨
    ∃ dir, path = dir ++ "/" ++ base original ++ suffix

/-- The path of a graph file with the given stem. -/
def graphPath (c : Crate) (stem : String) : String :=
  join [c.docDir, stem ++ ".json"]

variable {c : Crate} {s : RustdocSettings} {t : Target} {stem path : String}

theorem base_of_isCopy (h : '/' ∉ stem.toList) (hcopy : IsCopy (graphPath c stem) path) :
    base path = stem ++ ".json" ∨ base path = stem ++ ".json" ++ ".zst" := by
  have hdir : c.docDir ≠ "" := by
    have hclean : IsClean c.docDir :=
      isClean_join (List.mem_cons_of_mem _ List.mem_cons_self) (by decide)
    exact hclean.ne_empty
  have hname : IsName (stem ++ ".json").toList := Crate.isName_json h
  have hbase : base (graphPath c stem) = stem ++ ".json" := Glob.base_join hdir hname
  have hpath := Glob.toList_join hdir hname
  rcases hcopy with ⟨suffix, hsuffix, hplace⟩
  have hslash : '/' ∉ (stem ++ ".json" ++ suffix).toList := by
    have hnone : '/' ∉ suffix.toList := by
      rcases List.mem_pair.1 hsuffix with rfl | rfl <;> decide
    simpa [hnone] using h
  have hne : stem ++ ".json" ++ suffix ≠ "" := by
    intro hempty
    have hlength := congrArg (fun s : String => s.toList.length) hempty
    simp at hlength
  -- wherever the file is, its path ends in its name behind a slash or nothing
  have hfile : base path = stem ++ ".json" ++ suffix := by
    rcases hplace with rfl | rfl | ⟨dir, rfl⟩
    · refine Glob.base_eq ?_ (getLast?_front (isRooted c.docDir) (elements c.docDir)) hne hslash
      rw [String.toList_append, graphPath, hpath, List.append_assoc, ← String.toList_append]
    · rw [hbase]
      exact Glob.base_eq (List.nil_append _).symm (.inr rfl) hne hslash
    · rw [hbase]
      have hbehind : (dir ++ "/" ++ (stem ++ ".json") ++ suffix).toList =
          (dir.toList ++ ['/']) ++ (stem ++ ".json" ++ suffix).toList := by
        simp
      exact Glob.base_eq hbehind (.inl List.getLast?_concat) hne hslash
  rcases List.mem_pair.1 hsuffix with rfl | rfl
  · exact .inl (hfile.trans String.append_empty)
  · exact .inr hfile

/-- The stem of a graph file can be read off all its copies. -/
theorem graphStem_of_isCopy (h : '/' ∉ stem.toList) (hcopy : IsCopy (graphPath c stem) path) :
    graphStem path = stem := by
  have hplain : Text.endsWith (stem ++ ".json") ".zst" = false := by
    rw [Bool.eq_false_iff]
    intro hends
    rcases Text.endsWith_iff.1 hends with ⟨front, hfront⟩
    have hlast := congrArg (fun s : String => s.toList.getLast?) hfront
    simp at hlast
  unfold graphStem
  rcases base_of_isCopy h hcopy with hbase | hbase
  · rw [hbase, Text.cutSuffix_of_not_endsWith hplain, Text.cutSuffix_append]
  · rw [hbase, Text.cutSuffix_append, Text.cutSuffix_append]

/-! ## Modes -/

theorem modeOfFile_eq_executable_iff : s.modeOfFile path = .executable ↔
    graphStem path ≠ s.graphName ∧ graphStem path ≠ s.graphName ++ "_lib" ∧
      ∃ t ∈ s.targets, t.isBinary = true ∧
        (graphStem path = t.stem ∨ graphStem path = s.graphName ++ "_" ++ t.stem) := by
  have hnames : s.targets.any (s.namesTarget (graphStem path)) = true ↔
    ∃ t ∈ s.targets, t.isBinary = true ∧
      (graphStem path = t.stem ∨ graphStem path = s.graphName ++ "_" ++ t.stem) := by
    simp [namesTarget]
  rw [← hnames, modeOfFile]
  by_cases hlibrary : graphStem path = s.graphName ∨ graphStem path = s.graphName ++ "_lib"
  · rw [if_pos (by simpa using hlibrary)]
    refine iff_of_false (fun heq => (nomatch heq)) fun hall => ?_
    exact hlibrary.elim hall.1 hall.2.1
  · rw [if_neg (by simpa using hlibrary)]
    rw [not_or] at hlibrary
    cases s.targets.any (s.namesTarget (graphStem path)) with
    | true =>
        exact iff_of_true rfl ⟨hlibrary.1, hlibrary.2, rfl⟩
    | false =>
        exact iff_of_false (fun heq => (nomatch heq)) fun hall => (nomatch hall.2.2)

theorem modeOfFile_eq_library_iff :
    s.modeOfFile path = .library ↔ s.modeOfFile path ≠ .executable := by
  cases s.modeOfFile path <;> simp

/-- A graph that is kept for a target is documented as the target is, wherever the file is and
whether it is packed or not, unless a binary's graph is kept under the name of the library's.  A
graph that is where it was emitted is documented as an executable just if it is that of a binary
that has none of the library's names. -/
theorem modeOfFile_copy (ht : t ∈ s.targets) (hgraph : '/' ∉ s.graphName.toList)
    (hname : t.isBinary = true → '/' ∉ t.name.toList) :
    ((t.isBinary = true → t.stem ≠ "lib") →
      ∀ path, IsCopy (s.crate.keptPath t) path → s.modeOfFile path = t.mode) ∧
    ∀ path, IsCopy (s.crate.emittedPath t) path → (s.modeOfFile path = .executable ↔
      t.isBinary = true ∧ t.stem ≠ s.graphName ∧ t.stem ≠ s.graphName ++ "_lib") := by
  have hstem : '/' ∉ t.stem.toList := Target.slash_not_mem_stem hname
  constructor
  · intro hlib path hcopy
    have hkept : '/' ∉ (s.graphName ++ "_" ++ t.stem).toList := by
      simp [hgraph, hstem]
    have hfound : graphStem path = s.graphName ++ "_" ++ t.stem :=
      graphStem_of_isCopy (c := s.crate) hkept hcopy
    have hself : s.graphName ++ "_" ++ t.stem = s.graphName ++ "_lib" ↔ t.stem = "lib" := by
      have hsplit : "_lib" = "_" ++ "lib" := by decide
      rw [hsplit, ← String.append_assoc, String.append_right_inj]
    unfold Target.mode
    cases hbinary : t.isBinary with
    | true =>
        rw [if_pos rfl, modeOfFile_eq_executable_iff, hfound]
        refine ⟨fun heq => ?_, fun heq => hlib hbinary (hself.1 heq), t, ht, hbinary, .inr rfl⟩
        -- the name of the crate's own graph is shorter
        have hlength := congrArg (fun s : String => s.toList.length) heq
        simp at hlength
    | false =>
        have hnone : t.stem = "lib" := by
          rw [Target.stem, hbinary, if_neg Bool.false_ne_true]
        rw [if_neg Bool.false_ne_true, modeOfFile_eq_library_iff, Ne,
          modeOfFile_eq_executable_iff, hfound]
        exact fun hall => hall.2.1 (hself.2 hnone)
  · intro path hcopy
    cases hbinary : t.isBinary with
    | true =>
        rw [Crate.emittedPath, hbinary, if_pos rfl] at hcopy
        rw [modeOfFile_eq_executable_iff, graphStem_of_isCopy (c := s.crate) hstem hcopy]
        exact ⟨fun hall => ⟨rfl, hall.1, hall.2.1⟩,
          fun hall => ⟨hall.2.1, hall.2.2, t, ht, hbinary, .inl rfl⟩⟩
    | false =>
        rw [Crate.emittedPath, hbinary, if_neg Bool.false_ne_true] at hcopy
        rw [modeOfFile_eq_executable_iff, graphStem_of_isCopy (c := s.crate) hgraph hcopy]
        exact iff_of_false (fun hall => hall.1 rfl) fun hall => Bool.false_ne_true hall.1

/-- An engine whose binary is named like the crate. -/
def engine : RustdocSettings where
  crateDir := "engine"
  crateName := "engine"
  graphName := "pai_engine"
  targets := [.library, .binary "pai-engine"]

theorem modeOfFile_copy_engine :
    .binary "pai-engine" ∈ engine.targets ∧ '/' ∉ engine.graphName.toList ∧
      '/' ∉ "pai-engine".toList ∧
      (Target.binary "pai-engine").stem ≠ "lib" ∧
      engine.modeOfFile "graphs/pai_engine_pai_engine.json.zst" = .executable ∧
      engine.modeOfFile "engine/target/doc/pai_engine.json" ≠ .executable := by
  have ht : .binary "pai-engine" ∈ engine.targets := by
    decide
  have hgraph : '/' ∉ engine.graphName.toList := by
    decide
  have hname : '/' ∉ "pai-engine".toList := by
    decide
  have hlib : (Target.binary "pai-engine").stem ≠ "lib" := by
    decide
  have hboth := modeOfFile_copy ht hgraph fun _ => hname
  have hkept : IsCopy (engine.crate.keptPath (.binary "pai-engine"))
      "graphs/pai_engine_pai_engine.json.zst" :=
    ⟨".zst", by simp, .inr (.inr ⟨"graphs", by decide +kernel⟩)⟩
  have hemitted : IsCopy (engine.crate.emittedPath (.binary "pai-engine"))
      "engine/target/doc/pai_engine.json" :=
    ⟨"", by simp, .inl (by decide +kernel)⟩
  refine ⟨ht, hgraph, hname, hlib, hboth.1 (fun _ => hlib) _ hkept, fun hexecutable => ?_⟩
  exact absurd ((hboth.2 _ hemitted).1 hexecutable).2.1 (by decide +kernel)

end RustdocSettings
end ApiPages
