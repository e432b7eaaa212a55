import ApiPages.Proofs.Archive.Frames
import ApiPages.Proofs.Archive.Runs
import ApiPages.Proofs.Run.Actions
import ApiPages.Proofs.Text.Blank
import ApiPages.Proofs.Text.Bytes
import ApiPages.Run.Rustdoc

/-!
# What can be relied on

Reading an archive after any row of operations, and archiving and fetching the graphs of targets.

* `Archive.Reliable` is the list of promises, `Archive.IsFresh.reliable` keeps them;
* `RustdocRun.store_eq` says that archiving a graph is writing it and pointing the target's
  name at it.
-/

namespace ApiPages

open SlashPath FileTree

namespace Archive

variable {packing : Packing} {dir : String} {t t' : FileTree} {ops : List Operation} {p : Place}
  {b : Bytes}

/-! ## Reading -/

/-- Digits and a line end are read as the bytes that they were written as. -/
theorem text_ofText_line {digest : String} (h : Digest.isValid digest = true) :
    Bytes.text (.ofText (digest ++ "\n")) = digest ++ "\n" := by
  refine Bytes.text_ofText fun c hc => ?_
  rw [String.toList_append, List.mem_append] at hc
  rcases hc with hc | hc
  · have hrange := Text.range_of_isHexDigit ((Digest.isValid_iff.1 h).2 c hc)
    rw [Bytes.isStray, decide_eq_false_iff_not]
    omega
  · rw [List.mem_singleton.1 hc]
    rfl

/-- A stored digest ends its line, and is read without it. -/
theorem strip_line {digest : String} (h : Digest.isValid digest = true) :
    Text.strip (digest ++ "\n") = digest := by
  rcases Digest.isValid_iff.1 h with ⟨hlength, hdigits⟩
  have hblank : ∀ c ∈ digest.toList, Text.isBlank c = false :=
    fun c hc => Text.isBlank_of_isHexDigit (hdigits c hc)
  -- a digest has a first and a last digit, between which nothing is stripped
  cases hlist : digest.toList with
  | nil =>
      rw [hlist] at hlength
      cases hlength
  | cons c rest =>
      rcases List.eq_nil_or_concat' rest with rfl | ⟨mid, last, rfl⟩
      · rw [hlist] at hlength
        cases hlength
      · rw [hlist] at hblank
        have hfirst : Text.isBlank c = false := hblank c (by simp)
        have hlast : Text.isBlank last = false := hblank last (by simp)
        have hnewline : ∀ d ∈ ['\n'], Text.isBlank d = true := by
          intro d hd
          rw [List.mem_singleton.1 hd]
          decide
        refine String.toList_inj.1 ?_
        calc
          (Text.strip (digest ++ "\n")).toList = Text.trim (digest.toList ++ ['\n']) := by
            rw [Text.strip, String.toList_ofList, String.toList_append]
            rfl
          _ = Text.trim (c :: (mid ++ [last])) := by
            rw [hlist]
            exact Text.trim_append_right hnewline hfirst _
          _ = c :: (mid ++ [last]) := Text.trim_of_ends mid hfirst hlast
          _ = digest.toList := hlist.symm

theorem isValid_of_latest? {n : RefName} {digest : String} (h : latest? ops n = some digest) :
    Digest.isValid digest = true := by
  rcases List.exists_of_findSome?_eq_some h with ⟨op, -, hop⟩
  cases op with
  | tag m digest' =>
      rw [Operation.pointed?] at hop
      split at hop
      · next hboth =>
          cases hop
          exact hboth.2
      · cases hop
  | write content =>
      cases hop
  | read digest' =>
      cases hop
  | resolve m =>
      cases hop

/-- A content that is stored is read back. -/
theorem Matches.get_eq (h : Matches packing dir ops t) (hpacking : packing.IsLossless)
    {content : Bytes} (hwritten : .write content ∈ ops) :
    get packing dir t (Digest.ofBytes content) = .ok content := by
  have hvalid := Digest.isValid_ofBytes content
  have hholds := h.holds _ _ (.content hwritten)
  rw [← ofPath_contentPath dir hvalid] at hholds
  rw [get, hvalid, (read_eq_ok_iff (isClean_contentPath dir hvalid)).2 hholds]
  dsimp only
  rw [hpacking content]
  rfl

/-- A content that is stored is not stored again. -/
theorem Matches.put_again (h : Matches packing dir ops t) {content : Bytes}
    (hwritten : .write content ∈ ops) :
    put packing dir t content = .ok (t, Digest.ofBytes content) := by
  rcases h.put_eq content with ⟨t', hput, ⟨-, rfl⟩ | ⟨hnew, -⟩⟩
  · exact hput
  · exact absurd (.content hwritten) (hnew _)

/-- A name is read as the digest it was last pointed at, and is unknown before that. -/
theorem Matches.resolve_eq_ok_iff (h : Matches packing dir ops t) {n : RefName} (hn : n.IsPlain)
    {digest : String} : resolve dir t n.text = .ok digest ↔ latest? ops n = some digest := by
  have hclean := isClean_namePath dir hn
  -- there is a file for the name exactly when it was pointed at something, and it says at what
  have hread : ∀ b, t.read (namePath dir n.text) = .ok b ↔
      ∃ digest, latest? ops n = some digest ∧ b = .ofText (digest ++ "\n") := by
    intro b
    rw [read_eq_ok_iff hclean, ofPath_namePath dir hn, h.holds_iff (.name hn), stores_tail_iff hn]
  have hresolve : ∀ b, t.read (namePath dir n.text) = .ok b → resolve dir t n.text =
      if Digest.isValid (Text.strip (Bytes.text b)) then .ok (Text.strip (Bytes.text b))
      else .error (.invalidDigest (some n.text) (Text.strip (Bytes.text b))) := by
    intro b hb
    unfold resolve
    rw [hb, doing_ok]
    dsimp only [bind, Except.bind]
    rfl
  constructor
  · intro hok
    cases hb : t.read (namePath dir n.text) with
    | error e =>
        unfold resolve at hok
        rw [hb] at hok
        cases hok
    | ok b =>
        rcases (hread b).1 hb with ⟨digest', hlatest, rfl⟩
        have hvalid := isValid_of_latest? hlatest
        rw [hresolve _ hb, text_ofText_line hvalid, strip_line hvalid, if_pos hvalid] at hok
        rw [hlatest, Except.ok.inj hok]
  · intro hlatest
    have hvalid := isValid_of_latest? hlatest
    rw [hresolve _ ((hread _).2 ⟨digest, hlatest, rfl⟩), text_ofText_line hvalid, strip_line hvalid,
      if_pos hvalid]

end Archive

/-! ## Archiving the graphs of targets -/

namespace RustdocRun

variable {packing : Packing} {s : Settings} {target : Target} {w : Workspace} {path : String}
  {b : Bytes}

/-- Archiving a graph changes the files as storing it does, and leaves the archive's directory. -/
theorem run_archive (hread : w.files.read path = .ok b) :
    ((archive s target path).run w).2.files =
        (store w.formats.packing s target w.environment.archiveDir w.files b).1 ∧
      ((archive s target path).run w).2.environment = w.environment := by
  rcases hstored : store w.formats.packing s target w.environment.archiveDir w.files b with
    ⟨files, result⟩
  unfold archive
  rw [Action.run_bind, Action.run_get]
  dsimp only
  rw [hread]
  dsimp only
  rw [hstored]
  dsimp only
  rw [Action.run_bind, Action.run_setFiles]
  cases result with
  | error e =>
      dsimp only
      rw [Action.run_record]
      exact ⟨rfl, rfl⟩
  | ok digest =>
      dsimp only
      rw [Action.run_record]
      exact ⟨rfl, rfl⟩

/-- The operations by which the graph of a target is archived. -/
def archiving (n : RefName) (data : Bytes) : List Archive.Operation :=
  [.write data, .tag n (Digest.ofBytes data)]

/-- Storing a graph is writing it and pointing the target's name at it. -/
theorem store_eq {dir : String} {t : FileTree} {ops : List Archive.Operation}
    (h : Archive.Matches packing dir ops t) {n : RefName} (hn : n.IsPlain)
    (hname : archiveName s target = n.text) {data : Bytes}
    (hdistinct : Archive.Distinct (ops ++ [.write data])) :
    store packing s target dir t data =
      (Archive.runAll packing dir t (archiving n data), .ok (Digest.ofBytes data)) := by
  have hplain : (Archive.Operation.write data).IsPlain := trivial
  have hwritten := h.after_step hplain hdistinct
  rcases h.put_eq data with ⟨t₁, hput, -⟩
  have hstep : Archive.step packing dir t (.write data) = t₁ := by
    rw [Archive.step, hput]
  rw [hstep] at hwritten
  rcases hwritten.tag_eq hn (Digest.isValid_ofBytes data) with ⟨t₂, htag, -⟩
  have htagged : Archive.step packing dir t₁ (.tag n (Digest.ofBytes data)) = t₂ := by
    rw [Archive.step, htag]
  have hrun : Archive.runAll packing dir t (archiving n data) = t₂ := by
    calc
      Archive.runAll packing dir t (archiving n data)
          = Archive.step packing dir (Archive.step packing dir t (.write data))
              (.tag n (Digest.ofBytes data)) := by
        simp only [Archive.runAll, archiving, List.foldl_cons, List.foldl_nil]
      _ = t₂ := by rw [hstep, htagged]
  rw [store, hput, hrun]
  dsimp only
  rw [hname, htag]

/-- The graph that was archived last is fetched. -/
theorem unarchive_eq {dir : String} {ops : List Archive.Operation}
    (h : Archive.Matches w.formats.packing dir ops w.files)
    (hpacking : w.formats.packing.IsLossless) (hdir : w.environment.archiveDir = dir) {n : RefName}
    (hn : n.IsPlain) (hname : archiveName s target = n.text) {data : Bytes}
    (hwritten : .write data ∈ ops) (hlatest : Archive.latest? ops n = some (Digest.ofBytes data)) :
    unarchive s target w = .ok data := by
  have hfound : (Archive.resolve dir w.files n.text).bind
      (Archive.get w.formats.packing dir w.files) = .ok data := by
    rw [(h.resolve_eq_ok_iff hn).2 hlatest]
    exact h.get_eq hpacking hwritten
  unfold unarchive
  rw [hdir, hname]
  dsimp only
  rw [hfound]

end RustdocRun

/-! ## Promises -/

namespace Archive

/-- What can be relied on in files that a row of operations has left. -/
structure Reliable (packing : Packing) (dir : String) (ops : List Operation) (t : FileTree) :
    Prop where
  /-- Every content can be stored, under its digest. -/
  stores : ∀ content, ∃ t', put packing dir t content = .ok (t', Digest.ofBytes content)
  /-- A content that was stored is read back, whatever has run since. -/
  reads : ∀ content, .write content ∈ ops → get packing dir t (Digest.ofBytes content) = .ok content
  /-- Storing a content again changes nothing. -/
  stores_again : ∀ content, .write content ∈ ops →
    put packing dir t content = .ok (t, Digest.ofBytes content)
  /-- Every name can be pointed at every digest. -/
  points : ∀ (n : RefName) digest, n.IsPlain → Digest.isValid digest = true →
    ∃ t', tag dir t n.text digest = .ok t'
  /-- A name stands for the digest at which it was pointed last. -/
  resolves : ∀ (n : RefName) digest, n.IsPlain →
    (resolve dir t n.text = .ok digest ↔ latest? ops n = some digest)
  /-- Pointing one name leaves every other one alone. -/
  resolves_others : ∀ (n m : RefName) pointed digest, n.IsPlain → m.IsPlain → m ≠ n →
    (resolve dir (step packing dir t (.tag m pointed)) n.text = .ok digest ↔
      resolve dir t n.text = .ok digest)
  /-- What is no digest is refused, and nothing changes. -/
  refuses : ∀ (n : RefName) digest, Digest.isValid digest = false →
    get packing dir t digest = .error (.invalidDigest none digest) ∧
      tag dir t n.text digest = .error (.invalidDigest none digest) ∧
      step packing dir t (.read digest) = t ∧ step packing dir t (.tag n digest) = t
  /-- Archiving the graph of a target is a write and a pointing, by which it becomes the latest. -/
  archives : ∀ s target (n : RefName) path b (w : Workspace), n.IsPlain →
    RustdocRun.archiveName s target = n.text → w.environment.archiveDir = dir →
    w.formats.packing = packing → w.files = t → t.read path = .ok b →
    Distinct (ops ++ [.write b]) →
    ((RustdocRun.archive s target path).run w).2.files =
      runAll packing dir t (RustdocRun.archiving n b)
  /-- The graph fetched for a target is the one that was archived last. -/
  fetches : ∀ s target (n : RefName) data before after (w : Workspace), n.IsPlain →
    RustdocRun.archiveName s target = n.text → w.environment.archiveDir = dir →
    w.formats.packing = packing → w.files = t →
    ops = before ++ RustdocRun.archiving n data ++ after →
    (∀ digest, .tag n digest ∈ after → Digest.isValid digest = false) →
    RustdocRun.unarchive s target w = .ok data

variable {packing : Packing} {dir : String} {t : FileTree} {ops : List Operation}

theorem latest?_append_of_quiet {n : RefName} {after : List Operation}
    (h : ∀ op ∈ after, op.pointed? n = none) : latest? (ops ++ after) n = latest? ops n := by
  induction after using List.reverseRecOn with
  | nil =>
      rw [List.append_nil]
  | append_singleton after op ih =>
      rw [← List.append_assoc, latest?_concat, h op (by simp)]
      exact ih fun op' hop' => h op' (List.mem_append_left _ hop')

theorem pointed?_eq_none {n : RefName} {op : Operation}
    (h : ∀ digest, op = .tag n digest → Digest.isValid digest = false) : op.pointed? n = none := by
  cases op with
  | tag m digest =>
      rw [Operation.pointed?, if_neg]
      rintro ⟨rfl, hvalid⟩
      rw [h digest rfl] at hvalid
      cases hvalid
  | write content =>
      rfl
  | read digest =>
      rfl
  | resolve m =>
      rfl

/-- The digest of the graph that was archived last is the latest of its name. -/
theorem latest?_archiving {n : RefName} {data : Bytes} {before after : List Operation}
    (h : ∀ digest, .tag n digest ∈ after → Digest.isValid digest = false) :
    latest? (before ++ RustdocRun.archiving n data ++ after) n = some (Digest.ofBytes data) := by
  have hquiet : ∀ op ∈ after, op.pointed? n = none := by
    intro op hop
    exact pointed?_eq_none fun digest heq => h digest (heq ▸ hop)
  have harchiving : before ++ RustdocRun.archiving n data =
      (before ++ [.write data]) ++ [.tag n (Digest.ofBytes data)] := by
    simp [RustdocRun.archiving]
  rw [latest?_append_of_quiet hquiet, harchiving, latest?_concat, Operation.pointed?,
    if_pos ⟨rfl, Digest.isValid_ofBytes data⟩]
  rfl

/-- An archive that starts empty can be relied on after every row of operations on contents whose
digests are different, if packing loses nothing. -/
theorem IsFresh.reliable (hfresh : IsFresh dir t) (hpacking : packing.IsLossless)
    (hplain : ∀ op ∈ ops, op.IsPlain) (hdistinct : Distinct ops) :
    Reliable packing dir ops (runAll packing dir t ops) := by
  have hmatches : Matches packing dir ops (runAll packing dir t ops) :=
    hfresh.matches_runAll hplain hdistinct
  constructor
  case stores =>
    intro content
    rcases hmatches.put_eq content with ⟨t', hput, -⟩
    exact ⟨t', hput⟩
  case reads =>
    intro content hwritten
    exact hmatches.get_eq hpacking hwritten
  case stores_again =>
    intro content hwritten
    exact hmatches.put_again hwritten
  case points =>
    intro n digest hn hvalid
    rcases hmatches.tag_eq hn hvalid with ⟨t', htag, -⟩
    exact ⟨t', htag⟩
  case resolves =>
    intro n digest hn
    exact hmatches.resolve_eq_ok_iff hn
  case resolves_others =>
    intro n m pointed digest hn hm hne
    have hwrites : Distinct (ops ++ [.tag m pointed]) := by
      intro c c' hc hc'
      exact hdistinct c c' (by simpa using hc) (by simpa using hc')
    have hquiet : (Operation.tag m pointed).pointed? n = none :=
      pointed?_eq_none fun digest heq => absurd (Operation.tag.inj heq).1 hne
    have hm' : (Operation.tag m pointed).IsPlain := hm
    -- one more step leaves files that match, and it does not count for the name
    rw [(hmatches.after_step hm' hwrites).resolve_eq_ok_iff hn, hmatches.resolve_eq_ok_iff hn,
      latest?_concat, hquiet]
    rfl
  case refuses =>
    intro n digest hinvalid
    have htag := tag_invalid dir (runAll packing dir t ops) n.text hinvalid
    refine ⟨get_invalid dir _ hinvalid, htag, rfl, ?_⟩
    rw [step, htag]
  case archives =>
    intro s target n path b w hn hname hdir hpacked hfiles hread hdistinct'
    rw [← hfiles] at hread
    rw [(RustdocRun.run_archive hread).1, hdir, hpacked, hfiles,
      RustdocRun.store_eq hmatches hn hname hdistinct']
  case fetches =>
    intro s target n data before after w hn hname hdir hpacked hfiles hops hafter
    rw [← hfiles, ← hpacked] at hmatches
    rw [← hpacked] at hpacking
    refine RustdocRun.unarchive_eq hmatches hpacking hdir hn hname ?_ ?_
    · rw [hops]
      simp [RustdocRun.archiving]
    · rw [hops]
      exact latest?_archiving hafter

theorem isFresh_empty (dir : String) : IsFresh dir {} := by
  have hnode : ∀ p b, ({} : FileTree).node? p ≠ some (.file b) := by
    intro p b hfile
    rw [node?] at hfile
    split at hfile <;> cases hfile
  refine ⟨fun q _ => hnode q, fun name rest hname => ?_⟩
  -- without entries only the root and the steps to the parent are there
  have hbase : (Place.ofPath dir ++ name :: rest).isBase = false := by
    have hparent : name ≠ ".." := by
      rintro rfl
      exact hname.2.2.1 rfl
    have hroot : name ≠ "/" := by
      rintro rfl
      exact hname.2.2.2 (List.mem_singleton_self _)
    rw [Place.isBase, Bool.or_eq_false_iff]
    refine ⟨beq_eq_false_iff_ne.2 fun heq => ?_, ?_⟩
    · have hmem : name ∈ ["/"] := heq ▸ List.mem_append_right _ (List.mem_cons_self ..)
      exact hroot (List.mem_singleton.1 hmem)
    · rw [List.all_append, List.all_cons, beq_eq_false_iff_ne.2 hparent, Bool.false_and,
        Bool.and_false]
  rw [node?, hbase]
  rfl

/-! ## A library and a binary -/

def appSettings : Settings where
  rustdoc := { crateName := "app" }

/-- The archive of a process without an environment. -/
def appArchive : String :=
  Environment.archiveDir []

/-- A graph, and bytes that are no text. -/
def oldGraph : Bytes := [0x7B, 0x7D]

def newGraph : Bytes := [0xFF, 0x00, 0x0A]

/-- The library is archived twice, then a binary with the graph that the library had at first. -/
def appRun : List Operation :=
  RustdocRun.archiving (.library "app") oldGraph ++
    RustdocRun.archiving (.library "app") newGraph ++
    RustdocRun.archiving (.binary "app" "cli") oldGraph

theorem distinct_appRun : Distinct appRun := by
  have hdigests : Digest.ofBytes oldGraph ≠ Digest.ofBytes newGraph := by decide +kernel
  have hcontents : ∀ c, .write c ∈ appRun → c = oldGraph ∨ c = newGraph := by
    intro c hc
    simp only [appRun, RustdocRun.archiving] at hc
    simp at hc
    rcases hc with hold | hnew | hold
    · exact .inl hold
    · exact .inr hnew
    · exact .inl hold
  intro c c' hc hc' hsame
  rcases hcontents c hc with rfl | rfl
  · rcases hcontents c' hc' with rfl | rfl
    · rfl
    · exact absurd hsame hdigests
  · rcases hcontents c' hc' with rfl | rfl
    · exact absurd hsame.symm hdigests
    · rfl

theorem reliable_appRun :
    get .stored appArchive (runAll .stored appArchive {} appRun) (Digest.ofBytes oldGraph) =
        .ok oldGraph ∧
      resolve appArchive (runAll .stored appArchive {} appRun) "app/bin:cli" =
        .ok (Digest.ofBytes oldGraph) ∧
      ∀ w : Workspace, w.environment = [] → w.formats.packing = .stored →
        w.files = runAll .stored appArchive {} appRun →
        RustdocRun.unarchive appSettings .library w = .ok newGraph := by
  have happ : RefName.IsWord "app" := by decide
  have hcli : RefName.IsWord "cli" := by decide
  have hbinary : (RefName.binary "app" "cli").IsPlain := ⟨happ, hcli⟩
  have hplain : ∀ op ∈ appRun, op.IsPlain := by
    simp [appRun, RustdocRun.archiving, Operation.IsPlain, RefName.IsPlain, happ, hcli]
  have hreliable :=
    IsFresh.reliable (isFresh_empty appArchive) Packing.stored_isLossless hplain distinct_appRun
  refine ⟨hreliable.reads oldGraph (by simp [appRun, RustdocRun.archiving]), ?_, ?_⟩
  · have hlatest : latest? (appRun ++ []) (.binary "app" "cli") = some (Digest.ofBytes oldGraph) :=
      latest?_archiving (by simp)
    rw [List.append_nil] at hlatest
    exact (hreliable.resolves (.binary "app" "cli") _ hbinary).2 hlatest
  · intro w hempty hpacked hfiles
    have hdir : w.environment.archiveDir = appArchive := by rw [hempty, appArchive]
    refine hreliable.fetches appSettings .library (.library "app") newGraph
      (RustdocRun.archiving (.library "app") oldGraph)
        (RustdocRun.archiving (.binary "app" "cli") oldGraph)
      w happ rfl hdir hpacked hfiles rfl ?_
    simp [RustdocRun.archiving]

end Archive
end ApiPages
