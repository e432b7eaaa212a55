import ApiPages.Proofs.Schema.Recognized
import ApiPages.Proofs.Schema.Undocumented
import ApiPages.Proofs.Text.Endings

/-!
# Reading back a written schema

Each line of the canonical text is a comment line or holds one statement, so the reader can be
followed item by item.  Between two items it holds what was written so far, has no block open and no
comment waiting.

* `Single` holds of every written statement, `Ended` of all but headers;
* `Reader.foldl_flatMap` is the induction: what one item adds, a row of items adds in order;
* `Schema.parse_print` says that a written schema is read back as it was.
-/

namespace ApiPages

open Recognize (Block)

/-! ## Written statements -/

namespace Statement

open Printer

theorem passes_name {s : String} (h : IsName s) : Passes s.toList :=
  passes_of_plain (List.all_eq_true.2 fun c hc => isPlain_of_isNamePart (h.2 c hc))

theorem head?_name {s : String} (h : IsName s) (rest : List Char) :
    ∃ c, (s.toList ++ rest).head? = some c ∧ Recognize.isNamePart c = true := by
  cases hs : s.toList with
  | nil =>
      exact absurd hs (Recognize.toList_ne_nil h.1)
  | cons c cs =>
      exact ⟨c, rfl, h.2 c (hs ▸ List.mem_cons_self ..)⟩

theorem passes_number {s : String} (h : IsNumber s) : Passes s.toList := by
  rcases h with hdigits | ⟨digits, hdigits, rfl⟩
  · exact passes_name (Recognize.isName_of_isDigits hdigits)
  · have hminus : Passes "-".toList := passes_of_plain (by decide)
    rw [String.toList_append]
    exact hminus.append (passes_name (Recognize.isName_of_isDigits hdigits))

theorem passes_type {s : String} (h : IsFieldType s) : Passes s.toList := by
  rcases h with ⟨hname, -⟩ | ⟨key, value, hkey, hvalue, rfl⟩
  · exact passes_name hname
  · have hopen : Passes "map<".toList := passes_of_plain (by decide)
    have hcomma : Passes ", ".toList := passes_of_plain (by decide)
    have hclose : Passes ">".toList := passes_of_plain (by decide)
    have hall :=
      (((hopen.append (passes_name hkey)).append hcomma).append (passes_name hvalue)).append hclose
    simpa only [String.toList_append] using hall

theorem ended_dialect {s : String} (h : IsQuotable s) : Ended (dialect s) := by
  have hpiece : Passes ("syntax = ".toList ++ quoted s) :=
    (passes_of_plain (by decide)).append (passes_quoted h)
  exact hpiece.ended rfl (show Recognize.isNamePart 's' = true by decide)

theorem ended_package {s : String} (h : IsName s) : Ended (package s) := by
  have hpiece : Passes ("package ".toList ++ s.toList) :=
    (passes_of_plain (by decide)).append (passes_name h)
  exact hpiece.ended rfl (show Recognize.isNamePart 'p' = true by decide)

theorem ended_importOf {s : String} (h : IsQuotable s) : Ended (importOf s) := by
  have hpiece : Passes ("import ".toList ++ quoted s) :=
    (passes_of_plain (by decide)).append (passes_quoted h)
  exact hpiece.ended rfl (show Recognize.isNamePart 'i' = true by decide)

theorem single_header {name : String} (h : IsWord name) (block : Block) :
    Single (Printer.header block name) := by
  have hname : Passes (name.toList ++ " ".toList) :=
    (passes_name (Recognize.isName_of_isWord h)).append (passes_of_plain (by decide))
  have hheader : ∀ word : List Char, word ++ ' ' :: name.toList ++ [' ', '\x7b'] =
      (word ++ " ".toList ++ (name.toList ++ " ".toList)) ++ ['\x7b'] := by
    intro word
    simp
  rw [Printer.header, hheader]
  cases block with
  | service | message | enum =>
      refine Passes.single (Passes.append (passes_of_plain (by decide)) hname) rfl
        (by decide) (.inr rfl)

theorem passes_payload {s : String} (h : IsName s) (streamed : Bool) :
    Passes (payload streamed s) := by
  cases streamed with
  | true =>
      exact (passes_of_plain (by decide)).append (passes_name h)
  | false =>
      exact passes_nil.append (passes_name h)

theorem ended_rpc {r : Rpc} (h : r.Printable) : Ended (Printer.rpc r) := by
  have hname : Passes ("rpc ".toList ++ r.name.toList) :=
    (passes_of_plain (by decide)).append (passes_name (Recognize.isName_of_isWord h.name))
  have hrequest :
      Passes ("(".toList ++ payload r.clientStreaming r.request ++ ") returns (".toList) :=
    ((passes_of_plain (by decide)).append (passes_payload h.request _)).append
      (passes_of_plain (by decide))
  have hresponse : Passes (payload r.serverStreaming r.response ++ ")".toList) :=
    (passes_payload h.response _).append (passes_of_plain (by decide))
  have hended := ((hname.append hrequest).append hresponse).ended rfl
    (show Recognize.isNamePart 'r' = true by decide)
  simpa [Printer.rpc] using hended

theorem passes_numbered {name number : String} (hname : IsWord name) (hnumber : IsNumber number) :
    Passes (name.toList ++ (" = ".toList ++ number.toList)) :=
  (passes_name (Recognize.isName_of_isWord hname)).append
    ((passes_of_plain (by decide)).append (passes_number hnumber))

theorem head?_type {s : String} (h : IsFieldType s) (rest : List Char) :
    ∃ c, (s.toList ++ rest).head? = some c ∧ Recognize.isNamePart c = true := by
  rcases h with ⟨hname, -⟩ | ⟨key, value, -, -, rfl⟩
  · exact head?_name hname rest
  · refine ⟨'m', ?_, by decide⟩
    rcases Recognize.exists_mapType_eq_cons key value with ⟨cs, hcs⟩
    rw [hcs]
    rfl

theorem passes_labels (f : MessageField) : Passes (labels f) := by
  unfold labels
  refine Passes.append ?_ ?_
  · split
    · exact passes_of_plain (by decide)
    · exact passes_nil
  · split
    · exact passes_of_plain (by decide)
    · exact passes_nil

/-- The first character belongs to a label, if there is one. -/
theorem head?_labels (f : MessageField) {body : List Char}
    (h : ∃ c, body.head? = some c ∧ Recognize.isNamePart c = true) :
    ∃ c, (labels f ++ body).head? = some c ∧ Recognize.isNamePart c = true := by
  rcases f with ⟨type, name, number, isRepeated, isOptional, docs⟩
  cases isRepeated with
  | true =>
      exact ⟨'r', rfl, by decide⟩
  | false =>
      cases isOptional with
      | true =>
          exact ⟨'o', rfl, by decide⟩
      | false =>
          exact h

theorem ended_field {f : MessageField} (h : f.Printable) : Ended (Printer.field f) := by
  have hnumbered := passes_numbered h.name (.inl h.number)
  have hbody : Passes
      (f.type.toList ++ (" ".toList ++ (f.name.toList ++ (" = ".toList ++ f.number.toList)))) :=
    (passes_type h.type).append ((passes_of_plain (by decide)).append hnumbered)
  have hfirst := head?_labels f (head?_type h.type (" ".toList ++
    (f.name.toList ++ (" = ".toList ++ f.number.toList))))
  rcases hfirst with ⟨c, hhead, hc⟩
  have hended := ((passes_labels f).append hbody).ended hhead hc
  simpa [Printer.field, numbered] using hended

theorem ended_value {v : EnumValue} (h : v.Printable) : Ended (Printer.value v) := by
  rcases head?_name (Recognize.isName_of_isWord h.name) (" = ".toList ++ v.number.toList) with
    ⟨c, hhead, hc⟩
  have hended := (passes_numbered h.name h.number).ended hhead hc
  simpa [Printer.value, numbered] using hended

end Statement

/-! ## Statements and items -/

namespace Reader

open Statement (Ended)

/-- A statement that ends in a semicolon opens and closes no block. -/
theorem statement_of_ended (r : Reader) {s : List Char} (h : Ended s) :
    (r.statement s).1 =
      match r.block with
      | none => if r.depth == 0 then r.declaration s else r
      | some block => (r.member block s).1 := by
  have hlast : s.getLast? = some ';' := h.last
  -- the last character tells it from a closing brace, and from the start of a block
  have hclose : (s == ['\x7d']) = false := by
    rw [beq_eq_false_iff_ne]
    rintro rfl
    simp at hlast
  cases hblock : r.block with
  | none =>
      simp [statement, inner, hclose, hlast, hblock]
  | some block =>
      simp [statement, inner, hclose, hlast, hblock]

/-- What one part adds, a row of parts adds in order. -/
theorem foldl_flatMap {α : Type} {parts : α → List (List Char)} (state : List α → Reader)
    {xs : List α}
    (hstep : ∀ seen, ∀ x ∈ xs, (parts x).foldl line (state seen) = state (seen ++ [x]))
    (seen : List α) : (xs.flatMap parts).foldl line (state seen) = state (seen ++ xs) := by
  induction xs generalizing seen with
  | nil =>
      simp
  | cons x xs ih =>
      have hx : (parts x).foldl line (state seen) = state (seen ++ [x]) :=
        hstep seen x (List.mem_cons_self ..)
      have hxs := ih (fun seen y hy => hstep seen y (List.mem_cons_of_mem x hy)) (seen ++ [x])
      rw [List.flatMap_cons, List.foldl_append, hx, hxs, List.append_assoc, List.singleton_append]

/-- An item is read when its header opens it and each of its members is added to it. -/
theorem foldl_item {α : Type} {block : Block} {name : String} {docs : List String} {ms : List α}
    {mdocs : α → List String} {stmt : α → List Char} {base : Schema} (state : List α → Schema)
    (hname : Printer.IsWord name) (hdocs : ∀ d ∈ docs, Printer.IsComment d)
    (hopen : ((Reader.mk base none 0 docs false).openBlock block name).1 =
      { schema := state [], block := some block, depth := 1 })
    (hmdocs : ∀ m ∈ ms, ∀ d ∈ mdocs m, Printer.IsComment d) (hended : ∀ m ∈ ms, Ended (stmt m))
    (hmember : ∀ seen, ∀ m ∈ ms,
      ((Reader.mk (state seen) (some block) 1 (mdocs m) false).member block (stmt m)).1 =
        { schema := state (seen ++ [m]), block := some block, depth := 1 }) :
    (Printer.documented [] docs (Printer.header block name) ++ Printer.members mdocs stmt ms ++
      [Printer.closing]).foldl line { schema := base } = { schema := state ms } := by
  have hheader : (Printer.documented [] docs (Printer.header block name)).foldl line
    { schema := base } =
      { schema := state [], block := some block, depth := 1 } := by
    -- the header is no closing brace and opens a block at top level
    have hlast : (Printer.header block name).getLast? = some '\x7b' := by
      rw [Printer.header, List.getLast?_append]
      rfl
    have hclose : (Printer.header block name == ['\x7d']) = false := by
      rw [beq_eq_false_iff_ne]
      intro h
      rw [h] at hlast
      simp at hlast
    rw [foldl_line_documented (fun _ => rfl) hdocs (Statement.single_header hname block) rfl,
      ← hopen]
    simp [statement, hclose, hlast, Recognize.header?_print hname]
  have hmembers : (Printer.members mdocs stmt ms).foldl line
      { schema := state [], block := some block, depth := 1 } =
      { schema := state ms, block := some block, depth := 1 } := by
    refine foldl_flatMap
      (fun seen => { schema := state seen, block := some block, depth := 1 }) ?_ []
    intro seen m hm
    -- its comment lines are pending when the statement is read, and the member takes them
    rw [foldl_line_documented trim_indent (hmdocs m hm) (hended m hm).toSingle rfl,
      statement_of_ended _ (hended m hm)]
    exact hmember seen m hm
  have hclosing : line { schema := state ms, block := some block, depth := 1 } Printer.closing =
      { schema := state ms } :=
    line_of_single Statement.single_closing rfl rfl
  rw [List.foldl_append, List.foldl_append, hheader, hmembers]
  exact hclosing

/-! ### Services, messages and enums -/

theorem foldl_service {s : Service} (h : s.Printable) (base : Schema) :
    (Printer.service s).foldl line { schema := base } =
      { schema := { base with services := base.services ++ [s] } } := by
  refine foldl_item
    (fun seen => { base with services := base.services ++ [{ s with rpcs := seen }] })
    h.name h.docs rfl (fun r hr => (h.rpcs r hr).docs)
      (fun r hr => Statement.ended_rpc (h.rpcs r hr)) ?_
  intro seen r hr
  simp [member, Recognize.rpc?_print (h.rpcs r hr), modifyLast_append_singleton]

theorem foldl_message {m : Message} (h : m.Printable) (base : Schema) :
    (Printer.message m).foldl line { schema := base } =
      { schema := { base with messages := base.messages ++ [m] } } := by
  refine foldl_item
    (fun seen => { base with messages := base.messages ++ [{ m with fields := seen }] })
    h.name h.docs rfl (fun f hf => (h.fields f hf).docs)
      (fun f hf => Statement.ended_field (h.fields f hf)) ?_
  intro seen f hf
  simp [member, Recognize.field?_print (h.fields f hf), modifyLast_append_singleton]

theorem foldl_enum {e : EnumDecl} (h : e.Printable) (base : Schema) :
    (Printer.enum e).foldl line { schema := base } =
      { schema := { base with enums := base.enums ++ [e] } } := by
  refine foldl_item (fun seen => { base with enums := base.enums ++ [{ e with values := seen }] })
    h.name h.docs rfl (fun v hv => (h.values v hv).docs)
      (fun v hv => Statement.ended_value (h.values v hv)) ?_
  intro seen v hv
  simp [member, Recognize.enumValue?_print (h.values v hv), modifyLast_append_singleton]

/-! ### Declarations -/

theorem line_dialect {s : String} (h : Printer.IsQuotable s) (base : Schema) :
    line { schema := base } (Printer.dialect s) = { schema := { base with dialect := s } } := by
  have hended := Statement.ended_dialect h
  rw [line_of_single hended.toSingle rfl rfl, statement_of_ended _ hended]
  simp [declaration, Recognize.dialect?_print h]

theorem line_package {s : String} (h : Printer.IsName s) (base : Schema) :
    line { schema := base } (Printer.package s) = { schema := { base with package := s } } := by
  have hended := Statement.ended_package h
  have hdialect : Recognize.dialect? (Printer.package s) = none := rfl
  rw [line_of_single hended.toSingle rfl rfl, statement_of_ended _ hended]
  simp [declaration, hdialect, Recognize.package?_print h]

theorem line_importOf {s : String} (h : Printer.IsQuotable s) (base : Schema) :
    line { schema := base } (Printer.importOf s) =
      { schema := { base with imports := base.imports ++ [s] } } := by
  have hended := Statement.ended_importOf h
  have hdialect : Recognize.dialect? (Printer.importOf s) = none := rfl
  have hpackage : Recognize.package? (Printer.importOf s) = none := rfl
  rw [line_of_single hended.toSingle rfl rfl, statement_of_ended _ hended]
  simp [declaration, hdialect, hpackage, Recognize.import?_print h]

theorem foldl_declarations {s : Schema} (h : s.Printable) :
    s.declarations.foldl line {} =
      { schema := { dialect := s.dialect, package := s.package, imports := s.imports } } := by
  have hdialect : (if s.dialect = "" then [] else [Printer.dialect s.dialect]).foldl line {} =
      { schema := { dialect := s.dialect } } := by
    by_cases hempty : s.dialect = ""
    · rw [if_pos hempty, hempty]
      rfl
    · rw [if_neg hempty]
      exact line_dialect (h.dialect.resolve_left hempty) {}
  have hpackage : (if s.package = "" then [] else [Printer.package s.package]).foldl line
      { schema := { dialect := s.dialect } } =
      { schema := { dialect := s.dialect, package := s.package } } := by
    by_cases hempty : s.package = ""
    · rw [if_pos hempty, hempty]
      rfl
    · rw [if_neg hempty]
      exact line_package (h.package.resolve_left hempty) { dialect := s.dialect }
  have himports : (s.imports.flatMap fun path => [Printer.importOf path]).foldl line
      { schema := { dialect := s.dialect, package := s.package } } =
      { schema := { dialect := s.dialect, package := s.package, imports := s.imports } } := by
    refine foldl_flatMap (fun seen =>
      { schema := { dialect := s.dialect, package := s.package, imports := seen } }) ?_ []
    intro seen path hpath
    exact line_importOf (h.imports path hpath) _
  rw [Schema.declarations, List.map_eq_flatMap, List.foldl_append, List.foldl_append, hdialect,
    hpackage, himports]

/-- The reader after the lines of a schema holds that schema and nothing else. -/
theorem foldl_lines {s : Schema} (h : s.Printable) : s.lines.foldl line {} = { schema := s } := by
  have hservices : (s.services.flatMap Printer.service).foldl line
      { schema := { dialect := s.dialect, package := s.package, imports := s.imports } } =
      { schema := { s with messages := [], enums := [] } } :=
    foldl_flatMap (fun seen =>
      { schema := { s with services := seen, messages := [], enums := [] } })
      (fun _ x hx => foldl_service (h.services x hx) _) []
  have hmessages : (s.messages.flatMap Printer.message).foldl line
      { schema := { s with messages := [], enums := [] } } = { schema := { s with enums := [] } } :=
    foldl_flatMap (fun seen => { schema := { s with messages := seen, enums := [] } })
      (fun _ x hx => foldl_message (h.messages x hx) _) []
  have henums : (s.enums.flatMap Printer.enum).foldl line { schema := { s with enums := [] } } =
      { schema := s } :=
    foldl_flatMap (fun seen => { schema := { s with enums := seen } })
      (fun _ x hx => foldl_enum (h.enums x hx) _) []
  rw [Schema.lines, List.foldl_append, List.foldl_append, List.foldl_append, foldl_declarations h,
    hservices, hmessages, henums]

end Reader

/-! ## Texts -/

namespace Printer

open Statement (Single Ended)

theorem newline_documented {indent s : List Char} {docs : List String} (hindent : '\n' ∉ indent)
    (hdocs : ∀ d ∈ docs, IsComment d) (hs : Single s) :
    ∀ l ∈ documented indent docs s, '\n' ∉ l := by
  intro l hl
  rcases List.mem_append.1 hl with hl | hl
  · rcases List.mem_map.1 hl with ⟨d, hd, rfl⟩
    have hcomment : '\n' ∉ comment d := by
      simp [comment, (hdocs d hd).2]
    simp [hindent, hcomment]
  · rw [List.mem_singleton.1 hl]
    simp [hindent, hs.oneLine]

theorem newline_item {α : Type} {block : Block} {name : String} {docs : List String} {ms : List α}
    {mdocs : α → List String} {stmt : α → List Char} (hname : IsWord name)
    (hdocs : ∀ d ∈ docs, IsComment d) (hmdocs : ∀ m ∈ ms, ∀ d ∈ mdocs m, IsComment d)
    (hended : ∀ m ∈ ms, Ended (stmt m)) :
    ∀ l ∈ documented [] docs (header block name) ++ members mdocs stmt ms ++ [closing],
      '\n' ∉ l := by
  intro l hl
  simp only [List.mem_append, List.mem_singleton, members, List.mem_flatMap] at hl
  rcases hl with (hl | ⟨m, hm, hl⟩) | rfl
  · exact newline_documented (by simp) hdocs (Statement.single_header hname block) l hl
  · exact newline_documented (by decide) (hmdocs m hm) (hended m hm).toSingle l hl
  · exact Statement.single_closing.oneLine

end Printer

namespace Schema

theorem newline_declarations {s : Schema} (h : s.Printable) : ∀ l ∈ s.declarations, '\n' ∉ l := by
  intro l hl
  simp only [declarations, List.mem_append, List.mem_map] at hl
  rcases hl with (hl | hl) | ⟨path, hpath, rfl⟩
  · split at hl
    · cases hl
    · rename_i hempty
      rw [List.mem_singleton.1 hl]
      exact (Statement.ended_dialect (h.dialect.resolve_left hempty)).oneLine
  · split at hl
    · cases hl
    · rename_i hempty
      rw [List.mem_singleton.1 hl]
      exact (Statement.ended_package (h.package.resolve_left hempty)).oneLine
  · exact (Statement.ended_importOf (h.imports path hpath)).oneLine

theorem newline_lines {s : Schema} (h : s.Printable) : ∀ l ∈ s.lines, '\n' ∉ l := by
  intro l hl
  simp only [lines, List.mem_append, List.mem_flatMap] at hl
  rcases hl with ((hl | ⟨x, hx, hl⟩) | ⟨m, hm, hl⟩) | ⟨e, he, hl⟩
  · exact newline_declarations h l hl
  · have hx := h.services x hx
    exact Printer.newline_item hx.name hx.docs (fun r hr => (hx.rpcs r hr).docs)
      (fun r hr => Statement.ended_rpc (hx.rpcs r hr)) l hl
  · have hm := h.messages m hm
    exact Printer.newline_item hm.name hm.docs (fun f hf => (hm.fields f hf).docs)
      (fun f hf => Statement.ended_field (hm.fields f hf)) l hl
  · have he := h.enums e he
    exact Printer.newline_item he.name he.docs (fun v hv => (he.values v hv).docs)
      (fun v hv => Statement.ended_value (he.values v hv)) l hl

/-- Lines written one after the other are the lines of the text, and an empty one is after the
last. -/
theorem splitOn_flatMap_newline {lines : List (List Char)} (h : ∀ l ∈ lines, '\n' ∉ l) :
    (lines.flatMap fun l => l ++ ['\n']).splitOn '\n' = lines ++ [[]] := by
  have hcut := Text.splitOn_lines_append h []
  rwa [List.append_nil] at hcut

/-- Reading the text of a schema gives the schema back, comments and order included. -/
theorem parse_print {s : Schema} (h : s.Printable) : Schema.parse s.print = s := by
  calc
    Schema.parse s.print
        = ofLines (s.lines ++ [[]]) := by
          rw [parse, print, String.toList_ofList, splitOn_flatMap_newline (newline_lines h)]
    _ = (Reader.line { schema := s } []).finish := by
          rw [ofLines, List.foldl_append, Reader.foldl_lines h]
          rfl
    -- the empty line after the last one is skipped
    _ = s := rfl

/-- One item of each kind, with both streams, both labels, a map, a negative number and comments. -/
def greeter : Schema where
  dialect := "proto3"
  package := "demo.v1"
  imports := ["demo/base.proto"]
  services := [
    { name := "Greeter"
      docs := ["Greets.", "", "Politely."]
      rpcs := [
        { name := "Chat"
          request := "Hello"
          response := ".demo.v1.Mood"
          clientStreaming := true
          serverStreaming := true
          docs := ["Both ways."] }] }]
  messages := [
    { name := "Hello"
      fields := [
        { type := "map<string, demo.v1.Mood>", name := "moods", number := "1" },
        { type := "string", name := "names", number := "2", isRepeated := true,
          isOptional := true }] }]
  enums := [{ name := "Mood", values := [{ name := "LOW", number := "-1", docs := ["Sad."] }] }]

theorem parse_print_greeter : greeter.Printable ∧ parse greeter.print = greeter := by
  have hchat : ∀ r ∈ (greeter.services.flatMap Service.rpcs), r.Printable := by
    intro r hr
    rw [List.mem_singleton.1 hr]
    exact ⟨by decide, by decide, by decide, by decide⟩
  have hservices : ∀ x ∈ greeter.services, x.Printable := by
    intro x hx
    rw [List.mem_singleton.1 hx]
    exact ⟨by decide, by decide, hchat⟩
  have hmoods : ∀ f ∈ greeter.messages.flatMap Message.fields, f.Printable := by
    intro f hf
    rcases List.mem_cons.1 hf with rfl | hf
    · exact ⟨.inr
        ⟨"string", "demo.v1.Mood", by decide, by decide, rfl⟩, by decide, by decide, by decide⟩
    · rw [List.mem_singleton.1 hf]
      exact ⟨.inl (by decide), by decide, by decide, by decide⟩
  have hmessages : ∀ x ∈ greeter.messages, x.Printable := by
    intro x hx
    rw [List.mem_singleton.1 hx]
    exact ⟨by decide, by decide, hmoods⟩
  have hlow : ∀ v ∈ greeter.enums.flatMap EnumDecl.values, v.Printable := by
    intro v hv
    rw [List.mem_singleton.1 hv]
    exact ⟨by decide, .inr ⟨"1", by decide, rfl⟩, by decide⟩
  have henums : ∀ x ∈ greeter.enums, x.Printable := by
    intro x hx
    rw [List.mem_singleton.1 hx]
    exact ⟨by decide, by decide, hlow⟩
  have hgreeter : greeter.Printable :=
    ⟨.inr (by decide), .inr (by decide), by decide, hservices, hmessages, henums⟩
  exact ⟨hgreeter, parse_print hgreeter⟩

end Schema
end ApiPages
