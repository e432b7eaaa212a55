import ApiPages.Proofs.Text.Blank
import ApiPages.Proofs.Text.Runs
import ApiPages.Proofs.TypeExpr.Nodes

/-!
# Written types can be read back

What `format` writes does not show everything: a bare name looks like a path without arguments, and
a lifetime always has its tick.  `canonical` makes the same choices in the type itself, and up to
them the text of a signature determines the type.

* `Readable` are the types whose names are plain words and no keywords;
* `reader` reads a type from the left, one level of fuel for each level of nesting, on top of
  readers for what is between brackets;
* `reader_format` says that it gives back the canonical form of the type, and stops where the text
  of the type ends; `format_eq_format_iff` is the consequence for two types.
-/

namespace ApiPages
namespace TypeExpr

open Text (isWord ne_of_class takeWhile_run dropWhile_run)

/-! ## Canonical forms -/

/-- A lifetime as it is written; without one nothing is written. -/
def ticked (lifetime : String) : String :=
  if lifetime.isEmpty then "" else withTick lifetime

mutual

/-- The type with each bare name as a path and each lifetime with its tick. -/
def canonical : TypeExpr → TypeExpr
  | .absent => .absent
  | .primitive name => .path name [] false .absent
  | .path name args parenthesized output =>
      .path name (canonicalAll args) parenthesized (canonical output)
  | .reference lifetime isMutable inner => .reference (ticked lifetime) isMutable (canonical inner)
  | .rawPointer isMutable inner => .rawPointer isMutable (canonical inner)
  | .functionPointer inputs output => .functionPointer (canonicalAll inputs) (canonical output)
  | .tuple elems => .tuple (canonicalAll elems)
  | .slice inner => .slice (canonical inner)
  | .array inner length => .array (canonical inner) length
  | .traitObject isDyn bounds lifetime => .traitObject isDyn (canonicalAll bounds) (ticked lifetime)
  | .binding name equals bounds => .binding name (canonical equals) (canonicalAll bounds)
  | .unknown raw => .unknown raw
termination_by structural t => t

def canonicalAll : List TypeExpr → List TypeExpr
  | [] => []
  | t :: rest => canonical t :: canonicalAll rest
termination_by structural ts => ts

end

theorem canonicalAll_eq_map (ts : List TypeExpr) : canonicalAll ts = ts.map canonical := by
  induction ts with
  | nil =>
      rfl
  | cons t ts ih =>
      rw [canonicalAll, ih, List.map_cons]

theorem isAbsent_canonical (t : TypeExpr) : t.canonical.isAbsent = t.isAbsent := by
  cases t with
  | _ =>
      rfl

theorem isEmpty_canonicalAll (ts : List TypeExpr) : (canonicalAll ts).isEmpty = ts.isEmpty := by
  cases ts with
  | nil =>
      rfl
  | cons =>
      rfl

theorem withTick_withTick (lifetime : String) :
    withTick (withTick lifetime) = withTick lifetime := by
  rw [withTick]
  split
  · rfl
  · rename_i hticked
    refine absurd ?_ hticked
    rw [withTick]
    split
    · assumption
    · simp

theorem isEmpty_ticked (lifetime : String) : (ticked lifetime).isEmpty = lifetime.isEmpty := by
  rw [ticked]
  cases hempty : lifetime.isEmpty with
  | true =>
      rfl
  | false =>
      rw [if_neg Bool.false_ne_true, withTick]
      split
      · exact hempty
      · simp

theorem withTick_ticked {lifetime : String} (h : lifetime.isEmpty = false) :
    withTick (ticked lifetime) = withTick lifetime := by
  rw [ticked, h, if_neg Bool.false_ne_true, withTick_withTick]

theorem formatAll_canonicalAll (ts : List TypeExpr) (h : ∀ t ∈ ts, t.canonical.format = t.format) :
    formatAll (canonicalAll ts) = formatAll ts := by
  rw [canonicalAll_eq_map, formatAll_eq_map, formatAll_eq_map, List.map_map]
  exact List.map_congr_left h

/-- The choices of the canonical form are those of the text. -/
theorem format_canonical (t : TypeExpr) : t.canonical.format = t.format := by
  induction t using childwise with
  | step t ih =>
      cases t with
      | absent | unknown _ =>
          rfl
      | primitive name =>
          simp [canonical, format]
      | path name args parenthesized output =>
          have hargs := formatAll_canonicalAll args fun s hs => ih s (List.mem_append_left _ hs)
          have houtput := ih output (List.mem_append_right _ (List.mem_singleton.2 rfl))
          simp only [canonical, format, isAbsent_canonical, isEmpty_canonicalAll, hargs, houtput]
      | reference lifetime isMutable inner =>
          have hinner := ih inner (List.mem_singleton.2 rfl)
          cases hlifetime : lifetime.isEmpty with
          | true =>
              simp only [canonical, format, isEmpty_ticked, hlifetime, if_true, hinner]
          | false =>
              simp only [canonical, format, isEmpty_ticked, withTick_ticked hlifetime,
                hlifetime, hinner]
      | rawPointer isMutable inner =>
          simp only [canonical, format, ih inner (List.mem_singleton.2 rfl)]
      | functionPointer inputs output =>
          have hinputs := formatAll_canonicalAll inputs fun s hs => ih s (List.mem_append_left _ hs)
          have houtput := ih output (List.mem_append_right _ (List.mem_singleton.2 rfl))
          simp only [canonical, format, isAbsent_canonical, hinputs, houtput]
      | tuple elems =>
          simp only [canonical, format, formatAll_canonicalAll elems ih]
      | slice inner =>
          simp only [canonical, format, ih inner (List.mem_singleton.2 rfl)]
      | array inner length =>
          simp only [canonical, format, ih inner (List.mem_singleton.2 rfl)]
      | traitObject isDyn bounds lifetime =>
          have hbounds := formatAll_canonicalAll bounds ih
          cases hlifetime : lifetime.isEmpty with
          | true =>
              simp only [canonical, format, isEmpty_canonicalAll, isEmpty_ticked, hlifetime,
                if_true, hbounds]
          | false =>
              simp only [canonical, format, isEmpty_canonicalAll, isEmpty_ticked,
                withTick_ticked hlifetime, hlifetime, hbounds]
      | binding name equals bounds =>
          have hequals := ih equals (List.mem_cons_self ..)
          have hbounds :=
            formatAll_canonicalAll bounds fun s hs => ih s (List.mem_cons_of_mem equals hs)
          simp only [canonical, format, isAbsent_canonical, isEmpty_canonicalAll, hequals, hbounds]

/-! ## Types that can be read back -/

/-- A plain word that is no keyword. -/
structure IsTypeName (s : String) : Prop where
  nonempty : s ≠ ""
  word : ∀ c ∈ s.toList, isWord c = true
  keyword : s ≠ "fn" ∧ s ≠ "mut" ∧ s ≠ "const"

/-- No lifetime, or a word with or without its tick. -/
def IsLifetime (s : String) : Prop :=
  s = "" ∨ ∃ name, IsTypeName name ∧ (s = name ∨ s = "'" ++ name)

/-- The types of plain signatures.  Only results may be absent, and a path has one only with
parentheses. -/
inductive Readable : TypeExpr → Prop where
  | primitive {name : String} : IsTypeName name → Readable (.primitive name)
  | path {name : String} {args : List TypeExpr} : IsTypeName name → (∀ a ∈ args, Readable a) →
      Readable (.path name args false .absent)
  | call {name : String} {inputs : List TypeExpr} {output : TypeExpr} : IsTypeName name →
      (∀ i ∈ inputs, Readable i) → (output ≠ .absent → Readable output) →
      Readable (.path name inputs true output)
  | reference {lifetime : String} {isMutable : Bool} {inner : TypeExpr} : IsLifetime lifetime →
      Readable inner → Readable (.reference lifetime isMutable inner)
  | rawPointer {isMutable : Bool} {inner : TypeExpr} : Readable inner →
        Readable (.rawPointer isMutable inner)
  | functionPointer {inputs : List TypeExpr} {output : TypeExpr} : (∀ i ∈ inputs, Readable i) →
      (output ≠ .absent → Readable output) → Readable (.functionPointer inputs output)
  | tuple {elems : List TypeExpr} : (∀ e ∈ elems, Readable e) → Readable (.tuple elems)
  | slice {inner : TypeExpr} : Readable inner → Readable (.slice inner)
  | array {inner : TypeExpr} {length : String} : Readable inner → length = "" ∨ IsTypeName length →
      Readable (.array inner length)

/-- The characters that a type begins with. -/
def opens (c : Char) : Bool :=
  isWord c || c ∈ ['&', '*', '(', '[']

/-- What may stand behind a type: nothing, or a mark that belongs to what is around it. -/
def EndsType (rest : List Char) : Prop :=
  ∀ c ∈ rest.head?, c ∈ [',', ')', '>', ']', ';']

/-! ## Reading -/

/-- The text behind a fixed beginning, if it begins so. -/
def after? (mark : String) (cs : List Char) : Option (List Char) :=
  mark.toList.isPrefixOf? cs

section Readers

-- the reader for the types inside of a type
variable (sub : List Char → Option (TypeExpr × List Char))

/-- Types between commas, up to the closing mark. -/
def readItems : Nat → Char → List Char → Option (List TypeExpr × List Char)
  | 0, _, _ => none
  | n + 1, close, cs =>
      if cs.head? = some close then some ([], cs.tail)
      else do
        let (t, rest) ← sub ((after? ", " cs).getD cs)
        let (ts, rest) ← readItems n close rest
        return (t :: ts, rest)

def readOutput (cs : List Char) : Option (TypeExpr × List Char) :=
  match after? " -> " cs with
  | some cs => sub cs
  | none => some (.absent, cs)

/-- Inputs up to the closing parenthesis, and the result. -/
def readSignature (cs : List Char) : Option ((List TypeExpr × TypeExpr) × List Char) := do
  let (inputs, rest) ← readItems sub cs.length ')' cs
  let (output, rest) ← readOutput sub rest
  return ((inputs, output), rest)

/-- A type that begins with a word. -/
def readNamed (cs : List Char) : Option (TypeExpr × List Char) :=
  let name := String.ofList (cs.takeWhile isWord)
  match cs.dropWhile isWord with
  | '(' :: cs => do
      let ((inputs, output), rest) ← readSignature sub cs
      return (if name = "fn" then .functionPointer inputs output
        else .path name inputs true output, rest)
  | '<' :: cs => do
      let (args, rest) ← readItems sub cs.length '>' cs
      return (.path name args false .absent, rest)
  | rest => some (.path name [] false .absent, rest)

def readLifetime : List Char → String × List Char
  | '\'' :: cs => (String.ofList ('\'' :: cs.takeWhile isWord), (cs.dropWhile isWord).tail)
  | cs => ("", cs)

def readReference (cs : List Char) : Option (TypeExpr × List Char) :=
  let (lifetime, cs) := readLifetime cs
  match after? "mut " cs with
  | some cs => (sub cs).map fun (t, rest) => (.reference lifetime true t, rest)
  | none => (sub cs).map fun (t, rest) => (.reference lifetime false t, rest)

def readPointer (cs : List Char) : Option (TypeExpr × List Char) :=
  match after? "mut " cs with
  | some cs => (sub cs).map fun (t, rest) => (.rawPointer true t, rest)
  | none =>
      (after? "const " cs).bind fun cs => (sub cs).map fun (t, rest) => (.rawPointer false t, rest)

/-- The length of an array, up to the closing bracket; a question mark stands for none. -/
def readLength (cs : List Char) : String × List Char :=
  let text := cs.takeWhile (· != ']')
  (if text = ['?'] then "" else String.ofList text, (cs.dropWhile (· != ']')).tail)

/-- A slice or an array. -/
def readBrackets (cs : List Char) : Option (TypeExpr × List Char) := do
  let (inner, rest) ← sub cs
  match after? "; " rest with
  | some rest => return (.array inner (readLength rest).1, (readLength rest).2)
  | none => return (.slice inner, rest.tail)

/-- One level of a type. -/
def readLevel : List Char → Option (TypeExpr × List Char)
  | '&' :: cs => readReference sub cs
  | '*' :: cs => readPointer sub cs
  | '(' :: cs => (readItems sub cs.length ')' cs).map fun (elems, rest) => (.tuple elems, rest)
  | '[' :: cs => readBrackets sub cs
  | cs => readNamed sub cs

end Readers

/-- The reader of types that are nested less deep than the fuel. -/
def reader : Nat → List Char → Option (TypeExpr × List Char)
  | 0, _ => none
  | fuel + 1, cs => readLevel (reader fuel) cs

/-! ## Beginnings and ends -/

theorem after?_append (mark : String) (cs : List Char) :
    after? mark (mark.toList ++ cs) = some cs :=
  List.isPrefixOf?_eq_some_iff_append_eq.2 rfl

theorem after?_eq_none {mark : String} {cs : List Char} (h : ∀ rest, mark.toList ++ rest ≠ cs) :
    after? mark cs = none := by
  cases hafter : after? mark cs with
  | none =>
      rfl
  | some rest =>
      exact absurd (List.isPrefixOf?_eq_some_iff_append_eq.1 hafter) (h rest)

/-- A text that begins with another character does not begin with the mark. -/
theorem after?_of_head {mark : String} {c : Char} (hmark : mark.toList.head? = some c)
    {cs : List Char} (hcs : cs.head? ≠ some c) : after? mark cs = none := by
  refine after?_eq_none fun rest heq => hcs ?_
  rw [← heq, List.head?_append, hmark]
  rfl

section Words

variable {run rest : List Char}

theorem EndsType.not_word (h : EndsType rest) : ∀ c ∈ rest.head?, isWord c = false := by
  intro c hc
  have hmarks : [',', ')', '>', ']', ';'].all (fun d => !isWord d) = true := by decide
  simpa using List.all_eq_true.1 hmarks c (h c hc)

theorem endsType_cons {c : Char} (h : c ∈ [',', ')', '>', ']', ';']) (rest : List Char) :
    EndsType (c :: rest) := by
  intro d hd
  rw [List.head?_cons, Option.mem_some_iff] at hd
  exact hd ▸ h

theorem EndsType.head_ne (h : EndsType rest) {c : Char} (hc : c ∉ [',', ')', '>', ']', ';']) :
    rest.head? ≠ some c :=
  fun hhead => hc (h c hhead)

end Words

/-! ## The parts of the text -/

/-- Types between commas. -/
def listed (ts : List TypeExpr) : List Char :=
  (Text.joined ", " (formatAll ts)).toList

/-- Types that each have a comma in front. -/
def followers (ts : List TypeExpr) : List Char :=
  ts.flatMap fun s => ", ".toList ++ s.format.toList

theorem followers_cons (t : TypeExpr) (ts : List TypeExpr) :
    followers (t :: ts) = ',' :: ' ' :: (t.format.toList ++ followers ts) := by
  simp [followers]

theorem length_le_followers (ts : List TypeExpr) : ts.length ≤ (followers ts).length := by
  induction ts with
  | nil =>
      exact Nat.zero_le _
  | cons t ts ih =>
      rw [followers_cons]
      simp only [List.length_cons, List.length_append]
      omega

/-- The first type, and each of the others with a comma in front. -/
theorem listed_cons (t : TypeExpr) (ts : List TypeExpr) :
    listed (t :: ts) = t.format.toList ++ followers ts := by
  induction ts generalizing t with
  | nil =>
      simp [listed, followers, Text.joined, formatAll]
  | cons s ts ih =>
      have hrest := ih s
      simp only [listed, Text.joined, formatAll, String.toList_intercalate, List.map_cons]
        at hrest ⊢
      rw [List.intercalate_cons_cons, hrest, followers_cons]
      simp

/-- The result behind the closing parenthesis. -/
def outputText (output : TypeExpr) : List Char :=
  if output.isAbsent then [] else " -> ".toList ++ output.format.toList

theorem toList_format_path {name : String} (h : name ≠ "") (a : TypeExpr) (args : List TypeExpr) :
    (path name (a :: args) false .absent).format.toList =
      name.toList ++ '<' :: (listed (a :: args) ++ ['>']) := by
  simp [format, h, listed]

theorem toList_format_bare {name : String} (h : name ≠ "") :
    (path name [] false .absent).format.toList = name.toList := by
  simp [format, h]

theorem toList_format_call {name : String} (h : name ≠ "") (inputs : List TypeExpr)
    (output : TypeExpr) :
    (path name inputs true output).format.toList =
      name.toList ++ '(' :: (listed inputs ++ ')' :: outputText output) := by
  cases hout : output.isAbsent with
  | true =>
      simp [format, h, listed, outputText, hout]
  | false =>
      simp [format, h, listed, outputText, hout]

theorem toList_format_functionPointer (inputs : List TypeExpr) (output : TypeExpr) :
    (functionPointer inputs output).format.toList =
      "fn".toList ++ '(' :: (listed inputs ++ ')' :: outputText output) := by
  cases hout : output.isAbsent with
  | true =>
      simp [format, listed, outputText, hout]
  | false =>
      simp [format, listed, outputText, hout]

theorem toList_format_tuple (elems : List TypeExpr) :
    (tuple elems).format.toList = '(' :: (listed elems ++ [')']) := by
  simp [format, listed]

/-- A lifetime with the space behind it. -/
def lifetimeText (lifetime : String) : List Char :=
  if lifetime.isEmpty then [] else (withTick lifetime).toList ++ [' ']

def lengthText (length : String) : List Char :=
  if length.isEmpty then ['?'] else length.toList

theorem toList_format_reference (lifetime : String) (isMutable : Bool) (inner : TypeExpr) :
    (reference lifetime isMutable inner).format.toList =
      '&' ::
        (lifetimeText lifetime ++
          ((if isMutable then "mut ".toList else []) ++ inner.format.toList)) := by
  cases hlifetime : lifetime.isEmpty <;> cases isMutable <;> simp [format, lifetimeText, hlifetime]

theorem toList_format_rawPointer (isMutable : Bool) (inner : TypeExpr) :
    (rawPointer isMutable inner).format.toList =
      '*' :: ((if isMutable then "mut " else "const ").toList ++ inner.format.toList) := by
  cases isMutable with
  | true =>
      simp [format]
  | false =>
      simp [format]

theorem toList_format_slice (inner : TypeExpr) :
    (slice inner).format.toList = '[' :: (inner.format.toList ++ [']']) := by
  simp [format]

theorem toList_format_array (inner : TypeExpr) (length : String) :
    (array inner length).format.toList =
      '[' :: (inner.format.toList ++ ("; ".toList ++ (lengthText length ++ [']']))) := by
  cases hlength : length.isEmpty with
  | true =>
      simp [format, lengthText, hlength]
  | false =>
      simp [format, lengthText, hlength]

/-! ## How types begin -/

/-- A type begins with a mark, or with a word that is not the one for mutable types. -/
inductive Begins : List Char → Prop where
  | word {run rest : List Char} : run ≠ [] → (∀ c ∈ run, isWord c = true) → run ≠ "mut".toList →
      (∀ c ∈ rest.head?, isWord c = false) → Begins (run ++ rest)
  | mark {c : Char} {cs : List Char} : c ∈ ['&', '*', '(', '['] → Begins (c :: cs)

theorem Begins.append {cs rest : List Char} (h : Begins cs) (hrest : EndsType rest) :
    Begins (cs ++ rest) := by
  cases h with
  | @word run after hne hrun hmut hafter =>
      rw [List.append_assoc]
      refine .word hne hrun hmut ?_
      cases after with
      | nil =>
          exact hrest.not_word
      | cons c after =>
          exact hafter
  | mark hc =>
      exact .mark hc

theorem Begins.exists_open {cs : List Char} (h : Begins cs) :
    ∃ c, cs.head? = some c ∧ opens c = true := by
  cases h with
  | @word run rest hne hrun _ _ =>
      cases run with
      | nil =>
          exact absurd rfl hne
      | cons c run =>
          have hc : isWord c = true := hrun c (List.mem_cons_self ..)
          exact ⟨c, rfl, by simp [opens, hc]⟩
  | @mark c cs hc =>
      exact ⟨c, rfl, by simp [opens, hc]⟩

theorem Begins.head_ne {cs : List Char} (h : Begins cs) {d : Char} (hd : opens d = false) :
    cs.head? ≠ some d := by
  rcases h.exists_open with ⟨c, hhead, hc⟩
  rw [hhead]
  exact fun heq => ne_of_class hc hd (Option.some.inj heq)

/-- The keyword for mutable types is told from a name by the word it is. -/
theorem Begins.after?_mut {cs : List Char} (h : Begins cs) : after? "mut " cs = none := by
  cases h with
  | @word run rest _ hrun hmut hrest =>
      -- a word that the keyword and a space begin is the keyword
      refine after?_eq_none fun more heq => hmut ?_
      have hword : ∀ c ∈ "mut".toList, isWord c = true := by simp; decide
      have hspace : ∀ c ∈ (' ' :: more).head?, isWord c = false := by simp; decide
      rw [← takeWhile_run hrun hrest, ← heq]
      exact takeWhile_run hword hspace
  | @mark c cs hc =>
      refine after?_of_head (c := 'm') (by simp) fun heq => ?_
      rw [Option.some.inj heq] at hc
      exact absurd hc (by decide)

theorem IsTypeName.begins {name : String} (h : IsTypeName name) {rest : List Char}
    (hrest : ∀ c ∈ rest.head?, isWord c = false) : Begins (name.toList ++ rest) := by
  refine .word (by simpa using h.nonempty) h.word (fun heq => h.keyword.2.1 ?_) hrest
  exact String.toList_inj.1 heq

theorem Readable.begins {t : TypeExpr} (h : Readable t) : Begins t.format.toList := by
  have hmark : ∀ {c : Char} {rest : List Char}, isWord c = false →
      ∀ d ∈ (c :: rest).head?, isWord d = false := by
    intro c rest hc d hd
    rwa [← Option.some.inj hd]
  cases h with
  | @primitive name hname =>
      have htext : (TypeExpr.primitive name).format.toList = name.toList ++ [] := by
        simp [format, hname.nonempty]
      rw [htext]
      exact hname.begins nofun
  | @path name args hname _ =>
      cases args with
      | nil =>
          rw [toList_format_bare hname.nonempty, ← List.append_nil name.toList]
          exact hname.begins nofun
      | cons a args =>
          rw [toList_format_path hname.nonempty]
          exact hname.begins (hmark (by decide))
  | call hname _ _ =>
      rw [toList_format_call hname.nonempty]
      exact hname.begins (hmark (by decide))
  | functionPointer _ _ =>
      rw [toList_format_functionPointer]
      exact .word (by simp) (by simp; decide) (by simp) (hmark (by decide))
  | tuple _ =>
      rw [toList_format_tuple]
      exact .mark (by simp)
  | reference _ _ =>
      rw [toList_format_reference]
      exact .mark (by simp)
  | rawPointer _ =>
      rw [toList_format_rawPointer]
      exact .mark (by simp)
  | slice _ =>
      rw [toList_format_slice]
      exact .mark (by simp)
  | array _ _ =>
      rw [toList_format_array]
      exact .mark (by simp)

/-! ## Reading what was written -/

/-- The reader gives back the type, whatever stands behind it. -/
def Reads (sub : List Char → Option (TypeExpr × List Char)) (t : TypeExpr) : Prop :=
  ∀ rest, EndsType rest → sub (t.format.toList ++ rest) = some (t.canonical, rest)

section Reads

variable {sub : List Char → Option (TypeExpr × List Char)}

theorem endsType_followers (ts : List TypeExpr) {rest : List Char} (h : EndsType rest) :
    EndsType (followers ts ++ rest) := by
  cases ts with
  | nil =>
      exact h
  | cons t ts =>
      rw [followers_cons]
      exact endsType_cons (by simp) _

/-- One item, when it does not begin with the closing mark. -/
theorem readItems_step {close : Char} {t : TypeExpr} (hread : Reads sub t) {n : Nat}
    {cs rest after : List Char} {ts : List TypeExpr} (hhead : cs.head? ≠ some close)
    (hcs : (after? ", " cs).getD cs = t.format.toList ++ rest) (hrest : EndsType rest)
    (hmore : readItems sub n close rest = some (ts, after)) :
    readItems sub (n + 1) close cs = some (t.canonical :: ts, after) := by
  simp [readItems, hhead, hcs, hread rest hrest, hmore]

theorem readItems_followers {close : Char} (hclose : close ∈ [')', '>']) {ts : List TypeExpr}
    (hread : ∀ t ∈ ts, Reads sub t) {n : Nat} (hn : ts.length < n) (rest : List Char) :
    readItems sub n close (followers ts ++ close :: rest) = some (ts.map canonical, rest) := by
  have hends : EndsType (close :: rest) := endsType_cons (by simp at hclose ⊢; tauto) rest
  have hcomma : ',' ≠ close := by
    rintro rfl
    simp at hclose
  -- each item takes one unit of fuel, with the comma in front of it
  induction n generalizing ts with
  | zero =>
      omega
  | succ n ih =>
      cases ts with
      | nil =>
          simp [followers, readItems]
      | cons t ts =>
          have hmore :=
            ih (fun s hs => hread s (List.mem_cons_of_mem t hs)) (Nat.lt_of_succ_lt_succ hn)
          have htext : followers (t :: ts) ++ close :: rest =
              ", ".toList ++ (t.format.toList ++ (followers ts ++ close :: rest)) := by
            simp [followers_cons]
          refine readItems_step (hread t (List.mem_cons_self ..)) ?_ ?_
            (endsType_followers ts hends) hmore
          · rw [htext]
            simpa using hcomma
          · rw [htext, after?_append]
            rfl

/-- A list up to its closing mark. -/
theorem readItems_listed (close : Char) (hclose : close ∈ [')', '>']) {ts : List TypeExpr}
    (hts : ∀ t ∈ ts, Readable t) (hread : ∀ t ∈ ts, Reads sub t) (rest : List Char) :
    readItems sub (listed ts ++ close :: rest).length close (listed ts ++ close :: rest) =
      some (ts.map canonical, rest) := by
  cases ts with
  | nil =>
      have hnil : listed [] = followers [] := by simp [listed, followers, formatAll, Text.joined]
      rw [hnil]
      exact readItems_followers hclose hread (Nat.succ_pos _) rest
  | cons t ts =>
      have hends : EndsType (close :: rest) := endsType_cons (by simp at hclose ⊢; tauto) rest
      have hbegins : Begins (t.format.toList ++ (followers ts ++ close :: rest)) :=
        (hts t (List.mem_cons_self ..)).begins.append (endsType_followers ts hends)
      have hlength := length_le_followers ts
      -- the first item needs no comma, and begins with no mark that could be taken for one
      have hclosed : opens close = false := by
        rcases List.mem_pair.1 hclose with rfl | rfl
        · decide
        · decide
      have hnone : after? ", " (t.format.toList ++ (followers ts ++ close :: rest)) = none :=
        after?_of_head (c := ',') (by simp) (hbegins.head_ne (by decide))
      have hmore : readItems sub (t.format.toList ++ followers ts ++ rest).length close
          (followers ts ++ close :: rest) = some (ts.map canonical, rest) := by
        refine readItems_followers hclose (fun s hs => hread s (List.mem_cons_of_mem t hs)) ?_ rest
        have hpos : 0 < t.format.toList.length := by
          rcases (hts t (List.mem_cons_self ..)).begins.exists_open with ⟨c, hc, -⟩
          cases htext : t.format.toList with
          | nil =>
              simp [htext] at hc
          | cons =>
              exact Nat.succ_pos _
        simp only [List.length_append]
        omega
      have hfuel : (listed (t :: ts) ++ close :: rest).length =
          (t.format.toList ++ followers ts ++ rest).length + 1 := by
        simp [listed_cons]
        omega
      have htext : listed (t :: ts) ++ close :: rest =
          t.format.toList ++ (followers ts ++ close :: rest) := by
        rw [listed_cons, List.append_assoc]
      rw [hfuel, htext]
      exact readItems_step (hread t (List.mem_cons_self ..)) (hbegins.head_ne hclosed)
        (by rw [hnone]; rfl)
        (endsType_followers ts hends) hmore

theorem readOutput_eq {output : TypeExpr} (hread : output ≠ .absent → Reads sub output)
    {rest : List Char} (hrest : EndsType rest) :
    readOutput sub (outputText output ++ rest) = some (output.canonical, rest) := by
  cases habsent : output.isAbsent with
  | true =>
      have hnone : after? " -> " rest = none :=
        after?_of_head (c := ' ') (by simp) (hrest.head_ne (by decide))
      have htext : outputText output ++ rest = rest := by
        rw [outputText, habsent, if_pos rfl, List.nil_append]
      rw [readOutput, htext, hnone, isAbsent_iff.1 habsent]
      rfl
  | false =>
      have hne : output ≠ .absent := by
        rintro rfl
        cases habsent
      have htext : outputText output ++ rest = " -> ".toList ++ (output.format.toList ++ rest) := by
        rw [outputText, habsent, if_neg Bool.false_ne_true, List.append_assoc]
      rw [readOutput, htext, after?_append]
      exact hread hne rest hrest

theorem readSignature_eq {inputs : List TypeExpr} {output : TypeExpr}
    (hinputs : ∀ t ∈ inputs, Readable t) (hread : ∀ t ∈ inputs, Reads sub t)
    (houtput : output ≠ .absent → Reads sub output) {rest : List Char} (hrest : EndsType rest) :
    readSignature sub (listed inputs ++ ')' :: (outputText output ++ rest)) =
      some ((inputs.map canonical, output.canonical), rest) := by
  have hlist := readItems_listed ')' (by simp) hinputs hread (outputText output ++ rest)
  rw [readSignature, hlist]
  simp [readOutput_eq houtput hrest]

/-! ## One level -/

/-- A type that begins with a word is read by the mark behind the word. -/
theorem readLevel_word {run : List Char} (hne : run ≠ []) (hrun : ∀ c ∈ run, isWord c = true)
    (rest : List Char) : readLevel sub (run ++ rest) = readNamed sub (run ++ rest) := by
  cases run with
  | nil =>
      exact absurd rfl hne
  | cons c run =>
      have hc : isWord c = true := hrun c (List.mem_cons_self ..)
      have hmarks : c ≠ '&' ∧ c ≠ '*' ∧ c ≠ '(' ∧ c ≠ '[' :=
        ⟨ne_of_class hc (by decide), ne_of_class hc (by decide), ne_of_class hc (by decide),
          ne_of_class hc (by decide)⟩
      simp [readLevel, hmarks]

theorem readNamed_bare {name : String} (hname : IsTypeName name) {rest : List Char}
    (hrest : EndsType rest) :
    readNamed sub (name.toList ++ rest) = some (.path name [] false .absent, rest) := by
  have hcall : rest.head? ≠ some '(' := hrest.head_ne (by decide)
  have hangle : rest.head? ≠ some '<' := hrest.head_ne (by decide)
  simp only [readNamed, takeWhile_run hname.word hrest.not_word,
    dropWhile_run hname.word hrest.not_word, String.ofList_toList]
  split
  · exact absurd rfl hcall
  · exact absurd rfl hangle
  · rfl

theorem readNamed_angle {name : String} (hname : IsTypeName name) {args : List TypeExpr}
    (hargs : ∀ t ∈ args, Readable t) (hread : ∀ t ∈ args, Reads sub t) (rest : List Char) :
    readNamed sub (name.toList ++ '<' :: (listed args ++ '>' :: rest)) =
      some (.path name (args.map canonical) false .absent, rest) := by
  have hmark : ∀ c ∈ ('<' :: (listed args ++ '>' :: rest)).head?, isWord c = false := by
    simp
    decide
  have hlist := readItems_listed '>' (by simp) hargs hread rest
  simp only [readNamed, takeWhile_run hname.word hmark, dropWhile_run hname.word hmark,
    String.ofList_toList, hlist]
  rfl

/-- What is in front of the parentheses decides between a path and a function pointer. -/
theorem readNamed_signature {run : List Char} (hrun : ∀ c ∈ run, isWord c = true)
    {inputs : List TypeExpr} {output : TypeExpr} (hinputs : ∀ t ∈ inputs, Readable t)
    (hread : ∀ t ∈ inputs, Reads sub t) (houtput : output ≠ .absent → Reads sub output)
    {rest : List Char} (hrest : EndsType rest) :
    readNamed sub (run ++ '(' :: (listed inputs ++ ')' :: (outputText output ++ rest))) =
      some (if String.ofList run = "fn" then .functionPointer (inputs.map canonical)
        output.canonical
        else .path (String.ofList run) (inputs.map canonical) true output.canonical, rest) := by
  have hmark : ∀ c ∈ ('(' :: (listed inputs ++ ')' :: (outputText output ++ rest))).head?,
      isWord c = false := by
    simp
    decide
  have hsignature := readSignature_eq hinputs hread houtput hrest
  simp only [readNamed, takeWhile_run hrun hmark, dropWhile_run hrun hmark, hsignature]
  rfl

/-- A lifetime is written as a tick and a word. -/
theorem IsLifetime.cases {lifetime : String} (h : IsLifetime lifetime) :
    lifetime = "" ∨ lifetime.isEmpty = false ∧
      ∃ name, IsTypeName name ∧ (withTick lifetime).toList = '\'' :: name.toList := by
  rcases h with rfl | ⟨name, hname, rfl | rfl⟩
  · exact .inl rfl
  · have hhead : (lifetime.toList.head? == some '\'') = false := by
      rw [beq_eq_false_iff_ne]
      intro hhead
      have htick : isWord '\'' = true := hname.word _ (List.mem_of_mem_head? hhead)
      exact absurd htick (by decide)
    refine .inr ⟨by simpa using hname.nonempty, lifetime, hname, ?_⟩
    rw [withTick, hhead]
    simp
  · refine .inr ⟨by simp, name, hname, ?_⟩
    simp [withTick]

theorem readLifetime_eq {lifetime : String} (h : IsLifetime lifetime) {rest : List Char}
    (hrest : rest.head? ≠ some '\'') :
    readLifetime (lifetimeText lifetime ++ rest) = (ticked lifetime, rest) := by
  rcases h.cases with rfl | ⟨hne, name, hname, htext⟩
  · rw [lifetimeText, if_pos (by simp), List.nil_append, readLifetime]
    · rfl
    · rintro cs rfl
      exact hrest rfl
  · have hmark : ∀ c ∈ (' ' :: rest).head?, isWord c = false := by
      simp
      decide
    have hall : lifetimeText lifetime ++ rest = '\'' :: (name.toList ++ ' ' :: rest) := by
      simp [lifetimeText, hne, htext]
    have hticked : String.ofList ('\'' :: name.toList) = ticked lifetime := by
      rw [ticked, hne, if_neg Bool.false_ne_true, ← htext, String.ofList_toList]
    rw [hall, readLifetime, takeWhile_run hname.word hmark, dropWhile_run hname.word hmark, hticked]
    rfl

theorem readReference_eq {lifetime : String} (hlifetime : IsLifetime lifetime) (isMutable : Bool)
    {inner : TypeExpr} (hinner : Readable inner) (hread : Reads sub inner) {rest : List Char}
    (hrest : EndsType rest) :
    readReference sub (lifetimeText lifetime ++
        ((if isMutable then "mut ".toList else []) ++ (inner.format.toList ++ rest))) =
      some (.reference (ticked lifetime) isMutable inner.canonical, rest) := by
  have hbegins : Begins (inner.format.toList ++ rest) := hinner.begins.append hrest
  cases isMutable with
  | true =>
      have htick : ("mut ".toList ++ (inner.format.toList ++ rest)).head? ≠ some '\'' := by simp
      simp only [if_true, readReference, readLifetime_eq hlifetime htick, after?_append,
        hread rest hrest]
      rfl
  | false =>
      have htick := hbegins.head_ne (d := '\'') (by decide)
      simp only [Bool.false_eq_true, if_false, List.nil_append, readReference,
        readLifetime_eq hlifetime htick, hbegins.after?_mut, hread rest hrest]
      rfl

theorem readPointer_eq (isMutable : Bool) {inner : TypeExpr} (hread : Reads sub inner)
    {rest : List Char} (hrest : EndsType rest) :
    readPointer sub
      ((if isMutable then "mut " else "const ").toList ++ (inner.format.toList ++ rest)) =
      some (.rawPointer isMutable inner.canonical, rest) := by
  cases isMutable with
  | true =>
      simp only [if_true, readPointer, after?_append, hread rest hrest]
      rfl
  | false =>
      have hnone : after? "mut " ("const ".toList ++ (inner.format.toList ++ rest)) = none :=
        after?_of_head (c := 'm') (by simp) (by simp)
      simp only [Bool.false_eq_true, if_false, readPointer, hnone, after?_append, Option.bind_some,
        hread rest hrest]
      rfl

theorem readBrackets_slice {inner : TypeExpr} (hread : Reads sub inner) (rest : List Char) :
    readBrackets sub (inner.format.toList ++ ']' :: rest) =
      some (.slice inner.canonical, rest) := by
  have hnone : after? "; " (']' :: rest) = none := after?_of_head (c := ';') (by simp) (by simp)
  rw [readBrackets, hread _ (endsType_cons (by simp) rest)]
  simp [hnone]

theorem readLength_eq {length : String} (h : length = "" ∨ IsTypeName length) (rest : List Char) :
    readLength (lengthText length ++ ']' :: rest) = (length, rest) := by
  have htext : ∀ c ∈ lengthText length, (c != ']') = true := by
    rcases h with rfl | hname
    · simp [lengthText]
    · intro c hc
      rw [lengthText, if_neg (by simpa using hname.nonempty)] at hc
      exact bne_iff_ne.2 (ne_of_class (hname.word c hc) (by decide))
  have htake : (lengthText length ++ ']' :: rest).takeWhile (· != ']') = lengthText length := by
    rw [List.takeWhile_append_of_pos htext, List.takeWhile_cons_of_neg (by simp), List.append_nil]
  have hdrop : (lengthText length ++ ']' :: rest).dropWhile (· != ']') = ']' :: rest := by
    rw [List.dropWhile_append_of_pos htext, List.dropWhile_cons_of_neg (by simp)]
  rw [readLength, htake, hdrop]
  rcases h with rfl | hname
  · rfl
  · have hlength : lengthText length = length.toList := by
      rw [lengthText, if_neg (by simpa using hname.nonempty)]
    have hmark : length.toList ≠ ['?'] := by
      intro heq
      have hword : isWord '?' = true := hname.word _ (heq ▸ List.mem_singleton.2 rfl)
      exact absurd hword (by decide)
    simp [hlength, hmark]

theorem readBrackets_array {inner : TypeExpr} (hread : Reads sub inner) {length : String}
    (hlength : length = "" ∨ IsTypeName length) (rest : List Char) :
    readBrackets sub (inner.format.toList ++ ("; ".toList ++ (lengthText length ++ ']' :: rest))) =
      some (.array inner.canonical length, rest) := by
  have hends : EndsType ("; ".toList ++ (lengthText length ++ ']' :: rest)) := by
    have hmark := endsType_cons (c := ';') (by simp) (' ' :: (lengthText length ++ ']' :: rest))
    simpa using hmark
  rw [readBrackets, hread _ hends]
  simp only [Option.bind_eq_bind, Option.bind_some, after?_append, readLength_eq hlength]
  rfl

theorem Readable.ne_absent {t : TypeExpr} (h : Readable t) : t ≠ .absent := by
  cases h with
  | _ =>
      nofun

/-- A reader for the parts of a type makes a reader for the type. -/
theorem reads_readLevel {t : TypeExpr} (h : Readable t)
    (hparts : ∀ s ∈ t.children, s ≠ .absent → Reads sub s) : Reads (readLevel sub) t := by
  intro rest hrest
  cases h with
  | @primitive name hname =>
      have htext : (TypeExpr.primitive name).format.toList = name.toList := by
        simp [format, hname.nonempty]
      rw [htext, readLevel_word (by simpa using hname.nonempty) hname.word]
      exact readNamed_bare hname hrest
  | @path name args hname hargs =>
      have hread : ∀ a ∈ args, Reads sub a :=
        fun a ha => hparts a (List.mem_append_left _ ha) (hargs a ha).ne_absent
      have hrun : name.toList ≠ [] := by simpa using hname.nonempty
      cases args with
      | nil =>
          rw [toList_format_bare hname.nonempty, readLevel_word hrun hname.word]
          exact readNamed_bare hname hrest
      | cons a args =>
          rw [toList_format_path hname.nonempty, List.append_assoc, readLevel_word hrun hname.word,
            List.cons_append, List.append_assoc, canonical, canonicalAll_eq_map]
          exact readNamed_angle hname hargs hread rest
  | @call name inputs output hname hinputs _ =>
      have hread : ∀ i ∈ inputs, Reads sub i :=
        fun i hi => hparts i (List.mem_append_left _ hi) (hinputs i hi).ne_absent
      have hresult := hparts output (List.mem_append_right _ (List.mem_singleton.2 rfl))
      have hrun : name.toList ≠ [] := by simpa using hname.nonempty
      have hall := readNamed_signature hname.word hinputs hread hresult hrest
      rw [String.ofList_toList, if_neg hname.keyword.1] at hall
      rw [toList_format_call hname.nonempty, List.append_assoc, readLevel_word hrun hname.word,
        List.cons_append, List.append_assoc, List.cons_append, canonical, canonicalAll_eq_map]
      exact hall
  | @functionPointer inputs output hinputs _ =>
      have hread : ∀ i ∈ inputs, Reads sub i :=
        fun i hi => hparts i (List.mem_append_left _ hi) (hinputs i hi).ne_absent
      have hresult := hparts output (List.mem_append_right _ (List.mem_singleton.2 rfl))
      have hword : ∀ c ∈ "fn".toList, isWord c = true := by simp; decide
      have hall := readNamed_signature hword hinputs hread hresult hrest
      rw [String.ofList_toList, if_pos rfl] at hall
      rw [toList_format_functionPointer, List.append_assoc, readLevel_word (by simp) hword,
        List.cons_append, List.append_assoc, List.cons_append, canonical, canonicalAll_eq_map]
      exact hall
  | @reference lifetime isMutable inner hlifetime hinner =>
      have hread := hparts inner (List.mem_singleton.2 rfl) hinner.ne_absent
      rw [toList_format_reference, List.cons_append, List.append_assoc, List.append_assoc]
      exact readReference_eq hlifetime isMutable hinner hread hrest
  | @rawPointer isMutable inner hinner =>
      have hread := hparts inner (List.mem_singleton.2 rfl) hinner.ne_absent
      rw [toList_format_rawPointer, List.cons_append, List.append_assoc]
      exact readPointer_eq isMutable hread hrest
  | @tuple elems helems =>
      have hread : ∀ e ∈ elems, Reads sub e := fun e he => hparts e he (helems e he).ne_absent
      have hlist := readItems_listed ')' (by simp) helems hread rest
      rw [toList_format_tuple, List.cons_append, List.append_assoc, List.singleton_append,
        readLevel, hlist, canonical, canonicalAll_eq_map]
      rfl
  | @slice inner hinner =>
      have hread := hparts inner (List.mem_singleton.2 rfl) hinner.ne_absent
      rw [toList_format_slice, List.cons_append, List.append_assoc]
      exact readBrackets_slice hread rest
  | @array inner length hinner hlength =>
      have hread := hparts inner (List.mem_singleton.2 rfl) hinner.ne_absent
      rw [toList_format_array, List.cons_append, List.append_assoc, List.append_assoc,
        List.append_assoc]
      exact readBrackets_array hread hlength rest

end Reads

/-! ## All levels -/

theorem Readable.child {t : TypeExpr} (h : Readable t) {s : TypeExpr} (hs : s ∈ t.children)
    (hne : s ≠ .absent) : Readable s := by
  cases h with
  | primitive =>
      cases hs
  | path _ hargs =>
      rcases List.mem_append.1 hs with hs | hs
      · exact hargs s hs
      · exact absurd (List.mem_singleton.1 hs) hne
  | call _ hinputs houtput | functionPointer hinputs houtput =>
      rcases List.mem_append.1 hs with hs | hs
      · exact hinputs s hs
      · rw [List.mem_singleton.1 hs] at hne ⊢
        exact houtput hne
  | tuple helems =>
      exact helems s hs
  | reference _ hinner | rawPointer hinner | slice hinner | array hinner _ =>
      exact List.mem_singleton.1 hs ▸ hinner

/-- With enough fuel the reader gives back what was written. -/
theorem reader_format {t : TypeExpr} (h : Readable t) {fuel : Nat} (hfuel : sizeOf t ≤ fuel) :
    Reads (reader fuel) t := by
  -- the parts of a type are smaller, and read with one unit less
  induction fuel generalizing t with
  | zero =>
      cases h with
      | _ =>
          simp at hfuel
  | succ fuel ih =>
      refine reads_readLevel h fun s hs hne => ih (h.child hs hne) ?_
      have hlt := sizeOf_lt_of_mem_children hs
      omega

/-- Two types with one text differ in nothing but the choices of the canonical form. -/
theorem format_eq_format_iff {t u : TypeExpr} (ht : Readable t) (hu : Readable u) :
    t.format = u.format ↔ t.canonical = u.canonical := by
  constructor
  · intro h
    have hend : EndsType [] := nofun
    -- one reader, with fuel for both, is run on the one text
    have hleft := reader_format ht (Nat.le_max_left (sizeOf t) (sizeOf u)) [] hend
    have hright := reader_format hu (Nat.le_max_right (sizeOf t) (sizeOf u)) [] hend
    rw [h] at hleft
    exact congrArg Prod.fst (Option.some.inj (hleft.symm.trans hright))
  · intro h
    rw [← format_canonical t, h, format_canonical]

/-- Two spellings of one signature, with and without ticks and paths. -/
theorem format_eq_format_closure :
    let t :=
      reference "a" true (path "FnMut" [primitive "u8", array (tuple []) "N"] true (primitive "T"))
    let u := reference "'a" true
      (path "FnMut" [path "u8" [] false absent, array (tuple []) "N"] true
        (path "T" [] false absent))
    Readable t ∧ Readable u ∧ t.format = u.format := by
  have hname : ∀ s ∈ ["a", "u8", "N", "T", "FnMut"], IsTypeName s := by
    intro s hs
    refine ⟨?_, ?_, ?_⟩
    · revert s
      decide
    · revert s
      simp
      decide
    · revert s
      decide
  have hlength : Readable (array (tuple []) "N") :=
    .array (.tuple nofun) (.inr (hname "N" (by decide)))
  have ht : Readable (reference "a" true
      (path "FnMut" [primitive "u8", array (tuple []) "N"] true (primitive "T"))) := by
    refine .reference (.inr ⟨"a", hname "a" (by decide), .inl rfl⟩) ?_
    refine .call (hname "FnMut" (by decide)) ?_ fun _ => .primitive (hname "T" (by decide))
    simpa using ⟨Readable.primitive (hname "u8" (by decide)), hlength⟩
  have hu : Readable (reference "'a" true
      (path "FnMut" [path "u8" [] false absent, array (tuple []) "N"] true
        (path "T" [] false absent))) := by
    refine .reference (.inr ⟨"a", hname "a" (by decide), .inr rfl⟩) ?_
    refine .call (hname "FnMut" (by decide)) ?_ fun _ => .path (hname "T" (by decide)) nofun
    simpa using ⟨Readable.path (hname "u8" (by decide)) nofun, hlength⟩
  refine ⟨ht, hu, (format_eq_format_iff ht hu).2 ?_⟩
  simp [canonical, canonicalAll, ticked, withTick]

end TypeExpr
end ApiPages
