import ApiPages.Proofs.Schema.Steps

/-!
# A reader that goes by indices

`Reader` finds the open item as the last one of its kind.  Here the same reader keeps the index of
the open item, an integer for the depth, and for a trailing comment the indices of the item or
member it belongs to.  Every access by index is checked, and one that is out of range is a failure
of the reading.

* `Schema.items` and `Block.members` are the collections of a schema, one function for the three
  kinds;
* `Slot` are the indices that are kept for a trailing comment, `Schema.annotate?` goes where they
  say;
* `IndexedReader` takes statements and lines as `Reader` does;
* `IndexedReader.Step` is all that a statement can do to it, with the indices it uses;
* `IndexedReader.Sound` says where the index of the open item points.  `exists_step` says that a
  sound reader can take every statement, `Step.toReader` that `Reader` does the same.
-/

namespace ApiPages

open Recognize (Block)

/-! ## Collections by kind -/

namespace Recognize.Block

/-- What a block of a kind becomes. -/
abbrev Item : Block → Type
  | .service => Service
  | .message => Message
  | .enum => EnumDecl

/-- What an item of a kind lists. -/
abbrev Member : Block → Type
  | .service => Rpc
  | .message => MessageField
  | .enum => EnumValue

/-- An item without members. -/
def item : (kind : Block) → String → List String → kind.Item
  | .service, name, docs => { name, docs : Service }
  | .message, name, docs => { name, docs : Message }
  | .enum, name, docs => { name, docs : EnumDecl }

def members : (kind : Block) → kind.Item → List kind.Member
  | .service, x => x.rpcs
  | .message, x => x.fields
  | .enum, x => x.values

def withMembers : (kind : Block) → kind.Item → List kind.Member → kind.Item
  | .service, x, rpcs => { x with rpcs }
  | .message, x, fields => { x with fields }
  | .enum, x, values => { x with values }

/-- The item with one more comment line. -/
def noted : (kind : Block) → String → kind.Item → kind.Item
  | .service, comment, x => { x with docs := x.docs ++ [comment] }
  | .message, comment, x => { x with docs := x.docs ++ [comment] }
  | .enum, comment, x => { x with docs := x.docs ++ [comment] }

/-- The member with one more comment line. -/
def notedMember : (kind : Block) → String → kind.Member → kind.Member
  | .service, comment, m => { m with docs := m.docs ++ [comment] }
  | .message, comment, m => { m with docs := m.docs ++ [comment] }
  | .enum, comment, m => { m with docs := m.docs ++ [comment] }

/-- The member that a statement declares in an item of a kind, with its comment lines. -/
def member? : (kind : Block) → List Char → List String → Option kind.Member
  | .service, s, docs => (Recognize.rpc? s).map fun m => { m with docs }
  | .message, s, docs => (Recognize.field? s).map fun m => { m with docs }
  | .enum, s, docs => (Recognize.enumValue? s).map fun m => { m with docs }

@[simp]
theorem members_withMembers (kind : Block) (x : kind.Item) (l : List kind.Member) :
    kind.members (kind.withMembers x l) = l := by
  cases kind with
  | _ =>
      rfl

def spot : Block → Spot
  | .service => .service
  | .message => .message
  | .enum => .enum

def memberSpot : Block → Spot
  | .service => .rpc
  | .message => .field
  | .enum => .value

end Recognize.Block

namespace Schema

/-- The items of a kind. -/
def items (s : Schema) : (kind : Block) → List kind.Item
  | .service => s.services
  | .message => s.messages
  | .enum => s.enums

def withItems (s : Schema) : (kind : Block) → List kind.Item → Schema
  | .service, services => { s with services }
  | .message, messages => { s with messages }
  | .enum, enums => { s with enums }

/-- The schema with another item at an index. -/
def setItem (s : Schema) (kind : Block) (i : Nat) (x : kind.Item) : Schema :=
  s.withItems kind ((s.items kind).set i x)

@[simp]
theorem items_withItems (s : Schema) (kind : Block) (l : List kind.Item) :
    (s.withItems kind l).items kind = l := by
  cases kind with
  | _ =>
      rfl

theorem items_withItems_of_ne (s : Schema) {kind other : Block} (h : kind ≠ other)
    (l : List kind.Item) :
    (s.withItems kind l).items other = s.items other := by
  cases kind with
  | _ =>
      cases other with
      | _ =>
          first
            | rfl
            | exact absurd rfl h

/-- The items of all other kinds, and those at all other indices, stay. -/
theorem getElem?_items_setItem (s : Schema) {kind other : Block} {i j : Nat}
    (h : ¬ (kind = other ∧ i = j)) (x : kind.Item) :
    ((s.setItem kind i x).items other)[j]? = (s.items other)[j]? := by
  by_cases hkind : kind = other
  · subst hkind
    rw [setItem, items_withItems, List.getElem?_set_ne fun hi => h ⟨rfl, hi⟩]
  · rw [setItem, items_withItems_of_ne s hkind]

theorem getElem?_items_setItem_self {s : Schema} {kind : Block} {i : Nat} {y : kind.Item}
    (h : (s.items kind)[i]? = some y) (x : kind.Item) :
    ((s.setItem kind i x).items kind)[i]? = some x := by
  rw [setItem, items_withItems, List.getElem?_set_self (List.getElem?_eq_some_iff.1 h).1]

/-- An item that is put behind the others leaves them where they are. -/
theorem getElem?_items_concat {s : Schema} {kind other : Block} {i : Nat} {y : other.Item}
    (h : (s.items other)[i]? = some y) (x : kind.Item) :
    ((s.withItems kind (s.items kind ++ [x])).items other)[i]? = some y := by
  by_cases hkind : kind = other
  · subst hkind
    rw [items_withItems, List.getElem?_append_left (List.getElem?_eq_some_iff.1 h).1, h]
  · rw [items_withItems_of_ne s hkind, h]

@[simp]
theorem length_items_setItem (s : Schema) (kind other : Block) (i : Nat) (x : kind.Item) :
    ((s.setItem kind i x).items other).length = (s.items other).length := by
  by_cases hkind : kind = other
  · subst hkind
    rw [setItem, items_withItems, List.length_set]
  · rw [setItem, items_withItems_of_ne s hkind]

/-- What is declared for the whole file is no item. -/
@[simp]
theorem items_headed (schema : Schema) (s : List Char) (kind : Block) :
    (schema.headed s).items kind = schema.items kind := by
  rcases schema.headed_eq s with ⟨package, dialect, imports, hheaded⟩
  rw [hheaded]
  cases kind with
  | _ =>
      rfl

end Schema

/-! ## The last index -/

/-- A change at the last index changes the last element. -/
theorem set_eq_modifyLast {α : Type} {l : List α} {i : Nat} {a : α} (hi : i + 1 = l.length)
    (ha : l[i]? = some a) (f : α → α) : l.set i (f a) = modifyLast f l := by
  rcases List.eq_nil_or_concat l with rfl | ⟨front, b, rfl⟩
  · cases hi
  · have hfront : i = front.length := by
      simpa using hi
    subst hfront
    have hb : b = a := by
      simpa using ha
    rw [List.concat_eq_append, modifyLast_append_singleton,
      List.set_append_right _ _ (Nat.le_refl _), hb]
    simp

theorem getElem?_dropLast_eq_some_iff {α : Type} {l : List α} {i j : Nat} {a : α}
    (hi : i + 1 = l.length) :
    l.dropLast[j]? = some a ↔ l[j]? = some a ∧ i ≠ j := by
  rw [List.getElem?_dropLast, ← hi, Nat.add_sub_cancel]
  constructor
  · intro ha
    split at ha
    · exact ⟨ha, by omega⟩
    · cases ha
  · rintro ⟨ha, hne⟩
    have hj := (List.getElem?_eq_some_iff.1 ha).1
    rw [if_pos (by omega), ha]

theorem exists_getElem?_of_last {α : Type} {l : List α} {i : Nat} (hi : i + 1 = l.length) :
    ∃ a, l[i]? = some a :=
  ⟨l[i], List.getElem?_eq_getElem (by omega)⟩

/-! ## Slots -/

/-- Where an item stands in its collection, or a member in its item. -/
inductive Slot where
  | item (kind : Block) (index : Nat)
  | member (kind : Block) (index position : Nat)
  deriving DecidableEq, Repr

namespace Slot

def kind : Slot → Block
  | item kind _ => kind
  | member kind _ _ => kind

/-- The index of the item. -/
def index : Slot → Nat
  | item _ index => index
  | member _ index _ => index

def spot : Slot → Spot
  | item kind _ => kind.spot
  | member kind _ _ => kind.memberSpot

/-- There is something at the indices. -/
def InRange (s : Schema) : Slot → Prop
  | item kind i => i < (s.items kind).length
  | member kind i j => ∃ x, (s.items kind)[i]? = some x ∧ j < (kind.members x).length

/-- The indices are the last ones. -/
def IsLast (s : Schema) : Slot → Prop
  | item kind i => i + 1 = (s.items kind).length
  | member kind i j =>
      i + 1 = (s.items kind).length ∧ ∃ x,
        (s.items kind)[i]? = some x ∧ j + 1 = (kind.members x).length

theorem IsLast.inRange {s : Schema} {slot : Slot} (h : slot.IsLast s) : slot.InRange s := by
  cases slot with
  | item kind i =>
      exact Nat.lt_of_succ_le (Nat.le_of_eq h)
  | member kind i j =>
      rcases h with ⟨-, x, hx, hj⟩
      exact ⟨x, hx, Nat.lt_of_succ_le (Nat.le_of_eq hj)⟩

theorem IsLast.congr {s s' : Schema} {slot : Slot} (h : slot.IsLast s)
    (hitems : s'.items slot.kind = s.items slot.kind) : slot.IsLast s' := by
  cases slot with
  | _ =>
      simp only [kind] at hitems
      simpa only [IsLast, hitems] using h

end Slot

/-- The item with a comment line added to it or to one of its members. -/
def Recognize.Block.Noted (kind : Block) (comment : String) (x x' : kind.Item) : Prop :=
  x' = kind.noted comment x ∨ ∃ j m, (kind.members x)[j]? = some m ∧
    x' = kind.withMembers x ((kind.members x).set j (kind.notedMember comment m))

namespace Schema

/-- Adds a comment to what stands at a slot, if anything does. -/
def annotate? (s : Schema) (comment : String) : Slot → Option Schema
  | .item kind i => do
      let x ← (s.items kind)[i]?
      return s.setItem kind i (kind.noted comment x)
  | .member kind i j => do
      let x ← (s.items kind)[i]?
      let m ← (kind.members x)[j]?
      return s.setItem kind i
        (kind.withMembers x ((kind.members x).set j (kind.notedMember comment m)))

theorem annotate_spot (s : Schema) (kind : Block) (comment : String) :
    s.annotate kind.spot comment = s.withItems kind
      (modifyLast (kind.noted comment) (s.items kind)) := by
  cases kind with
  | _ =>
      rfl

theorem annotate_memberSpot (s : Schema) (kind : Block) (comment : String) :
    s.annotate kind.memberSpot comment =
    s.withItems kind (modifyLast
      (fun x => kind.withMembers x (modifyLast (kind.notedMember comment) (kind.members x)))
        (s.items kind)) := by
  cases kind with
  | _ =>
      rfl

/-- At the last indices stands what a trailing comment is for, and one item is changed. -/
theorem annotate?_of_isLast {s : Schema} {slot : Slot} (h : slot.IsLast s) (comment : String) :
    s.annotate? comment slot = some (s.annotate slot.spot comment) ∧
      ∃ x x', (s.items slot.kind)[slot.index]? = some x ∧ slot.kind.Noted comment x x' ∧
        s.annotate slot.spot comment = s.setItem slot.kind slot.index x' := by
  cases slot with
  | item kind i =>
      rcases exists_getElem?_of_last h with ⟨x, hx⟩
      have hset : s.annotate kind.spot comment = s.setItem kind i (kind.noted comment x) := by
        rw [annotate_spot, setItem, set_eq_modifyLast h hx]
      refine ⟨?_, x, _, hx, .inl rfl, hset⟩
      simp [annotate?, hx, Slot.spot, hset]
  | member kind i j =>
      rcases h with ⟨hi, x, hx, hj⟩
      rcases exists_getElem?_of_last hj with ⟨m, hm⟩
      have hset : s.annotate kind.memberSpot comment = s.setItem kind i
          (kind.withMembers x ((kind.members x).set j (kind.notedMember comment m))) := by
        rw [annotate_memberSpot, setItem, set_eq_modifyLast hj hm, ← set_eq_modifyLast hi hx
          fun x => kind.withMembers x (modifyLast (kind.notedMember comment) (kind.members x))]
      refine ⟨?_, x, _, hx, .inr ⟨j, m, hm, rfl⟩, hset⟩
      simp [annotate?, hx, hm, Slot.spot, hset]

end Schema

/-! ## The reader -/

structure IndexedReader where
  schema : Schema := {}
  /-- The kind of the item block being read; `none` at top level and in blocks that are not
  items. -/
  block : Option Block := none
  depth : Int := 0
  /-- The index of the open item in its collection. -/
  current : Nat := 0
  /-- The comment lines that wait for an item. -/
  pending : List String := []
  inComment : Bool := false
  deriving DecidableEq, Repr

namespace IndexedReader

/-- The depth after a closing brace; a surplus one is ignored. -/
def lowered (depth : Int) : Int :=
  if 0 < depth then depth - 1 else depth

/-- A closing brace. -/
def close (r : IndexedReader) : IndexedReader :=
  { r with
    depth := lowered r.depth
    block := if lowered r.depth = 0 then none else r.block }

/-- Opens an item block behind the items of its kind. -/
def openBlock (r : IndexedReader) (kind : Block) (name : String) : IndexedReader × Slot :=
  let items := r.schema.items kind
  ({ r with
      schema := r.schema.withItems kind (items ++ [kind.item name r.pending])
      block := some kind
      depth := 1
      current := items.length
      pending := [] },
    .item kind items.length)

/-- A top-level declaration. -/
def declaration (r : IndexedReader) (s : List Char) : IndexedReader :=
  { r with
    schema := r.schema.headed s
    pending := if Reader.isDeclaration s then [] else r.pending }

/-- The reader with a member put behind those of the item at its index. -/
def join (r : IndexedReader) (kind : Block) (x : kind.Item) (m : kind.Member) : IndexedReader :=
  { r with
    schema := r.schema.setItem kind r.current (kind.withMembers x (kind.members x ++ [m]))
    pending := [] }

/-- A statement inside an item block.  The open item is looked up if the statement is a member. -/
def member? (r : IndexedReader) (kind : Block) (s : List Char) :
    Option (IndexedReader × Option Slot) :=
  match kind.member? s r.pending with
  | none => some (r, none)
  | some m => do
      let x ← (r.schema.items kind)[r.current]?
      return (r.join kind x m, some (.member kind r.current (kind.members x).length))

/-- A statement that opens no item block. -/
def inner? (r : IndexedReader) (s : List Char) : Option (IndexedReader × Option Slot) :=
  match r.block with
  | none => some (if r.depth == 0 then r.declaration s else r, none)
  | some kind => r.member? kind s

/-- The reader with the opening brace of a statement counted. -/
def deepened (r : IndexedReader) (s : List Char) : IndexedReader :=
  if s.getLast? == some '\x7b' then { r with depth := r.depth + 1 } else r

/-- Takes one statement; returns the slot of the item or member it declares, if any. -/
def statement? (r : IndexedReader) (s : List Char) : Option (IndexedReader × Option Slot) :=
  if s == ['\x7d'] then some (r.close, none)
  else
    match if r.block.isNone && r.depth == 0 then Reader.opening? s else none with
    | some (kind, name) => some ((r.openBlock kind name).1, some (r.openBlock kind name).2)
    | none => (r.inner? s).map fun (r, slot) => (r.deepened s, slot)

/-- One statement of a row; the slot found so far is kept until another one is found. -/
def found? (state : IndexedReader × Option Slot) (s : List Char) :
    Option (IndexedReader × Option Slot) :=
  (state.1.statement? s).map fun (r, slot) => (r, slot.or state.2)

/-- Takes the statements of a line; returns the last slot found there, if any. -/
def statements? (r : IndexedReader) (stmts : List (List Char)) :
    Option (IndexedReader × Option Slot) :=
  stmts.foldlM found? (r, none)

def blockComment (r : IndexedReader) (line : List Char) : IndexedReader :=
  { r with
    inComment := r.inComment && !Text.occurs ['*', '/'] line
    pending := r.pending ++ Reader.commentText line }

/-- Gives a comment that is not empty to what stands at the slot. -/
def attach? (r : IndexedReader) (slot : Option Slot) (comment : List Char) : Option IndexedReader :=
  match slot with
  | some slot =>
      if comment.isEmpty then some r
      else (r.schema.annotate? (String.ofList comment) slot).map fun schema => { r with schema }
  | none => some r

/-- A line of code, possibly with a trailing comment. -/
def codeLine? (r : IndexedReader) (line : List Char) : Option IndexedReader := do
  let (code, comment) := Statement.splitComment line
  let (r, slot) ← r.statements? (Statement.split code)
  r.attach? slot comment

def line? (r : IndexedReader) (raw : List Char) : Option IndexedReader :=
  let line := Text.trim raw
  if r.inComment then some (r.blockComment line)
  else
    match line with
    | [] => some { r with pending := [] }
    | '/' :: '/' :: rest => some { r with pending := r.pending ++ [String.ofList (Text.trim rest)] }
    | '/' :: '*' :: rest => some ({ r with inComment := true }.blockComment rest)
    | _ => r.codeLine? line

/-- The reader after some lines. -/
def readLines? (lines : List (List Char)) : Option IndexedReader :=
  lines.foldlM line? {}

/-- The schema read, cut off at the index of a block left open. -/
def finish? (r : IndexedReader) : Option Schema :=
  match r.block with
  | none => some r.schema
  | some kind =>
      if r.current ≤ (r.schema.items kind).length then
        some (r.schema.withItems kind ((r.schema.items kind).take r.current))
      else none

/-! ## The reader that goes by the last item -/

/-- The reader without its index. -/
def toReader (r : IndexedReader) : Reader :=
  { schema := r.schema
    block := r.block
    depth := r.depth.toNat
    pending := r.pending
    inComment := r.inComment }

/-- The depth counts braces that are open, and the open item is the last one of its kind. -/
structure Sound (r : IndexedReader) : Prop where
  depth_nonneg : 0 ≤ r.depth
  depth_pos : ∀ kind, r.block = some kind → 1 ≤ r.depth
  current_last : ∀ kind, r.block = some kind → r.current + 1 = (r.schema.items kind).length

theorem sound_start : Sound {} where
  depth_nonneg := Int.le_refl 0
  depth_pos := by simp
  current_last := by simp

/-! ## What a statement does -/

/-- All that a statement can do, by the place where it stands. -/
inductive Step (r : IndexedReader) (s : List Char) : IndexedReader → Option Slot → Prop where
  | close : s = ['\x7d'] → Step r s r.close none
  | opening {kind : Block} {name : String} :
      s ≠ ['\x7d'] → r.block = none → r.depth = 0 → Reader.opening? s = some (kind, name) →
        Step r s (r.openBlock kind name).1 (some (r.openBlock kind name).2)
  | declaration :
      s ≠ ['\x7d'] → r.block = none → r.depth = 0 → Reader.opening? s = none →
        Step r s ((r.declaration s).deepened s) none
  | skip : s ≠ ['\x7d'] → r.block = none → r.depth ≠ 0 → Step r s (r.deepened s) none
  | member {kind : Block} {x : kind.Item} {m : kind.Member} :
      s ≠ ['\x7d'] → r.block = some kind → kind.member? s r.pending = some m →
        (r.schema.items kind)[r.current]? = some x →
        Step r s ((r.join kind x m).deepened s)
          (some (.member kind r.current (kind.members x).length))
  | pass {kind : Block} :
      s ≠ ['\x7d'] → r.block = some kind → kind.member? s r.pending = none →
        Step r s (r.deepened s) none

/-- A sound reader takes every statement. -/
theorem exists_step {r : IndexedReader} (h : r.Sound) (s : List Char) :
    ∃ r' slot, r.statement? s = some (r', slot) ∧ r.Step s r' slot := by
  by_cases hs : s = ['\x7d']
  · exact ⟨_, _, by rw [statement?, if_pos (beq_iff_eq.2 hs)], .close hs⟩
  · unfold statement?
    rw [if_neg (mt beq_iff_eq.1 hs)]
    cases hblock : r.block with
    | none =>
        by_cases hdepth : r.depth = 0
        · cases hheader : Reader.opening? s with
          | some header =>
              exact ⟨_, _, by simp [hdepth], .opening hs hblock hdepth hheader⟩
          | none =>
              exact ⟨_, _, by simp [inner?, hblock, hdepth], .declaration hs hblock hdepth hheader⟩
        · exact ⟨_, _, by simp [inner?, hblock, hdepth], .skip hs hblock hdepth⟩
    | some kind =>
        cases hmember : kind.member? s r.pending with
        | none =>
            exact ⟨_, _, by simp [inner?, hblock, member?, hmember], .pass hs hblock hmember⟩
        | some m =>
            -- here the open item is looked up, and its index is the last one
            rcases exists_getElem?_of_last (h.current_last kind hblock) with ⟨x, hx⟩
            exact ⟨_,
              _, by simp [inner?, hblock, member?, hmember, hx], .member hs hblock hmember hx⟩

variable {r r' : IndexedReader} {s : List Char} {slot : Option Slot}

theorem deepened_eq (r : IndexedReader) (s : List Char) :
    ∃ n : Int, 0 ≤ n ∧ r.deepened s = { r with depth := r.depth + n } := by
  unfold deepened
  split
  · exact ⟨1, Int.zero_le_ofNat 1, rfl⟩
  · exact ⟨0, Int.le_refl 0, by rw [Int.add_zero]⟩

theorem sound_deepened (h : r.Sound) (s : List Char) : (r.deepened s).Sound := by
  rcases deepened_eq r s with ⟨n, hn, hdeep⟩
  rw [hdeep]
  exact
    { depth_nonneg := Int.add_nonneg h.depth_nonneg hn
      depth_pos :=
        fun kind hblock => Int.le_trans (h.depth_pos kind hblock) (Int.le_add_of_nonneg_right hn)
      current_last := h.current_last }

/-- Only the number of items of each kind matters. -/
theorem Sound.withSchema (h : r.Sound) (schema : Schema) (pending : List String) (inComment : Bool)
    (hlength : ∀ kind, (schema.items kind).length = (r.schema.items kind).length) :
    ({ r with schema, pending, inComment } : IndexedReader).Sound where
  depth_nonneg := h.depth_nonneg
  depth_pos := h.depth_pos
  current_last kind hblock := (h.current_last kind hblock).trans (hlength kind).symm

theorem lowered_nonneg {depth : Int} (h : 0 ≤ depth) : 0 ≤ lowered depth := by
  unfold lowered
  split
  · omega
  · exact h

theorem toNat_lowered (depth : Int) : (lowered depth).toNat = depth.toNat - 1 := by
  unfold lowered
  split
  · omega
  · omega

/-- The block stays as long as some brace is open. -/
theorem block_close {kind : Block} (h : r.close.block = some kind) :
    lowered r.depth ≠ 0 ∧ r.block = some kind := by
  simp only [close] at h
  split at h
  · cases h
  · next hopen =>
      exact ⟨hopen, h⟩

theorem sound_close (h : r.Sound) : r.close.Sound where
  depth_nonneg := lowered_nonneg h.depth_nonneg
  depth_pos kind hblock := by
    have hdepth : 0 ≤ lowered r.depth := lowered_nonneg h.depth_nonneg
    have hopen := (block_close hblock).1
    simp only [close]
    omega
  current_last kind hblock := h.current_last kind (block_close hblock).2

theorem sound_openBlock (r : IndexedReader) (kind : Block) (name : String) :
    (r.openBlock kind name).1.Sound where
  depth_nonneg := Int.zero_le_ofNat 1
  depth_pos _ _ := Int.le_refl 1
  current_last other hblock := by
    cases hblock
    simp [openBlock]

theorem sound_declaration (h : r.Sound) (s : List Char) : (r.declaration s).Sound :=
  h.withSchema _ _ _ fun kind => congrArg List.length (Schema.items_headed r.schema s kind)

theorem sound_join (h : r.Sound) (kind : Block) (x : kind.Item) (m : kind.Member) :
    (r.join kind x m).Sound :=
  h.withSchema _ _ _ fun _ => Schema.length_items_setItem ..

/-- A statement leaves the depth and the index of the open item right. -/
theorem Step.sound (hstep : r.Step s r' slot) (h : r.Sound) : r'.Sound := by
  cases hstep with
  | close _ =>
      exact sound_close h
  | opening _ _ _ _ =>
      exact sound_openBlock r _ _
  | declaration _ _ _ _ =>
      exact sound_deepened (sound_declaration h s) s
  | skip _ _ _ =>
      exact sound_deepened h s
  | member _ _ _ _ =>
      exact sound_deepened (sound_join h _ _ _) s
  | pass _ _ _ =>
      exact sound_deepened h s

/-! ## What a statement declares -/

theorem schema_deepened (r : IndexedReader) (s : List Char) : (r.deepened s).schema = r.schema := by
  unfold deepened
  split
  · rfl
  · rfl

/-- What is declared is the last of its kind, and it belongs to the open item. -/
theorem Step.declared {q : Slot} (hstep : r.Step s r' (some q)) (h : r.Sound) :
    q.IsLast r'.schema ∧ r'.block = some q.kind ∧ r'.current = q.index := by
  cases hstep with
  | opening _ _ _ _ =>
      refine ⟨?_, rfl, rfl⟩
      simp [openBlock, Slot.IsLast]
  | @member kind x m _ hblock _ hx =>
      rcases deepened_eq (r.join kind x m) s with ⟨n, -, hdeep⟩
      rw [hdeep]
      have hlast := h.current_last kind hblock
      refine ⟨⟨?_, _, Schema.getElem?_items_setItem_self hx _, ?_⟩, hblock, rfl⟩
      · simpa [join] using hlast
      · simp

/-- A statement that declares no item changes none. -/
theorem Step.items_eq (hstep : r.Step s r' none) (kind : Block) :
    r'.schema.items kind = r.schema.items kind := by
  cases hstep with
  | close _ =>
      rfl
  | declaration _ _ _ _ =>
      rw [schema_deepened, IndexedReader.declaration, Schema.items_headed]
  | skip _ _ _ =>
      rw [schema_deepened]
  | pass _ _ _ =>
      rw [schema_deepened]

end IndexedReader

/-! ## Agreement of the two readers -/

namespace Reader

theorem openBlock_eq (r : Reader) (kind : Block) (name : String) : r.openBlock kind name =
    ({ r with
        schema := r.schema.withItems kind (r.schema.items kind ++ [kind.item name r.pending])
        block := some kind
        depth := 1
        pending := [] },
      kind.spot) := by
  cases kind with
  | _ =>
      rfl

theorem member_eq (r : Reader) (kind : Block) (s : List Char) : r.member kind s =
    match kind.member? s r.pending with
    | none => (r, none)
    | some m =>
        ({ r with
            schema := r.schema.withItems kind
              (modifyLast (fun x => kind.withMembers x (kind.members x ++ [m]))
                (r.schema.items kind))
            pending := [] },
          some kind.memberSpot) := by
  unfold member
  cases kind with
  | service =>
      cases hrpc : Recognize.rpc? s with
      | _ =>
          simp only [Block.member?, hrpc]
          rfl
  | message =>
      cases hfield : Recognize.field? s with
      | _ =>
          simp only [Block.member?, hfield]
          rfl
  | enum =>
      cases hvalue : Recognize.enumValue? s with
      | _ =>
          simp only [Block.member?, hvalue]
          rfl

theorem finish_eq (r : Reader) : r.finish =
    match r.block with
    | none => r.schema
    | some kind => r.schema.withItems kind (r.schema.items kind).dropLast := by
  unfold finish
  cases r.block with
  | none =>
      rfl
  | some kind =>
      cases kind with
      | _ =>
          rfl

end Reader

namespace IndexedReader

variable {r r' : IndexedReader} {s : List Char} {slot : Option Slot}

theorem toReader_deepened (h : r.Sound) (s : List Char) :
    (r.deepened s).toReader = r.toReader.deepened s := by
  unfold deepened Reader.deepened
  split
  · simp [toReader, Int.toNat_add h.depth_nonneg]
  · rfl

theorem toReader_close (h : r.Sound) : r.close.toReader = r.toReader.close := by
  have hdepth : 0 ≤ lowered r.depth := lowered_nonneg h.depth_nonneg
  have hzero : lowered r.depth = 0 ↔ r.depth.toNat - 1 = 0 := by
    rw [← toNat_lowered]
    omega
  simp only [toReader, close, Reader.close, toNat_lowered, beq_iff_eq, hzero]

theorem toReader_declaration (r : IndexedReader) (s : List Char) :
    (r.declaration s).toReader = r.toReader.declaration s := by
  rw [Reader.declaration_eq]
  rfl

/-- A statement does the same to the reader that goes by the last item. -/
theorem Step.toReader (hstep : r.Step s r' slot) (h : r.Sound) :
    r.toReader.statement s = (r'.toReader, slot.map Slot.spot) := by
  have hzero : r.toReader.depth = 0 ↔ r.depth = 0 := by
    have hdepth := h.depth_nonneg
    simp only [IndexedReader.toReader]
    omega
  have hsame : r.toReader.block = r.block := rfl
  -- both readers branch on the same block and depth
  rw [Reader.statement_eq, hsame]
  cases hstep with
  | close hs =>
      rw [if_pos (beq_iff_eq.2 hs), toReader_close h]
      rfl
  | opening hs hblock hdepth hheader =>
      rw [if_neg (mt beq_iff_eq.1 hs), hblock]
      simp only [beq_iff_eq, hzero, hdepth, if_true, hheader, Reader.openBlock_eq]
      rfl
  | declaration hs hblock hdepth hheader =>
      rw [if_neg (mt beq_iff_eq.1 hs), hblock]
      simp only [beq_iff_eq, hzero, hdepth, if_true, hheader]
      rw [toReader_deepened (sound_declaration h s), toReader_declaration]
      rfl
  | skip hs hblock hdepth =>
      rw [if_neg (mt beq_iff_eq.1 hs), hblock]
      simp only [beq_iff_eq, hzero, hdepth, if_false]
      rw [toReader_deepened h]
      rfl
  | @member kind x m hs hblock hmember hx =>
      have hpending : r.toReader.pending = r.pending := rfl
      have hlast := set_eq_modifyLast (h.current_last kind hblock) hx
        fun x => kind.withMembers x (kind.members x ++ [m])
      rw [if_neg (mt beq_iff_eq.1 hs), hblock]
      simp only [Reader.member_eq, hpending, hmember]
      rw [toReader_deepened (sound_join h kind x m), IndexedReader.toReader, join,
        Schema.setItem, hlast]
      rfl
  | pass hs hblock hmember =>
      have hpending : r.toReader.pending = r.pending := rfl
      rw [if_neg (mt beq_iff_eq.1 hs), hblock]
      simp only [Reader.member_eq, hpending, hmember]
      rw [toReader_deepened h]
      rfl

theorem finish_toReader (r : IndexedReader) : r.toReader.finish =
    match r.block with
    | none => r.schema
    | some kind => r.schema.withItems kind (r.schema.items kind).dropLast :=
  Reader.finish_eq r.toReader

/-- A sound reader can cut off its open item. -/
theorem finish?_eq (h : r.Sound) : r.finish? = some r.toReader.finish := by
  rw [finish_toReader, finish?]
  cases hopen : r.block with
  | none =>
      rfl
  | some kind =>
      have hlast := h.current_last kind hopen
      have hle : r.current ≤ (r.schema.items kind).length := by
        omega
      have hlength : (r.schema.items kind).length - 1 = r.current := by
        omega
      dsimp only
      rw [if_pos hle, List.dropLast_eq_take, hlength]

end IndexedReader
end ApiPages
