import ApiPages.Schema.Compare
import Mathlib.Data.List.Nodup
import Mathlib.Data.List.Perm.Subperm

/-!
# When a schema agrees with the file

The comparison looks up each declaration by name, takes the first parsed item of that name, and
compares numbers.  That this leaves no room for an item too many, one too few or one read twice is a
matter of counting.

* `Descriptor.perm_names_iff` is the counting argument, for services and for messages;
* `Descriptor.Agrees` says what it means that a schema is a faithful flat view of a file;
* `Descriptor.compare_eq_nil_iff` says that the comparison finds nothing exactly then.
-/

namespace ApiPages

namespace Descriptor

/-! ## Counting names -/

section Names

variable {α β : Type} {declared : List α} {parsed : List β} {name : α → String} {name' : β → String}

/-- Distinct names that all occur in a list of the same length are the names of that list. -/
theorem perm_of_subset (hnodup : (declared.map name).Nodup)
    (hlength : declared.length = parsed.length) (hsubset : declared.map name ⊆ parsed.map name') :
    (parsed.map name').Perm (declared.map name) := by
  have hsubperm : (declared.map name).Subperm (parsed.map name') :=
    List.subperm_of_subset hnodup hsubset
  have hle : (parsed.map name').length ≤ (declared.map name).length := by
    simp [hlength]
  exact (hsubperm.perm_of_length_le hle).symm

/-- As many items are parsed as declared, and the first parsed item of each declared name has the
right number of members, exactly if the names are the same up to order and every parsed item has the
right number of members. -/
theorem perm_names_iff (hnodup : (declared.map name).Nodup) (parsed : List β) (name' : β → String)
    (members : α → Nat) (members' : β → Nat) :
    (declared.length = parsed.length ∧ ∀ a ∈ declared, ∃ b,
        parsed.find? (fun b => name' b == name a) = some b ∧ members a = members' b) ↔
      (parsed.map name').Perm (declared.map name) ∧
        ∀ a ∈ declared, ∀ b ∈ parsed, name' b = name a → members' b = members a := by
  constructor
  · rintro ⟨hlength, hfound⟩
    have hsubset : declared.map name ⊆ parsed.map name' := by
      intro n hn
      obtain ⟨a, ha, rfl⟩ := List.mem_map.1 hn
      obtain ⟨b, hb, -⟩ := hfound a ha
      have hname : name' b = name a := by
        simpa using List.find?_some hb
      rw [← hname]
      exact List.mem_map_of_mem (List.mem_of_find?_eq_some hb)
    have hperm := perm_of_subset hnodup hlength hsubset
    refine ⟨hperm, ?_⟩
    intro a ha b hb hname
    -- the parsed names are distinct as well, so the first item of a name is the only one
    have hnodup' : (parsed.map name').Nodup := hperm.nodup_iff.2 hnodup
    obtain ⟨first, hfirst, hmembers⟩ := hfound a ha
    have hsame : name' first = name a := by
      simpa using List.find?_some hfirst
    have heq : b = first :=
      List.inj_on_of_nodup_map hnodup' hb (List.mem_of_find?_eq_some hfirst)
        (hname.trans hsame.symm)
    rw [heq, hmembers]
  · rintro ⟨hperm, hmembers⟩
    constructor
    · have hlength := hperm.length_eq
      rw [List.length_map, List.length_map] at hlength
      exact hlength.symm
    · intro a ha
      obtain ⟨b, hb, hname⟩ := List.mem_map.1 (hperm.mem_iff.2 (List.mem_map_of_mem ha))
      have hsome : (parsed.find? (fun b => name' b == name a)).isSome = true := by
        rw [List.find?_isSome]
        exact ⟨b, hb, beq_iff_eq.2 hname⟩
      obtain ⟨first, hfirst⟩ := Option.isSome_iff_exists.1 hsome
      have hsame : name' first = name a := by
        simpa using List.find?_some hfirst
      exact ⟨first, hfirst, (hmembers a ha first (List.mem_of_find?_eq_some hfirst) hsame).symm⟩

end Names

/-! ## Findings -/

theorem countFinding_eq_nil_iff {element what : String} {declared parsed : Nat} :
    countFinding element what declared parsed = [] ↔ declared = parsed := by
  unfold countFinding
  by_cases heq : declared = parsed
  · simp [heq]
  · simp [heq]

theorem packageFinding_eq_nil_iff {d : Descriptor} {s : Schema} :
    d.packageFinding s = [] ↔ d.package = s.package := by
  unfold packageFinding
  by_cases heq : d.package = s.package
  · simp [heq]
  · simp [heq]

theorem serviceFindings_eq_nil_iff {d : Descriptor} {s : Schema} {declared : DeclaredService} :
    d.serviceFindings s declared = [] ↔ ∃ parsed,
      s.services.find? (fun x => x.name == declared.name) = some parsed ∧
        declared.methods = parsed.rpcs.length := by
  unfold serviceFindings
  cases hfind : s.services.find? (fun x => x.name == declared.name) with
  | none =>
      simp
  | some parsed =>
      simp [countFinding_eq_nil_iff]

/-- Nothing but map entries is nested in a message. -/
theorem nestedCount_eq_zero_iff {m : DeclaredMessage} :
    m.nestedCount = 0 ↔ m.enums = [] ∧ ∀ n ∈ m.nested, n.isMapEntry = true := by
  simp [DeclaredMessage.nestedCount]

theorem messageFindings_eq_nil_iff {d : Descriptor} {s : Schema} {declared : DeclaredMessage} :
    d.messageFindings s declared = [] ↔ declared.nestedCount = 0 ∧ ∃ parsed,
      s.messages.find? (fun x => x.name == declared.name) = some parsed ∧
        declared.fields = parsed.fields.length := by
  unfold messageFindings
  rw [List.append_eq_nil_iff]
  apply and_congr
  · by_cases hnested : declared.nestedCount = 0
    · simp [hnested]
    · simp [hnested]
  · cases hfind : s.messages.find? (fun x => x.name == declared.name) with
    | none =>
        simp
    | some parsed =>
        simp [countFinding_eq_nil_iff]

/-! ## Agreement -/

/-- A schema shows a file as it is: the same services and messages by name, each once, with as many
members as declared, nothing nested but the entries of map fields, and as many enumerations. -/
structure Agrees (d : Descriptor) (s : Schema) : Prop where
  package : d.package = s.package
  services : (s.services.map (·.name)).Perm (d.services.map (·.name))
  messages : (s.messages.map (·.name)).Perm (d.messages.map (·.name))
  methods : ∀ declared ∈ d.services, ∀ parsed ∈ s.services, parsed.name = declared.name →
    parsed.rpcs.length = declared.methods
  fields : ∀ declared ∈ d.messages, ∀ parsed ∈ s.messages, parsed.name = declared.name →
    parsed.fields.length = declared.fields
  flat : ∀ declared ∈ d.messages, declared.enums = [] ∧ ∀ n ∈ declared.nested, n.isMapEntry = true
  enums : d.enums.length = s.enums.length

/-- The comparison finds nothing exactly if the schema agrees with the file, whose services and
whose messages have distinct names. -/
theorem compare_eq_nil_iff {d : Descriptor} (hservices : (d.services.map (·.name)).Nodup)
    (hmessages : (d.messages.map (·.name)).Nodup) (s : Schema) : d.compare s = [] ↔ d.Agrees s := by
  have hservice := perm_names_iff hservices s.services (·.name) (·.methods) fun x => x.rpcs.length
  have hmessage := perm_names_iff hmessages s.messages (·.name) (·.fields) fun x => x.fields.length
  simp only [compare, List.append_eq_nil_iff, List.flatMap_eq_nil_iff, packageFinding_eq_nil_iff,
    countFinding_eq_nil_iff, serviceFindings_eq_nil_iff, messageFindings_eq_nil_iff,
    nestedCount_eq_zero_iff]
  constructor
  · rintro ⟨⟨⟨⟨⟨hpackage, hcount⟩, hfound⟩, hcount'⟩, hfound'⟩, henums⟩
    obtain ⟨hperm, hmethods⟩ := hservice.1 ⟨hcount, hfound⟩
    obtain ⟨hperm', hfields⟩ := hmessage.1 ⟨hcount', fun a ha => (hfound' a ha).2⟩
    exact ⟨hpackage, hperm, hperm', hmethods, hfields, fun a ha => (hfound' a ha).1, henums⟩
  · intro h
    obtain ⟨hcount, hfound⟩ := hservice.2 ⟨h.services, h.methods⟩
    obtain ⟨hcount', hfound'⟩ := hmessage.2 ⟨h.messages, h.fields⟩
    exact ⟨⟨⟨⟨⟨h.package, hcount⟩, hfound⟩, hcount'⟩, fun a ha => ⟨h.flat a ha, hfound' a ha⟩⟩,
      h.enums⟩

/-- A file with a map field and two messages. -/
def greeterFile : Descriptor where
  path := "greeter.proto"
  package := "demo"
  services := [{ name := "Greeter", methods := 1 }]
  messages := [
    { name := "Reply", fields := 2, nested := [{ name := "CountsEntry", isMapEntry := true }] },
    { name := "Empty", fields := 0 }]
  enums := ["Mood"]

/-- The same file read, its messages in another order. -/
def greeterView : Schema where
  package := "demo"
  services :=
    [{ name := "Greeter", rpcs := [{ name := "Hello", request := "Empty", response := "Reply" }] }]
  messages := [
    { name := "Empty" },
    { name := "Reply",
      fields := [{ type := "string", name := "text", number := "1" },
        { type := "map<string, int32>", name := "counts", number := "2" }] }]
  enums := [{ name := "Mood" }]

theorem compare_greeter : (greeterFile.services.map (·.name)).Nodup ∧
    (greeterFile.messages.map (·.name)).Nodup ∧ greeterFile.Agrees greeterView ∧
    greeterFile.compare greeterView = [] := by
  have hservices : (greeterFile.services.map (·.name)).Nodup := by decide
  have hmessages : (greeterFile.messages.map (·.name)).Nodup := by decide
  have hagrees : greeterFile.Agrees greeterView :=
    { package := rfl
      services := List.Perm.refl _
      messages := .swap _ _ _
      methods := by decide
      fields := by decide
      flat := by decide
      enums := rfl }
  exact ⟨hservices, hmessages, hagrees,
    (compare_eq_nil_iff hservices hmessages greeterView).2 hagrees⟩

end Descriptor
end ApiPages
