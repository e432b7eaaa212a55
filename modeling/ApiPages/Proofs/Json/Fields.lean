import ApiPages.Json.Record

/-!
# Records from the members of an object

A record is read member by member, and what comes out depends only on what its fields are looked up
to, as long as no field is given twice: the order of the members and members under other keys do not
matter.

* `Plain fields ms` are the members that name each field at most once, and by its own spelling;
* `record_eq` reads a record that is described by `state`, the record for given lookups;
* `IsText`, `IsFlag`, `IsList` say what a member stands for that may also be missing;
* `depth_lt_of_lookup` and `depth_lt_of_mem` for recursions over the value.
-/

namespace ApiPages
namespace Json

/-! ## Lookups -/

theorem lookup_append_singleton (key : String) (ms : List (String × Json)) (m : String × Json) :
    lookup key (ms ++ [m]) = if key = m.1 then some m.2 else lookup key ms := by
  rw [lookup, List.reverse_append, List.reverse_singleton, List.singleton_append, List.lookup_cons]
  by_cases hkey : key = m.1
  · simp [hkey]
  · have hne : (key == m.1) = false := by simpa using hkey
    rw [hne, if_neg hkey]
    rfl

theorem mem_of_lookup {key : String} {ms : List (String × Json)} {v : Json}
    (h : lookup key ms = some v) :
    (key, v) ∈ ms := by
  rcases List.lookup_eq_some_iff.1 h with ⟨before, after, hsplit, -⟩
  have hmem : (key, v) ∈ ms.reverse := by
    rw [hsplit]
    simp
  exact List.mem_reverse.1 hmem

theorem lookup_eq_none_of_not_mem {key : String} {ms : List (String × Json)}
    (h : key ∉ ms.map Prod.fst) :
    lookup key ms = none := by
  rw [lookup, List.lookup_eq_none_iff]
  intro m hm
  simp only [bne_iff_ne, ne_eq]
  rintro rfl
  exact h (List.mem_map_of_mem (List.mem_reverse.1 hm))

theorem lookup_of_nodup {ms : List (String × Json)} (h : (ms.map Prod.fst).Nodup)
    {m : String × Json} (hm : m ∈ ms) : lookup m.1 ms = some m.2 := by
  rcases List.append_of_mem hm with ⟨before, after, rfl⟩
  have hafter : ∀ x ∈ after, m.1 ≠ x.1 := by
    intro x hx heq
    rw [List.map_append, List.map_cons] at h
    have hcons := (List.nodup_append.1 h).2.1
    exact (List.nodup_cons.1 hcons).1 (heq ▸ List.mem_map_of_mem hx)
  -- the search goes backwards, and no later member has the same key
  refine List.lookup_eq_some_iff.2 ⟨after.reverse, before.reverse, by simp, ?_⟩
  intro x hx
  simpa using hafter x (List.mem_reverse.1 hx)

/-! ## Depth -/

theorem depth_le_of_mem_members {ms : List (String × Json)} {m : String × Json} (h : m ∈ ms) :
    m.2.depth ≤ depthOfMembers ms := by
  induction ms with
  | nil =>
      cases h
  | cons x ms ih =>
      rcases List.mem_cons.1 h with rfl | h
      · simp only [depthOfMembers]
        omega
      · have := ih h
        simp only [depthOfMembers]
        omega

theorem depth_lt_of_lookup {key src : String} {ms : List (String × Json)} {v : Json}
    (h : lookup key ms = some v) : v.depth < (object src ms).depth := by
  have hle : v.depth ≤ depthOfMembers ms := depth_le_of_mem_members (mem_of_lookup h)
  simp only [depth]
  omega

theorem depth_lt_of_mem {src : String} {items : List Json} {v : Json} (h : v ∈ items) :
    v.depth < (array src items).depth := by
  have hle : v.depth ≤ depthOfItems items := by
    induction items with
    | nil =>
        cases h
    | cons x items ih =>
        simp only [depthOfItems]
        rcases List.mem_cons.1 h with rfl | h
        · omega
        · have := ih h
          omega
  simp only [depth]
  omega

/-! ## Records -/

/-- Each key occurs once, and a key that could be taken for a field is the name of that field. -/
structure Plain (fields : List String) (ms : List (String × Json)) : Prop where
  nodup : (ms.map Prod.fst).Nodup
  exact : ∀ m ∈ ms, ∀ f ∈ fields, names m.1 f = true → m.1 = f

/-- The lookups of the fields. -/
def known (fields : List String) (ms : List (String × Json)) (key : String) : Option Json :=
  if key ∈ fields then lookup key ms else none

def update (look : String → Option Json) (key : String) (v : Json) : String → Option Json :=
  fun k => if k = key then some v else look k

theorem known_append_field {fields : List String} {m : String × Json} (h : m.1 ∈ fields)
    (ms : List (String × Json)) : known fields (ms ++ [m]) = update (known fields ms) m.1 m.2 := by
  funext key
  by_cases hkey : key = m.1
  · simp [known, update, lookup_append_singleton, hkey, h]
  · simp [known, update, lookup_append_singleton, hkey]

theorem known_append_other {fields : List String} {m : String × Json} (h : m.1 ∉ fields)
    (ms : List (String × Json)) : known fields (ms ++ [m]) = known fields ms := by
  funext key
  by_cases hkey : key = m.1
  · simp [known, hkey, h]
  · simp [known, lookup_append_singleton, hkey]

/-- What a reader makes of members, when it keeps to a record that is determined by the lookups. -/
theorem record_eq {α : Type} (put : α → String → Json → Option α) {fields : List String}
    {ms : List (String × Json)} (h : Plain fields ms) (state : (String → Option Json) → α)
    (hother : ∀ r key v, (∀ f ∈ fields, names key f = false) → put r key v = some r)
    (hfield : ∀ f ∈ fields, ∀ look v, look f = none → lookup f ms = some v →
      put (state look) f v = some (state (update look f v))) (src : String) :
    record (state fun _ => none) put (.object src ms) = some (state (known fields ms)) := by
  -- the members are split into those seen and the rest, and the record is that of the members seen
  have hrun : ∀ rest seen, seen ++ rest = ms →
      rest.foldlM (fun r m => put r m.1 m.2) (state (known fields seen)) =
        some (state (known fields ms)) := by
    intro rest
    induction rest with
    | nil =>
        rintro seen rfl
        simp
    | cons m rest ih =>
        intro seen hseen
        have hrest := ih (seen ++ [m]) (by simpa using hseen)
        have hm : m ∈ ms := by
          rw [← hseen]
          simp
        have hstep : put (state (known fields seen)) m.1 m.2 =
            some (state (known fields (seen ++ [m]))) := by
          by_cases hf : m.1 ∈ fields
          · -- the field has not been seen before, since keys do not repeat
            have hfresh : m.1 ∉ seen.map Prod.fst := by
              have hnodup := h.nodup
              rw [← hseen, List.map_append, List.map_cons] at hnodup
              intro hmem
              exact (List.nodup_append.1 hnodup).2.2 _ hmem _ (List.mem_cons_self ..) rfl
            have hnone : known fields seen m.1 = none := by
              simp [known, lookup_eq_none_of_not_mem hfresh]
            rw [known_append_field hf]
            exact hfield m.1 hf _ m.2 hnone (lookup_of_nodup h.nodup hm)
          · -- a member under another key changes neither the record nor the lookups
            rw [known_append_other hf]
            refine hother _ _ _ ?_
            intro f hmem
            cases hnames : names m.1 f with
            | false =>
                rfl
            | true =>
                exact absurd (h.exact m hm f hmem hnames ▸ hmem) hf
        rw [List.foldlM_cons, hstep]
        exact hrest
  have hstart : known fields [] = fun _ => none := by
    funext key
    simp [known, lookup]
  have hall := hrun ms [] rfl
  rw [hstart] at hall
  exact hall

/-! ## Fields -/

/-- The value of a field after its member, if there is one. -/
def readOf {β : Type} (read : β → Json → Option β) (initial : β) : Option Json → β
  | none => initial
  | some v => (read initial v).getD initial

/-- The member, if there is one, gives the field this value. -/
def IsRead {β : Type} (read : β → Json → Option β) (initial : β) (o : Option Json) (b : β) : Prop :=
  o.elim (some initial) (read initial) = some b

section IsRead

variable {α β : Type} {read : β → Json → Option β} {initial b : β} {o : Option Json}

theorem IsRead.readOf_eq (h : IsRead read initial o b) : readOf read initial o = b := by
  cases o with
  | none =>
      exact Option.some.inj h
  | some v =>
      have hv : read initial v = some b := h
      simp [readOf, hv]

/-- A reader at the member of its field, before which there was none. -/
theorem IsRead.read_eq (h : IsRead read initial o b) {look : String → Option Json} {f : String}
    {v : Json} (hlook : look f = none) (ho : o = some v) :
    read (readOf read initial (look f)) v = some (readOf read initial (some v)) := by
  subst ho
  have hv : read initial v = some b := h
  simp [readOf, hlook, hv]

theorem IsRead.map_eq (h : IsRead read initial o b) {look : String → Option Json} {f : String}
    {v : Json} (hlook : look f = none) (ho : o = some v) (set : β → α) :
    (read (readOf read initial (look f)) v).map set =
      some (set (readOf read initial (some v))) := by
  rw [h.read_eq hlook ho, Option.map_some]

end IsRead

@[simp]
theorem names_self (key : String) : names key key = true := by
  simp [names]

/-- A record of one field. -/
theorem record_single {β : Type} {read : β → Json → Option β} {initial b : β} {field : String}
    {ms : List (String × Json)} (h : Plain [field] ms)
    (hb : IsRead read initial (lookup field ms) b) (src : String) :
    record initial (fun old key v => if names key field then read old v else some old)
      (.object src ms) =
      some b := by
  rw [← hb.readOf_eq]
  have hstate := record_eq (fun old key v => if names key field then read old v else some old) h
    (fun look => readOf read initial (look field)) ?_ ?_ src
  · simpa [known, readOf] using hstate
  · intro r key v hkey
    simp at hkey
    simp [hkey]
  · intro f hf look v hlook hv
    rw [List.mem_singleton.1 hf] at hlook hv ⊢
    simpa [update] using hb.read_eq hlook hv

/-! ## Members that may be missing -/

def Missing (o : Option Json) : Prop :=
  o = none ∨ o = some .null

/-- A missing text is empty. -/
inductive IsText : Option Json → String → Prop
  | missing {o : Option Json} : Missing o → IsText o ""
  | text {src s : String} : IsText (some (.string src s)) s

inductive IsFlag : Option Json → Bool → Prop
  | missing {o : Option Json} : Missing o → IsFlag o false
  | bool {b : Bool} : IsFlag (some (.bool b)) b

inductive IsList : Option Json → List Json → Prop
  | missing {o : Option Json} : Missing o → IsList o []
  | array {src : String} {items : List Json} : IsList (some (.array src items)) items

theorem isRead_text {o : Option Json} {src s : String} (h : o = some (.string src s)) :
    IsRead Field.text "" o s := by
  rw [h]
  rfl

theorem isRead_optionalText {o : Option Json} {src s : String} (h : o = some (.string src s)) :
    IsRead (fun _ => Field.optionalText) none o (some s) := by
  rw [h]
  rfl

theorem isRead_items {o : Option Json} {src : String} {items : List Json}
    (h : o = some (.array src items)) :
    IsRead (fun _ => Field.items) none o (some items) := by
  rw [h]
  rfl

theorem IsText.isRead {o : Option Json} {s : String} (h : IsText o s) :
    IsRead Field.text "" o s := by
  cases h with
  | missing h =>
      rcases h with rfl | rfl
      · rfl
      · rfl
  | text =>
      rfl

theorem IsText.isRead_optional {o : Option Json} {s : String} (h : IsText o s) :
    ∃ l, IsRead (fun _ => Field.optionalText) none o l ∧ l.getD "" = s := by
  cases h with
  | missing h =>
      rcases h with rfl | rfl
      · exact ⟨none, rfl, rfl⟩
      · exact ⟨none, rfl, rfl⟩
  | text =>
      exact ⟨some s, rfl, rfl⟩

theorem IsFlag.isRead {o : Option Json} {b : Bool} (h : IsFlag o b) :
    IsRead Field.flag false o b := by
  cases h with
  | missing h =>
      rcases h with rfl | rfl
      · rfl
      · rfl
  | bool =>
      rfl

theorem IsList.isRead {o : Option Json} {items : List Json} (h : IsList o items) :
    ∃ l, IsRead (fun _ => Field.items) none o l ∧ l.getD [] = items := by
  cases h with
  | missing h =>
      rcases h with rfl | rfl
      · exact ⟨none, rfl, rfl⟩
      · exact ⟨none, rfl, rfl⟩
  | array =>
      exact ⟨some items, rfl, rfl⟩

theorem Missing.isRead_record {α : Type} {initial : α} {put : α → String → Json → Option α}
    {o : Option Json} (h : Missing o) : IsRead (optionalRecord initial put) none o none := by
  rcases h with rfl | rfl
  · rfl
  · rfl

theorem isRead_record {α : Type} {initial r : α} {put : α → String → Json → Option α} {src : String}
    {ms : List (String × Json)} (h : record initial put (.object src ms) = some r) :
    IsRead (optionalRecord initial put) none (some (.object src ms)) (some r) := by
  show (record initial put (.object src ms)).map some = some (some r)
  rw [h, Option.map_some]

/-- The items of a list are nested deeper than the object that the list is a member of. -/
theorem IsList.depth_lt {key src : String} {ms : List (String × Json)} {items : List Json}
    (h : IsList (lookup key ms) items) {v : Json} (hv : v ∈ items) :
    v.depth < (object src ms).depth := by
  generalize ho : lookup key ms = o at h
  cases h with
  | missing =>
      cases hv
  | @array list items =>
      have hlist : (Json.array list items).depth < (object src ms).depth := depth_lt_of_lookup ho
      have hitem : v.depth < (Json.array list items).depth := depth_lt_of_mem hv
      omega

end Json
end ApiPages
