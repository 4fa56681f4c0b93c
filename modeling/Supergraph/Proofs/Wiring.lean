import Supergraph.Wiring
import Supergraph.Proofs.Composition

/-!
The wired schema: what delegating fields changes of a schema, and which fields are delegated in the end.

1. `undelegated_delegateAll`: delegating fields changes nothing but the delegations. So types keep their
   names, their kinds and the names of their fields.
2. `field?_delegate` says what one delegation changes, `field?_delegateAll` what a list of them does.
3. `wiring_eq_filterMap`: the wired fields are those that `delegationOf?` finds a delegation for, in the
   order of the schema.
4. `field?_wiredSchema_of_named`: the wired schema has the fields of the composed one, each with that
   delegation.
-/

namespace Supergraph

/-! ## Maps -/

namespace NameMap

variable {α β : Type}

def map (f : α → β) (map : NameMap α) : NameMap β where
  entries := map.entries.map fun entry => (entry.1, f entry.2)
  sorted := by
    rw [Entries.Sorted, List.pairwise_map]
    exact map.sorted

theorem find?_map (f : α → β) (map : NameMap α) (name : String) :
    (map.map f).find? name = (map.find? name).map f := by
  obtain ⟨entries, sorted⟩ := map
  show Entries.find? name (entries.map _) = (Entries.find? name entries).map f
  induction entries with
  | nil => rfl
  | cons entry entries ih =>
    rw [List.map_cons, Entries.find?, Entries.find?, ih (List.pairwise_cons.mp sorted).2]
    split <;> rfl

theorem map_insert (f : α → β) (map : NameMap α) (name : String) (value : α) :
    (map.insert name value).map f = (map.map f).insert name (f value) := by
  apply ext_find?
  intro other
  rw [find?_map, find?_insert, find?_insert, find?_map]
  split <;> rfl

theorem insert_of_find? {map : NameMap α} {name : String} {value : α} (h : map.find? name = some value) :
    map.insert name value = map := by
  apply ext_find?
  intro other
  rw [find?_insert]
  split
  · next heq => rw [← heq, h]
  · rfl

end NameMap

/-! ## Delegating fields -/

def SchemaField.undelegated (field : SchemaField) : SchemaField := { field with delegation := none }

def SchemaType.undelegated (type : SchemaType) : SchemaType :=
  { type with fields := type.fields.map SchemaField.undelegated }

theorem SchemaType.map_name_undelegated (type : SchemaType) :
    type.undelegated.fields.map SchemaField.name = type.fields.map SchemaField.name := by
  rw [undelegated, List.map_map]
  rfl

namespace Schema

def undelegated (schema : Schema) : Schema := ⟨schema.types.map SchemaType.undelegated⟩

theorem type?_undelegated (schema : Schema) (name : String) :
    schema.undelegated.type? name = (schema.type? name).map SchemaType.undelegated :=
  NameMap.find?_map _ _ _

theorem kind?_undelegated (schema : Schema) (name : String) :
    schema.undelegated.kind? name = schema.kind? name := by
  rw [kind?, type?_undelegated, Option.map_map]
  rfl

theorem find?_delegateFirst (name other : String) (delegation : Delegation) (fields : List SchemaField) :
    (delegateFirst name delegation fields).find? (fun field => field.name = other) =
      if name = other then
        (fields.find? fun field => field.name = other).map fun field =>
          { field with delegation := some delegation }
      else fields.find? fun field => field.name = other := by
  induction fields with
  | nil => simp [delegateFirst]
  | cons field fields ih =>
    rw [delegateFirst]
    by_cases hfield : field.name = name
    · rw [if_pos hfield]
      by_cases hname : name = other
      · simp [hfield, hname]
      · have hne : field.name ≠ other := fun h => hname (hfield.symm.trans h)
        simp [hname, hne]
    · rw [if_neg hfield]
      by_cases hother : field.name = other
      · have hname : name ≠ other := fun h => hfield (hother.trans h.symm)
        simp [hother, hname]
      · rw [List.find?_cons_of_neg (by simpa using hother), ih,
          List.find?_cons_of_neg (by simpa using hother)]

theorem delegate_cases (schema : Schema) (type field : String) (delegation : Delegation) :
    (∃ composed, schema.type? type = some composed ∧ schema.delegate type field delegation =
      ⟨schema.types.insert type
        { composed with fields := delegateFirst field delegation composed.fields }⟩) ∨
    schema.field? type field = none ∧ schema.delegate type field delegation = schema := by
  rw [delegate, delegate?, field?]
  cases htype : schema.type? type with
  | none => exact .inr ⟨rfl, rfl⟩
  | some composed =>
    cases hfield : composed.field? field with
    | none => exact .inr ⟨hfield, by simp [hfield, discard, Functor.mapConst]⟩
    | some found => exact .inl ⟨composed, rfl, by simp [hfield, discard, Functor.mapConst]⟩

theorem field?_delegate (schema : Schema) (type field : String) (delegation : Delegation)
    (type' field' : String) :
    (schema.delegate type field delegation).field? type' field' =
      if type = type' ∧ field = field' then
        (schema.field? type' field').map fun found => { found with delegation := some delegation }
      else schema.field? type' field' := by
  rcases schema.delegate_cases type field delegation with ⟨composed, htype, heq⟩ | ⟨hnone, heq⟩
  · -- Only the type at hand is replaced, and of it only the first field of the name.
    rw [heq, field?, type?, NameMap.find?_insert]
    by_cases hsame : type = type'
    · subst hsame
      rw [if_pos rfl, Option.bind_some, SchemaType.field?, find?_delegateFirst]
      simp [field?, htype, SchemaType.field?]
    · rw [if_neg hsame]
      simp [hsame, field?, type?]
  · rw [heq]
    split
    · next hsame =>
      obtain ⟨rfl, rfl⟩ := hsame
      rw [hnone]
      rfl
    · rfl

theorem undelegated_delegateFirst (name : String) (delegation : Delegation) (fields : List SchemaField) :
    (delegateFirst name delegation fields).map SchemaField.undelegated =
      fields.map SchemaField.undelegated := by
  induction fields with
  | nil => rfl
  | cons field fields ih =>
    rw [delegateFirst]
    split
    · rfl
    · rw [List.map_cons, ih, List.map_cons]

theorem undelegated_delegate (schema : Schema) (type field : String) (delegation : Delegation) :
    (schema.delegate type field delegation).undelegated = schema.undelegated := by
  rcases schema.delegate_cases type field delegation with ⟨composed, htype, heq⟩ | ⟨_, heq⟩
  · have hfields : SchemaType.undelegated
        { composed with fields := delegateFirst field delegation composed.fields } =
          composed.undelegated := by
      rw [SchemaType.undelegated, undelegated_delegateFirst]
      rfl
    have hknown := (type?_undelegated schema type).trans (congrArg _ htype)
    rw [heq, undelegated, NameMap.map_insert, hfields]
    exact congrArg Schema.mk (NameMap.insert_of_find? hknown)
  · rw [heq]

theorem isLeaf_eq (schema : Schema) (name : String) :
    schema.isLeaf name = match schema.kind? name with
      | some kind => decide (kind = .scalar ∨ kind = .enum)
      | none => builtInScalars.contains name := by
  rw [isLeaf, kind?]
  cases schema.type? name <;> rfl

/-- The schema with several fields delegated, one after the other. -/
def delegateAll (schema : Schema) (crossings : List Crossing) : Schema :=
  crossings.foldl (fun schema wired => schema.delegate wired.type wired.field wired.delegation) schema

theorem undelegated_delegateAll (crossings : List Crossing) : ∀ schema : Schema,
    (schema.delegateAll crossings).undelegated = schema.undelegated := by
  induction crossings with
  | nil => exact fun _ => rfl
  | cons crossing crossings ih => exact fun schema => (ih _).trans (undelegated_delegate ..)

/-- Of the delegations of one field the last counts; here they are all the same. -/
theorem field?_delegateAll {type field : String} {delegation : Delegation} (crossings : List Crossing)
    (hsame : ∀ crossing ∈ crossings, crossing.type = type → crossing.field = field →
      crossing.delegation = delegation) : ∀ schema : Schema,
    (schema.delegateAll crossings).field? type field =
      if ⟨type, field, delegation⟩ ∈ crossings then
        (schema.field? type field).map fun found => { found with delegation := some delegation }
      else schema.field? type field := by
  induction crossings with
  | nil => exact fun _ => rfl
  | cons crossing crossings ih =>
    intro schema
    obtain ⟨hfirst, hrest⟩ := List.forall_mem_cons.mp hsame
    obtain ⟨type', field', delegation'⟩ := crossing
    show ((schema.delegate type' field' delegation').delegateAll crossings).field? type field = _
    rw [ih hrest, field?_delegate]
    by_cases hcrossing : type' = type ∧ field' = field
    · obtain ⟨rfl, rfl⟩ := hcrossing
      obtain rfl := hfirst rfl rfl
      simp only [and_self, if_true, List.mem_cons_self]
      cases schema.field? type' field' <;> simp
    · have hmem : ⟨type, field, delegation⟩ ∈ (⟨type', field', delegation'⟩ : Crossing) :: crossings ↔
          ⟨type, field, delegation⟩ ∈ crossings := by
        rw [List.mem_cons, or_iff_right]
        rintro heq
        cases heq
        exact hcrossing ⟨rfl, rfl⟩
      simp only [hcrossing, if_false, hmem]

/-! ## The order of the fields -/

/-- The fields of all types, by type in increasing order of the names, then in the order of the type. -/
def slots (schema : Schema) : List (String × String) :=
  schema.types.entries.flatMap fun entry => entry.2.fields.map fun field => (entry.1, field.name)

theorem mem_slots_iff {schema : Schema} {type name : String} :
    (type, name) ∈ schema.slots ↔ (schema.field? type name).isSome = true := by
  rw [slots, List.mem_flatMap, Option.isSome_iff_exists]
  refine ⟨?_, ?_⟩
  · intro h
    obtain ⟨⟨known, composed⟩, hentry, hmem⟩ := h
    obtain ⟨field, hfield, heq⟩ := List.mem_map.mp hmem
    cases heq
    have hfind : (composed.field? field.name).isSome = true :=
      List.find?_isSome.mpr ⟨field, hfield, decide_eq_true rfl⟩
    obtain ⟨found, hfound⟩ := Option.isSome_iff_exists.mp hfind
    exact ⟨found, Option.bind_eq_some_iff.mpr ⟨composed, NameMap.mem_entries_iff.mp hentry, hfound⟩⟩
  · intro h
    obtain ⟨field, hfield⟩ := h
    obtain ⟨composed, htype, hmem, rfl⟩ := field?_eq_some hfield
    exact ⟨(type, composed), NameMap.mem_entries_iff.mpr htype, List.mem_map.mpr ⟨field, hmem, rfl⟩⟩

end Schema

namespace Topology

variable {topology : Topology}

/-- The delegation that wiring finds for a field of a composed type: only fields of objects have one. -/
def delegationOf? (topology : Topology) (type name : String) : Option Delegation :=
  if topology.schema.kind? type = some .object then
    (topology.schema.field? type name).bind (topology.delegationFor? type)
  else none

/-- The entry of a field in the list of the wired fields. -/
def crossingAt? (topology : Topology) (slot : String × String) : Option Crossing :=
  (topology.delegationOf? slot.1 slot.2).map fun delegation => ⟨slot.1, slot.2, delegation⟩

/-- Wiring goes through the fields in their order and looks at each of them by itself. -/
theorem wiring_eq_filterMap (hnamed : topology.schema.Named) :
    topology.wiring = topology.schema.slots.filterMap topology.crossingAt? := by
  rw [wiring, NameMap.values, List.flatMap_map, Schema.slots, List.filterMap_flatMap]
  apply List.flatMap_congr
  intro entry hmem
  obtain ⟨name, type⟩ := entry
  have htype := NameMap.mem_entries_iff.mp hmem
  obtain rfl := hnamed name type htype
  have hkind : topology.schema.kind? type.name = some type.kind := congrArg _ htype
  rw [wiringOf, List.filterMap_map]
  by_cases hobject : type.kind = .object
  · rw [if_pos hobject]
    apply List.filterMap_congr
    intro field _
    rw [Function.comp_apply, crossingAt?, delegationOf?, hkind, hobject, if_pos rfl]
    cases topology.schema.field? type.name field.name with
    | none => rfl
    | some first => cases hdelegation : topology.delegationFor? type.name first <;> simp [hdelegation]
  · rw [if_neg hobject]
    symm
    rw [List.filterMap_eq_nil_iff]
    intro field _
    simp [crossingAt?, delegationOf?, hkind, hobject]

/-- The wired fields are those that wiring finds a delegation for. -/
theorem mem_wiring_iff (hnamed : topology.schema.Named) {type name : String} {delegation : Delegation} :
    ⟨type, name, delegation⟩ ∈ topology.wiring ↔ topology.delegationOf? type name = some delegation := by
  rw [wiring_eq_filterMap hnamed, List.mem_filterMap]
  refine ⟨?_, ?_⟩
  · intro h
    obtain ⟨slot, _, hcrossing⟩ := h
    obtain ⟨found, hfound, heq⟩ := Option.map_eq_some_iff.mp hcrossing
    cases heq
    exact hfound
  · intro h
    refine ⟨(type, name), ?_, by rw [crossingAt?, h, Option.map_some]⟩
    rw [delegationOf?] at h
    split at h
    · obtain ⟨field, hfield, _⟩ := Option.bind_eq_some_iff.mp h
      exact Schema.mem_slots_iff.mpr (hfield ▸ rfl)
    · cases h

theorem wiredSchema_eq (topology : Topology) :
    topology.wiredSchema = topology.schema.delegateAll topology.wiring := rfl

/-- Wiring changes nothing but the delegations. -/
theorem undelegated_wiredSchema (topology : Topology) :
    topology.wiredSchema.undelegated = topology.schema.undelegated :=
  Schema.undelegated_delegateAll _ _

theorem kind?_wiredSchema (name : String) : topology.wiredSchema.kind? name = topology.schema.kind? name := by
  rw [← Schema.kind?_undelegated, undelegated_wiredSchema, Schema.kind?_undelegated]

theorem exists_composed {name : String} {type : SchemaType}
    (h : topology.wiredSchema.type? name = some type) :
    ∃ composed, topology.schema.type? name = some composed ∧ type.undelegated = composed.undelegated := by
  have hsame := congrArg (fun schema => schema.type? name) topology.undelegated_wiredSchema
  simp only [Schema.type?_undelegated, h, Option.map_some] at hsame
  obtain ⟨composed, htype, heq⟩ := Option.map_eq_some_iff.mp hsame.symm
  exact ⟨composed, htype, heq.symm⟩

theorem isLeaf_wiredSchema (name : String) :
    topology.wiredSchema.isLeaf name = topology.schema.isLeaf name := by
  rw [Schema.isLeaf_eq, Schema.isLeaf_eq, kind?_wiredSchema]

/-- In the wired schema types stand under their own names and have distinct fields, if they do in the
composed one. -/
theorem distinct_wiredSchema
    (h : ∀ name type, topology.schema.type? name = some type → type.name = name ∧ type.Distinct) :
    ∀ name type, topology.wiredSchema.type? name = some type → type.name = name ∧ type.Distinct := by
  intro name type htype
  obtain ⟨composed, hcomposed, heq⟩ := exists_composed htype
  obtain ⟨hname, hdistinct⟩ := h name composed hcomposed
  refine ⟨(congrArg SchemaType.name heq :).trans hname, ?_⟩
  rw [SchemaType.Distinct, ← type.map_name_undelegated, heq, composed.map_name_undelegated]
  exact hdistinct

/-- The wired schema has the fields of the schema, each with the delegation that wiring finds for it, and
otherwise with the one that it had. -/
theorem field?_wiredSchema_of_named (hnamed : topology.schema.Named) (type name : String) :
    topology.wiredSchema.field? type name = (topology.schema.field? type name).map fun field =>
      { field with delegation := (topology.delegationOf? type name).or field.delegation } := by
  have hfound : ∀ crossing ∈ topology.wiring, crossing.type = type → crossing.field = name →
      topology.delegationOf? type name = some crossing.delegation := by
    intro crossing hmem htype hname
    subst htype hname
    exact (mem_wiring_iff hnamed).mp hmem
  cases hdelegation : topology.delegationOf? type name with
  | some delegation =>
    have hsame : ∀ crossing ∈ topology.wiring, crossing.type = type → crossing.field = name →
        crossing.delegation = delegation := by
      intro crossing hmem htype hname
      exact Option.some.inj ((hfound crossing hmem htype hname).symm.trans hdelegation)
    rw [wiredSchema_eq, Schema.field?_delegateAll _ hsame, if_pos ((mem_wiring_iff hnamed).mpr hdelegation)]
    rfl
  | none =>
    -- No entry of the list is for this field, so that any delegation will do.
    have hnone : ∀ crossing ∈ topology.wiring, crossing.type = type → crossing.field = name →
        crossing.delegation = default := by
      intro crossing hmem htype hname
      cases hdelegation.symm.trans (hfound crossing hmem htype hname)
    have hmem : ⟨type, name, default⟩ ∉ topology.wiring := by
      intro hmem
      cases hdelegation.symm.trans (hfound _ hmem rfl rfl)
    rw [wiredSchema_eq, Schema.field?_delegateAll _ hnone, if_neg hmem]
    exact Option.map_id'.symm

theorem delegation?_wiredSchema_of_named (hnamed : topology.schema.Named) (type name : String) :
    topology.wiredSchema.delegation? type name =
      (topology.delegationOf? type name).or (topology.schema.delegation? type name) := by
  rw [Schema.delegation?, Schema.delegation?, field?_wiredSchema_of_named hnamed, delegationOf?]
  cases topology.schema.field? type name <;> simp

theorem field?_wiredSchema (hplain : topology.schema.Plain) (type name : String) :
    topology.wiredSchema.field? type name = (topology.schema.field? type name).map fun field =>
      { field with delegation := topology.delegationOf? type name } := by
  rw [field?_wiredSchema_of_named hplain.named]
  cases hfield : topology.schema.field? type name with
  | none => rfl
  | some field =>
    have hnone := hplain.delegation?_eq_none type name
    rw [Schema.delegation?, hfield, Option.bind_some] at hnone
    rw [Option.map_some, Option.map_some, hnone, Option.or_none]

theorem field?_wiredSchema_of_some (hplain : topology.schema.Plain) {type name : String}
    {field : SchemaField} (h : topology.schema.field? type name = some field) :
    topology.wiredSchema.field? type name =
      some { field with delegation := topology.delegationOf? type name } := by
  rw [field?_wiredSchema hplain, h, Option.map_some]

theorem isSome_field?_wiredSchema (hplain : topology.schema.Plain) (type name : String) :
    (topology.wiredSchema.field? type name).isSome = (topology.schema.field? type name).isSome := by
  rw [field?_wiredSchema hplain, Option.isSome_map]

theorem delegation?_wiredSchema (hplain : topology.schema.Plain) (type name : String) :
    topology.wiredSchema.delegation? type name = topology.delegationOf? type name := by
  rw [delegation?_wiredSchema_of_named hplain.named, hplain.delegation?_eq_none, Option.or_none]

end Topology

end Supergraph
