import Supergraph.Proofs.Gateway

/-!
The list that wiring returns. It is the list of the delegations in the wired schema, in the order of the
fields, and a second wiring finds the same list and changes nothing.

1. `pairwise_slots` puts the fields of a schema in order, and `pairwise_wiring` the wired ones.
2. `delegateAll_eq_self`: to delegate fields as they are delegated changes nothing.
3. `delegationOf?_wired`: what wiring finds for a field does not depend on delegations.
4. `wiring_exact` puts these together.
-/

namespace Supergraph

/-! ## Schemas before wiring -/

/-- A type as composition leaves it: it stands under its own name, no two of its fields have one name, and
none is delegated. -/
structure SchemaType.Unwired (name : String) (type : SchemaType) : Prop where
  named : type.name = name
  distinct : type.Distinct
  undelegated : ∀ field ∈ type.fields, field.delegation = none

theorem SchemaType.Unwired.undelegated_eq {name : String} {type : SchemaType} (h : type.Unwired name) :
    type.undelegated = type := by
  have hfield : ∀ field ∈ type.fields, field.undelegated = id field := by
    intro field hmem
    rw [SchemaField.undelegated, ← h.undelegated field hmem, id_eq]
  rw [SchemaType.undelegated, List.map_congr_left hfield, List.map_id]

namespace Schema

/-- All types are as composition leaves them. -/
def Unwired (schema : Schema) : Prop :=
  ∀ name type, schema.type? name = some type → type.Unwired name

variable {schema : Schema}

theorem unwired_empty : empty.Unwired := by
  intro name type h
  cases h

theorem Unwired.insertType (h : schema.Unwired) {type : SchemaType} (htype : type.Unwired type.name) :
    (schema.insertType type).Unwired :=
  forall_insert h htype

theorem unwired_ofServices {services : List Service} (h : ofServices services = .ok schema) :
    schema.Unwired := by
  intro name type htype
  obtain ⟨hname, hplain⟩ := plain_ofServices h name type htype
  exact ⟨hname, distinct_ofServices h name type htype, fun field hmem => (hplain field hmem).2⟩

theorem Unwired.named (h : schema.Unwired) : schema.Named :=
  fun name type htype => (h name type htype).named

theorem Unwired.delegation?_eq_none (h : schema.Unwired) (type name : String) :
    schema.delegation? type name = none :=
  Schema.delegation?_eq_none (fun known composed htype => (h known composed htype).undelegated) type name

theorem Unwired.undelegated_eq (h : schema.Unwired) : schema.undelegated = schema := by
  apply congrArg Schema.mk
  apply NameMap.ext_find?
  intro name
  rw [NameMap.find?_map]
  cases htype : schema.types.find? name with
  | none => rfl
  | some type => rw [Option.map_some, (h name type htype).undelegated_eq]

/-! ## The order of the fields -/

/-- A field comes before another one: the name of its type is smaller, or both are fields of one type, and
it stands before the other there. -/
def Precedes (schema : Schema) (first second : String × String) : Prop :=
  first.1 < second.1 ∨ first.1 = second.1 ∧ ∃ type, schema.type? first.1 = some type ∧
    [first.2, second.2].Sublist (type.fields.map SchemaField.name)

theorem pairwise_slots (schema : Schema) : schema.slots.Pairwise schema.Precedes := by
  rw [slots, List.pairwise_flatMap]
  refine ⟨?_, ?_⟩
  · intro entry hentry
    have htype := NameMap.mem_entries_iff.mp hentry
    rw [List.pairwise_map, List.pairwise_iff_forall_sublist]
    intro field other hsublist
    exact .inr ⟨rfl, entry.2, htype, hsublist.map SchemaField.name⟩
  · -- Fields of two types come in the order of the types.
    apply schema.types.sorted.imp
    intro entry entry' hlt first hfirst second hsecond
    obtain ⟨field, _, rfl⟩ := List.mem_map.mp hfirst
    obtain ⟨field', _, rfl⟩ := List.mem_map.mp hsecond
    exact .inl hlt

theorem Unwired.not_precedes_self (h : schema.Unwired) (slot : String × String) :
    ¬ schema.Precedes slot slot := by
  intro hprecedes
  rcases hprecedes with hlt | ⟨_, type, htype, hsublist⟩
  · exact String.lt_irrefl _ hlt
  · have hdistinct : (type.fields.map SchemaField.name).Nodup := (h _ type htype).distinct
    have htwice := hsublist.nodup hdistinct
    simp at htwice

theorem slots_undelegated (schema : Schema) : schema.undelegated.slots = schema.slots := by
  have hnames : ∀ (name : String) (type : SchemaType),
      (type.undelegated.fields.map fun field => (name, field.name)) =
        type.fields.map fun field => (name, field.name) := by
    intro name type
    have hsame := congrArg (List.map (Prod.mk name)) type.map_name_undelegated
    rwa [List.map_map, List.map_map] at hsame
  rw [slots, undelegated, NameMap.map, List.flatMap_map]
  simp only [hnames]
  rfl

/-! ## Delegations that are there already -/

theorem delegateFirst_eq_self {name : String} {delegation : Delegation} {fields : List SchemaField}
    {field : SchemaField} (hfind : fields.find? (fun field => field.name = name) = some field)
    (hdelegation : field.delegation = some delegation) : delegateFirst name delegation fields = fields := by
  induction fields with
  | nil => rfl
  | cons first fields ih =>
    rw [delegateFirst]
    by_cases hname : first.name = name
    · rw [List.find?_cons_of_pos (by simpa using hname)] at hfind
      cases hfind
      rw [if_pos hname, ← hdelegation]
    · rw [List.find?_cons_of_neg (by simpa using hname)] at hfind
      rw [if_neg hname, ih hfind]

theorem delegate_eq_self {type field : String} {delegation : Delegation}
    (h : schema.delegation? type field = some delegation) :
    schema.delegate type field delegation = schema := by
  rcases schema.delegate_cases type field delegation with ⟨composed, htype, heq⟩ | ⟨_, heq⟩
  · obtain ⟨found, hfound, hdelegation⟩ := Option.bind_eq_some_iff.mp h
    rw [field?, htype, Option.bind_some] at hfound
    rw [heq, delegateFirst_eq_self hfound hdelegation]
    exact congrArg Schema.mk (NameMap.insert_of_find? htype)
  · exact heq

theorem delegateAll_eq_self {crossings : List Crossing} (h : ∀ crossing ∈ crossings,
    schema.delegation? crossing.type crossing.field = some crossing.delegation) :
    schema.delegateAll crossings = schema := by
  induction crossings with
  | nil => rfl
  | cons crossing crossings ih =>
    obtain ⟨hfirst, hrest⟩ := List.forall_mem_cons.mp h
    show (schema.delegate crossing.type crossing.field crossing.delegation).delegateAll crossings = schema
    rw [delegate_eq_self hfirst, ih hrest]

end Schema

/-! ## The list -/

/-- The field that a crossing is about. -/
def Crossing.slot (crossing : Crossing) : String × String := (crossing.type, crossing.field)

namespace Topology

variable {topology : Topology}

/-- The wired fields stand in the order of the schema. -/
theorem pairwise_wiring (hnamed : topology.schema.Named) :
    topology.wiring.Pairwise fun first second => topology.schema.Precedes first.slot second.slot := by
  rw [wiring_eq_filterMap hnamed, List.pairwise_filterMap]
  apply topology.schema.pairwise_slots.imp
  intro first second hprecedes crossing hcrossing crossing' hcrossing'
  obtain ⟨_, _, rfl⟩ := Option.map_eq_some_iff.mp hcrossing
  obtain ⟨_, _, rfl⟩ := Option.map_eq_some_iff.mp hcrossing'
  exact hprecedes

theorem nodup_wiring (h : topology.schema.Unwired) : (topology.wiring.map Crossing.slot).Nodup := by
  rw [List.Nodup, List.pairwise_map]
  apply (pairwise_wiring h.named).imp
  intro first second hprecedes heq
  rw [heq] at hprecedes
  exact h.not_precedes_self _ hprecedes

theorem delegation?_wiredSchema_iff (h : topology.schema.Unwired) {type name : String}
    {delegation : Delegation} : topology.wiredSchema.delegation? type name = some delegation ↔
      ⟨type, name, delegation⟩ ∈ topology.wiring := by
  rw [delegation?_wiredSchema_of_named h.named, h.delegation?_eq_none, Option.or_none,
    mem_wiring_iff h.named]

/-! ## The second wiring -/

def wired (topology : Topology) : Topology := { topology with schema := topology.wiredSchema }

theorem named_wired (h : topology.schema.Named) : topology.wired.schema.Named := by
  intro name type htype
  obtain ⟨composed, hcomposed, heq⟩ := exists_composed htype
  exact (congrArg SchemaType.name heq :).trans (h name composed hcomposed)

theorem slots_wired (topology : Topology) : topology.wired.schema.slots = topology.schema.slots := by
  rw [← Schema.slots_undelegated, wired, undelegated_wiredSchema, Schema.slots_undelegated]

theorem delegationFor?_wired (topology : Topology) (type : String) (field : SchemaField) :
    topology.wired.delegationFor? type field = topology.delegationFor? type field := by
  have hcrossing : topology.wired.crossing? = topology.crossing? := by
    funext owner type field
    rw [crossing?, crossing?, wired, isLeaf_wiredSchema]
    rfl
  rw [delegationFor?, delegationFor?, hcrossing]
  rfl

/-- What wiring finds for a field does not depend on the delegations of the schema. -/
theorem delegationOf?_wired (h : topology.schema.Named) (type name : String) :
    topology.wired.delegationOf? type name = topology.delegationOf? type name := by
  have hfield := field?_wiredSchema_of_named h type name
  rw [delegationOf?, delegationOf?, wired, kind?_wiredSchema, hfield, ← wired, Option.bind_map]
  congr 1
  apply Option.bind_congr
  intro field _
  exact delegationFor?_wired topology type _

theorem wiring_wired (h : topology.schema.Named) : topology.wired.wiring = topology.wiring := by
  have hcrossing : topology.wired.crossingAt? = topology.crossingAt? := by
    funext slot
    rw [crossingAt?, crossingAt?, delegationOf?_wired h]
  rw [wiring_eq_filterMap (named_wired h), wiring_eq_filterMap h, slots_wired, hcrossing]

theorem wiredSchema_wired (h : topology.schema.Unwired) :
    topology.wired.wiredSchema = topology.wiredSchema := by
  rw [wiredSchema_eq, wiring_wired h.named]
  apply Schema.delegateAll_eq_self
  intro crossing hmem
  exact (delegation?_wiredSchema_iff h).mpr hmem

/-- The report of wiring lists the fields that wiring finds a delegation for, each once and in the order of
the schema. These are the delegations of the wired schema, which but for them is what it was, and a second
wiring reports and changes the same. -/
theorem wiring_exact (topology : Topology) (h : topology.schema.Unwired) :
    ((topology.wiring.map Crossing.slot).Nodup ∧
      topology.wiring.Pairwise fun first second => topology.schema.Precedes first.slot second.slot) ∧
    (∀ type name delegation, ⟨type, name, delegation⟩ ∈ topology.wiring ↔
      topology.delegationOf? type name = some delegation) ∧
    (∀ type name delegation, topology.wiredSchema.delegation? type name = some delegation ↔
      ⟨type, name, delegation⟩ ∈ topology.wiring) ∧
    topology.wiredSchema.undelegated = topology.schema ∧
    topology.wired.wiring = topology.wiring ∧ topology.wired.wiredSchema = topology.wiredSchema := by
  refine ⟨⟨nodup_wiring h, pairwise_wiring h.named⟩, ?_, ?_, ?_, ?_⟩
  · intro type name delegation
    exact mem_wiring_iff h.named
  · intro type name delegation
    exact delegation?_wiredSchema_iff h
  · rw [undelegated_wiredSchema, h.undelegated_eq]
  · exact ⟨wiring_wired h.named, wiredSchema_wired h⟩

end Topology

namespace Sample

/-- Reviews, beside a field of the protocol that nobody owns. -/
def reviewsComposed : Schema :=
  (Schema.empty.insertType
    ⟨"Review", .object, [⟨"author", "User", false, none⟩, ⟨"body", "String", false, none⟩]⟩).insertType
    ⟨"Query", .object, [⟨"_service", "_Service", false, none⟩, ⟨"reviews", "Review", true, none⟩]⟩

theorem unwired_reviewsComposed : reviewsComposed.Unwired := by
  apply Schema.Unwired.insertType
  · apply Schema.unwired_empty.insertType
    exact ⟨rfl, by decide, by decide⟩
  · exact ⟨rfl, by decide, by decide⟩

end Sample

/-- Wiring sends the reviews to the service that declares them and their authors to the owner of users, and
finds the same when it is done again. -/
theorem Topology.wiring_exact_reviews :
    let topology : Topology := { Sample.topology with schema := Sample.reviewsComposed }
    topology.schema.Unwired ∧
    topology.wiring = [⟨"Query", "reviews", ⟨.rootDelegate, "reviews"⟩⟩,
      ⟨"Review", "author", ⟨.entityReference, "users"⟩⟩] ∧
    topology.wiredSchema.delegation? "Review" "author" = some ⟨.entityReference, "users"⟩ ∧
    topology.wired.wiring = topology.wiring ∧ topology.wired.wiredSchema = topology.wiredSchema := by
  intro topology
  have hwiring : topology.wiring = [⟨"Query", "reviews", ⟨.rootDelegate, "reviews"⟩⟩,
      ⟨"Review", "author", ⟨.entityReference, "users"⟩⟩] := by decide +kernel
  obtain ⟨_, _, hlisted, _, hagain⟩ := wiring_exact topology Sample.unwired_reviewsComposed
  refine ⟨Sample.unwired_reviewsComposed, hwiring, ?_, hagain⟩
  rw [hlisted, hwiring]
  decide

end Supergraph
