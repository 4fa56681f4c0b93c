import Supergraph.Proofs.Gateway

/-!
The order of the services of a gateway. Under the policy `failFast`, and where all declarations of a field
agree on what it returns, a gateway over the same services in another order is built in the same cases and
is the same: ownership (`Ownership.holder?_perm`), composition (`Schema.field?_perm`) and the registry
(`Registry.find?_perm`) do not depend on the order, and the wiring only looks at these
(`Topology.Alike.delegationOf?_eq`).

What may differ is the order of the fields of a type and of its keys.
-/

namespace Supergraph

/-! ## Wiring -/

/-- Two topologies look the same to the wiring. -/
structure Topology.Alike (first second : Topology) : Prop where
  kinds : ∀ name, first.schema.kind? name = second.schema.kind? name
  fields : ∀ type name, first.schema.field? type name = second.schema.field? type name
  holders : ∀ claim, first.index.holder? claim = second.index.holder? claim
  services : ∀ name, first.registry.find? name = second.registry.find? name

namespace Topology.Alike

variable {first second : Topology}

theorem isLeaf_eq (h : first.Alike second) (name : String) :
    first.schema.isLeaf name = second.schema.isLeaf name := by
  rw [Schema.isLeaf_eq, Schema.isLeaf_eq, h.kinds]

theorem ownerOf?_eq (h : first.Alike second) (type : String) :
    first.index.ownerOf? type = second.index.ownerOf? type :=
  h.holders (.type type)

theorem rootDelegation?_eq (h : first.Alike second) (type : String) (field : SchemaField) :
    first.rootDelegation? type field = second.rootDelegation? type field := by
  have hroot : first.index.rootFieldOwner? type field.name =
    second.index.rootFieldOwner? type field.name := h.holders (.rootField type field.name)
  rw [rootDelegation?, rootDelegation?, hroot, h.ownerOf?_eq]

theorem crossing?_eq (h : first.Alike second) (owner type : String) (field : SchemaField) :
    first.crossing? owner type field = second.crossing? owner type field := by
  have hdeclares : first.ownerDeclares owner type field.name =
      second.ownerDeclares owner type field.name := by
    rw [ownerDeclares, ownerDeclares, h.services]
  have hcontributor : first.index.contributorOf? type field.name =
    second.index.contributorOf? type field.name := h.holders (.contribution type field.name)
  rw [crossing?, crossing?, hdeclares, hcontributor, h.isLeaf_eq, h.ownerOf?_eq]

theorem delegationFor?_eq (h : first.Alike second) (type : String) (field : SchemaField) :
    first.delegationFor? type field = second.delegationFor? type field := by
  have hcrossing : first.crossing? = second.crossing? := by
    funext owner type field
    exact h.crossing?_eq owner type field
  rw [delegationFor?, delegationFor?, h.rootDelegation?_eq, h.ownerOf?_eq, hcrossing]

theorem delegationOf?_eq (h : first.Alike second) (type name : String) :
    first.delegationOf? type name = second.delegationOf? type name := by
  have hfor : first.delegationFor? type = second.delegationFor? type :=
    funext fun field => h.delegationFor?_eq type field
  rw [delegationOf?, delegationOf?, h.kinds, h.fields, hfor]

theorem kind?_wiredSchema_eq (h : first.Alike second) (name : String) :
    first.wiredSchema.kind? name = second.wiredSchema.kind? name := by
  rw [kind?_wiredSchema, kind?_wiredSchema, h.kinds]

theorem field?_wiredSchema_eq (h : first.Alike second) (hfirst : first.schema.Plain)
    (hsecond : second.schema.Plain) (type name : String) :
    first.wiredSchema.field? type name = second.wiredSchema.field? type name := by
  rw [field?_wiredSchema hfirst, field?_wiredSchema hsecond, h.fields, h.delegationOf?_eq]

end Topology.Alike

/-! ## Types -/

namespace SchemaType

theorem Distinct.mem_fields_iff {type : SchemaType} (h : type.Distinct) {field : SchemaField} :
    field ∈ type.fields ↔ type.field? field.name = some field := by
  rw [field?, find?_eq_some_iff_of_nodup SchemaField.name h, and_iff_left rfl]

theorem Distinct.perm_fields {type other : SchemaType} (h : type.Distinct) (h' : other.Distinct)
    (hfields : ∀ name, type.field? name = other.field? name) : type.fields.Perm other.fields := by
  rw [List.perm_ext_iff_of_nodup h.of_map h'.of_map]
  intro field
  rw [h.mem_fields_iff, h'.mem_fields_iff, hfields]

/-- Two types are the same up to the order of their fields. -/
structure Alike (type other : SchemaType) : Prop where
  name : type.name = other.name
  kind : type.kind = other.kind
  fields : type.fields.Perm other.fields

end SchemaType

/-- Schemas whose types have distinct fields are the same up to the order of fields if they have the same
kinds and find the same fields. -/
theorem Schema.rel_type? {first second : Schema}
    (hfirst : ∀ name type, first.type? name = some type → type.name = name ∧ type.Distinct)
    (hsecond : ∀ name type, second.type? name = some type → type.name = name ∧ type.Distinct)
    (hkinds : ∀ name, first.kind? name = second.kind? name)
    (hfields : ∀ type name, first.field? type name = second.field? type name) (name : String) :
    Option.Rel SchemaType.Alike (first.type? name) (second.type? name) := by
  have hkind := hkinds name
  have hfield := hfields name
  rw [kind?, kind?] at hkind
  simp only [field?] at hfield
  cases htype : first.type? name with
  | none =>
    cases htype' : second.type? name with
    | none => exact .none
    | some other => simp [htype, htype'] at hkind
  | some type =>
    cases htype' : second.type? name with
    | none => simp [htype, htype'] at hkind
    | some other =>
      obtain ⟨hname, hdistinct⟩ := hfirst name type htype
      obtain ⟨hname', hdistinct'⟩ := hsecond name other htype'
      simp only [htype, htype', Option.map_some, Option.some.injEq, Option.bind_some] at hkind hfield
      exact .some ⟨hname.trans hname'.symm, hkind, hdistinct.perm_fields hdistinct' hfield⟩

/-! ## Gateways -/

namespace Gateway

/-- Two gateways are the same up to the order of fields and of keys. -/
structure Alike (first second : Gateway) : Prop where
  owner : ∀ type, first.topology.index.owner? type = second.topology.index.owner? type
  rootFieldOwner : ∀ type field,
    first.topology.index.rootFieldOwner? type field = second.topology.index.rootFieldOwner? type field
  contributor : ∀ type field,
    first.topology.index.contributorOf? type field = second.topology.index.contributorOf? type field
  keys : ∀ type key,
    key ∈ first.topology.index.keysOf type ↔ key ∈ second.topology.index.keysOf type
  types : ∀ name, Option.Rel SchemaType.Alike (first.topology.schema.type? name)
    (second.topology.schema.type? name)
  delegation : ∀ type field,
    first.topology.schema.delegation? type field = second.topology.schema.delegation? type field

variable {services others : List Service} {config : GatewayConfig}

theorem ofServices_isOk_perm (hpolicy : config.collisions = .failFast) (hperm : services.Perm others) :
    (∃ gateway, Gateway.ofServices config Schema.ofServices services = .ok gateway) ↔
      ∃ gateway, Gateway.ofServices config Schema.ofServices others = .ok gateway := by
  rw [ofServices_isOk_iff, ofServices_isOk_iff, hpolicy, Ownership.ofServices_isOk_perm hperm,
    Schema.ofServices_isOk_perm hperm]

/-- A gateway does not depend on the order of its services. -/
theorem ofServices_perm (hpolicy : config.collisions = .failFast)
    (hdistinct : (services.map Service.name).Nodup)
    (hagree : Schema.FieldsAgree (Schema.declarationsOf services)) (hperm : services.Perm others) :
    ((∃ gateway, Gateway.ofServices config Schema.ofServices services = .ok gateway) ↔
      ∃ gateway, Gateway.ofServices config Schema.ofServices others = .ok gateway) ∧
    ∀ first second, Gateway.ofServices config Schema.ofServices services = .ok first →
      Gateway.ofServices config Schema.ofServices others = .ok second → first.Alike second := by
  refine ⟨ofServices_isOk_perm hpolicy hperm, ?_⟩
  intro first second hfirst hsecond
  obtain ⟨topology, htopology, hregistry, hschema, hindex⟩ := ofServices_eq_ok hfirst
  obtain ⟨other, hother, hregistry', hschema', hindex'⟩ := ofServices_eq_ok hsecond
  rw [hpolicy] at hindex hindex'
  have halike : topology.Alike other := by
    refine ⟨Schema.kind?_perm hperm hschema hschema', Schema.field?_perm hperm hagree hschema hschema',
      Ownership.holder?_perm hperm hindex hindex', ?_⟩
    rw [hregistry, hregistry']
    exact Registry.find?_perm hperm hdistinct
  have hplain := Schema.plain_ofServices hschema
  have hplain' := Schema.plain_ofServices hschema'
  have hfields := halike.field?_wiredSchema_eq hplain hplain'
  have hwell := Topology.distinct_wiredSchema fun name type htype =>
    ⟨(hplain name type htype).1, Schema.distinct_ofServices hschema name type htype⟩
  have hwell' := Topology.distinct_wiredSchema fun name type htype =>
    ⟨(hplain' name type htype).1, Schema.distinct_ofServices hschema' name type htype⟩
  obtain ⟨_, _, _⟩ := first
  obtain ⟨_, _, _⟩ := second
  cases htopology
  cases hother
  exact {
    owner := Ownership.owner?_perm hperm hindex hindex'
    rootFieldOwner := fun type field => halike.holders (.rootField type field)
    contributor := fun type field => halike.holders (.contribution type field)
    keys := Ownership.mem_keysOf_perm hperm hindex hindex'
    types := Schema.rel_type? hwell hwell' halike.kind?_wiredSchema_eq hfields
    delegation := by
      intro type field
      rw [Schema.delegation?, hfields, Schema.delegation?] }

/-- The sample federation with its services in the other order. -/
theorem ofServices_perm_swapped : ∃ config : GatewayConfig, config.collisions = .failFast ∧
    ∃ swapped, Gateway.ofServices config Schema.ofServices Sample.services = .ok Sample.gateway ∧
      Gateway.ofServices config Schema.ofServices [Sample.users, Sample.reviews] = .ok swapped ∧
      Sample.gateway.Alike swapped := by
  have hperm : Sample.services.Perm [Sample.users, Sample.reviews] := .swap _ _ _
  have hagree : Schema.FieldsAgree (Schema.declarationsOf Sample.services) := by
    unfold Schema.FieldsAgree
    decide +kernel
  obtain ⟨config, hpolicy, hbuilt⟩ := Sample.federates.built
  obtain ⟨hok, halike⟩ := ofServices_perm hpolicy Sample.federates.distinct hagree hperm
  obtain ⟨swapped, hswapped⟩ := hok.mp ⟨Sample.gateway, hbuilt⟩
  exact ⟨config, hpolicy, swapped, hbuilt, hswapped, halike _ swapped hbuilt hswapped⟩

end Gateway

end Supergraph
