import Mathlib.Data.Option.Basic
import Supergraph.Proofs.Gateway
import Supergraph.Proofs.Holders
import Supergraph.Proofs.Resolution
import Supergraph.Proofs.Shape

/-!
Where wiring sends the fields of a gateway, whatever the gateway does about collisions.

1. `Composes` puts together what ownership, composition and the shapes of services know of one another: who
   holds a claim makes it (`Holders`), and a composed field is a field of some declaration (`Shape`).
2. `Target` is the table by which wiring judges a field of an object that is no root, and
   `delegationOf?_eq_some_iff` says that a field is wired where the table names another service than the
   owner of its type.
3. `Assembles.routes`: every delegation leads to a service that answers it, so that no resolution ends with
   an unknown service.
-/

namespace Supergraph

open GraphQL

namespace Topology

/-- Where the table sends a field of an object type, given the service that owns the type. A field that the
owner declares goes to the owner of what it returns, unless that is a leaf. Any other field goes to the
service that adds it, or, if none does, to the owner of what it returns. -/
inductive Target (topology : Topology) (services : List Service) (owner : Service)
    (type name returnType : String) : DelegationKind → String → Prop
  | reference {target : String} : owner.shape.owns type name = true →
      topology.schema.isLeaf returnType = false → topology.index.ownerOf? returnType = some target →
      Target topology services owner type name returnType .entityReference target
  | contributor {target : String} : owner.shape.owns type name = false →
      topology.index.contributorOf? type name = some target →
      Target topology services owner type name returnType .fieldResolver target
  | fallback {target : String} : owner.shape.owns type name = false →
      (∀ service ∈ services, service.shape.contributes type name = false) →
      topology.index.ownerOf? returnType = some target →
      Target topology services owner type name returnType .fieldResolver target

theorem target_wired_iff {topology : Topology} {services : List Service} {owner : Service}
    {type name returnType target : String} {kind : DelegationKind} :
    Target { topology with schema := topology.wiredSchema } services owner type name returnType kind
      target ↔ topology.Target services owner type name returnType kind target := by
  constructor
  · intro h
    cases h with
    | reference howns hleaf htarget =>
      exact .reference howns ((topology.isLeaf_wiredSchema returnType).symm.trans hleaf) htarget
    | contributor howns htarget => exact .contributor howns htarget
    | fallback howns hnone htarget => exact .fallback howns hnone htarget
  · intro h
    cases h with
    | reference howns hleaf htarget =>
      exact .reference howns ((topology.isLeaf_wiredSchema returnType).trans hleaf) htarget
    | contributor howns htarget => exact .contributor howns htarget
    | fallback howns hnone htarget => exact .fallback howns hnone htarget

theorem object_of_delegationOf? {topology : Topology} {type name : String} {delegation : Delegation}
    (h : topology.delegationOf? type name = some delegation) :
    topology.schema.kind? type = some .object ∧ type ≠ "Subscription" ∧
      ∃ field, topology.schema.field? type name = some field := by
  rw [delegationOf?] at h
  split at h
  · next hobject =>
    obtain ⟨field, hfield, hfor⟩ := Option.bind_eq_some_iff.mp h
    refine ⟨hobject, ?_, field, hfield⟩
    rintro rfl
    cases hfor
  · cases h

/-- The topology before wiring: the services, with the ownership among them and their composition. -/
structure Composes (topology : Topology) (services : List Service) : Prop where
  distinct : (services.map Service.name).Nodup
  registry : topology.registry = ⟨services⟩
  schema : Schema.ofServices services = .ok topology.schema
  index : ∃ policy, Ownership.ofServices policy services = .ok topology.index

namespace Composes

variable {topology : Topology} {services : List Service} {owner : Service} {type name : String}
  {field : SchemaField} {delegation : Delegation}

/-! ## Ownership -/

theorem exists_of_holder? (h : topology.Composes services) (claim : Claim)
    (hholder : topology.index.holder? claim = some name) :
    ∃ service ∈ services, service.Claims claim ∧ service.name = name := by
  obtain ⟨policy, hindex⟩ := h.index
  exact Ownership.exists_of_holder?_eq_some hindex hholder

theorem exists_holder? (h : topology.Composes services) (claim : Claim) {service : Service}
    (hmem : service ∈ services) (hclaims : service.Claims claim) :
    ∃ name, topology.index.holder? claim = some name := by
  obtain ⟨policy, hindex⟩ := h.index
  rw [← Option.ne_none_iff_exists', Ne, Ownership.holder?_eq_none_iff hindex]
  intro hnone
  exact hnone service hmem hclaims

theorem exists_of_ownerOf? (h : topology.Composes services)
    (howner : topology.index.ownerOf? type = some name) :
    ∃ service ∈ services, service.name = name := by
  obtain ⟨service, hmem, _, hname⟩ := h.exists_of_holder? (.type type) howner
  exact ⟨service, hmem, hname⟩

theorem exists_of_contributorOf? (h : topology.Composes services) {field : String}
    (hcontributor : topology.index.contributorOf? type field = some name) :
    ∃ service ∈ services, service.shape.contributes type field = true ∧ service.name = name :=
  h.exists_of_holder? (.contribution type field) hcontributor

theorem contributorOf?_eq_none_iff (h : topology.Composes services) (type field : String) :
    topology.index.contributorOf? type field = none ↔
      ∀ service ∈ services, service.shape.contributes type field = false := by
  obtain ⟨policy, hindex⟩ := h.index
  have hholder := Ownership.holder?_eq_none_iff hindex (.contribution type field)
  simpa [Ownership.holder?, Service.Claims] using hholder

theorem ownerDeclares_eq (h : topology.Composes services) (hmem : owner ∈ services) (type field : String) :
    topology.ownerDeclares owner.name type field = owner.shape.owns type field := by
  rw [ownerDeclares, h.registry, (Registry.find?_eq_some_iff h.distinct).mpr ⟨hmem, rfl⟩]

/-! ## The table -/

theorem crossing?_eq_some_iff (h : topology.Composes services) (hmem : owner ∈ services) :
    topology.crossing? owner.name type field = some delegation ↔
      topology.Target services owner type field.name field.returnType delegation.kind
        delegation.service := by
  rw [crossing?, h.ownerDeclares_eq hmem]
  obtain ⟨kind, target⟩ := delegation
  cases howns : owner.shape.owns type field.name with
  | true =>
    simp only [if_true, Option.bind_eq_bind, Option.bind_eq_some_iff, Option.pure_def, Option.some.injEq,
      Delegation.mk.injEq, Option.guard_eq_some']
    constructor
    · rintro ⟨_, hleaf, _, htarget, rfl, rfl⟩
      exact .reference howns (by simpa using hleaf) htarget
    · intro htable
      cases htable with
      | reference _ hleaf htarget => exact ⟨(), by simpa using hleaf, target, htarget, rfl, rfl⟩
      | contributor howns' => cases howns.symm.trans howns'
      | fallback howns' => cases howns.symm.trans howns'
  | false =>
    simp only [Bool.false_eq_true, if_false, Option.bind_eq_bind, Option.bind_eq_some_iff, Option.pure_def,
      Option.some.injEq, Delegation.mk.injEq]
    constructor
    · rintro ⟨_, htarget, rfl, rfl⟩
      rcases hcontributor : topology.index.contributorOf? type field.name with _ | name
      · rw [hcontributor] at htarget
        exact .fallback howns ((h.contributorOf?_eq_none_iff type field.name).mp hcontributor) htarget
      · rw [hcontributor] at htarget
        cases htarget
        exact .contributor howns hcontributor
    · intro htable
      cases htable with
      | reference howns' => cases howns.symm.trans howns'
      | contributor _ hcontributor => exact ⟨target, by rw [hcontributor]; rfl, rfl, rfl⟩
      | fallback _ hnone htarget =>
        have hcontributor := (h.contributorOf?_eq_none_iff type field.name).mpr hnone
        exact ⟨target, by rw [hcontributor]; exact htarget, rfl, rfl⟩

/-- A field of an object that is no root is wired where the table names another service than the owner of
its type. -/
theorem delegationOf?_eq_some_iff (h : topology.Composes services) (hroot : isRootType type = false)
    (hobject : topology.schema.kind? type = some .object)
    (hfield : topology.schema.field? type name = some field) :
    topology.delegationOf? type name = some delegation ↔ ∃ owner ∈ services,
      topology.index.ownerOf? type = some owner.name ∧
      topology.Target services owner type name field.returnType delegation.kind delegation.service ∧
      delegation.service ≠ owner.name := by
  obtain ⟨_, _, _, rfl⟩ := Schema.field?_eq_some hfield
  rw [isRootType, decide_eq_false_iff_not, not_or, not_or] at hroot
  obtain ⟨hquery, hmutation, hsubscription⟩ := hroot
  rw [delegationOf?, if_pos hobject, hfield, Option.bind_some, delegationFor?, if_neg hsubscription,
    if_neg (not_or.mpr ⟨hquery, hmutation⟩)]
  simp only [Option.bind_eq_bind, Option.bind_eq_some_iff, Option.guard_eq_some', Option.pure_def,
    Option.some.injEq]
  constructor
  · rintro ⟨name, howner, _, hcrossing, _, hne, rfl⟩
    obtain ⟨owner, hmem, rfl⟩ := h.exists_of_ownerOf? howner
    exact ⟨owner, hmem, howner, (h.crossing?_eq_some_iff hmem).mp hcrossing, hne⟩
  · rintro ⟨owner, hmem, howner, htarget, hne⟩
    exact ⟨owner.name, howner, delegation, (h.crossing?_eq_some_iff hmem).mpr htarget, (), hne, rfl⟩

/-- Such a field stays where its type has no owner, or the table names nobody but the owner. -/
theorem delegationOf?_eq_none_iff (h : topology.Composes services) (hroot : isRootType type = false)
    (hobject : topology.schema.kind? type = some .object)
    (hfield : topology.schema.field? type name = some field) :
    topology.delegationOf? type name = none ↔ topology.index.ownerOf? type = none ∨
      ∃ owner ∈ services, topology.index.ownerOf? type = some owner.name ∧ ∀ kind target,
        topology.Target services owner type name field.returnType kind target → target = owner.name := by
  constructor
  · intro hnone
    cases howner : topology.index.ownerOf? type with
    | none => exact .inl rfl
    | some owner =>
      obtain ⟨service, hmem, rfl⟩ := h.exists_of_ownerOf? howner
      refine .inr ⟨service, hmem, rfl, ?_⟩
      intro kind target htarget
      by_contra hne
      have hsome : topology.delegationOf? type name = some ⟨kind, target⟩ :=
        (h.delegationOf?_eq_some_iff hroot hobject hfield).mpr ⟨service, hmem, howner, htarget, hne⟩
      cases hnone.symm.trans hsome
  · intro hcases
    by_contra hsome
    obtain ⟨delegation, hsome⟩ := Option.ne_none_iff_exists'.mp hsome
    obtain ⟨owner, hmem, howner, htarget, hne⟩ :=
      (h.delegationOf?_eq_some_iff hroot hobject hfield).mp hsome
    rcases hcases with hnone | ⟨other, hother, howner', hall⟩
    · cases hnone.symm.trans howner
    · have hname := Option.some.inj (howner'.symm.trans howner)
      obtain rfl := Service.eq_of_name_eq h.distinct hother hmem hname
      exact hne (hall _ _ htarget)

/-! ## The root types -/

/-- A field of `Query` or `Mutation` goes to a service that declares it. -/
theorem delegationOf?_root (h : topology.Composes services) (hroot : type = "Query" ∨ type = "Mutation")
    (hobject : topology.schema.kind? type = some .object)
    (hfield : topology.schema.field? type name = some field) :
    ∃ service ∈ services, service.shape.owns type name = true ∧
      topology.delegationOf? type name = some ⟨.rootDelegate, service.name⟩ := by
  obtain ⟨_, _, _, hname⟩ := Schema.field?_eq_some hfield
  have hsome : (topology.schema.field? type name).isSome = true := by rw [hfield]; rfl
  obtain ⟨hvisible, hinternal, declaration, hdeclaration, rfl, definition, hdefinition, hname'⟩ :=
    (Schema.isSome_field?_iff h.schema).mp hsome
  obtain ⟨service, hmem, hschema⟩ := List.mem_flatMap.mp hdeclaration
  -- The declaration is of an object, so that it counts as a definition even if it is an extension.
  have hkind := Option.some.inj ((Schema.kind?_of_mem h.schema hdeclaration hvisible).symm.trans hobject)
  have hrole : declaration.role = .definition := by
    rw [TypeDeclaration.role, hkind, if_pos hroot]
    cases declaration.extending <;> rfl
  have hkeeps : FieldTable.keeps declaration.name name = true := by
    rw [FieldTable.keeps, hinternal]
    simp
  have howns : service.shape.owns declaration.name name = true := by
    rw [service.shaped, ServiceShape.owns_ofSchema_iff]
    exact ⟨hvisible, hkeeps, declaration, hschema, hrole, rfl, definition, hdefinition, hname'⟩
  have hisRoot : isRootType declaration.name = true := by
    rw [isRootType, decide_eq_true_eq]
    tauto
  obtain ⟨target, htarget⟩ := h.exists_holder? (.rootField declaration.name name) hmem
    ⟨hisRoot, howns⟩
  obtain ⟨other, hother, ⟨_, hothers⟩, rfl⟩ := h.exists_of_holder? _ htarget
  refine ⟨other, hother, hothers, ?_⟩
  have hsubscription : declaration.name ≠ "Subscription" := by
    rcases hroot with heq | heq <;> rw [heq] <;> decide
  have htarget : topology.index.rootFieldOwner? declaration.name name = some other.name := htarget
  rw [delegationOf?, if_pos hobject, hfield, Option.bind_some, delegationFor?, if_neg hsubscription,
    if_pos hroot, rootDelegation?, hname, htarget]
  rfl

/-! ## All delegations -/

theorem delegationOf?_cases (h : topology.Composes services)
    (hdelegation : topology.delegationOf? type name = some delegation) :
    (delegation.kind = .rootDelegate ∧ ∃ service ∈ services, service.name = delegation.service) ∨
    ∃ field, topology.schema.field? type name = some field ∧ ∃ owner ∈ services,
      topology.index.ownerOf? type = some owner.name ∧
      topology.Target services owner type name field.returnType delegation.kind delegation.service ∧
      delegation.service ≠ owner.name := by
  obtain ⟨hobject, hsubscription, field, hfield⟩ := object_of_delegationOf? hdelegation
  by_cases hroot : isRootType type = true
  · have hroot : type = "Query" ∨ type = "Mutation" := by
      rw [isRootType, decide_eq_true_eq] at hroot
      tauto
    obtain ⟨service, hmem, _, hroute⟩ := h.delegationOf?_root hroot hobject hfield
    cases hdelegation.symm.trans hroute
    exact .inl ⟨rfl, service, hmem, rfl⟩
  · rw [Bool.not_eq_true] at hroot
    exact .inr ⟨field, hfield, (h.delegationOf?_eq_some_iff hroot hobject hfield).mp hdelegation⟩

theorem exists_of_target (h : topology.Composes services) {kind : DelegationKind} {target : String}
    {returnType : String} (htarget : topology.Target services owner type name returnType kind target) :
    ∃ service ∈ services, service.name = target := by
  cases htarget with
  | reference _ _ howner => exact h.exists_of_ownerOf? howner
  | contributor _ hcontributor =>
    obtain ⟨service, hmem, _, hname⟩ := h.exists_of_contributorOf? hcontributor
    exact ⟨service, hmem, hname⟩
  | fallback _ _ howner => exact h.exists_of_ownerOf? howner

end Composes

end Topology

namespace Gateway

/-- The gateway is built from services of distinct names. -/
structure Assembles (gateway : Gateway) (services : List Service) : Prop where
  distinct : (services.map Service.name).Nodup
  built : ∃ config, Gateway.ofServices config Schema.ofServices services = .ok gateway

/-- Every field of a gateway goes where it can be answered, or it stays. -/
structure Routes (gateway : Gateway) (services : List Service) : Prop where
  /-- The report of the wiring lists the delegations of the schema. -/
  reported : ∀ type name delegation, ⟨type, name, delegation⟩ ∈ gateway.wiring ↔
    gateway.topology.schema.delegation? type name = some delegation
  registered : ∀ type name delegation,
    gateway.topology.schema.delegation? type name = some delegation →
      ∃ service ∈ services, service.name = delegation.service
  root : ∀ type name, type = "Query" ∨ type = "Mutation" →
    gateway.topology.schema.kind? type = some .object →
    (gateway.topology.schema.field? type name).isSome = true →
      ∃ service ∈ services, service.shape.owns type name = true ∧
        gateway.topology.schema.delegation? type name = some ⟨.rootDelegate, service.name⟩
  unwired : ∀ type name, type = "Subscription" ∨ gateway.topology.schema.kind? type ≠ some .object →
    gateway.topology.schema.delegation? type name = none
  reference : ∀ type name target,
    gateway.topology.schema.delegation? type name = some ⟨.entityReference, target⟩ →
      ∃ owner ∈ services, ∃ field, gateway.topology.schema.field? type name = some field ∧
        gateway.topology.index.ownerOf? type = some owner.name ∧
        owner.shape.owns type name = true ∧ target ≠ owner.name ∧
        gateway.topology.schema.isLeaf field.returnType = false ∧
        gateway.topology.index.ownerOf? field.returnType = some target
  resolver : ∀ type name target,
    gateway.topology.schema.delegation? type name = some ⟨.fieldResolver, target⟩ →
      ∃ owner ∈ services, ∃ field, gateway.topology.schema.field? type name = some field ∧
        gateway.topology.index.ownerOf? type = some owner.name ∧
        owner.shape.owns type name = false ∧ target ≠ owner.name ∧
        ((∃ service ∈ services, service.shape.contributes type name = true ∧ service.name = target) ∨
          (∀ service ∈ services, service.shape.contributes type name = false) ∧
            gateway.topology.index.ownerOf? field.returnType = some target)
  /-- Fields of other objects stay where the table names nobody, or nobody but the owner. -/
  left : ∀ type name field, isRootType type = false →
    gateway.topology.schema.kind? type = some .object →
    gateway.topology.schema.field? type name = some field →
      (gateway.topology.schema.delegation? type name = none ↔
        gateway.topology.index.ownerOf? type = none ∨
        ∃ owner ∈ services, gateway.topology.index.ownerOf? type = some owner.name ∧
          ∀ kind target,
            gateway.topology.Target services owner type name field.returnType kind target →
              target = owner.name)

namespace Assembles

variable {gateway : Gateway} {services : List Service}

theorem topology_eq (h : gateway.Assembles services) : ∃ topology : Topology,
    gateway.topology = { topology with schema := topology.wiredSchema } ∧
    gateway.wiring = topology.wiring ∧ topology.Composes services := by
  obtain ⟨config, hbuilt⟩ := h.built
  obtain ⟨topology, rfl, hregistry, hschema, hindex⟩ := ofServices_eq hbuilt
  exact ⟨topology, rfl, rfl, h.distinct, hregistry, hschema, _, hindex⟩

theorem registry_eq (h : gateway.Assembles services) : gateway.topology.registry = ⟨services⟩ := by
  obtain ⟨topology, htopology, _, hcomposes⟩ := h.topology_eq
  rw [htopology]
  exact hcomposes.registry

theorem delegations (h : gateway.Assembles services) : gateway.Routes services := by
  obtain ⟨topology, htopology, hwiring, hcomposes⟩ := h.topology_eq
  have hplain := Schema.plain_ofServices hcomposes.schema
  have hdelegation := Topology.delegation?_wiredSchema hplain
  have hkind := topology.kind?_wiredSchema
  constructor
  case reported =>
    intro type name delegation
    rw [htopology, hwiring, Topology.mem_wiring_iff hplain.named, hdelegation]
  case registered =>
    intro type name delegation hsome
    rw [htopology, hdelegation] at hsome
    rcases hcomposes.delegationOf?_cases hsome with ⟨_, hservice⟩ | ⟨_, _, _, _, _, htarget, _⟩
    · exact hservice
    · exact hcomposes.exists_of_target htarget
  case root =>
    intro type name hroot hobject hfield
    rw [htopology] at hobject hfield ⊢
    rw [hkind] at hobject
    rw [Topology.isSome_field?_wiredSchema hplain] at hfield
    obtain ⟨field, hfield⟩ := Option.isSome_iff_exists.mp hfield
    obtain ⟨service, hmem, howns, hroute⟩ := hcomposes.delegationOf?_root hroot hobject hfield
    exact ⟨service, hmem, howns, (hdelegation type name).trans hroute⟩
  case unwired =>
    intro type name hcase
    rw [htopology, hkind] at hcase
    rw [htopology, hdelegation]
    by_contra hsome
    obtain ⟨delegation, hsome⟩ := Option.ne_none_iff_exists'.mp hsome
    obtain ⟨hobject, hsubscription, _⟩ := Topology.object_of_delegationOf? hsome
    exact hcase.elim hsubscription fun hkind => hkind hobject
  case reference =>
    intro type name target hsome
    rw [htopology, hdelegation] at hsome
    rw [htopology]
    rcases hcomposes.delegationOf?_cases hsome with
      ⟨hroot, _⟩ | ⟨field, hfield, owner, hmem, howner, htarget, hne⟩
    · cases hroot
    · cases htarget with
      | reference howns hleaf htarget =>
        have hleaf := (topology.isLeaf_wiredSchema field.returnType).trans hleaf
        exact ⟨owner, hmem, _, Topology.field?_wiredSchema_of_some hplain hfield, howner, howns, hne, hleaf,
          htarget⟩
  case resolver =>
    intro type name target hsome
    rw [htopology, hdelegation] at hsome
    rw [htopology]
    rcases hcomposes.delegationOf?_cases hsome with
      ⟨hroot, _⟩ | ⟨field, hfield, owner, hmem, howner, htarget, hne⟩
    · cases hroot
    · have hfield := Topology.field?_wiredSchema_of_some hplain hfield
      cases htarget with
      | contributor howns htarget =>
        exact ⟨owner, hmem, _, hfield, howner, howns, hne, .inl (hcomposes.exists_of_contributorOf? htarget)⟩
      | fallback howns hnone htarget =>
        exact ⟨owner, hmem, _, hfield, howner, howns, hne, .inr ⟨hnone, htarget⟩⟩
  case left =>
    intro type name field hroot hobject hfield
    rw [htopology] at hobject hfield ⊢
    rw [hkind] at hobject
    rw [Topology.field?_wiredSchema hplain] at hfield
    obtain ⟨composed, hcomposed, rfl⟩ := Option.map_eq_some_iff.mp hfield
    simp only [hdelegation, Topology.target_wired_iff]
    exact hcomposes.delegationOf?_eq_none_iff hroot hobject hcomposed

/-- Wiring reaches the right service, and resolution never misses one. -/
theorem routes (h : gateway.Assembles services) : gateway.Routes services ∧
    ∀ session : Session, session.gateway = gateway → ∀ context site parent name,
      (session.resolve context site parent).1 ≠ .error (.unknownService name) := by
  refine ⟨h.delegations, ?_⟩
  rintro session rfl context site parent name
  rw [Session.resolve]
  cases hdelegation : session.gateway.topology.schema.delegation? site.parentType site.fieldName with
  | none =>
    rw [Topology.resolve_of_undelegated hdelegation]
    intro hunknown
    cases hunknown
  | some delegation =>
    obtain ⟨service, hmem, hname⟩ := h.delegations.registered _ _ _ hdelegation
    have hservice : session.gateway.topology.registry.find? delegation.service = some service := by
      rw [h.registry_eq]
      exact (Registry.find?_eq_some_iff h.distinct).mpr ⟨hmem, hname⟩
    have hby : Resolution.By delegation.service (session.gateway.topology.resolve site parent) :=
      Topology.by_resolve hdelegation hservice
    revert hby
    cases session.gateway.topology.resolve site parent with
    | settled result => exact fun hby => hby.settled_ne_unknownService name
    | request target request finish =>
      intro hby
      cases hby with
      | request hanswers => exact hanswers.ne_unknownService _ name

end Assembles

end Gateway

theorem Sample.assembles : Sample.gateway.Assembles Sample.services where
  distinct := Sample.federates.distinct
  built := by
    obtain ⟨config, _, hbuilt⟩ := Sample.federates.built
    exact ⟨config, hbuilt⟩

/-- The sample federation: the author of a review is a reference to the users, and whatever the connections
are, no resolution misses a service. -/
theorem routes_sample : Sample.gateway.Assembles Sample.services ∧
    Sample.gateway.topology.schema.delegation? "Review" "author" = some ⟨.entityReference, "users"⟩ ∧
    Sample.gateway.Routes Sample.services ∧ ∀ connections context site parent name,
      (Session.resolve ⟨Sample.gateway, connections⟩ context site parent).1 ≠
        .error (.unknownService name) := by
  obtain ⟨hroutes, hknown⟩ := Gateway.Assembles.routes Sample.assembles
  exact ⟨Sample.assembles, by decide +kernel, hroutes, fun connections => hknown ⟨_, connections⟩ rfl⟩

end Supergraph
