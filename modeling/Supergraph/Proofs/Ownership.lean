import Supergraph.Ownership
import Supergraph.Proofs.Claims

/-!
Ownership under the policy `failFast`: no claim replaces another one, so that the order of the services
does not matter.

1. `enters_claim` says of one claim to a field, `enters_claimType` of a type and `enters_claimExtension` of
   an extension when it is accepted and what it adds.
2. `enters_addService` says it of a whole service, whose claims are `Service.Claims`.
3. `ofServices_isOk_iff` says when the claims of all services go together, and `holder?_eq_some_iff` who
   holds a claim then.

Keys and the split of the root types are the same under both policies (`mem_keysOf_iff`,
`owner?_eq_split_iff`).
-/

namespace Supergraph

/-! ## Claims -/

/-- What a service may claim: a type as a whole, a field of a root type, or a field that it adds to a
type. -/
inductive Claim where
  | type (name : String)
  | rootField (type field : String)
  | contribution (type field : String)

def Service.Claims (service : Service) : Claim → Prop
  | .type name => isRootType name = false ∧ service.shape.declared.contains name = true
  | .rootField type field => isRootType type = true ∧ service.shape.owns type field = true
  | .contribution type field => service.shape.contributes type field = true

namespace ClaimTable

/-- The service that holds a field of a type. -/
def holder? (table : ClaimTable) (key : String × String) : Option String := table.claimant? key.1 key.2

theorem find?_getD (table : ClaimTable) (type field : String) :
    ((table.find? type).getD .empty).find? field = table.claimant? type field := by
  rw [claimant?]
  cases table.find? type <;> rfl

theorem claimant?_insert (table : ClaimTable) (type field service type' field' : String) :
    claimant? (table.insert type (((table.find? type).getD .empty).insert field service)) type' field' =
      if type = type' ∧ field = field' then some service else table.claimant? type' field' := by
  rw [claimant?, NameMap.find?_insert]
  by_cases htype : type = type'
  · subst htype
    rw [if_pos rfl, Option.bind_some, NameMap.find?_insert, find?_getD]
    simp
  · simp [htype, claimant?]

/-- A claim is accepted if the field is unclaimed or has been claimed by the same service. -/
theorem enters_claim (service type field : String) :
    Enters holder? service (fun key => (type, field) = key) (claim .failFast service type · field) where
  accepts table := by
    simp only [forall_eq', claim, find?_getD, holder?]
    cases table.claimant? type field with
    | none => simp
    | some first => by_cases hfirst : first = service <;> simp [hfirst]
  adds := by
    intro table claimed h key other
    obtain ⟨type', field'⟩ := key
    simp only [claim, find?_getD] at h
    have hfirst : ∀ first, table.claimant? type field = some first → first = service := by
      intro first hfind
      by_contra hne
      simp [hfind, hne] at h
    have hclaimed : claimed = table.insert type (((table.find? type).getD .empty).insert field service) := by
      cases hfind : table.claimant? type field with
      | none => simpa [hfind] using h.symm
      | some first => simpa [hfind, hfirst first hfind] using h.symm
    simp only [hclaimed, holder?, claimant?_insert, Prod.mk.injEq]
    split
    · next hsame =>
      obtain ⟨rfl, rfl⟩ := hsame
      constructor
      · intro hother
        exact .inr ⟨⟨rfl, rfl⟩, Option.some.inj hother⟩
      · rintro (hother | ⟨_, rfl⟩)
        · rw [hfirst other hother]
        · rfl
    · next hne => simp [hne]

end ClaimTable

namespace Ownership

variable {order : FieldOrder} {policy : CollisionPolicy} {index next : Ownership}

theorem ownerOf?_eq_some {type owner : String} :
    index.ownerOf? type = some owner ↔ index.owners.find? type = some (.service owner) := by
  rw [ownerOf?, owner?]
  split
  · next hfind => simp [hfind]
  · next hnone => simpa using hnone owner

def holder? (index : Ownership) : Claim → Option String
  | .type name => index.ownerOf? name
  | .rootField type field => index.rootFieldOwner? type field
  | .contribution type field => index.contributorOf? type field

/-! ## One claim -/

theorem part_rootFields : Part holder? ClaimTable.holder? Ownership.rootFields
    (fun index rootFields => { index with rootFields })
    (fun key : String × String => .rootField key.1 key.2) where
  injective := by
    rintro ⟨_, _⟩ ⟨_, _⟩ ⟨⟩
    rfl
  get _ _ := rfl
  set _ _ _ := rfl
  other := by
    intro index rootFields claim hother
    cases claim with
    | rootField type field => exact absurd rfl (hother (type, field))
    | type => rfl
    | contribution => rfl

theorem part_contributors : Part holder? ClaimTable.holder? Ownership.contributors
    (fun index contributors => { index with contributors })
    (fun key : String × String => .contribution key.1 key.2) where
  injective := by
    rintro ⟨_, _⟩ ⟨_, _⟩ ⟨⟩
    rfl
  get _ _ := rfl
  set _ _ _ := rfl
  other := by
    intro index contributors claim hother
    cases claim with
    | contribution type field => exact absurd rfl (hother (type, field))
    | type => rfl
    | rootField => rfl

/-- A type that a service defines changes the fields of the root types, or it changes who owns what. -/
theorem claimType_eq_ok {service : String} {declared : String × NameSet}
    (h : claimType order policy service index declared = .ok next) :
    isRootType declared.1 = true ∧ (∃ rootFields, next = { index with rootFields }) ∨
      isRootType declared.1 = false ∧
        next = { index with owners := index.owners.insert declared.1 (.service service) } := by
  obtain ⟨type, fields⟩ := declared
  rw [claimType] at h
  dsimp only at h ⊢
  split at h
  · next hroot =>
    obtain ⟨rootFields, _, h⟩ := Outcome.bind_eq_ok.mp h
    rw [Outcome.pure_eq_ok] at h
    exact .inl ⟨hroot, rootFields, h.symm⟩
  · next hroot =>
    refine .inr ⟨Bool.not_eq_true _ ▸ hroot, ?_⟩
    split at h
    · split at h
      · rw [Outcome.pure_eq_ok] at h
        exact h.symm
      · cases h
    · rw [Outcome.pure_eq_ok] at h
      exact h.symm

theorem claimType_isOk_iff {service type : String} {fields : NameSet} (hroot : isRootType type = false) :
    (∃ next, claimType order .failFast service index (type, fields) = .ok next) ↔
      ∀ first, index.ownerOf? type = some first → first = service := by
  simp only [claimType, hroot, Bool.false_eq_true, if_false, ownerOf?, owner?]
  rcases index.owners.find? type with _ | (_ | first)
  · simp
  · simp
  · by_cases hfirst : first = service
    · simp [hfirst]
    · simp [hfirst, throw, throwThe, MonadExceptOf.throw]

theorem enters_owner (order : FieldOrder) (service type : String) (fields : NameSet) (hroot : isRootType type = false) :
    Enters holder? service (fun claim => .type type = claim)
      (claimType order .failFast service · (type, fields)) where
  accepts index := by
    rw [claimType_isOk_iff hroot]
    simp [holder?]
  adds := by
    intro index next h claim other
    have hfirst := (claimType_isOk_iff hroot).mp ⟨next, h⟩
    obtain ⟨hroot', _⟩ | ⟨_, rfl⟩ := claimType_eq_ok h
    · cases hroot.symm.trans hroot'
    · cases claim with
      | rootField => simp [holder?, rootFieldOwner?]
      | contribution => simp [holder?, contributorOf?]
      | type name =>
        simp only [holder?, Claim.type.injEq, ownerOf?_eq_some, NameMap.find?_insert]
        split
        · next hsame =>
          subst hsame
          rw [Option.some.injEq, Owner.service.injEq]
          constructor
          · exact fun hother => .inr ⟨rfl, hother⟩
          · rintro (hother | ⟨_, hother⟩)
            · exact (hfirst other (ownerOf?_eq_some.mpr hother)).symm
            · exact hother
        · next hne => simp [hne]

/-- The claims of one type that a service defines. -/
def TypeClaims (declared : String × NameSet) : Claim → Prop
  | .type name => isRootType name = false ∧ declared.1 = name
  | .rootField type field => isRootType type = true ∧ declared.1 = type ∧ declared.2.contains field = true
  | .contribution _ _ => False

theorem typeClaims_iff_of_not_root {type : String} {fields : NameSet} (hroot : isRootType type = false)
    (claim : Claim) : .type type = claim ↔ TypeClaims (type, fields) claim := by
  cases claim <;> simp only [TypeClaims, Claim.type.injEq] <;> grind

theorem typeClaims_iff_of_root (order : FieldOrder) {type : String} {fields : NameSet}
    (hroot : isRootType type = true) (claim : Claim) :
    (∃ key : String × String, (∃ field ∈ order.list type fields, (type, field) = key) ∧
      claim = .rootField key.1 key.2) ↔ TypeClaims (type, fields) claim := by
  simp only [(order.perm type fields).mem_iff, NameMap.mem_names_iff]
  cases claim with
  | type name =>
    simp only [TypeClaims]
    grind
  | rootField name field =>
    simp only [TypeClaims, Claim.rootField.injEq]
    grind
  | contribution => simp [TypeClaims]

theorem enters_claimType (order : FieldOrder) (service : String) (declared : String × NameSet) :
    Enters holder? service (TypeClaims declared) (claimType order .failFast service · declared) := by
  obtain ⟨type, fields⟩ := declared
  cases hroot : isRootType type with
  | false => exact (enters_owner order service type fields hroot).congr (typeClaims_iff_of_not_root hroot)
  | true =>
    have hfields := (Enters.foldlM (fun field => ClaimTable.enters_claim service type field)
      (order.list type fields)).within part_rootFields
    simp only [claimType, hroot, if_true]
    exact hfields.congr (typeClaims_iff_of_root order hroot)

/-- The claims of the fields that a service adds to one type. -/
def ExtensionClaims (contributed : String × NameSet) : Claim → Prop
  | .contribution type field => contributed.1 = type ∧ contributed.2.contains field = true
  | _ => False

theorem extensionClaims_iff (order : FieldOrder) (type : String) (fields : NameSet) (claim : Claim) :
    (∃ key : String × String, (∃ field ∈ order.list type fields, (type, field) = key) ∧
      claim = .contribution key.1 key.2) ↔ ExtensionClaims (type, fields) claim := by
  simp only [(order.perm type fields).mem_iff, NameMap.mem_names_iff]
  cases claim with
  | type => simp [ExtensionClaims]
  | rootField => simp [ExtensionClaims]
  | contribution name field =>
    simp only [ExtensionClaims, Claim.contribution.injEq]
    grind

theorem enters_claimExtension (order : FieldOrder) (service : String) (contributed : String × NameSet) :
    Enters holder? service (ExtensionClaims contributed)
      (claimExtension order .failFast service · contributed) := by
  obtain ⟨type, fields⟩ := contributed
  have hfields := (Enters.foldlM (fun field => ClaimTable.enters_claim service type field)
    (order.list type fields)).within part_contributors
  exact hfields.congr (extensionClaims_iff order type fields)

/-! ## One service -/

theorem contains_of_has {table : FieldTable} {type field : String} (h : table.has type field = true) :
    table.contains type = true := by
  unfold FieldTable.has at h
  rw [NameMap.contains]
  split at h
  · next hfind => rw [hfind]; rfl
  · cases h

theorem exists_entry_iff_contains {table : FieldTable} {type : String} :
    (∃ entry ∈ table.entries, entry.1 = type) ↔ table.contains type = true := by
  rw [← NameMap.mem_names_iff, NameMap.names, List.mem_map]

theorem exists_entry_iff_has {table : FieldTable} {type field : String} :
    (∃ entry ∈ table.entries, entry.1 = type ∧ entry.2.contains field = true) ↔
      table.has type field = true := by
  rw [FieldTable.has]
  constructor
  · rintro ⟨⟨_, fields⟩, hentry, rfl, hfield⟩
    rw [NameMap.mem_entries_iff.mp hentry]
    exact hfield
  · intro h
    split at h
    · next fields hfind => exact ⟨(type, fields), NameMap.mem_entries_iff.mpr hfind, rfl, h⟩
    · cases h

theorem holder?_foldl_addKeys (entries : List (String × List String)) (index : Ownership)
    (claim : Claim) : (entries.foldl addKeys index).holder? claim = index.holder? claim := by
  induction entries generalizing index with
  | nil => rfl
  | cons entry entries ih =>
    rw [List.foldl_cons, ih]
    cases claim <;> rfl

/-- The claims of a service are those of its types and extensions. Its keys claim nothing. -/
theorem claims_iff (service : Service) (claim : Claim) :
    ((∃ declared ∈ service.shape.declared.entries, TypeClaims declared claim) ∨
      (∃ contributed ∈ service.shape.contributed.entries, ExtensionClaims contributed claim) ∨ False) ↔
    service.Claims claim := by
  cases claim with
  | type =>
    simp only [TypeClaims, ExtensionClaims, Service.Claims, ← exists_entry_iff_contains]
    grind
  | rootField =>
    simp only [TypeClaims, ExtensionClaims, Service.Claims, ServiceShape.owns, ← exists_entry_iff_has]
    grind
  | contribution =>
    simp only [TypeClaims, ExtensionClaims, Service.Claims, ServiceShape.contributes,
      ← exists_entry_iff_has]
    grind

/-- A service is accepted unless another service holds one of its claims. -/
theorem enters_addService (order : FieldOrder) (service : Service) :
    Enters holder? service.name service.Claims (addService order .failFast · service) := by
  have htypes := Enters.foldlM (enters_claimType order service.name) service.shape.declared.entries
  have hextensions := Enters.foldlM (enters_claimExtension order service.name)
    service.shape.contributed.entries
  have hkeys : Enters holder? service.name (fun _ => False) (fun index =>
      (.ok (service.shape.keys.entries.foldl addKeys index) : Except OwnershipError Ownership)) :=
    .of_unchanged (holder?_foldl_addKeys service.shape.keys.entries)
  exact (htypes.bind (hextensions.bind hkeys)).congr (claims_iff service)

/-! ## All services -/

variable {services : List Service}

theorem holder?_initial (claim : Claim) : initial.holder? claim = none := by
  cases claim with
  | rootField => rfl
  | contribution => rfl
  | type name =>
    rw [holder?, ownerOf?, owner?]
    split
    · next owner hfind =>
      simp only [initial, NameMap.ofList, List.foldl_cons, List.foldl_nil, NameMap.find?_insert,
        NameMap.find?_empty] at hfind
      grind
    · rfl

/-- The services are accepted if and only if no two of different names make the same claim, in whichever order
they list their fields. -/
theorem ofServicesBy_isOk_iff {order : Service → FieldOrder} :
    (∃ index, ofServicesBy order .failFast services = .ok index) ↔
      services.Pairwise (Concordant Service.name Service.Claims) := by
  rw [ofServicesBy, foldlM_isOk_iff fun service => enters_addService (order service) service]
  refine and_iff_right ?_
  intro service _
  rw [(enters_addService _ service).accepts]
  simp [holder?_initial]

theorem ofServices_isOk_iff : (∃ index, ofServices .failFast services = .ok index) ↔
    services.Pairwise (Concordant Service.name Service.Claims) := ofServicesBy_isOk_iff

theorem holder?_eq_some_iff (h : ofServices .failFast services = .ok index) (claim : Claim)
    (name : String) :
    index.holder? claim = some name ↔ ∃ service ∈ services, service.Claims claim ∧ service.name = name := by
  rw [foldlM_adds (enters_addService .increasing) h]
  simp [holder?_initial]

theorem ownerOf?_eq_some_iff (h : ofServices .failFast services = .ok index) (type owner : String) :
    index.ownerOf? type = some owner ↔ isRootType type = false ∧
      ∃ service ∈ services, service.shape.declared.contains type = true ∧ service.name = owner := by
  have hholder := holder?_eq_some_iff h (.type type) owner
  simp only [holder?, Service.Claims] at hholder
  grind

theorem contributorOf?_eq_some_iff (h : ofServices .failFast services = .ok index)
    (type field name : String) :
    index.contributorOf? type field = some name ↔
      ∃ service ∈ services, service.shape.contributes type field = true ∧ service.name = name :=
  holder?_eq_some_iff h (.contribution type field) name

/-! ## Keys, and the split of the root types -/

theorem claimExtension_eq_ok {service : String} {contributed : String × NameSet}
    (h : claimExtension order policy service index contributed = .ok next) :
    ∃ contributors, next = { index with contributors } := by
  rw [claimExtension] at h
  obtain ⟨contributors, _, h⟩ := Outcome.bind_eq_ok.mp h
  rw [Outcome.pure_eq_ok] at h
  exact ⟨contributors, h.symm⟩

/-- What the claims of types and extensions keep, a service keeps up to the entry of its keys. -/
theorem addService_induction {service : Service} (kept : Ownership → Prop)
    (hclaims : ∀ index rootFields contributors, kept index →
      kept { index with rootFields } ∧ kept { index with contributors })
    (howners : ∀ index type, isRootType type = false → kept index →
      kept { index with owners := index.owners.insert type (.service service.name) })
    (hindex : kept index) (h : addService order policy index service = .ok next) :
    ∃ claimed, kept claimed ∧ next = service.shape.keys.entries.foldl addKeys claimed := by
  rw [addService] at h
  obtain ⟨typed, htyped, h⟩ := Outcome.bind_eq_ok.mp h
  obtain ⟨extended, hextended, h⟩ := Outcome.bind_eq_ok.mp h
  rw [Outcome.pure_eq_ok] at h
  have hkept : kept typed := by
    refine Outcome.foldlM_induction kept ?_ _ _ _ hindex htyped
    intro state declared claimed hstate hclaimed
    obtain ⟨_, rootFields, rfl⟩ | ⟨hroot, rfl⟩ := claimType_eq_ok hclaimed
    · exact (hclaims state rootFields .empty hstate).1
    · exact howners state declared.1 hroot hstate
  refine ⟨extended, ?_, h.symm⟩
  refine Outcome.foldlM_induction kept ?_ _ _ _ hkept hextended
  intro state contributed claimed hstate hclaimed
  obtain ⟨contributors, rfl⟩ := claimExtension_eq_ok hclaimed
  exact (hclaims state .empty contributors hstate).2

theorem owners_foldl_addKeys (entries : List (String × List String)) (index : Ownership) :
    (entries.foldl addKeys index).owners = index.owners := by
  induction entries generalizing index with
  | nil => rfl
  | cons entry entries ih => exact ih (addKeys index entry)

/-- The root types are split, and no other type is. -/
theorem owner?_eq_split_iff (h : ofServices policy services = .ok index) (type : String) :
    index.owner? type = some .split ↔ isRootType type = true := by
  refine Outcome.foldlM_induction (fun index => index.owner? type = some .split ↔ isRootType type = true)
    ?_ services initial index ?_ h
  · intro state service next hstate hnext
    obtain ⟨claimed, hclaimed, rfl⟩ := addService_induction
      (fun index => index.owner? type = some .split ↔ isRootType type = true)
      (fun _ _ _ hindex => ⟨hindex, hindex⟩) (by
        intro index declared hroot hindex
        rw [owner?, NameMap.find?_insert]
        split
        · next hsame => simp [← hsame, hroot]
        · exact hindex) hstate hnext
    rwa [owner?, owners_foldl_addKeys]
  · simp only [owner?, initial, NameMap.ofList, List.foldl_cons, List.foldl_nil, NameMap.find?_insert,
      NameMap.find?_empty, isRootType]
    grind

theorem mem_foldl_appendNew {name : String} (names : List String) : ∀ known : List String,
    name ∈ names.foldl KeyTable.appendNew known ↔ name ∈ known ∨ name ∈ names := by
  induction names with
  | nil => simp
  | cons first names ih =>
    intro known
    rw [List.foldl_cons, ih, KeyTable.appendNew]
    split
    · next hknown =>
      have hmem : first ∈ known := by simpa using hknown
      grind
    · grind

/-- The names of a list, each once, in the order in which the list first mentions them. -/
structure FirstMentions (names distinct : List String) : Prop where
  nodup : distinct.Nodup
  mem_iff : ∀ name, name ∈ distinct ↔ name ∈ names
  ordered : distinct.Pairwise fun first second => names.idxOf first < names.idxOf second

theorem FirstMentions.appendNew {names distinct : List String} (h : FirstMentions names distinct)
    (name : String) : FirstMentions (names ++ [name]) (KeyTable.appendNew distinct name) := by
  -- What was mentioned before keeps its place.
  have hplace : ∀ other ∈ distinct, (names ++ [name]).idxOf other = names.idxOf other :=
    fun other hother => List.idxOf_append_of_mem ((h.mem_iff other).mp hother)
  have hordered : distinct.Pairwise fun first second =>
      (names ++ [name]).idxOf first < (names ++ [name]).idxOf second := by
    refine h.ordered.imp_of_mem ?_
    intro first second hfirst hsecond hlt
    rwa [hplace first hfirst, hplace second hsecond]
  rw [KeyTable.appendNew]
  split
  · next hknown =>
    have hmem : name ∈ distinct := List.contains_iff_mem.mp hknown
    refine ⟨h.nodup, ?_, hordered⟩
    intro other
    rw [h.mem_iff, List.mem_append, List.mem_singleton]
    refine ⟨.inl, ?_⟩
    rintro (hother | rfl)
    · exact hother
    · exact (h.mem_iff other).mp hmem
  · next hnew =>
    have hnot : name ∉ distinct := fun hmem => hnew (List.contains_iff_mem.mpr hmem)
    refine ⟨List.nodup_append.mpr ⟨h.nodup, List.pairwise_singleton _ _, ?_⟩, ?_, ?_⟩
    · rintro other hother _ hname rfl
      rw [List.mem_singleton] at hname
      exact hnot (hname ▸ hother)
    · intro other
      rw [List.mem_append, List.mem_append, h.mem_iff]
    · refine List.pairwise_append.mpr ⟨hordered, List.pairwise_singleton _ _, ?_⟩
      intro first hfirst second hsecond
      rw [List.mem_singleton] at hsecond
      have hlast : (names ++ [name]).idxOf name = names.length := by
        rw [List.idxOf_append_of_notMem (fun hmem => hnot ((h.mem_iff name).mpr hmem))]
        simp
      rw [hsecond, hlast, hplace first hfirst]
      exact List.idxOf_lt_length_of_mem ((h.mem_iff first).mp hfirst)

theorem FirstMentions.foldl_appendNew {before distinct : List String}
    (h : FirstMentions before distinct) (names : List String) :
    FirstMentions (before ++ names) (names.foldl KeyTable.appendNew distinct) := by
  induction names generalizing before distinct with
  | nil => rwa [List.append_nil]
  | cons name names ih =>
    rw [List.append_cons]
    exact ih (h.appendNew name)

theorem firstMentions_foldl_appendNew (names : List String) :
    FirstMentions names (names.foldl KeyTable.appendNew []) := by
  have hempty : FirstMentions [] [] := ⟨.nil, fun _ => .rfl, .nil⟩
  exact hempty.foldl_appendNew names

theorem keysOf_addKeys (index : Ownership) (entry : String × List String) (type : String) :
    (addKeys index entry).keysOf type =
      if entry.1 = type then entry.2.foldl KeyTable.appendNew (index.keysOf type)
      else index.keysOf type := by
  rw [addKeys, keysOf, KeyTable.record, KeyTable.keysOf, NameMap.find?_insert]
  by_cases htype : entry.1 = type
  · rw [if_pos htype, if_pos htype, htype]
    rfl
  · rw [if_neg htype, if_neg htype]
    rfl

/-- The keys that a table has for a type come after those that the type has already. -/
theorem keysOf_foldl_addKeys (type : String) {entries : List (String × List String)}
    (hsorted : Entries.Sorted entries) (index : Ownership) :
    (entries.foldl addKeys index).keysOf type =
      ((Entries.find? type entries).getD []).foldl KeyTable.appendNew (index.keysOf type) := by
  induction entries generalizing index with
  | nil => rfl
  | cons entry entries ih =>
    obtain ⟨hfirst, hrest⟩ := List.pairwise_cons.mp hsorted
    rw [List.foldl_cons, ih hrest, keysOf_addKeys, Entries.find?]
    by_cases htype : entry.1 = type
    · -- The entries are sorted, so no other one is for this type.
      have hnone : Entries.find? type entries = none :=
        Entries.find?_eq_none_of_lt fun other hmem => htype ▸ hfirst other hmem
      rw [if_pos htype, if_pos htype, hnone]
      rfl
    · rw [if_neg htype, if_neg htype]

theorem keysOf_addService {service : Service} (h : addService order policy index service = .ok next)
    (type : String) : next.keysOf type =
      (service.shape.keys.keysOf type).foldl KeyTable.appendNew (index.keysOf type) := by
  obtain ⟨claimed, hclaimed, rfl⟩ := addService_induction (fun claimed => claimed.keys = index.keys)
    (fun _ _ _ hkept => ⟨hkept, hkept⟩) (fun _ _ _ hkept => hkept) rfl h
  have hbefore : claimed.keysOf type = index.keysOf type := by rw [keysOf, keysOf, hclaimed]
  rw [keysOf_foldl_addKeys type service.shape.keys.sorted, hbefore]
  rfl

/-- The keys of a type are those of all services, in the order in which they are first given. -/
theorem keysOf_ofServices (h : ofServices policy services = .ok index) (type : String) :
    index.keysOf type =
      (services.flatMap fun service => service.shape.keys.keysOf type).foldl KeyTable.appendNew [] := by
  have hfold : ∀ (services : List Service) (first last : Ownership),
      services.foldlM (addService .increasing policy) first = .ok last → last.keysOf type =
        (services.flatMap fun service => service.shape.keys.keysOf type).foldl KeyTable.appendNew
          (first.keysOf type) := by
    intro services
    induction services with
    | nil =>
      intro first last hlast
      rw [List.foldlM_nil, Outcome.pure_eq_ok] at hlast
      rw [hlast]
      rfl
    | cons service services ih =>
      intro first last hlast
      rw [List.foldlM_cons] at hlast
      obtain ⟨next, hnext, hlast⟩ := Outcome.bind_eq_ok.mp hlast
      rw [ih next last hlast, keysOf_addService hnext, List.flatMap_cons, List.foldl_append]
  exact hfold services initial index h

theorem mem_keysOf_iff (h : ofServices policy services = .ok index) (type key : String) :
    key ∈ index.keysOf type ↔ ∃ service ∈ services, key ∈ service.shape.keys.keysOf type := by
  rw [keysOf_ofServices h, mem_foldl_appendNew, List.mem_flatMap]
  exact or_iff_right List.not_mem_nil

/-! ## The order of the services -/

section Perm

variable {others : List Service} {other : Ownership}

theorem ofServices_isOk_perm (hperm : services.Perm others) :
    (∃ index, ofServices .failFast services = .ok index) ↔
      ∃ index, ofServices .failFast others = .ok index :=
  foldlM_isOk_perm (enters_addService .increasing) hperm initial

theorem holder?_perm (hperm : services.Perm others) (h : ofServices .failFast services = .ok index)
    (hother : ofServices .failFast others = .ok other) (claim : Claim) :
    index.holder? claim = other.holder? claim := by
  apply Option.ext
  intro name
  rw [holder?_eq_some_iff h, holder?_eq_some_iff hother]
  simp only [hperm.mem_iff]

theorem owner?_perm (hperm : services.Perm others) (h : ofServices .failFast services = .ok index)
    (hother : ofServices .failFast others = .ok other) (type : String) :
    index.owner? type = other.owner? type := by
  apply Option.ext
  rintro (_ | name)
  · rw [owner?_eq_split_iff h, owner?_eq_split_iff hother]
  · rw [owner?, owner?, ← ownerOf?_eq_some, ← ownerOf?_eq_some]
    have hholder := holder?_perm hperm h hother (.type type)
    simp only [holder?] at hholder
    rw [hholder]

theorem mem_keysOf_perm (hperm : services.Perm others) (h : ofServices policy services = .ok index)
    (hother : ofServices policy others = .ok other) (type key : String) :
    key ∈ index.keysOf type ↔ key ∈ other.keysOf type := by
  rw [mem_keysOf_iff h, mem_keysOf_iff hother]
  simp only [hperm.mem_iff]

end Perm

end Ownership

end Supergraph
