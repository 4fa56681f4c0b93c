import Supergraph.Proofs.Gateway
import Supergraph.Proofs.Shape

/-!
How many services declare a field, where ownership is built under the policy `failFast`.

1. A service declares a field by a definition or by an extension (`Service.declares_iff`), and either way it
   makes a claim (`Service.claims_of_declaresAs`).
2. Two services that declare a field in the same role make the same claim, so that they are one
   (`Ownership.eq_of_declaresAs`).
3. A definition and an extension make different claims, which do not collide. `declaredOnce_iff` says that
   this is the only way for two services to declare one field, and `declared_twice` is an instance of it.
-/

namespace Supergraph

open GraphQL

/-! ## Declarations of a field -/

/-- The declaration is of an object or interface, and has the field without marking it external. -/
def GraphQL.TypeDeclaration.Declares (declaration : TypeDeclaration) (type field : String) : Prop :=
  (declaration.kind = .object ∨ declaration.kind = .interface) ∧ declaration.name = type ∧
    ∃ definition ∈ declaration.fields, ServiceShape.isExternal definition = false ∧
      definition.name = field

instance (declaration : TypeDeclaration) (type field : String) :
    Decidable (declaration.Declares type field) :=
  inferInstanceAs (Decidable (_ ∧ _ ∧ ∃ definition ∈ declaration.fields, _ ∧ _))

namespace Service

/-- The service declares the field in some declaration of its schema. -/
def Declares (service : Service) (type field : String) : Prop :=
  ∃ declaration ∈ service.schema, declaration.Declares type field

/-- The service declares the field in a declaration of the role: by a definition of the type, or by an
extension of it. An extension of the object `Query` or `Mutation` counts as a definition. -/
def DeclaresAs (service : Service) (role : DeclarationRole) (type field : String) : Prop :=
  ∃ declaration ∈ service.schema, declaration.role = role ∧ declaration.Declares type field

instance (service : Service) (role : DeclarationRole) (type field : String) :
    Decidable (service.DeclaresAs role type field) :=
  inferInstanceAs (Decidable (∃ declaration ∈ service.schema, _ ∧ _))

variable {service : Service} {type field : String}

theorem declares_iff : service.Declares type field ↔
    service.DeclaresAs .definition type field ∨ service.DeclaresAs .extension type field := by
  constructor
  · rintro ⟨declaration, hmem, hdeclares⟩
    rcases TypeDeclaration.role_of_kind hdeclares.1 with hrole | hrole
    · exact .inl ⟨declaration, hmem, hrole, hdeclares⟩
    · exact .inr ⟨declaration, hmem, hrole, hdeclares⟩
  · rintro (⟨declaration, hmem, _, hdeclares⟩ | ⟨declaration, hmem, _, hdeclares⟩)
    · exact ⟨declaration, hmem, hdeclares⟩
    · exact ⟨declaration, hmem, hdeclares⟩

/-- What a service that declares a field claims: the type or the field of a root type by a definition, and the
field as a contribution by an extension. -/
def claimAs (role : DeclarationRole) (type field : String) : Claim :=
  if role = .extension then .contribution type field
  else if isRootType type then .rootField type field
  else .type type

theorem claims_of_declaresAs (htype : isInternalName type = false)
    (hfield : isInternalName field = false) {role : DeclarationRole} (hrole : role ≠ .neither)
    (h : service.DeclaresAs role type field) :
    service.Claims (claimAs role type field) := by
  obtain ⟨declaration, hmem, hdeclares, _, hname, definition, hdefinition, hexternal, hdefinitionName⟩ := h
  have hkeeps : FieldTable.keeps type field = true := by
    rw [FieldTable.keeps, hfield, Bool.not_false, Bool.or_true]
  cases role with
  | neither => exact absurd rfl hrole
  | extension =>
    show service.shape.contributes type field = true
    rw [service.shaped, ServiceShape.contributes_ofSchema_iff]
    exact ⟨htype, hkeeps, declaration, hmem, hdeclares, hname, definition, hdefinition, hexternal,
      hdefinitionName⟩
  | definition =>
    have howns : service.shape.owns type field = true := by
      rw [service.shaped, ServiceShape.owns_ofSchema_iff]
      exact ⟨htype, hkeeps, declaration, hmem, hdeclares, hname, definition, hdefinition,
        hdefinitionName⟩
    rw [claimAs, if_neg (by simp)]
    split
    · next hroot => exact ⟨hroot, howns⟩
    · next hroot => exact ⟨Bool.not_eq_true _ ▸ hroot, Ownership.contains_of_has howns⟩

end Service

/-- No two of the services declare the field. -/
def DeclaredOnce (services : List Service) (type field : String) : Prop :=
  ∀ service ∈ services, ∀ other ∈ services, service.Declares type field → other.Declares type field →
    service = other

namespace Ownership

variable {services : List Service} {index : Ownership} {type field : String}

theorem eq_of_claims (hdistinct : (services.map Service.name).Nodup)
    (h : ofServices .failFast services = .ok index) {service other : Service} (hservice : service ∈ services)
    (hother : other ∈ services) {claim : Claim} (hclaims : service.Claims claim)
    (hotherClaims : other.Claims claim) : service = other := by
  have hholder := (holder?_eq_some_iff h claim service.name).mpr ⟨service, hservice, hclaims, rfl⟩
  have hotherHolder := (holder?_eq_some_iff h claim other.name).mpr ⟨other, hother, hotherClaims, rfl⟩
  exact Service.eq_of_name_eq hdistinct hservice hother
    (Option.some.inj (hholder.symm.trans hotherHolder))

/-- Services that declare a field in one role are one service. -/
theorem eq_of_declaresAs (hdistinct : (services.map Service.name).Nodup)
    (h : ofServices .failFast services = .ok index) (htype : isInternalName type = false)
    (hfield : isInternalName field = false) {service other : Service} (hservice : service ∈ services)
    (hother : other ∈ services) {role : DeclarationRole} (hrole : role ≠ .neither)
    (hdeclares : service.DeclaresAs role type field) (hotherDeclares : other.DeclaresAs role type field) :
    service = other :=
  eq_of_claims hdistinct h hservice hother
    (Service.claims_of_declaresAs htype hfield hrole hdeclares)
    (Service.claims_of_declaresAs htype hfield hrole hotherDeclares)

/-- Where ownership is built under `failFast`, a field is declared by one service at most if and only if no
service defines it that another one adds by an extension. -/
theorem declaredOnce_iff (hdistinct : (services.map Service.name).Nodup)
    (h : ofServices .failFast services = .ok index) (htype : isInternalName type = false)
    (hfield : isInternalName field = false) :
    DeclaredOnce services type field ↔ ∀ definer ∈ services, ∀ extender ∈ services,
      definer.DeclaresAs .definition type field → extender.DeclaresAs .extension type field →
        definer = extender := by
  constructor
  · intro honce definer hdefiner extender hextender hdefines hextends
    exact honce definer hdefiner extender hextender (Service.declares_iff.mpr (.inl hdefines))
      (Service.declares_iff.mpr (.inr hextends))
  · intro hacross service hservice other hother hdeclares hotherDeclares
    have hsame : ∀ role, role ≠ .neither → service.DeclaresAs role type field →
        other.DeclaresAs role type field → service = other :=
      fun role => eq_of_declaresAs hdistinct h htype hfield hservice hother
    rcases Service.declares_iff.mp hdeclares with hdefines | hextends
    · rcases Service.declares_iff.mp hotherDeclares with hotherDefines | hotherExtends
      · exact hsame .definition (by simp) hdefines hotherDefines
      · exact hacross service hservice other hother hdefines hotherExtends
    · rcases Service.declares_iff.mp hotherDeclares with hotherDefines | hotherExtends
      · exact (hacross other hother service hservice hotherDefines hextends).symm
      · exact hsame .extension (by simp) hextends hotherExtends

/-- Both services have the key of users, and one of them marks it external. -/
theorem declaredOnce_userKey :
    (Sample.services.map Service.name).Nodup ∧
    (∃ index, ofServices .failFast Sample.services = .ok index) ∧
    isInternalName "User" = false ∧ isInternalName "id" = false ∧
    DeclaredOnce Sample.services "User" "id" := by
  have hbuilt : ∃ index, ofServices .failFast Sample.services = .ok index := ⟨_, rfl⟩
  obtain ⟨index, hindex⟩ := hbuilt
  have htype : isInternalName "User" = false := by decide
  have hfield : isInternalName "id" = false := by decide
  refine ⟨Sample.federates.distinct, ⟨index, hindex⟩, htype, hfield, ?_⟩
  refine (declaredOnce_iff Sample.federates.distinct hindex htype hfield).mpr ?_
  have hnone : ∀ extender ∈ Sample.services, ¬ extender.DeclaresAs .extension "User" "id" := by
    simp only [Sample.services, List.forall_mem_cons, List.not_mem_nil, false_implies, implies_true, and_true]
    exact ⟨by decide +kernel, by decide +kernel⟩
  exact fun _ _ extender hextender _ hextends => absurd hextends (hnone extender hextender)

end Ownership

namespace Sample

def postedField : FieldDefinition := ⟨"posted", .named "String", []⟩

/-- A service that defines the root type of subscriptions. -/
def posts : Service where
  config := .ofAddress "posts" ""
  sdl := "type Subscription \x7b posted: String \x7d"
  schema := [⟨false, .object, "Subscription", [], [postedField]⟩]
  shape := .ofSchema [⟨false, .object, "Subscription", [], [postedField]⟩]
  parsed := by decide +kernel
  shaped := rfl

/-- A service that adds the same field to it. -/
def chat : Service where
  config := .ofAddress "chat" ""
  sdl := "extend type Subscription \x7b posted: String \x7d"
  schema := [⟨true, .object, "Subscription", [], [postedField]⟩]
  shape := .ofSchema [⟨true, .object, "Subscription", [], [postedField]⟩]
  parsed := by decide +kernel
  shaped := rfl

end Sample

/-- A root field that one service defines and another one adds by extension is not a conflict. -/
theorem declared_twice :
    ([Sample.posts, Sample.chat].map Service.name).Nodup ∧
    (∃ index, Ownership.ofServices .failFast [Sample.posts, Sample.chat] = .ok index) ∧
    isInternalName "Subscription" = false ∧ isInternalName "posted" = false ∧
    ¬ DeclaredOnce [Sample.posts, Sample.chat] "Subscription" "posted" := by
  refine ⟨by decide, ⟨_, rfl⟩, by decide, by decide, ?_⟩
  intro honce
  have hposts : Sample.posts.Declares "Subscription" "posted" :=
    Service.declares_iff.mpr (.inl (by decide +kernel))
  have hchat : Sample.chat.Declares "Subscription" "posted" :=
    Service.declares_iff.mpr (.inr (by decide +kernel))
  have hsame := honce Sample.posts (by simp) Sample.chat (by simp) hposts hchat
  exact absurd (congrArg Service.name hsame) (by decide)

end Supergraph
