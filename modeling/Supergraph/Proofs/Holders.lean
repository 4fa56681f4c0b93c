import Supergraph.Proofs.Ownership

/-!
Who holds a claim, whatever is done about collisions. Under `failFast` no claim changes hands, under
`lastWins` a later service takes it over. Either way the last service that makes a claim holds it
(`holder?_ofServices`), so that a claim is held if and only if a service makes it.
-/

namespace Supergraph

variable {policy : CollisionPolicy}

namespace ClaimTable

theorem claim_eq_ok {service type field : String} {table claimed : ClaimTable}
    (h : claim policy service type table field = .ok claimed) :
    claimed = table.insert type (((table.find? type).getD .empty).insert field service) := by
  unfold claim at h
  dsimp only at h
  split at h
  · split at h
    · exact (Except.ok.inj h).symm
    · cases h
  · exact (Except.ok.inj h).symm

theorem assigns_claim (policy : CollisionPolicy) (service type field : String) :
    Assigns holder? service (fun key => (type, field) = key) (claim policy service type · field) := by
  intro table claimed h key
  obtain ⟨type', field'⟩ := key
  simp only [claim_eq_ok h, holder?, claimant?_insert, Prod.mk.injEq]
  by_cases hkey : type = type' ∧ field = field'
  · exact .inl ⟨hkey, if_pos hkey⟩
  · exact .inr ⟨hkey, if_neg hkey⟩

end ClaimTable

namespace Ownership

theorem assigns_owner (order : FieldOrder) (policy : CollisionPolicy) (service type : String) (fields : NameSet)
    (hroot : isRootType type = false) :
    Assigns holder? service (fun claim => .type type = claim)
      (claimType order policy service · (type, fields)) := by
  intro index next h claim
  obtain ⟨hroot', _⟩ | ⟨_, rfl⟩ := claimType_eq_ok h
  · cases hroot.symm.trans hroot'
  cases claim with
  | rootField => exact .inr ⟨by simp, rfl⟩
  | contribution => exact .inr ⟨by simp, rfl⟩
  | type name =>
    simp only [holder?, ownerOf?, owner?, NameMap.find?_insert, Claim.type.injEq]
    by_cases hname : type = name <;> simp [hname]

theorem assigns_claimType (order : FieldOrder) (policy : CollisionPolicy) (service : String)
    (declared : String × NameSet) :
    Assigns holder? service (TypeClaims declared) (claimType order policy service · declared) := by
  obtain ⟨type, fields⟩ := declared
  cases hroot : isRootType type with
  | false => exact (assigns_owner order policy service type fields hroot).congr (typeClaims_iff_of_not_root hroot)
  | true =>
    have hfields := (Assigns.foldlM (fun field => ClaimTable.assigns_claim policy service type field)
      (order.list type fields)).within part_rootFields
    simp only [claimType, hroot, if_true]
    exact hfields.congr (typeClaims_iff_of_root order hroot)

theorem assigns_claimExtension (order : FieldOrder) (policy : CollisionPolicy) (service : String)
    (contributed : String × NameSet) : Assigns holder? service (ExtensionClaims contributed)
      (claimExtension order policy service · contributed) := by
  obtain ⟨type, fields⟩ := contributed
  have hfields := (Assigns.foldlM (fun field => ClaimTable.assigns_claim policy service type field)
    (order.list type fields)).within part_contributors
  exact hfields.congr (extensionClaims_iff order type fields)

theorem assigns_addService (order : FieldOrder) (policy : CollisionPolicy) (service : Service) :
    Assigns holder? service.name service.Claims (addService order policy · service) := by
  have htypes := Assigns.foldlM (assigns_claimType order policy service.name)
    service.shape.declared.entries
  have hextensions := Assigns.foldlM (assigns_claimExtension order policy service.name)
    service.shape.contributed.entries
  have hkeys : Assigns holder? service.name (fun _ => False) (fun index =>
      (.ok (service.shape.keys.entries.foldl addKeys index) : Except OwnershipError Ownership)) :=
    .of_unchanged (holder?_foldl_addKeys service.shape.keys.entries)
  exact (htypes.bind (hextensions.bind hkeys)).congr (claims_iff service)

variable {services : List Service} {index : Ownership}

/-- A claim is held by the last service that makes it, and by nobody if there is none. -/
theorem holder?_ofServices (h : ofServices policy services = .ok index) (claim : Claim) :
    (∃ before service after, services = before ++ service :: after ∧ service.Claims claim ∧
      (∀ other ∈ after, ¬ other.Claims claim) ∧ index.holder? claim = some service.name) ∨
    (∀ service ∈ services, ¬ service.Claims claim) ∧ index.holder? claim = none := by
  rw [← holder?_initial claim]
  exact foldlM_assigns (assigns_addService .increasing policy) claim services h

theorem exists_of_holder?_eq_some (h : ofServices policy services = .ok index) {claim : Claim}
    {name : String} (hholder : index.holder? claim = some name) :
    ∃ service ∈ services, service.Claims claim ∧ service.name = name := by
  rcases holder?_ofServices h claim with ⟨before, service, after, rfl, hclaims, _, hname⟩ | ⟨_, hnone⟩
  · exact ⟨service, by simp, hclaims, Option.some.inj (hname.symm.trans hholder)⟩
  · cases hnone.symm.trans hholder

theorem holder?_eq_none_iff (h : ofServices policy services = .ok index) (claim : Claim) :
    index.holder? claim = none ↔ ∀ service ∈ services, ¬ service.Claims claim := by
  rcases holder?_ofServices h claim with ⟨before, service, after, rfl, hclaims, _, hname⟩ | ⟨hnone, hholder⟩
  · constructor
    · intro hcontra
      cases hname.symm.trans hcontra
    · intro hall
      exact absurd hclaims (hall service (by simp))
  · exact ⟨fun _ => hnone, fun _ => hholder⟩

end Ownership

end Supergraph
