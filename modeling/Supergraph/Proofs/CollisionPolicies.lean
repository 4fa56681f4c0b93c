import Supergraph.Proofs.Gateway
import Supergraph.Proofs.Holders

/-!
The two policies on collisions. Both come to the same ownership wherever `failFast` comes to one at all,
and where it does not, it names two services that collide.

1. `ofServices_lastWins`: under `lastWins` there is always an ownership, and `LastWord` says which.
2. `ofServices_failFast_imp`: what `failFast` accepts, `lastWins` accepts with the same result.
3. `refuses_addService` says what a service that is not accepted collides with, and
   `exists_collision` which two services an error names.
4. `policies_exact` puts these together.
-/

namespace Supergraph

/-! ## One claim -/

/-- The error that two services get for one claim. -/
def Claim.conflict : Claim → String → String → OwnershipError
  | .type name => .conflict name
  | .rootField root field => .fieldConflict root field
  | .contribution extended field => .fieldConflict extended field

instance (service : Service) : (claim : Claim) → Decidable (service.Claims claim)
  | .type _ => inferInstanceAs (Decidable (_ ∧ _))
  | .rootField _ _ => inferInstanceAs (Decidable (_ ∧ _))
  | .contribution _ _ => inferInstanceAs (Decidable (_ = _))

namespace ClaimTable

theorem claim_lastWins (service type : String) (table : ClaimTable) (field : String) :
    ∃ claimed, claim .lastWins service type table field = .ok claimed := ⟨_, rfl⟩

theorem claim_failFast_imp {service type field : String} {table claimed : ClaimTable}
    (h : claim .failFast service type table field = .ok claimed) :
    claim .lastWins service type table field = .ok claimed := by
  rw [claim_eq_ok h]
  rfl

theorem refuses_claim (service type field : String) :
    Refuses holder? service (fun key => (type, field) = key)
      (fun key first second => .fieldConflict key.1 key.2 first second)
      (claim .failFast service type · field) := by
  intro table error h
  simp only [claim, find?_getD] at h
  cases hfind : table.claimant? type field with
  | none => simp [hfind] at h
  | some first =>
    by_cases hfirst : first = service
    · simp [hfind, hfirst] at h
    · simp only [hfind, hfirst, if_false, Except.error.injEq] at h
      exact ⟨(type, field), first, rfl, hfind, hfirst, h.symm⟩

end ClaimTable

namespace Ownership

variable {order : FieldOrder} {index next : Ownership} {service : String}

/-! ## What `lastWins` accepts -/

theorem claimType_lastWins (order : FieldOrder) (service : String) (index : Ownership) (declared : String × NameSet) :
    ∃ next, claimType order .lastWins service index declared = .ok next := by
  obtain ⟨type, fields⟩ := declared
  rw [claimType]
  dsimp only
  split
  · obtain ⟨rootFields, hfields⟩ := Outcome.foldlM_isOk (ClaimTable.claim_lastWins service type)
      (order.list type fields) index.rootFields
    exact ⟨_, Outcome.bind_eq_ok.mpr ⟨rootFields, hfields, rfl⟩⟩
  · exact ⟨_, rfl⟩

theorem claimExtension_lastWins (order : FieldOrder) (service : String) (index : Ownership) (contributed : String × NameSet) :
    ∃ next, claimExtension order .lastWins service index contributed = .ok next := by
  obtain ⟨contributors, hfields⟩ := Outcome.foldlM_isOk (ClaimTable.claim_lastWins service contributed.1)
    (order.list contributed.1 contributed.2) index.contributors
  exact ⟨_, Outcome.bind_eq_ok.mpr ⟨contributors, hfields, rfl⟩⟩

theorem addService_lastWins (order : FieldOrder) (index : Ownership) (service : Service) :
    ∃ next, addService order .lastWins index service = .ok next := by
  obtain ⟨typed, htyped⟩ := Outcome.foldlM_isOk (claimType_lastWins order service.name)
    service.shape.declared.entries index
  obtain ⟨extended, hextended⟩ := Outcome.foldlM_isOk (claimExtension_lastWins order service.name)
    service.shape.contributed.entries typed
  exact ⟨_, Outcome.bind_eq_ok.mpr ⟨typed, htyped, Outcome.bind_eq_ok.mpr ⟨extended, hextended, rfl⟩⟩⟩

theorem ofServices_lastWins (services : List Service) :
    ∃ index, ofServices .lastWins services = .ok index :=
  Outcome.foldlM_isOk (addService_lastWins .increasing) services initial

/-! ## What `failFast` accepts -/

theorem claimType_failFast_imp {declared : String × NameSet}
    (h : claimType order .failFast service index declared = .ok next) :
    claimType order .lastWins service index declared = .ok next := by
  obtain ⟨hroot, _⟩ | ⟨hroot, rfl⟩ := claimType_eq_ok h
  · simp only [claimType, hroot, if_true] at h ⊢
    obtain ⟨rootFields, hfields, hnext⟩ := Outcome.bind_eq_ok.mp h
    refine Outcome.bind_eq_ok.mpr ⟨rootFields, ?_, hnext⟩
    exact Outcome.foldlM_eq_ok_of_imp (fun _ _ _ => ClaimTable.claim_failFast_imp) _ hfields
  · simp only [claimType, hroot, Bool.false_eq_true, if_false]
    rfl

theorem claimExtension_failFast_imp {contributed : String × NameSet}
    (h : claimExtension order .failFast service index contributed = .ok next) :
    claimExtension order .lastWins service index contributed = .ok next := by
  rw [claimExtension] at h ⊢
  obtain ⟨contributors, hfields, hnext⟩ := Outcome.bind_eq_ok.mp h
  refine Outcome.bind_eq_ok.mpr ⟨contributors, ?_, hnext⟩
  exact Outcome.foldlM_eq_ok_of_imp (fun _ _ _ => ClaimTable.claim_failFast_imp) _ hfields

theorem addService_failFast_imp {service : Service} (h : addService order .failFast index service = .ok next) :
    addService order .lastWins index service = .ok next := by
  rw [addService] at h ⊢
  obtain ⟨typed, htyped, h⟩ := Outcome.bind_eq_ok.mp h
  obtain ⟨extended, hextended, hnext⟩ := Outcome.bind_eq_ok.mp h
  refine Outcome.bind_eq_ok.mpr ⟨typed, ?_, Outcome.bind_eq_ok.mpr ⟨extended, ?_, hnext⟩⟩
  · exact Outcome.foldlM_eq_ok_of_imp (fun _ _ _ => claimType_failFast_imp) _ htyped
  · exact Outcome.foldlM_eq_ok_of_imp (fun _ _ _ => claimExtension_failFast_imp) _ hextended

theorem ofServices_failFast_imp {services : List Service} (h : ofServices .failFast services = .ok index) :
    ofServices .lastWins services = .ok index :=
  Outcome.foldlM_eq_ok_of_imp (fun _ _ _ => addService_failFast_imp) services h

/-! ## What `failFast` refuses -/

theorem refuses_owner (order : FieldOrder) (service type : String) (fields : NameSet) (hroot : isRootType type = false) :
    Refuses holder? service (fun claim => .type type = claim) Claim.conflict
      (claimType order .failFast service · (type, fields)) := by
  intro index error h
  simp only [claimType, hroot, Bool.false_eq_true, if_false] at h
  split at h
  · next first _ hfind =>
    split at h
    · cases h
    · next hfirst =>
      cases h
      exact ⟨.type type, first, rfl, ownerOf?_eq_some.mpr hfind, hfirst, rfl⟩
  · cases h

theorem refuses_claimType (order : FieldOrder) (service : String) (declared : String × NameSet) :
    Refuses holder? service (TypeClaims declared) Claim.conflict
      (claimType order .failFast service · declared) := by
  obtain ⟨type, fields⟩ := declared
  cases hroot : isRootType type with
  | false => exact (refuses_owner order service type fields hroot).congr (typeClaims_iff_of_not_root hroot)
  | true =>
    have hfields := Refuses.foldlM (fun field => ClaimTable.enters_claim service type field)
      (fun field => ClaimTable.refuses_claim service type field) (order.list type fields)
    have hwithin := Refuses.within Claim.conflict part_rootFields hfields
    simp only [claimType, hroot, if_true]
    exact hwithin.congr (typeClaims_iff_of_root order hroot)

theorem refuses_claimExtension (order : FieldOrder) (service : String) (contributed : String × NameSet) :
    Refuses holder? service (ExtensionClaims contributed) Claim.conflict
      (claimExtension order .failFast service · contributed) := by
  obtain ⟨type, fields⟩ := contributed
  have hfields := Refuses.foldlM (fun field => ClaimTable.enters_claim service type field)
    (fun field => ClaimTable.refuses_claim service type field) (order.list type fields)
  have hwithin := Refuses.within Claim.conflict part_contributors hfields
  exact hwithin.congr (extensionClaims_iff order type fields)

/-- A service that is not accepted makes a claim that another service holds. -/
theorem refuses_addService (order : FieldOrder) (service : Service) :
    Refuses holder? service.name service.Claims Claim.conflict (addService order .failFast · service) := by
  have htypes := Refuses.foldlM (enters_claimType order service.name) (refuses_claimType order service.name)
    service.shape.declared.entries
  have hextensions := Refuses.foldlM (enters_claimExtension order service.name)
    (refuses_claimExtension order service.name) service.shape.contributed.entries
  have hkeys : Refuses holder? service.name (fun _ => False) Claim.conflict (fun index =>
      (.ok (service.shape.keys.entries.foldl addKeys index) : Except OwnershipError Ownership)) :=
    .of_change _
  have hrest := Refuses.bind (Enters.foldlM (enters_claimExtension order service.name)
    service.shape.contributed.entries) hextensions hkeys
  exact (Refuses.bind (Enters.foldlM (enters_claimType order service.name)
    service.shape.declared.entries) htypes hrest).congr (claims_iff service)

/-- An error names a service and one before it in the list, which both make the claim in question. In which
order the services list their fields may decide which error this is, but not that. -/
theorem exists_collision {order : Service → FieldOrder} {services : List Service} {error : OwnershipError}
    (h : ofServicesBy order .failFast services = .error error) :
    ∃ first second claim, [first, second].Sublist services ∧ first.name ≠ second.name ∧
      first.Claims claim ∧ second.Claims claim ∧ error = claim.conflict first.name second.name := by
  obtain ⟨before, second, after, rfl, claim, name, hclaims, hearlier, hne, herror⟩ :=
    foldlM_refuses (fun service => enters_addService (order service) service)
      (fun service => refuses_addService (order service) service) h
  rcases hearlier with hholds | ⟨first, hmem, hfirst, rfl⟩
  · rw [holder?_initial] at hholds
    cases hholds
  · refine ⟨first, second, claim, ?_, hne, hfirst, hclaims, herror⟩
    have hbefore : [first].Sublist before := List.singleton_sublist.mpr hmem
    exact hbefore.append (List.singleton_sublist.mpr List.mem_cons_self)

/-! ## Both policies -/

/-- The services by list order: the last one that makes a claim holds it, the root types are split, and
the keys of a type are those that the services give, each once, in the order of their first mention. -/
structure LastWord (services : List Service) (index : Ownership) : Prop where
  holder : ∀ claim, index.holder? claim =
    (services.reverse.find? fun service => service.Claims claim).map Service.name
  split : ∀ type, index.owner? type = some .split ↔ isRootType type = true
  keys : ∀ type,
    FirstMentions (services.flatMap fun service => service.shape.keys.keysOf type) (index.keysOf type)

theorem lastWord_ofServices {policy : CollisionPolicy} {services : List Service}
    (h : ofServices policy services = .ok index) : LastWord services index where
  holder := by
    intro claim
    rcases holder?_ofServices h claim with ⟨before, service, after, rfl, hclaims, hlater, hname⟩ |
      ⟨hnone, hholder⟩
    · have hafter : (after.reverse.find? fun service => service.Claims claim) = none := by
        rw [List.find?_eq_none]
        intro other hmem
        simpa using hlater other (List.mem_reverse.mp hmem)
      rw [hname, List.reverse_append, List.reverse_cons, List.find?_append, List.find?_append, hafter]
      simp [hclaims]
    · have hnobody : (services.reverse.find? fun service => service.Claims claim) = none := by
        rw [List.find?_eq_none]
        intro other hmem
        simpa using hnone other (List.mem_reverse.mp hmem)
      rw [hholder, hnobody]
      rfl
  split := owner?_eq_split_iff h
  keys := by
    intro type
    rw [keysOf_ofServices h]
    exact firstMentions_foldl_appendNew _

/-- Two services of different names make the same claim. -/
def Collides (services : List Service) : Prop :=
  ∃ first ∈ services, ∃ second ∈ services, first.name ≠ second.name ∧
    ∃ claim, first.Claims claim ∧ second.Claims claim

theorem ofServices_failFast_iff {services : List Service} :
    (∃ index, ofServices .failFast services = .ok index) ↔ ¬ Collides services := by
  rw [ofServices_isOk_iff, pairwise_concordant_iff]
  refine ⟨?_, ?_⟩
  · intro hconcordant hcollides
    obtain ⟨first, hfirst, second, hsecond, hne, claim, hclaims, hothers⟩ := hcollides
    exact hne (hconcordant first hfirst second hsecond claim hclaims hothers)
  · intro hcollides first hfirst second hsecond claim hclaims hothers
    by_contra hne
    exact hcollides ⟨first, hfirst, second, hsecond, hne, claim, hclaims, hothers⟩

/-- Under `lastWins` every claim goes to the last service that makes it. Under `failFast` the ownership is
the same, unless two services collide; then it is an error that names two such services in their order. -/
theorem policies_exact (services : List Service) :
    (∃ index, ofServices .lastWins services = .ok index ∧ LastWord services index) ∧
    ((∃ index, ofServices .failFast services = .ok index) ↔ ¬ Collides services) ∧
    (∀ index, ofServices .failFast services = .ok index → ofServices .lastWins services = .ok index) ∧
    ∀ error, ofServices .failFast services = .error error →
      ∃ first second claim, [first, second].Sublist services ∧ first.name ≠ second.name ∧
        first.Claims claim ∧ second.Claims claim ∧ error = claim.conflict first.name second.name := by
  obtain ⟨index, hindex⟩ := ofServices_lastWins services
  refine ⟨⟨index, hindex, lastWord_ofServices hindex⟩, ofServices_failFast_iff, ?_, ?_⟩
  · intro index h
    exact ofServices_failFast_imp h
  · intro error h
    exact exists_collision h

/-- The sample federation, and the same with a second service that defines users. -/
theorem policies_exact_members :
    let members : Service := { Sample.users with config := .ofAddress "members" "" }
    let services := Sample.services ++ [members]
    (∃ index, ofServices .failFast Sample.services = .ok index ∧
      ofServices .lastWins Sample.services = .ok index) ∧
    ofServices .failFast services = .error (.conflict "User" "users" "members") ∧
    (∃ first second claim, [first, second].Sublist services ∧ first.name ≠ second.name ∧
      first.Claims claim ∧ second.Claims claim ∧
        .conflict "User" "users" "members" = claim.conflict first.name second.name) ∧
    ∃ index, ofServices .lastWins services = .ok index ∧ index.ownerOf? "User" = some "members" := by
  intro members services
  have hok : (ofServices .failFast Sample.services).isOk = true := by rfl
  obtain ⟨index, hindex⟩ := Outcome.exists_of_isOk hok
  have herror : ofServices .failFast services = .error (.conflict "User" "users" "members") := by rfl
  obtain ⟨_, _, hsame, _⟩ := policies_exact Sample.services
  obtain ⟨⟨taken, htaken, hlast⟩, _, _, hcollision⟩ := policies_exact services
  have howner : taken.ownerOf? "User" = some "members" := by
    have hholder := hlast.holder (.type "User")
    rw [holder?] at hholder
    rw [hholder]
    decide +kernel
  exact ⟨⟨index, hindex, hsame index hindex⟩, herror, hcollision _ herror, taken, htaken, howner⟩

end Ownership

end Supergraph
