import Supergraph.Proofs.Delivery

/-!
What becomes of the errors in a response.

A response with errors should give a value, or fail with those errors and no others; without errors it may be
malformed. `Classified` says so of the result that one response is made into.

1. `classified_valueAt`: reading a value at a path classifies every response.
2. `classified_reassembled_iff`: a list of entities does not. Where the entities are there in another shape
   than asked for, the response counts as malformed, whatever errors it has.
3. `upstream_errors_iff` puts the kinds of delegation together, and `errors_lost` is the case that is left.
-/

namespace Supergraph

open GraphQL

/-! ## Classification -/

/-- The result is classified by the errors of the response that it is made of: where there are errors, it is a
value or an application error that carries exactly them; an application error comes of a response with errors
only, and a malformed response is one without. -/
structure Classified (service : String) (response : Response) (result : Except ResolutionError Json) :
    Prop where
  kept : response.errors ≠ [] →
    (∃ value, result = .ok value) ∨ result = .error (.application service response.errors)
  application : ∀ name errors, result = .error (.application name errors) → response.errors ≠ []
  malformed : ∀ name path, result = .error (.malformedResponse name path) → response.errors = []

namespace Classified

variable {service : String} {response : Response}

theorem value (value : Json) : Classified service response (.ok value) where
  kept _ := .inl ⟨value, rfl⟩
  application _ _ h := by cases h
  malformed _ _ h := by cases h

theorem of_errors (h : response.errors ≠ []) :
    Classified service response (.error (.application service response.errors)) where
  kept _ := .inr rfl
  application _ _ _ := h
  malformed _ _ herror := by cases herror

theorem malformed_iff (name path : String) :
    Classified service response (.error (.malformedResponse name path)) ↔ response.errors = [] := by
  constructor
  · exact fun h => h.malformed name path rfl
  · intro hnone
    refine ⟨fun hsome => absurd hnone hsome, fun _ _ herror => ?_, fun _ _ _ => hnone⟩
    cases herror

end Classified

variable {service : String} {response : Response}

/-- Reading a value looks at the errors before it finds the response malformed. -/
theorem classified_valueAt (service : String) (path : List String) (response : Response) :
    Classified service response (valueAt service path response) := by
  unfold valueAt
  split
  · split
    · exact .value _
    · split
      · exact .value _
      · next herrors => exact .of_errors (by simpa using herrors)
  · split
    · next herrors => exact (Classified.malformed_iff _ _).mpr (by simpa using herrors)
    · next herrors => exact .of_errors (by simpa using herrors)

/-- What is read is what stands there, and `null` is read only where there are no errors. -/
theorem valueAt_eq_ok_iff {path : List String} {value : Json} :
    valueAt service path response = .ok value ↔
      response.dataAt? path = some value ∧ (value = .null → response.errors = []) := by
  unfold valueAt
  split
  · next found hfound =>
    rw [hfound, Option.some.injEq]
    split
    · next hpresent =>
      rw [Except.ok.injEq]
      refine ⟨?_, And.left⟩
      rintro rfl
      refine ⟨rfl, ?_⟩
      rintro rfl
      cases hpresent
    · next hmissing =>
      have hnull : found = .null := Json.isNull_iff.mp (by simpa using hmissing)
      subst hnull
      split
      · next herrors =>
        rw [Except.ok.injEq]
        exact ⟨fun h => ⟨h, fun _ => List.isEmpty_iff.mp herrors⟩, And.left⟩
      · next herrors =>
        refine iff_of_false (by simp) ?_
        rintro ⟨rfl, hnone⟩
        exact herrors (List.isEmpty_iff.mpr (hnone rfl))
  · next hnone => split <;> simp [hnone]

/-! ## Lists of entities -/

/-- The response has something at `_entities`, but it is no list of as many items as asked for. -/
def Response.Misshapen (response : Response) (count : Nat) : Prop :=
  ∃ value, response.dataAt? [entitiesField] = some value ∧ value.isNull = false ∧
    ∀ items, value = .array items → items.length ≠ count

/-- Entities in another shape than asked for are malformed, with errors or without. -/
theorem entities_of_misshapen {count : Nat} (h : response.Misshapen count) :
    entities service count response = .error (.malformedResponse service entitiesField) := by
  obtain ⟨value, hvalue, hnull, hlength⟩ := h
  have hread : valueAt service [entitiesField] response = .ok value := by
    simp [valueAt, hvalue, hnull]
  rw [entities, hread]
  cases value with
  | array items => exact if_neg (hlength items rfl)
  | _ => rfl

/-- Other entities are read as the list that was asked for, or they are missing and fail as any missing value
does. -/
theorem entities_of_not_misshapen (service : String) {count : Nat} (h : ¬ response.Misshapen count) :
    (∃ items, entities service count response = .ok items) ∨
      ∃ error, entities service count response = .error error ∧
        Classified service response (.error error) := by
  have hclassified := classified_valueAt service [entitiesField] response
  rw [entities]
  cases hread : valueAt service [entitiesField] response with
  | error error =>
    rw [hread] at hclassified
    exact .inr ⟨error, rfl, hclassified⟩
  | ok value =>
    obtain ⟨hfound, hnull⟩ := valueAt_eq_ok_iff.mp hread
    by_cases hmissing : value = .null
    · subst hmissing
      exact .inr ⟨.malformedResponse service entitiesField, rfl,
        (Classified.malformed_iff _ _).mpr (hnull rfl)⟩
    · have hpresent : value.isNull = false := by
        simpa using mt Json.isNull_iff.mp hmissing
      have hitems : ∃ items, value = .array items ∧ items.length = count := by
        by_contra hnone
        exact h ⟨value, hfound, hpresent, fun items hitems hlength => hnone ⟨items, hitems, hlength⟩⟩
      obtain ⟨items, rfl, hlength⟩ := hitems
      exact .inl ⟨items, if_pos hlength⟩

theorem entities_eq_ok_iff {count : Nat} {found : List Json} :
    entities service count response = .ok found ↔
      response.dataAt? [entitiesField] = some (.array found) ∧ found.length = count := by
  rw [entities, Outcome.bind_eq_ok]
  simp only [valueAt_eq_ok_iff]
  constructor
  · rintro ⟨value, ⟨hvalue, _⟩, h⟩
    cases value with
    | array items =>
      dsimp only at h
      split at h
      · next hlength =>
        cases h
        exact ⟨hvalue, hlength⟩
      · cases h
    | _ => cases h
  · rintro ⟨hfound, hlength⟩
    refine ⟨.array found, ⟨hfound, fun h => by cases h⟩, ?_⟩
    exact if_pos hlength

/-- A list is put together of a classified response, unless its entities are misshapen and it has errors. -/
theorem classified_reassembled_iff (items : List Json) (count : Nat) :
    Classified service response (do
      let found ← entities service count response
      return .array (reassemble items found)) ↔
    (response.errors ≠ [] → ¬ response.Misshapen count) := by
  by_cases hshape : response.Misshapen count
  · rw [entities_of_misshapen hshape]
    refine (Classified.malformed_iff _ _).trans ?_
    simp [hshape]
  · refine iff_of_true ?_ fun _ => hshape
    rcases entities_of_not_misshapen service hshape with ⟨found, hfound⟩ | ⟨error, herror, h⟩
    · rw [hfound]
      exact .value _
    · rw [herror]
      exact h

/-! ## Resolution -/

/-- Every response to the request, if one is sent, is classified if and only if it meets the condition. -/
def Resolution.ClassifiesIff (condition : Response → Prop) (resolution : Resolution) : Prop :=
  ∀ target request finish, resolution = .request target request finish →
    ∀ response, Classified target response (finish (.ok response)) ↔ condition response

namespace Resolution.ClassifiesIff

variable {condition : Response → Prop}

theorem settled (result : Except ResolutionError Json) : ClassifiesIff condition (.settled result) := by
  intro target request finish h
  cases h

theorem ofOperation {make : Response → Except ResolutionError Json}
    (hmake : ∀ response, Classified service response (make response) ↔ condition response)
    (synthesized : Except SynthesisError ServiceOperation) :
    ClassifiesIff condition (.ofOperation service synthesized make) := by
  cases synthesized with
  | error error => exact settled _
  | ok operation =>
    intro target request finish h
    cases h
    exact hmake

theorem after {α : Type} {value : Except ResolutionError α} {next : α → Resolution}
    (hnext : ∀ found, value = .ok found → ClassifiesIff condition (next found)) :
    ClassifiesIff condition (.after value next) := by
  cases value with
  | error error => exact settled _
  | ok found => exact hnext found rfl

theorem ofValue (path : List String) (synthesized : Except SynthesisError ServiceOperation)
    (hcondition : ∀ response, condition response) :
    ClassifiesIff condition (.ofOperation service synthesized (valueAt service path)) :=
  ofOperation (fun response => iff_of_true (classified_valueAt service path response) (hcondition response))
    synthesized

end Resolution.ClassifiesIff

namespace Topology

variable {topology : Topology} {site : FieldSite} {parent : Json}

/-- The field asks for entities in one list: it is a reference, and its parent has a list at its place of
which so many items are not null. -/
def AsksForList (topology : Topology) (site : FieldSite) (parent : Json) (count : Nat) : Prop :=
  (topology.schema.delegation? site.parentType site.fieldName).map Delegation.kind =
    some .entityReference ∧
  ∃ items, parent.member? site.responseKey = some (.array items) ∧
    (items.filter fun item => !item.isNull).length = count

theorem classifiesIff_resolveReferences (service : Service) (site : FieldSite) (returnType : String)
    (items : List Json) :
    (topology.resolveReferences service site returnType items).ClassifiesIff fun response =>
      response.errors ≠ [] → ¬ response.Misshapen (items.filter fun item => !item.isNull).length := by
  apply Resolution.ClassifiesIff.after
  intro representations hrepresentations
  split
  · exact .settled _
  · -- Each item that is not null has one representation.
    have hlength := (Outcome.mapM_eq_ok hrepresentations).length_eq
    refine .ofOperation (fun response => ?_) _
    rw [classified_reassembled_iff, hlength]

theorem classifiesIff_resolveReference (service : Service) (site : FieldSite) (returnType : String)
    (stub : Json) {condition : Response → Prop} (hcondition : ∀ response, condition response) :
    (topology.resolveReference service site returnType stub).ClassifiesIff condition :=
  .after fun _ _ => .ofValue _ _ hcondition

theorem classifiesIff_resolveContributed (service : Service) (site : FieldSite) (parent : Json)
    {condition : Response → Prop} (hcondition : ∀ response, condition response) :
    (topology.resolveContributed service site parent).ClassifiesIff condition :=
  .after fun _ _ => .ofValue _ _ hcondition

theorem classifiesIff_resolveEntity (service : Service)
    (hkind : (topology.schema.delegation? site.parentType site.fieldName).map Delegation.kind =
      some .entityReference) :
    (topology.resolveEntity service site parent).ClassifiesIff fun response =>
      response.errors ≠ [] → ∀ count, topology.AsksForList site parent count →
        ¬ response.Misshapen count := by
  rw [resolveEntity]
  cases hmember : parent.member? site.responseKey with
  | none => exact .settled _
  | some stub =>
    have hsingle : (∀ items, stub ≠ .array items) → ∀ response : Response, response.errors ≠ [] →
        ∀ count, topology.AsksForList site parent count → ¬ response.Misshapen count := by
      rintro hstub response _ count ⟨_, items, hitems, _⟩
      exact absurd (Option.some.inj (hmember.symm.trans hitems)) (hstub items)
    rw [Option.getD_some]
    cases stub with
    | null => exact .settled _
    | array items =>
      intro target request finish hrequest response
      rw [classifiesIff_resolveReferences service site _ items target request finish hrequest]
      refine forall_congr' fun _ => ⟨?_, ?_⟩
      · rintro hshape count ⟨_, others, hothers, rfl⟩
        cases hmember.symm.trans hothers
        exact hshape
      · exact fun hall => hall _ ⟨hkind, items, hmember, rfl⟩
    | _ => exact classifiesIff_resolveReference service site _ _ (hsingle fun _ h => by cases h)

theorem not_asksForList {delegation : Delegation}
    (hdelegated : topology.schema.delegation? site.parentType site.fieldName = some delegation)
    (hkind : delegation.kind ≠ .entityReference) (count : Nat) :
    ¬ topology.AsksForList site parent count := by
  rintro ⟨hreference, _⟩
  rw [hdelegated, Option.map_some] at hreference
  exact hkind (Option.some.inj hreference)

theorem classifiesIff_resolve (topology : Topology) (site : FieldSite) (parent : Json) :
    (topology.resolve site parent).ClassifiesIff fun response =>
      response.errors ≠ [] → ∀ count, topology.AsksForList site parent count →
        ¬ response.Misshapen count := by
  cases hdelegated : topology.schema.delegation? site.parentType site.fieldName with
  | none =>
    rw [resolve_of_undelegated hdelegated]
    exact .settled _
  | some delegation =>
    cases hservice : topology.registry.find? delegation.service with
    | none =>
      rw [resolve_of_unknown hdelegated hservice]
      exact .settled _
    | some service =>
      have hsingle : delegation.kind ≠ .entityReference → ∀ response : Response, response.errors ≠ [] →
          ∀ count, topology.AsksForList site parent count → ¬ response.Misshapen count :=
        fun hkind _ _ count hasks => absurd hasks (not_asksForList hdelegated hkind count)
      obtain ⟨kind, target⟩ := delegation
      simp only [resolve, hdelegated, hservice]
      cases kind with
      | rootDelegate => exact .ofValue _ _ (hsingle (by simp))
      | entityReference => exact classifiesIff_resolveEntity service (by rw [hdelegated, Option.map_some])
      | fieldResolver => exact classifiesIff_resolveContributed service site parent (hsingle (by simp))

theorem not_ofResponse_of_settled {error : ResolutionError}
    (h : topology.resolve site parent = .settled (.error error)) (service : String) :
    ¬ error.OfResponse service := by
  intro hresponse
  cases hdelegated : topology.schema.delegation? site.parentType site.fieldName with
  | none => cases (resolve_of_undelegated hdelegated).symm.trans h
  | some delegation =>
    cases hservice : topology.registry.find? delegation.service with
    | none =>
      cases (resolve_of_unknown hdelegated hservice).symm.trans h
      cases hresponse
    | some found =>
      have hby : Resolution.By delegation.service (topology.resolve site parent) :=
        by_resolve hdelegated hservice
      rw [h] at hby
      cases hby <;> cases hresponse

/-- Upstream errors are kept, whatever the kind of delegation. A field that settles, and a request that fails,
give neither an application error nor a malformed response; and a response is classified by its errors if and
only if it is not one with errors to a list of references, and with entities in another shape than asked for. -/
theorem upstream_errors_iff (topology : Topology) (site : FieldSite) (parent : Json) :
    (∀ error, topology.resolve site parent = .settled (.error error) →
      ∀ service, ¬ error.OfResponse service) ∧
    ∀ target request finish, topology.resolve site parent = .request target request finish →
      (∀ failure error, finish (.error failure) = .error error → ∀ service, ¬ error.OfResponse service) ∧
      ∀ response, Classified target response (finish (.ok response)) ↔
        (response.errors ≠ [] → ∀ count, topology.AsksForList site parent count →
          ¬ response.Misshapen count) := by
  refine ⟨fun error herror => not_ofResponse_of_settled herror, ?_⟩
  intro target request finish hrequest
  refine ⟨?_, topology.classifiesIff_resolve site parent target request finish hrequest⟩
  obtain ⟨_, _, _, hanswers⟩ := exists_delegation_of_request hrequest
  intro failure error herror service hresponse
  cases (hanswers.failed failure).symm.trans herror
  cases hresponse

end Topology

/-! ## A list of authors -/

/-- A parent with a list of authors, one of which is known. -/
def coauthored : Json := .object [("author", .array [.object [("id", .string "1")], .null])]

def failedWith (entities : Json) : Response :=
  ⟨some (.object [("_entities", entities)]), [⟨"boom", none, none⟩]⟩

/-- The author of a review is a reference, and the response to a list of them is classified where it has no
entities. -/
theorem errors_kept :
    Sample.gateway.topology.AsksForList (siteBelow "Review" "author") coauthored 1 ∧
    ∃ request finish, Sample.gateway.topology.resolve (siteBelow "Review" "author") coauthored =
      .request "users" request finish ∧
    Classified "users" (failedWith .null) (finish (.ok (failedWith .null))) := by
  have hasks : Sample.gateway.topology.AsksForList (siteBelow "Review" "author") coauthored 1 :=
    ⟨by decide +kernel, _, rfl, rfl⟩
  have hsent : ∃ request finish, Sample.gateway.topology.resolve (siteBelow "Review" "author") coauthored =
      .request "users" request finish := ⟨_, _, rfl⟩
  obtain ⟨request, finish, hsent⟩ := hsent
  have hclassified := ((Sample.gateway.topology.upstream_errors_iff (siteBelow "Review" "author")
    coauthored).2 "users" request finish hsent).2 (failedWith .null)
  refine ⟨hasks, request, finish, hsent, hclassified.mpr ?_⟩
  rintro _ count _ ⟨value, hvalue, hpresent, _⟩
  cases hvalue
  cases hpresent

/-- The response has no entity for the one that was asked for, and its error is lost. -/
theorem errors_lost : ∃ request finish,
    Sample.gateway.topology.resolve (siteBelow "Review" "author") coauthored =
      .request "users" request finish ∧
    finish (.ok (failedWith (.array []))) = .error (.malformedResponse "users" "_entities") ∧
    (failedWith (.array [])).errors ≠ [] ∧
    ¬ Classified "users" (failedWith (.array [])) (finish (.ok (failedWith (.array [])))) := by
  have hsent : ∃ request finish, Sample.gateway.topology.resolve (siteBelow "Review" "author") coauthored =
      .request "users" request finish ∧
      finish (.ok (failedWith (.array []))) = .error (.malformedResponse "users" "_entities") :=
    ⟨_, _, rfl, rfl⟩
  obtain ⟨request, finish, hsent, hfinish⟩ := hsent
  refine ⟨request, finish, hsent, hfinish, List.cons_ne_nil _ _, ?_⟩
  rw [hfinish, Classified.malformed_iff]
  exact List.cons_ne_nil _ _

end Supergraph
