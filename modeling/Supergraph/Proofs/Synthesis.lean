import Supergraph.Synthesis
import Supergraph.Proofs.Pruning.Level

/-!
What a synthesized operation consists of, for each of its shapes: the selections that were pruned for
it, the fragments that these reach, and what was forwarded of the client's variables.
-/

namespace Supergraph

open GraphQL

namespace Pruner

variable {pruner : Pruner} {field : Field} {synthesized : ServiceOperation}

/-- A field without sub-selections stays as it is; those of any other field are pruned on its return
type. -/
theorem pruneField_eq_ok {type : String} {delegated : Field}
    (h : pruner.pruneField type field = .ok delegated) :
    field.selections = [] ∧ delegated = field ∨
      field.selections ≠ [] ∧ ∃ composed level, pruner.schema.field? type field.name = some composed ∧
        pruner.prune composed.returnType field.selections = .ok level ∧
        delegated = { field with selections := level } := by
  rw [pruneField] at h
  split at h
  · next hempty =>
    rw [Outcome.pure_eq_ok] at h
    exact .inl ⟨List.isEmpty_iff.mp hempty, h.symm⟩
  · next hempty =>
    obtain ⟨inner, hinner, h⟩ := Outcome.bind_eq_ok.mp h
    obtain ⟨composed, hcomposed, rfl⟩ := returnType_eq_ok.mp hinner
    obtain ⟨level, hlevel, h⟩ := Outcome.bind_eq_ok.mp h
    rw [Outcome.pure_eq_ok] at h
    exact .inr ⟨fun hnil => hempty (List.isEmpty_iff.mpr hnil), composed, level, hcomposed, hlevel,
      h.symm⟩

/-- The operation for a field of a root type selects that field alone. -/
theorem askRootField_eq_ok {kind : OperationKind}
    (h : pruner.askRootField kind field = .ok synthesized) :
    ∃ delegated fragments definitions values,
      pruner.pruneField kind.rootType field = .ok delegated ∧
      pruner.fragmentClosure [delegated.toSelection] = .ok fragments ∧
      forwardVariables pruner.client (usedVariables [delegated.toSelection] fragments) =
        .ok (definitions, values) ∧
      synthesized = ⟨⟨kind, some (kind.rootType ++ "_" ++ field.name), definitions, [],
        [delegated.toSelection]⟩, fragments, values⟩ := by
  rw [askRootField] at h
  obtain ⟨delegated, hdelegated, h⟩ := Outcome.bind_eq_ok.mp h
  obtain ⟨fragments, hfragments, h⟩ := Outcome.bind_eq_ok.mp h
  obtain ⟨⟨definitions, values⟩, hforward, h⟩ := Outcome.bind_eq_ok.mp h
  rw [Outcome.pure_eq_ok] at h
  exact ⟨delegated, fragments, definitions, values, hdelegated, hfragments, hforward, h.symm⟩

/-- The field by which the entities of representations are asked for. -/
def entitiesHead : FieldHead :=
  ⟨none, entitiesField, [(representationsVariable, .variable representationsVariable)], []⟩

/-- The operation for entities selects them by the one field that services hand out entities by. The
client's variables do not include the one that holds the representations. -/
theorem askRepresentations_eq_ok {choices : List Selection} {representations : List Json}
    (h : pruner.askRepresentations choices representations = .ok synthesized) :
    ∃ fragments definitions values,
      pruner.fragmentClosure (.bare typenameField :: choices) = .ok fragments ∧
      (usedVariables (.bare typenameField :: choices) fragments).contains representationsVariable =
        false ∧
      forwardVariables pruner.client (usedVariables (.bare typenameField :: choices) fragments) =
        .ok (definitions, values) ∧
      synthesized = ⟨⟨.query, some "EntitiesQuery", representationsDefinition :: definitions, [],
        [.field entitiesHead (.bare typenameField :: choices)]⟩, fragments,
        values.insert representationsVariable (.array representations)⟩ := by
  rw [askRepresentations] at h
  obtain ⟨fragments, hfragments, h⟩ := Outcome.bind_eq_ok.mp h
  dsimp only at h
  split at h
  · cases h
  · next hreserved =>
    obtain ⟨⟨definitions, values⟩, hforward, h⟩ := Outcome.bind_eq_ok.mp h
    rw [Outcome.pure_eq_ok] at h
    exact ⟨fragments, definitions, values, hfragments, Bool.not_eq_true _ ▸ hreserved, hforward, h.symm⟩

theorem choiceOn_eq_ok {type : String} {choice : Selection} (h : pruner.choiceOn field type = .ok choice) :
    ∃ level, pruner.prune type field.selections = .ok level ∧ choice = .inline (some type) [] level := by
  rw [choiceOn] at h
  obtain ⟨level, hlevel, h⟩ := Outcome.bind_eq_ok.mp h
  rw [Outcome.pure_eq_ok] at h
  exact ⟨level, hlevel, h.symm⟩

/-- For each type the operation for entities has an inline fragment with the field's sub-selections,
pruned on that type. -/
theorem askEntities_eq_ok {types : List String} {representations : List Json}
    (h : pruner.askEntities field types representations = .ok synthesized) :
    ∃ choices, List.Forall₂ (fun type choice => ∃ level,
        pruner.prune type field.selections = .ok level ∧ choice = .inline (some type) [] level)
        types choices ∧
      pruner.askRepresentations choices representations = .ok synthesized := by
  rw [askEntities] at h
  obtain ⟨choices, hchoices, h⟩ := Outcome.bind_eq_ok.mp h
  exact ⟨choices, (Outcome.mapM_eq_ok hchoices).imp fun _ _ => choiceOn_eq_ok, h⟩

/-- The operation for a field of one entity has one inline fragment with that field. -/
theorem askEntityField_eq_ok {parentType condition : String} {representation : Json}
    (h : pruner.askEntityField field parentType condition representation = .ok synthesized) :
    ∃ delegated, pruner.pruneField parentType field = .ok delegated ∧
      pruner.askRepresentations [.inline (some condition) [] [delegated.toSelection]]
        [representation] = .ok synthesized := by
  rw [askEntityField] at h
  exact Outcome.bind_eq_ok.mp h

end Pruner

end Supergraph
