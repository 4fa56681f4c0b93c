import Supergraph.Proofs.Gateway
import Supergraph.Proofs.Synthesis

/-!
Variables of synthesized operations.

`Document.Mentions` says where a document may refer to a variable, `mem_usedVariables` that the list of
variables that synthesis collects has exactly these. From it and what `forwardVariables` keeps of the
client's declarations and values, every operation declares the variables that its document mentions and
no others (`variables_exact`).
-/

namespace Supergraph

namespace GraphQL

/-! ## Mentions -/

/-- A value refers to a variable: it is one, or an item or member of it refers to one. -/
inductive Value.Mentions (name : String) : Value → Prop
  | variable : Mentions name (.variable name)
  | item {items : List Value} {item : Value} : item ∈ items → Mentions name item →
      Mentions name (.list items)
  | member {fields : List (String × Value)} {key : String} {value : Value} : (key, value) ∈ fields →
      Mentions name value → Mentions name (.object fields)

def Arguments.Mentions (name : String) (arguments : Arguments) : Prop :=
  ∃ key value, (key, value) ∈ arguments ∧ Value.Mentions name value

def Directive.Mentions (name : String) (directives : List Directive) : Prop :=
  ∃ directive ∈ directives, Arguments.Mentions name directive.arguments

/-- A selection refers to a variable: at itself, or somewhere below it. -/
inductive Selection.Mentions (name : String) : Selection → Prop
  | argument {head : FieldHead} {selections : List Selection} :
      Arguments.Mentions name head.arguments → Mentions name (.field head selections)
  | field {head : FieldHead} {selections : List Selection} :
      Directive.Mentions name head.directives → Mentions name (.field head selections)
  | nested {head : FieldHead} {selections : List Selection} {selection : Selection} :
      selection ∈ selections → Mentions name selection → Mentions name (.field head selections)
  | spread {fragment : String} {directives : List Directive} : Directive.Mentions name directives →
      Mentions name (.spread fragment directives)
  | inline {condition : Option String} {directives : List Directive} {selections : List Selection} :
      Directive.Mentions name directives → Mentions name (.inline condition directives selections)
  | inside {condition : Option String} {directives : List Directive} {selections : List Selection}
      {selection : Selection} : selection ∈ selections → Mentions name selection →
      Mentions name (.inline condition directives selections)

/-- A definition refers to a variable, in its directives or in its selections. -/
inductive Definition.Mentions (name : String) : Definition → Prop
  | shorthand {selections : List Selection} {selection : Selection} : selection ∈ selections →
      selection.Mentions name → Mentions name (.shorthand selections)
  | operation {operation : Operation} {selection : Selection} : selection ∈ operation.selections →
      selection.Mentions name → Mentions name (.operation operation)
  | operationDirective {operation : Operation} : Directive.Mentions name operation.directives →
      Mentions name (.operation operation)
  | fragment {fragment : Fragment} {selection : Selection} : selection ∈ fragment.selections →
      selection.Mentions name → Mentions name (.fragment fragment)
  | fragmentDirective {fragment : Fragment} : Directive.Mentions name fragment.directives →
      Mentions name (.fragment fragment)

def Document.Mentions (name : String) (document : Document) : Prop :=
  ∃ definition ∈ document, Definition.Mentions name definition

variable {name : String}

mutual

theorem Value.mem_variableNames : ∀ value : Value, name ∈ value.variableNames ↔ value.Mentions name
  | .variable other => by
    rw [Value.variableNames, List.mem_singleton]
    refine ⟨?_, ?_⟩
    · intro heq
      subst heq
      exact .variable
    · intro h
      cases h
      rfl
  | .list items => by
    rw [Value.variableNames, Value.mem_itemVariables items]
    refine ⟨?_, ?_⟩
    · intro h
      obtain ⟨item, hmem, h⟩ := h
      exact .item hmem h
    · intro h
      cases h with
      | item hmem h => exact ⟨_, hmem, h⟩
  | .object fields => by
    rw [Value.variableNames, Value.mem_fieldVariables fields]
    refine ⟨?_, ?_⟩
    · intro h
      obtain ⟨key, value, hmem, h⟩ := h
      exact .member hmem h
    · intro h
      cases h with
      | member hmem h => exact ⟨_, _, hmem, h⟩
  | .int _ | .float _ | .string _ | .boolean _ | .null | .enum _ => by
    refine iff_of_false (by simp [Value.variableNames]) ?_
    intro h
    cases h

theorem Value.mem_itemVariables : ∀ items : List Value,
    name ∈ Value.itemVariables items ↔ ∃ item ∈ items, item.Mentions name
  | [] => by simp [Value.itemVariables]
  | item :: rest => by
    rw [Value.itemVariables, List.mem_append, Value.mem_variableNames item,
      Value.mem_itemVariables rest, List.exists_mem_cons_iff]

theorem Value.mem_fieldVariables : ∀ fields : List (String × Value),
    name ∈ Value.fieldVariables fields ↔ ∃ key value, (key, value) ∈ fields ∧ value.Mentions name
  | [] => by simp [Value.fieldVariables]
  | (key, value) :: rest => by
    rw [Value.fieldVariables, List.mem_append, Value.mem_variableNames value,
      Value.mem_fieldVariables rest]
    refine ⟨?_, ?_⟩
    · intro h
      rcases h with h | ⟨key', value', hmem, h⟩
      · exact ⟨key, value, List.mem_cons_self, h⟩
      · exact ⟨key', value', List.mem_cons_of_mem _ hmem, h⟩
    · intro h
      obtain ⟨key', value', hmem, h⟩ := h
      rcases List.mem_cons.mp hmem with he | hmem
      · cases he
        exact .inl h
      · exact .inr ⟨key', value', hmem, h⟩

end

theorem Arguments.mem_variableNames {arguments : Arguments} :
    name ∈ arguments.variableNames ↔ Arguments.Mentions name arguments := by
  rw [Arguments.variableNames, List.mem_flatMap]
  refine ⟨?_, ?_⟩
  · intro h
    obtain ⟨⟨key, value⟩, hmem, h⟩ := h
    exact ⟨key, value, hmem, (Value.mem_variableNames value).mp h⟩
  · intro h
    obtain ⟨key, value, hmem, h⟩ := h
    exact ⟨(key, value), hmem, (Value.mem_variableNames value).mpr h⟩

theorem Directive.mem_variablesOf {directives : List Directive} :
    name ∈ Directive.variablesOf directives ↔ Directive.Mentions name directives := by
  rw [Directive.variablesOf, List.mem_flatMap]
  simp only [Arguments.mem_variableNames, Directive.Mentions]

theorem FieldHead.mem_variableNames {head : FieldHead} :
    name ∈ head.variableNames ↔
      Arguments.Mentions name head.arguments ∨ Directive.Mentions name head.directives := by
  rw [FieldHead.variableNames, List.mem_append, Arguments.mem_variableNames,
    Directive.mem_variablesOf]

mutual

theorem Selection.mem_variableNames : ∀ selection : Selection,
    name ∈ selection.variableNames ↔ selection.Mentions name
  | .field head selections => by
    rw [Selection.variableNames, List.mem_append, FieldHead.mem_variableNames,
      Selection.mem_variablesOf selections]
    refine ⟨?_, ?_⟩
    · intro h
      rcases h with (h | h) | ⟨selection, hmem, h⟩
      · exact .argument h
      · exact .field h
      · exact .nested hmem h
    · intro h
      cases h with
      | argument h => exact .inl (.inl h)
      | field h => exact .inl (.inr h)
      | nested hmem h => exact .inr ⟨_, hmem, h⟩
  | .spread fragment directives => by
    rw [Selection.variableNames, Directive.mem_variablesOf]
    refine ⟨?_, ?_⟩
    · exact .spread
    · intro h
      cases h with
      | spread h => exact h
  | .inline condition directives selections => by
    rw [Selection.variableNames, List.mem_append, Directive.mem_variablesOf,
      Selection.mem_variablesOf selections]
    refine ⟨?_, ?_⟩
    · intro h
      rcases h with h | ⟨selection, hmem, h⟩
      · exact .inline h
      · exact .inside hmem h
    · intro h
      cases h with
      | inline h => exact .inl h
      | inside hmem h => exact .inr ⟨_, hmem, h⟩

theorem Selection.mem_variablesOf : ∀ selections : List Selection,
    name ∈ Selection.variablesOf selections ↔ ∃ selection ∈ selections, selection.Mentions name
  | [] => by simp [Selection.variablesOf]
  | selection :: rest => by
    rw [Selection.variablesOf, List.mem_append, Selection.mem_variableNames selection,
      Selection.mem_variablesOf rest, List.exists_mem_cons_iff]

end

end GraphQL

open GraphQL

/-- The variables that synthesis collects are those that the selections and fragments refer to. -/
theorem mem_usedVariables {selections : List Selection} {fragments : List Fragment} {name : String} :
    (usedVariables selections fragments).contains name = true ↔
      (∃ selection ∈ selections, selection.Mentions name) ∨
        ∃ fragment ∈ fragments, Definition.Mentions name (.fragment fragment) := by
  rw [usedVariables, NameSet.contains_ofList, List.mem_append, Selection.mem_variablesOf,
    List.mem_flatMap]
  apply or_congr_right
  apply exists_congr
  intro fragment
  apply and_congr_right
  intro _
  rw [List.mem_append, Directive.mem_variablesOf, Selection.mem_variablesOf]
  refine ⟨?_, ?_⟩
  · intro h
    rcases h with h | ⟨selection, hmem, h⟩
    · exact .fragmentDirective h
    · exact .fragment hmem h
  · intro h
    cases h with
    | fragment hmem h => exact .inr ⟨_, hmem, h⟩
    | fragmentDirective h => exact .inl h

theorem ServiceOperation.mentions_document_iff {synthesized : ServiceOperation} {name : String}
    (hdirectives : synthesized.operation.directives = []) :
    synthesized.document.Mentions name ↔
      (∃ selection ∈ synthesized.operation.selections, selection.Mentions name) ∨
        ∃ fragment ∈ synthesized.fragments, Definition.Mentions name (.fragment fragment) := by
  rw [document, Document.Mentions, List.exists_mem_cons_iff]
  refine or_congr ?_ ?_
  · refine ⟨?_, ?_⟩
    · intro h
      cases h with
      | operation hmem h => exact ⟨_, hmem, h⟩
      | operationDirective h =>
        -- A synthesized operation has no directives of its own.
        rw [hdirectives] at h
        obtain ⟨_, hmem, _⟩ := h
        cases hmem
    · intro h
      obtain ⟨selection, hmem, h⟩ := h
      exact .operation hmem h
  · refine ⟨?_, ?_⟩
    · intro h
      obtain ⟨definition, hmem, h⟩ := h
      obtain ⟨fragment, hfragment, rfl⟩ := List.mem_map.mp hmem
      exact ⟨fragment, hfragment, h⟩
    · intro h
      obtain ⟨fragment, hmem, h⟩ := h
      exact ⟨_, List.mem_map_of_mem hmem, h⟩

/-! ## Forwarding -/

/-- What is forwarded of the client's variables: the declarations of those that are used, in their
order, and the values that the client gives for them. -/
structure Forwarded (client : ClientOperation) (used : String → Prop)
    (definitions : List VariableDefinition) (values : NameMap Json) : Prop where
  declared : ∀ name, name ∈ definitions.map VariableDefinition.name ↔ used name
  ordered : definitions.Sublist client.operation.variableDefinitions
  values : ∀ name value,
    values.find? name = some value ↔ used name ∧ client.values.find? name = some value

theorem mem_names_of_definition? {client : ClientOperation} {name : String}
    (h : (client.definition? name).isNone = false) :
    name ∈ client.operation.variableDefinitions.map VariableDefinition.name := by
  cases hfind : client.definition? name with
  | none => simp [hfind] at h
  | some definition =>
    have hname := List.find?_some hfind
    rw [← of_decide_eq_true hname]
    exact List.mem_map_of_mem (List.mem_of_find?_eq_some hfind)

/-- Forwarding succeeds only if the client declares whatever is used, and then leaves out nothing. -/
theorem forwardVariables_eq_ok {client : ClientOperation} {used : NameSet}
    {definitions : List VariableDefinition} {values : NameMap Json}
    (h : forwardVariables client used = .ok (definitions, values)) :
    Forwarded client (fun name => used.contains name = true) definitions values := by
  rw [forwardVariables] at h
  split at h
  · cases h
  · next hnone =>
    cases h
    refine ⟨?_, List.filter_sublist, fun name value => NameMap.find?_filter_eq_some⟩
    intro name
    refine ⟨?_, ?_⟩
    · intro hmem
      obtain ⟨definition, hdefinition, rfl⟩ := List.mem_map.mp hmem
      exact (List.mem_filter.mp hdefinition).2
    · intro hused
      -- Whatever is used is declared, or its name would have been reported.
      have hdeclared := List.find?_eq_none.mp hnone name (NameMap.mem_names_iff.mpr hused)
      have hmem := mem_names_of_definition? (Bool.not_eq_true _ ▸ hdeclared)
      obtain ⟨definition, hdefinition, rfl⟩ := List.mem_map.mp hmem
      exact List.mem_map_of_mem (List.mem_filter.mpr ⟨hdefinition, hused⟩)

/-- The variables of a synthesized operation are exactly those of its document. It declares each once,
first those that belong to the protocol and then the client's, in the client's order and as the client
declares them. The values are those that the protocol gives, and the client's for all other variables
that the document mentions. -/
structure ExactVariables (client : ClientOperation) (own : List (VariableDefinition × Json))
    (synthesized : ServiceOperation) : Prop where
  declared : ∀ name, name ∈ synthesized.operation.variableDefinitions.map VariableDefinition.name ↔
    synthesized.document.Mentions name
  once : (synthesized.operation.variableDefinitions.map VariableDefinition.name).Nodup
  definitions : ∃ forwarded, synthesized.operation.variableDefinitions = own.map Prod.fst ++ forwarded ∧
    forwarded.Sublist client.operation.variableDefinitions
  given : ∀ entry ∈ own, synthesized.values.find? entry.1.name = some entry.2
  forwarded : ∀ name, (∀ entry ∈ own, entry.1.name ≠ name) → ∀ value,
    synthesized.values.find? name = some value ↔
      synthesized.document.Mentions name ∧ client.values.find? name = some value

namespace Pruner

variable {pruner : Pruner} {field : Field}

/-- The client declares no variable twice. -/
def Distinct (client : ClientOperation) : Prop :=
  (client.operation.variableDefinitions.map VariableDefinition.name).Nodup

theorem exactVariables_of_askRootField (hdistinct : Distinct pruner.client) {kind : OperationKind}
    {synthesized : ServiceOperation} (h : pruner.askRootField kind field = .ok synthesized) :
    ExactVariables pruner.client [] synthesized := by
  obtain ⟨delegated, fragments, definitions, values, _, _, hforward, heq⟩ := askRootField_eq_ok h
  have hforwarded := forwardVariables_eq_ok hforward
  have hmentions : ∀ name, synthesized.document.Mentions name ↔
      (usedVariables [delegated.toSelection] fragments).contains name = true := by
    intro name
    rw [heq, ServiceOperation.mentions_document_iff rfl, mem_usedVariables]
  have hdeclared : synthesized.operation.variableDefinitions = definitions := by rw [heq]
  have hvalues : synthesized.values = values := by rw [heq]
  exact {
    declared := fun name => by rw [hdeclared, hmentions, hforwarded.declared]
    once := by
      rw [hdeclared]
      exact hdistinct.sublist (hforwarded.ordered.map _)
    definitions := ⟨definitions, hdeclared, hforwarded.ordered⟩
    given := by simp
    forwarded := fun name _ value => by rw [hvalues, hforwarded.values, hmentions] }

/-- The field that asks for entities mentions the representations, and what is selected on them. -/
theorem mentions_entities_iff {level : List Selection} {name : String} :
    (Selection.field entitiesHead level).Mentions name ↔
      name = representationsVariable ∨ ∃ selection ∈ level, selection.Mentions name := by
  rw [← Selection.mem_variableNames, Selection.variableNames, List.mem_append,
    Selection.mem_variablesOf]
  refine or_congr_left ?_
  simp [FieldHead.variableNames, entitiesHead, Arguments.variableNames, Directive.variablesOf,
    Value.variableNames]

theorem exactVariables_of_askRepresentations (hdistinct : Distinct pruner.client)
    {choices : List Selection} {representations : List Json} {synthesized : ServiceOperation}
    (h : pruner.askRepresentations choices representations = .ok synthesized) :
    ExactVariables pruner.client [(representationsDefinition, .array representations)]
      synthesized := by
  obtain ⟨fragments, definitions, values, _, hreserved, hforward, heq⟩ := askRepresentations_eq_ok h
  have hforwarded := forwardVariables_eq_ok hforward
  have hmentions : ∀ name, synthesized.document.Mentions name ↔ name = representationsVariable ∨
      (usedVariables (.bare typenameField :: choices) fragments).contains name = true := by
    intro name
    rw [heq, ServiceOperation.mentions_document_iff rfl, mem_usedVariables, ← or_assoc,
      ← mentions_entities_iff]
    simp
  have hdeclared : synthesized.operation.variableDefinitions =
      representationsDefinition :: definitions := by rw [heq]
  have hvalues : synthesized.values =
      values.insert representationsVariable (.array representations) := by rw [heq]
  -- The protocol's variable is refused where the selections use it, so it is not declared twice.
  have hnew : representationsVariable ∉ definitions.map VariableDefinition.name := by
    rw [hforwarded.declared, hreserved]
    exact Bool.false_ne_true
  exact {
    declared := fun name => by
      rw [hdeclared, hmentions, List.map_cons, List.mem_cons, hforwarded.declared]
      rfl
    once := by
      rw [hdeclared]
      exact List.nodup_cons.mpr ⟨hnew, hdistinct.sublist (hforwarded.ordered.map _)⟩
    definitions := ⟨definitions, hdeclared, hforwarded.ordered⟩
    given := by simp [hvalues, representationsDefinition]
    forwarded := fun name hown value => by
      have hne : representationsVariable ≠ name := hown _ (List.mem_singleton_self _)
      rw [hmentions, or_iff_right hne.symm, hvalues, NameMap.find?_insert, if_neg hne,
        hforwarded.values] }

/-- Whatever operation is synthesized for a field, its variables are exactly those of its document. The
representations of entities are the protocol's own variable, declared first, and no variable of the
client stands in for it. -/
theorem variables_exact (pruner : Pruner) (field : Field) (hdistinct : Distinct pruner.client) :
    (∀ kind synthesized, pruner.askRootField kind field = .ok synthesized →
      ExactVariables pruner.client [] synthesized) ∧
    (∀ types representations synthesized,
      pruner.askEntities field types representations = .ok synthesized →
      ExactVariables pruner.client [(representationsDefinition, .array representations)]
        synthesized) ∧
    (∀ parentType condition representation synthesized,
      pruner.askEntityField field parentType condition representation = .ok synthesized →
      ExactVariables pruner.client [(representationsDefinition, .array [representation])]
        synthesized) := by
  refine ⟨?_, ?_, ?_⟩
  · intro kind synthesized h
    exact exactVariables_of_askRootField hdistinct h
  · intro types representations synthesized h
    obtain ⟨choices, _, h⟩ := askEntities_eq_ok h
    exact exactVariables_of_askRepresentations hdistinct h
  · intro parentType condition representation synthesized h
    obtain ⟨delegated, _, h⟩ := askEntityField_eq_ok h
    exact exactVariables_of_askRepresentations hdistinct h

/-- A field whose arguments, sub-selections and fragment each refer to a variable. -/
def sampleField : Field where
  head := { FieldHead.bare "reviewer" with arguments := [("first", .list [.variable "size"])] }
  selections := [.bare "name", .spread "Person" []]

/-- Each shape of operation for that field, sent to the service of users. -/
theorem variables_exact_reviewer :
    Distinct Sample.client ∧
    (∃ synthesized, (Sample.pruner Sample.users).askRootField .query sampleField = .ok synthesized ∧
      ExactVariables Sample.client [] synthesized) ∧
    (∃ synthesized, (Sample.pruner Sample.users).askEntities sampleField ["User"] [.null] =
        .ok synthesized ∧
      ExactVariables Sample.client [(representationsDefinition, .array [.null])] synthesized) ∧
    (∃ synthesized, (Sample.pruner Sample.users).askEntityField sampleField "Query" "User" .null =
        .ok synthesized ∧
      ExactVariables Sample.client [(representationsDefinition, .array [.null])] synthesized) := by
  have hdistinct : Distinct Sample.client := by
    simp [Distinct, Sample.client]
  have hroot : ∃ synthesized, (Sample.pruner Sample.users).askRootField .query sampleField =
      .ok synthesized := ⟨_, rfl⟩
  have hentities : ∃ synthesized, (Sample.pruner Sample.users).askEntities sampleField ["User"] [.null] =
      .ok synthesized := ⟨_, rfl⟩
  have hentity : ∃ synthesized,
      (Sample.pruner Sample.users).askEntityField sampleField "Query" "User" .null =
        .ok synthesized := ⟨_, rfl⟩
  obtain ⟨root, hroot⟩ := hroot
  obtain ⟨entities, hentities⟩ := hentities
  obtain ⟨entity, hentity⟩ := hentity
  have hexact := variables_exact (Sample.pruner Sample.users) sampleField hdistinct
  exact ⟨hdistinct, ⟨root, hroot, hexact.1 _ _ hroot⟩,
    ⟨entities, hentities, hexact.2.1 _ _ _ hentities⟩, ⟨entity, hentity, hexact.2.2 _ _ _ _ hentity⟩⟩

end Pruner

end Supergraph
