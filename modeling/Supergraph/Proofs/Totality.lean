import Supergraph.Proofs.Pruning.Remnant
import Supergraph.Proofs.Resolution
import Supergraph.Proofs.Shape

/-!
Totality: where the client's operation is well-formed, synthesis gives an operation.

1. `WellFormed` says which operations are: whatever they contain, they define the fragments that it spreads
   and declare the variables that it refers to, and they select no field of the protocol but `__typename`.
2. `Serves` is what joins the shape of a service to the composed schema, which are made from its schema
   apart from one another: a field that the service can be asked for is a composed field.
3. So pruning succeeds, whatever is selected (`exists_pruneSelections`), so does the closure of the result
   (`exists_fragmentClosure`), and its variables can be forwarded (`exists_forwardVariables`).
-/

namespace Supergraph

open GraphQL

/-! ## Well-formed operations -/

namespace ClientOperation

/-- The client's operation contains a selection: in the operation itself or in a fragment, at any depth. -/
inductive Contains (client : ClientOperation) : Selection → Prop
  | operation {selection : Selection} : selection ∈ client.operation.selections →
      Contains client selection
  | fragment {name : String} {fragment : Fragment} {selection : Selection} :
      client.fragment? name = some fragment → selection ∈ fragment.selections →
      Contains client selection
  | field {head : FieldHead} {selections : List Selection} {selection : Selection} :
      Contains client (.field head selections) → selection ∈ selections → Contains client selection
  | inline {condition : Option String} {directives : List Directive} {selections : List Selection}
      {selection : Selection} : Contains client (.inline condition directives selections) →
      selection ∈ selections → Contains client selection

/-- The client declares a variable, other than the one that is reserved for representations. -/
def Declares (client : ClientOperation) (name : String) : Prop :=
  (client.definition? name).isSome = true ∧ name ≠ representationsVariable

/-- Every spread is of a defined fragment, every variable referred to is declared, and every field but
`__typename` has a name outside the protocol. -/
structure WellFormed (client : ClientOperation) : Prop where
  spreads : ∀ name directives, client.Contains (.spread name directives) →
    (client.fragment? name).isSome = true
  mentions : ∀ selection, client.Contains selection → ∀ name, selection.Mentions name →
    client.Declares name
  directives : ∀ spread fragment, client.fragment? spread = some fragment →
    ∀ name, Directive.Mentions name fragment.directives → client.Declares name
  names : ∀ head selections, client.Contains (.field head selections) →
    head.name = typenameField ∨ isInternalName head.name = false

variable {client : ClientOperation}

mutual

theorem Contains.exists_spread : ∀ {selection : Selection}, client.Contains selection →
    ∀ {name : String}, name ∈ selection.spreads → ∃ directives, client.Contains (.spread name directives)
  | .field _ _, h, _, hname => exists_spread_of_mem (fun _ hmem => .field h hmem) hname
  | .spread _ directives, h, _, hname => by
    rw [List.mem_singleton.mp hname]
    exact ⟨directives, h⟩
  | .inline _ _ _, h, _, hname => exists_spread_of_mem (fun _ hmem => .inline h hmem) hname

theorem exists_spread_of_mem : ∀ {selections : List Selection},
    (∀ selection ∈ selections, client.Contains selection) → ∀ {name : String},
      name ∈ Selection.spreadsOf selections → ∃ directives, client.Contains (.spread name directives)
  | [], _, _, hname => by cases hname
  | _ :: _, h, _, hname => by
    obtain ⟨hfirst, hrest⟩ := List.forall_mem_cons.mp h
    rcases List.mem_append.mp hname with hname | hname
    · exact hfirst.exists_spread hname
    · exact exists_spread_of_mem hrest hname

end

namespace WellFormed

variable {selections : List Selection} {name : String}

theorem isSome_of_spread (h : client.WellFormed)
    (hcontains : ∀ selection ∈ selections, client.Contains selection)
    (hname : name ∈ Selection.spreadsOf selections) : (client.fragment? name).isSome = true := by
  obtain ⟨directives, hspread⟩ := exists_spread_of_mem hcontains hname
  exact h.spreads name directives hspread

theorem declares_of_mem (h : client.WellFormed)
    (hcontains : ∀ selection ∈ selections, client.Contains selection)
    (hname : name ∈ Selection.variablesOf selections) : client.Declares name := by
  obtain ⟨selection, hmem, hmentions⟩ := (Selection.mem_variablesOf selections).mp hname
  exact h.mentions selection (hcontains selection hmem) name hmentions

end WellFormed

end ClientOperation

namespace Pruner

variable {pruner : Pruner}

/-! ## Pruning -/

/-- A field outside the protocol that the service can be asked for is a composed field. -/
def Serves (pruner : Pruner) : Prop :=
  ∀ type field, pruner.service.shape.canSelect type field = true → isInternalName field = false →
    (pruner.schema.field? type field).isSome = true

mutual

theorem exists_pruneSelection (hserves : pruner.Serves) (hwell : pruner.client.WellFormed) :
    ∀ (selection : Selection) (type : String) (kept : List Selection), pruner.client.Contains selection →
      ∃ next, pruner.pruneSelection type kept selection = .ok next
  | .field head selections, type, kept, h => by
    rw [pruneSelection]
    split
    · split
      · exact ⟨_, rfl⟩
      · exact ⟨_, rfl⟩
    · next htypename =>
      split
      · next hselect =>
        split
        · exact ⟨_, rfl⟩
        · have hvisible := (hwell.names head selections h).resolve_left htypename
          obtain ⟨composed, hcomposed⟩ := Option.isSome_iff_exists.mp (hserves type _ hselect hvisible)
          obtain ⟨level, hlevel⟩ := exists_pruneSelections hserves hwell selections composed.returnType []
            fun _ hmem => .field h hmem
          have hreturn := returnType_eq_ok.mpr ⟨composed, hcomposed, rfl⟩
          exact ⟨_, Outcome.bind_eq_ok.mpr ⟨_, hreturn, Outcome.bind_eq_ok.mpr ⟨level, hlevel, rfl⟩⟩⟩
      · exact ⟨_, rfl⟩
  | .spread fragment directives, type, kept, h => by
    obtain ⟨definition, hdefinition⟩ := Option.isSome_iff_exists.mp (hwell.spreads fragment directives h)
    rw [pruneSelection, hdefinition]
    dsimp only
    split
    · exact ⟨_, rfl⟩
    · exact ⟨_, rfl⟩
  | .inline condition directives selections, type, kept, h => by
    rw [pruneSelection]
    split
    · obtain ⟨level, hlevel⟩ := exists_pruneSelections hserves hwell selections (condition.getD type) []
        fun _ hmem => .inline h hmem
      exact ⟨_, Outcome.bind_eq_ok.mpr ⟨level, hlevel, rfl⟩⟩
    · exact ⟨_, rfl⟩

theorem exists_pruneSelections (hserves : pruner.Serves) (hwell : pruner.client.WellFormed) :
    ∀ (selections : List Selection) (type : String) (kept : List Selection),
      (∀ selection ∈ selections, pruner.client.Contains selection) →
      ∃ level, pruner.pruneSelections type kept selections = .ok level
  | [], _, kept, _ => ⟨kept, rfl⟩
  | selection :: rest, type, kept, h => by
    obtain ⟨hfirst, hrest⟩ := List.forall_mem_cons.mp h
    obtain ⟨next, hnext⟩ := exists_pruneSelection hserves hwell selection type kept hfirst
    obtain ⟨level, hlevel⟩ := exists_pruneSelections hserves hwell rest type next hrest
    exact ⟨level, Outcome.bind_eq_ok.mpr ⟨next, hnext, hlevel⟩⟩

end

theorem exists_prune (hserves : pruner.Serves) (hwell : pruner.client.WellFormed) (type : String)
    {selections : List Selection} (h : ∀ selection ∈ selections, pruner.client.Contains selection) :
    ∃ level, pruner.prune type selections = .ok level := by
  obtain ⟨kept, hkept⟩ := exists_pruneSelections hserves hwell selections type [] h
  exact ⟨_, prune_eq_ok.mpr ⟨kept, hkept, rfl⟩⟩

/-! ## Fragments and variables -/

theorem exists_prunes (hserves : pruner.Serves) (hwell : pruner.client.WellFormed) {name : String}
    (hname : (pruner.client.fragment? name).isSome = true) : ∃ fragment, pruner.Prunes name fragment := by
  obtain ⟨definition, hdefinition⟩ := Option.isSome_iff_exists.mp hname
  obtain ⟨level, hlevel⟩ := exists_prune hserves hwell definition.condition
    fun _ hmem => .fragment hdefinition hmem
  exact ⟨_, definition, hdefinition, Outcome.bind_eq_ok.mpr ⟨level, hlevel, rfl⟩⟩

theorem isSome_of_reached (hwell : pruner.client.WellFormed) {spreads : List String} {name : String}
    (hspreads : ∀ name ∈ spreads, (pruner.client.fragment? name).isSome = true)
    (h : pruner.Reached spreads name) : (pruner.client.fragment? name).isSome = true := by
  cases h with
  | direct hmem => exact hspreads name hmem
  | through _ hprunes hmem =>
    obtain ⟨definition, hdefinition, hpruned⟩ := hprunes
    have hsubset := spreadsOf_subset_of_prune (pruneFragment_eq_ok hpruned).2
    exact hwell.isSome_of_spread (fun _ hin => .fragment hdefinition hin) (hsubset hmem)

theorem exists_fragmentClosure (hserves : pruner.Serves) (hwell : pruner.client.WellFormed)
    {selections : List Selection}
    (hspreads : ∀ name ∈ Selection.spreadsOf selections, (pruner.client.fragment? name).isSome = true) :
    ∃ fragments, pruner.fragmentClosure selections = .ok fragments :=
  fragmentClosure_isOk_iff.mpr fun _ hreached =>
    exists_prunes hserves hwell (isSome_of_reached hwell hspreads hreached)

/-- Selections of which the spreads are defined and the variables declared. -/
def Sound (client : ClientOperation) (selections : List Selection) : Prop :=
  Confined (fun name => (client.fragment? name).isSome = true) client.Declares selections

theorem declares_of_used (hwell : pruner.client.WellFormed) {selections : List Selection}
    {fragments : List Fragment} {name : String} (hsound : Sound pruner.client selections)
    (hfragments : pruner.fragmentClosure selections = .ok fragments)
    (hused : (usedVariables selections fragments).contains name = true) : pruner.client.Declares name := by
  refine hsound.of_used ?_ hused
  intro fragment hfragment
  obtain ⟨entered, rfl, hclosure⟩ := fragmentClosure_eq_ok hfragments
  obtain ⟨entry, hentry, rfl⟩ := List.mem_map.mp hfragment
  obtain ⟨definition, hdefinition, hpruned⟩ := hclosure.pruned entry hentry
  obtain ⟨heq, hlevel⟩ := pruneFragment_eq_ok hpruned
  constructor
  · intro name hmem
    rw [heq] at hmem
    exact hwell.directives _ definition hdefinition name (Directive.mem_variablesOf.mp hmem)
  · intro name hmem
    exact hwell.declares_of_mem (fun _ hin => .fragment hdefinition hin)
      (variablesOf_subset_of_prune hlevel hmem)

theorem exists_forwardVariables {client : ClientOperation} {used : NameSet}
    (hused : ∀ name, used.contains name = true → client.Declares name) :
    ∃ forwarded, forwardVariables client used = .ok forwarded := by
  rw [forwardVariables]
  split
  · next name hfind =>
    have hdeclares := hused name (NameMap.mem_names_iff.mp (List.mem_of_find?_eq_some hfind))
    have hundeclared := List.find?_some hfind
    rw [Option.isNone_iff_eq_none] at hundeclared
    cases hundeclared ▸ hdeclares.1
  · exact ⟨_, rfl⟩

/-! ## Operations -/

theorem sound_of_prune (hwell : pruner.client.WellFormed) {type : String}
    {selections level : List Selection} (hlevel : pruner.prune type selections = .ok level)
    (h : ∀ selection ∈ selections, pruner.client.Contains selection) : Sound pruner.client level where
  spreads _ hname := hwell.isSome_of_spread h (spreadsOf_subset_of_prune hlevel hname)
  mentions _ hname := hwell.declares_of_mem h (variablesOf_subset_of_prune hlevel hname)

theorem exists_pruneField (hserves : pruner.Serves) (hwell : pruner.client.WellFormed) {type : String}
    {field : Field} (hfield : pruner.client.Contains field.toSelection)
    (hcomposed : (pruner.schema.field? type field.name).isSome = true) :
    ∃ delegated, pruner.pruneField type field = .ok delegated ∧
      Sound pruner.client [delegated.toSelection] := by
  obtain ⟨head, selections⟩ := field
  have hcontains : ∀ selection ∈ [Selection.field head selections], pruner.client.Contains selection := by
    intro selection hmem
    rw [List.mem_singleton.mp hmem]
    exact hfield
  by_cases hempty : selections.isEmpty = true
  · refine ⟨⟨head, selections⟩, ?_, fun _ => hwell.isSome_of_spread hcontains,
      fun _ => hwell.declares_of_mem hcontains⟩
    rw [pruneField, if_pos hempty]
    rfl
  · obtain ⟨composed, hcomposed⟩ := Option.isSome_iff_exists.mp hcomposed
    have hbelow : ∀ selection ∈ selections, pruner.client.Contains selection :=
      fun _ hmem => .field hfield hmem
    obtain ⟨level, hlevel⟩ := exists_prune hserves hwell composed.returnType hbelow
    have hsound := sound_of_prune hwell hlevel hbelow
    refine ⟨⟨head, level⟩, ?_, ?_, ?_⟩
    · rw [pruneField, if_neg hempty]
      have hreturn := returnType_eq_ok.mpr ⟨composed, hcomposed, rfl⟩
      exact Outcome.bind_eq_ok.mpr ⟨_, hreturn, Outcome.bind_eq_ok.mpr ⟨level, hlevel, rfl⟩⟩
    · intro name hname
      exact hsound.spreads name (by
        simpa [Field.toSelection, Selection.spreadsOf, Selection.spreads] using hname)
    · intro name hname
      -- What is written at the field itself is the client's.
      simp only [Field.toSelection, Selection.variablesOf, Selection.variableNames, List.append_nil,
        List.mem_append] at hname
      rcases hname with hname | hname
      · apply hwell.declares_of_mem hcontains
        simp [Selection.variablesOf, Selection.variableNames, hname]
      · exact hsound.mentions name hname

theorem exists_askRootField (hserves : pruner.Serves) (hwell : pruner.client.WellFormed)
    {kind : OperationKind} {field : Field} (hfield : pruner.client.Contains field.toSelection)
    (hcomposed : (pruner.schema.field? kind.rootType field.name).isSome = true) :
    ∃ synthesized, pruner.askRootField kind field = .ok synthesized := by
  obtain ⟨delegated, hdelegated, hsound⟩ := exists_pruneField hserves hwell hfield hcomposed
  obtain ⟨fragments, hfragments⟩ := exists_fragmentClosure hserves hwell hsound.spreads
  obtain ⟨forwarded, hforwarded⟩ := exists_forwardVariables fun name hused =>
    declares_of_used hwell hsound hfragments hused
  exact ⟨_, Outcome.bind_eq_ok.mpr ⟨delegated, hdelegated, Outcome.bind_eq_ok.mpr ⟨fragments, hfragments,
    Outcome.bind_eq_ok.mpr ⟨forwarded, hforwarded, rfl⟩⟩⟩⟩

theorem exists_askRepresentations (hserves : pruner.Serves) (hwell : pruner.client.WellFormed)
    {choices : List Selection} (hsound : Sound pruner.client choices) (representations : List Json) :
    ∃ synthesized, pruner.askRepresentations choices representations = .ok synthesized := by
  have hlevel := hsound.cons_bare typenameField
  obtain ⟨fragments, hfragments⟩ := exists_fragmentClosure hserves hwell hlevel.spreads
  have hdeclares : ∀ name, (usedVariables (.bare typenameField :: choices) fragments).contains name =
      true → pruner.client.Declares name := fun _ => declares_of_used hwell hlevel hfragments
  have hreserved : (usedVariables (.bare typenameField :: choices) fragments).contains
      representationsVariable = false := by
    by_contra hcontains
    exact (hdeclares representationsVariable (Bool.not_eq_false _ ▸ hcontains)).2 rfl
  obtain ⟨forwarded, hforwarded⟩ := exists_forwardVariables hdeclares
  rw [askRepresentations, hfragments]
  dsimp only [bind, Except.bind]
  rw [hreserved, if_neg Bool.false_ne_true, hforwarded]
  exact ⟨_, rfl⟩

theorem exists_askEntities (hserves : pruner.Serves) (hwell : pruner.client.WellFormed) {field : Field}
    (hfield : pruner.client.Contains field.toSelection) (types : List String)
    (representations : List Json) :
    ∃ synthesized, pruner.askEntities field types representations = .ok synthesized := by
  have hbelow : ∀ selection ∈ field.selections, pruner.client.Contains selection :=
    fun _ hmem => .field hfield hmem
  cases hchoices : types.mapM (pruner.choiceOn field) with
  | error error =>
    obtain ⟨type, _, herror⟩ := Outcome.exists_of_mapM_error hchoices
    obtain ⟨level, hlevel⟩ := exists_prune hserves hwell type hbelow
    rw [choiceOn, hlevel] at herror
    cases herror
  | ok choices =>
    have hsound : Sound pruner.client choices := by
      apply Confined.choices
      intro choice hmem
      obtain ⟨type, _, hchoice⟩ := exists_related (Outcome.mapM_eq_ok hchoices) hmem
      obtain ⟨level, hlevel, heq⟩ := choiceOn_eq_ok hchoice
      exact ⟨some type, level, heq, sound_of_prune hwell hlevel hbelow⟩
    obtain ⟨synthesized, hasked⟩ := exists_askRepresentations hserves hwell hsound representations
    exact ⟨synthesized, Outcome.bind_eq_ok.mpr ⟨choices, hchoices, hasked⟩⟩

theorem exists_askEntityField (hserves : pruner.Serves) (hwell : pruner.client.WellFormed) {field : Field}
    {parentType : String} (hfield : pruner.client.Contains field.toSelection)
    (hcomposed : (pruner.schema.field? parentType field.name).isSome = true) (condition : String)
    (representation : Json) : ∃ synthesized,
      pruner.askEntityField field parentType condition representation = .ok synthesized := by
  obtain ⟨delegated, hdelegated, hsound⟩ := exists_pruneField hserves hwell hfield hcomposed
  obtain ⟨synthesized, hasked⟩ :=
    exists_askRepresentations hserves hwell (hsound.inline (some condition)) [representation]
  exact ⟨synthesized, Outcome.bind_eq_ok.mpr ⟨delegated, hdelegated, hasked⟩⟩

end Pruner

namespace Gateway

variable {gateway : Gateway} {services : List Service} {config : GatewayConfig} {service : Service}

/-- What a service of a gateway can be asked for outside the protocol, the composed schema has. -/
theorem serves_of_ofServices
    (hbuilt : Gateway.ofServices config Schema.ofServices services = .ok gateway)
    (hmem : service ∈ services) (site : FieldSite) : (gateway.topology.pruner service site).Serves := by
  intro type field hselect hvisible
  obtain ⟨topology, htopology, _, hschema, _⟩ := ofServices_eq_ok hbuilt
  rw [Topology.pruner] at hselect ⊢
  dsimp only at hselect ⊢
  rw [service.shaped] at hselect
  obtain ⟨htype, declaration, hdeclaration, hname, hdefinition⟩ :=
    ServiceShape.exists_declaration_of_canSelect hselect
  rw [htopology, Topology.isSome_field?_wiredSchema (Schema.plain_ofServices hschema),
    Schema.isSome_field?_iff hschema]
  have hdeclarations : declaration ∈ Schema.declarationsOf services :=
    List.mem_flatMap.mpr ⟨service, hmem, hdeclaration⟩
  exact ⟨htype, hvisible, declaration, hdeclarations, hname, hdefinition⟩

/-- Synthesis does not fail on a well-formed operation: for any service, and any field that the operation
contains, each shape of operation can be written, if only the composed schema has the field where the shape
asks for it. -/
theorem synthesis_total
    (hbuilt : Gateway.ofServices config Schema.ofServices services = .ok gateway)
    (hmem : service ∈ services) {site : FieldSite} (hwell : site.client.WellFormed)
    (hfield : site.client.Contains site.field.toSelection) :
    ((gateway.topology.schema.field? site.client.kind.rootType site.fieldName).isSome = true →
      ∃ synthesized, (gateway.topology.pruner service site).askRootField site.client.kind site.field =
        .ok synthesized) ∧
    (∀ types representations, ∃ synthesized,
      (gateway.topology.pruner service site).askEntities site.field types representations =
        .ok synthesized) ∧
    ((gateway.topology.schema.field? site.parentType site.fieldName).isSome = true →
      ∀ condition representation, ∃ synthesized,
        (gateway.topology.pruner service site).askEntityField site.field site.parentType condition
          representation = .ok synthesized) := by
  have hserves := serves_of_ofServices hbuilt hmem site
  refine ⟨?_, ?_, ?_⟩
  · intro hcomposed
    exact Pruner.exists_askRootField hserves hwell hfield hcomposed
  · intro types representations
    exact Pruner.exists_askEntities hserves hwell hfield types representations
  · intro hcomposed condition representation
    exact Pruner.exists_askEntityField hserves hwell hfield hcomposed condition representation

end Gateway

namespace Sample

/-- A fragment on users that spreads itself. -/
def loop : Fragment :=
  ⟨"Loop", "User", [⟨"include", [("if", .variable "full")]⟩], [.bare "name", .spread "Loop" []]⟩

/-- A reviewer with that fragment, a field that no service has and a condition that no service knows. -/
def looping : Field where
  head := .bare "reviewer"
  selections := [.spread "Loop" [], .bare "salary", .inline (some "Staff") [] []]

def loopingSite : FieldSite where
  parentType := "Query"
  field := looping
  client := ⟨⟨.query, none, [⟨"full", .nonNull (.named "Boolean"), none⟩], [], [looping.toSelection]⟩,
    .ofList [("Loop", loop)], .empty⟩

theorem fragment?_loopingSite {name : String} {fragment : Fragment}
    (h : loopingSite.client.fragment? name = some fragment) : fragment = loop := by
  simp only [loopingSite, ClientOperation.fragment?, NameMap.ofList, List.foldl_cons, List.foldl_nil,
    NameMap.find?_insert, NameMap.find?_empty] at h
  split at h
  · exact (Option.some.inj h).symm
  · cases h

theorem loopingSite_contains {selection : Selection} (h : loopingSite.client.Contains selection) :
    selection = looping.toSelection ∨ selection = .spread "Loop" [] ∨ selection = .bare "salary" ∨
      selection = .inline (some "Staff") [] [] ∨ selection = .bare "name" := by
  induction h with
  | operation hmem => exact .inl (List.mem_singleton.mp hmem)
  | fragment hfragment hmem =>
    rw [fragment?_loopingSite hfragment] at hmem
    simp only [loop, List.mem_cons, List.not_mem_nil, or_false] at hmem
    tauto
  | field _ hmem ih =>
    rcases ih with ih | ih | ih | ih | ih <;> cases ih
    · simp only [looping, List.mem_cons, List.not_mem_nil, or_false] at hmem
      tauto
    · cases hmem
    · cases hmem
  | inline _ hmem ih =>
    rcases ih with ih | ih | ih | ih | ih <;> cases ih
    cases hmem

theorem wellFormed_loopingSite : loopingSite.client.WellFormed where
  spreads name directives h := by
    rcases loopingSite_contains h with h | h | h | h | h <;> cases h
    rfl
  mentions selection h name hname := by
    rw [← Selection.mem_variableNames] at hname
    rcases loopingSite_contains h with h | h | h | h | h <;> cases h <;> cases hname
  directives spread fragment h name hname := by
    rw [fragment?_loopingSite h, ← Directive.mem_variablesOf] at hname
    rw [List.mem_singleton.mp hname]
    exact ⟨rfl, by decide⟩
  names head selections h := by
    rcases loopingSite_contains h with h | h | h | h | h <;> cases h <;> exact .inr (by decide)

end Sample

/-- The reviewers are asked, whatever the shape of the operation. -/
theorem Gateway.synthesis_total_looping :
    Sample.loopingSite.client.WellFormed ∧
    (∃ synthesized, (Sample.gateway.topology.pruner Sample.reviews Sample.loopingSite).askRootField .query
      Sample.looping = .ok synthesized) ∧
    (∃ synthesized, (Sample.gateway.topology.pruner Sample.reviews Sample.loopingSite).askEntities
      Sample.looping ["User", "Staff"] [.null] = .ok synthesized) ∧
    ∃ synthesized, (Sample.gateway.topology.pruner Sample.reviews Sample.loopingSite).askEntityField
      Sample.looping "Query" "User" .null = .ok synthesized := by
  obtain ⟨_, _, hbuilt⟩ := Sample.federates.built
  have hcomposed : (Sample.gateway.topology.schema.field? "Query" "reviewer").isSome = true := by
    decide +kernel
  obtain ⟨hroot, hentities, hentity⟩ := synthesis_total hbuilt
    (List.mem_cons_self : Sample.reviews ∈ Sample.services) Sample.wellFormed_loopingSite
    (.operation List.mem_cons_self)
  exact ⟨Sample.wellFormed_loopingSite, hroot hcomposed, hentities _ _, hentity hcomposed _ _⟩

end Supergraph
