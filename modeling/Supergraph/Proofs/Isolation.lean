import Mathlib.Data.List.Find
import Supergraph.Proofs.Pruning.Remnant

/-!
Isolation: an operation for a service depends on what remains for that service, and on nothing else that the
client sends.

1. `fragmentRemnant?` is what remains of a fragment, `Remains` which fragments are reached through spreads
   that remain, and `Occurs` which variables occur in all of that.
2. `Indistinct` says of two clients that they agree on the fragments that remain and on the variables that
   occur there.
3. `Indistinct.fragmentClosure_eq` and `Indistinct.forwardVariables_eq`: then the same fragments are gathered
   and the same variables forwarded, or both fail alike.
4. `synthesis_isolated` puts these together with pruning by remnants, for each shape of operation.
-/

namespace Supergraph

open GraphQL

/-- What remains of the definition of a fragment. -/
structure FragmentRemnant where
  name : String
  condition : String
  directives : List Directive
  below : List Remnant

namespace Pruner

def fragmentRemnant? (pruner : Pruner) (name : String) : Option FragmentRemnant :=
  (pruner.client.fragment? name).map fun definition => ⟨definition.name, definition.condition,
    definition.directives, pruner.remnants definition.condition definition.selections⟩

/-- The names that are reached through the spreads that remain. -/
inductive Remains (pruner : Pruner) (level : List Remnant) : String → Prop
  | direct {name : String} : name ∈ Remnant.spreadsOf level → Remains pruner level name
  | through {other name : String} {fragment : FragmentRemnant} : Remains pruner level other →
      pruner.fragmentRemnant? other = some fragment → name ∈ Remnant.spreadsOf fragment.below →
      Remains pruner level name

/-- A variable occurs in what remains, at the level itself or in a fragment that is reached. -/
inductive Occurs (pruner : Pruner) (level : List Remnant) (name : String) : Prop
  | level : name ∈ Remnant.variablesOf level → Occurs pruner level name
  | directive {other : String} {fragment : FragmentRemnant} : pruner.Remains level other →
      pruner.fragmentRemnant? other = some fragment → name ∈ Directive.variablesOf fragment.directives →
      Occurs pruner level name
  | fragment {other : String} {fragment : FragmentRemnant} : pruner.Remains level other →
      pruner.fragmentRemnant? other = some fragment → name ∈ Remnant.variablesOf fragment.below →
      Occurs pruner level name

open scoped Classical in
/-- Another client's operation cannot be told from this one by what remains: the fragments that are reached
are the same, and so are the declarations, in their order, and the values of the variables that occur. -/
structure Indistinct (pruner : Pruner) (other : ClientOperation) (level : List Remnant) : Prop where
  fragments : ∀ name, pruner.Remains level name →
    { pruner with client := other }.fragmentRemnant? name = pruner.fragmentRemnant? name
  definitions : other.operation.variableDefinitions.filter (pruner.Occurs level ·.name) =
    pruner.client.operation.variableDefinitions.filter (pruner.Occurs level ·.name)
  values : ∀ name, pruner.Occurs level name →
    other.values.find? name = pruner.client.values.find? name

variable {pruner : Pruner} {other : ClientOperation} {level : List Remnant} {name : String}

/-! ## Pruning -/

theorem prune_congr {type : String} {client client' : List Selection}
    (hremnants : { pruner with client := other }.remnants type client' = pruner.remnants type client)
    (hspreads : ∀ name ∈ Remnant.spreadsOf (pruner.remnants type client),
      (other.fragment? name).isSome = (pruner.client.fragment? name).isSome) :
    { pruner with client := other }.prune type client' = pruner.prune type client := by
  rw [prune, prune, pruneSelections_eq, pruneSelections_eq, hremnants, pruneRemnants_congr _ _ _ hspreads]
  rfl

theorem pruneField_congr {type : String} {field field' : Field}
    (hremnant : { pruner with client := other }.fieldRemnant type field' = pruner.fieldRemnant type field)
    (hspreads : ∀ name ∈ (pruner.fieldRemnant type field).spreads,
      (other.fragment? name).isSome = (pruner.client.fragment? name).isSome) :
    { pruner with client := other }.pruneField type field' = pruner.pruneField type field := by
  rcases pruner.fieldRemnant_cases type field with hleaf | ⟨below, hbelow⟩
  · rw [pruneField_of_leaf hleaf, pruneField_of_leaf (hremnant.trans hleaf)]
  · rw [hbelow] at hspreads
    rw [pruneField_of_field hbelow, pruneField_of_field (hremnant.trans hbelow)]
    have hcongr := fun inner => pruneRemnants_congr below inner [] hspreads
    simp only [hcongr]
    rfl

/-! ## Fragments -/

/-- A fragment that is pruned spreads nothing and refers to nothing that does not remain of it. -/
theorem Prunes.exists_fragmentRemnant {fragment : Fragment} (h : pruner.Prunes name fragment) :
    ∃ remnant, pruner.fragmentRemnant? name = some remnant ∧ remnant.directives = fragment.directives ∧
      (∀ spread ∈ Selection.spreadsOf fragment.selections, spread ∈ Remnant.spreadsOf remnant.below) ∧
      ∀ used ∈ Selection.variablesOf fragment.selections, used ∈ Remnant.variablesOf remnant.below := by
  obtain ⟨definition, hdefinition, hpruned⟩ := h
  obtain ⟨heq, hlevel⟩ := pruneFragment_eq_ok hpruned
  have hwithin := within_of_prune hlevel
  refine ⟨_, by rw [fragmentRemnant?, hdefinition, Option.map_some], ?_, hwithin.spreads, hwithin.mentions⟩
  rw [heq]

theorem Prunes.remains {fragment : Fragment} (h : pruner.Prunes name fragment)
    (hname : pruner.Remains level name) :
    ∀ spread ∈ Selection.spreadsOf fragment.selections, pruner.Remains level spread := by
  intro spread hspread
  obtain ⟨remnant, hremnant, _, hwithin, _⟩ := h.exists_fragmentRemnant
  exact .through hname hremnant (hwithin spread hspread)

theorem remains_of_reached {spreads : List String} (hspreads : ∀ name ∈ spreads, pruner.Remains level name)
    (h : pruner.Reached spreads name) : pruner.Remains level name := by
  induction h with
  | direct hmem => exact hspreads _ hmem
  | through _ hprunes hmem ih => exact hprunes.remains ih _ hmem

namespace Indistinct

theorem isSome_eq (h : Indistinct pruner other level) (hname : pruner.Remains level name) :
    (other.fragment? name).isSome = (pruner.client.fragment? name).isSome := by
  have hfragment := congrArg Option.isSome (h.fragments name hname)
  simpa only [fragmentRemnant?, Option.isSome_map] using hfragment

/-- What becomes of a fragment that is reached does not depend on the client. -/
theorem pruneFragment_eq (h : Indistinct pruner other level) (hname : pruner.Remains level name)
    {definition : Fragment} (hdefinition : pruner.client.fragment? name = some definition) :
    ∃ definition', other.fragment? name = some definition' ∧
      { pruner with client := other }.pruneFragment definition' = pruner.pruneFragment definition := by
  have hfragment := h.fragments name hname
  rw [fragmentRemnant?, fragmentRemnant?, hdefinition] at hfragment
  obtain ⟨definition', hdefinition', heq⟩ := Option.map_eq_some_iff.mp hfragment
  refine ⟨definition', hdefinition', ?_⟩
  simp only [FragmentRemnant.mk.injEq] at heq
  obtain ⟨hname', hcondition, hdirectives, hremnants⟩ := heq
  have hremnant : pruner.fragmentRemnant? name = some ⟨definition.name, definition.condition,
      definition.directives, pruner.remnants definition.condition definition.selections⟩ := by
    rw [fragmentRemnant?, hdefinition, Option.map_some]
  rw [hcondition] at hremnants
  rw [pruneFragment, pruneFragment, hcondition,
    prune_congr hremnants fun spread hspread => h.isSome_eq (.through hname hremnant hspread)]
  cases pruner.prune definition.condition definition.selections with
  | error error => rfl
  | ok pruned => rw [← hdirectives, ← hname', ← hcondition]

theorem prunes (h : Indistinct pruner other level) (hname : pruner.Remains level name) {fragment : Fragment}
    (hprunes : pruner.Prunes name fragment) : { pruner with client := other }.Prunes name fragment := by
  obtain ⟨definition, hdefinition, hpruned⟩ := hprunes
  obtain ⟨definition', hdefinition', heq⟩ := h.pruneFragment_eq hname hdefinition
  exact ⟨definition', hdefinition', heq.trans hpruned⟩

theorem searches (h : Indistinct pruner other level) {search : FragmentSearch} {names : List String}
    {outcome : Except SynthesisError FragmentSearch} (hsearch : pruner.Searches search names outcome)
    (hnames : ∀ name ∈ names, pruner.Remains level name) :
    { pruner with client := other }.Searches search names outcome := by
  induction hsearch with
  | nil => exact .nil
  | met hmet _ ih => exact .met hmet (ih (List.forall_mem_cons.mp hnames).2)
  | undefined hmet hnone =>
    have hsome := h.isSome_eq (hnames _ List.mem_cons_self)
    rw [hnone, Option.isSome_none, Option.isSome_eq_false_iff, Option.isNone_iff_eq_none] at hsome
    exact .undefined hmet hsome
  | unprunable hmet hdefinition herror =>
    obtain ⟨definition', hdefinition', heq⟩ := h.pruneFragment_eq (hnames _ List.mem_cons_self) hdefinition
    exact .unprunable hmet hdefinition' (heq.trans herror)
  | failed hmet hprunes _ ih =>
    have hname := hnames _ List.mem_cons_self
    exact .failed hmet (h.prunes hname hprunes) (ih (hprunes.remains hname))
  | entered hmet hprunes _ _ ihbody ih =>
    obtain ⟨hname, hrest⟩ := List.forall_mem_cons.mp hnames
    exact .entered hmet (h.prunes hname hprunes) (ihbody (hprunes.remains hname)) (ih hrest)

theorem fragmentClosure_eq (h : Indistinct pruner other level) {selections : List Selection}
    (hspreads : ∀ name ∈ Selection.spreadsOf selections, pruner.Remains level name) :
    { pruner with client := other }.fragmentClosure selections = pruner.fragmentClosure selections := by
  obtain ⟨outcome, hunique, hclosure⟩ := pruner.fragmentClosure_eq_map selections
  obtain ⟨outcome', hunique', hclosure'⟩ :=
    { pruner with client := other }.fragmentClosure_eq_map selections
  have hsearch := h.searches ((hunique outcome).mpr rfl) hspreads
  rw [hclosure, hclosure', (hunique' outcome).mp hsearch]

/-! ## Variables -/

/-- The variables that synthesis collects from selections that lie within what remains occur there. -/
theorem occurs_of_used {selections : List Selection} {fragments : List Fragment}
    (hcovers : Confined (pruner.Remains level) (pruner.Occurs level) selections)
    (hfragments : pruner.fragmentClosure selections = .ok fragments)
    (hused : (usedVariables selections fragments).contains name = true) : pruner.Occurs level name := by
  refine hcovers.of_used ?_ hused
  intro fragment hfragment
  obtain ⟨entered, rfl, hclosure⟩ := fragmentClosure_eq_ok hfragments
  obtain ⟨entry, hentry, rfl⟩ := List.mem_map.mp hfragment
  have hremains := remains_of_reached hcovers.spreads (hclosure.reached _ (List.mem_map_of_mem hentry))
  obtain ⟨remnant, hremnant, hdirectives, _, hwithin⟩ :=
    (hclosure.pruned entry hentry).exists_fragmentRemnant
  constructor
  · intro name hmem
    exact .directive hremains hremnant (hdirectives ▸ hmem)
  · intro name hmem
    exact .fragment hremains hremnant (hwithin name hmem)

/-- The first declaration of a variable that occurs is the same for both clients. -/
theorem definition?_eq (h : Indistinct pruner other level) (hname : pruner.Occurs level name) :
    other.definition? name = pruner.client.definition? name := by
  classical
  have hfilter : ∀ definitions : List VariableDefinition,
      definitions.find? (fun definition => definition.name = name) =
        (definitions.filter (pruner.Occurs level ·.name)).find? fun definition => definition.name = name := by
    intro definitions
    rw [List.find?_filter]
    congr 1
    funext definition
    by_cases hsame : definition.name = name
    · simp [hsame, hname]
    · simp [hsame]
  rw [ClientOperation.definition?, ClientOperation.definition?, hfilter, h.definitions, ← hfilter]

theorem forwardVariables_eq (h : Indistinct pruner other level) {used : NameSet}
    (hused : ∀ name, used.contains name = true → pruner.Occurs level name) :
    forwardVariables other used = forwardVariables pruner.client used := by
  have hundefined : used.names.find? (fun name => (other.definition? name).isNone) =
      used.names.find? fun name => (pruner.client.definition? name).isNone := by
    apply List.find?_congr
    intro name hmem
    rw [h.definition?_eq (hused name (NameMap.mem_names_iff.mp hmem))]
  have hdefinitions : other.operation.variableDefinitions.filter (used.contains ·.name) =
      pruner.client.operation.variableDefinitions.filter (used.contains ·.name) := by
    classical
    -- Whatever is used occurs, so that the other declarations may be left out first.
    have hfilter : ∀ definitions : List VariableDefinition, definitions.filter (used.contains ·.name) =
        (definitions.filter (pruner.Occurs level ·.name)).filter (used.contains ·.name) := by
      intro definitions
      rw [List.filter_filter]
      congr 1
      funext definition
      cases hcontains : used.contains definition.name with
      | false => simp
      | true => simp [hused _ hcontains]
    rw [hfilter, h.definitions, ← hfilter]
  have hvalues : other.values.filter used.contains = pruner.client.values.filter used.contains := by
    apply NameMap.ext_find?
    intro name
    apply Option.ext
    intro value
    rw [NameMap.find?_filter_eq_some, NameMap.find?_filter_eq_some]
    apply and_congr_right
    intro hcontains
    rw [h.values name (hused name hcontains)]
  rw [forwardVariables, forwardVariables, hundefined]
  dsimp only
  rw [hdefinitions, hvalues]

/-! ## Operations -/

theorem covers_of_pruneField {type : String} {field delegated : Field}
    (h : pruner.pruneField type field = .ok delegated) :
    Confined (pruner.Remains [pruner.fieldRemnant type field])
      (pruner.Occurs [pruner.fieldRemnant type field]) [delegated.toSelection] := by
  obtain ⟨hspreads, hmentions⟩ := within_of_pruneField h
  apply Confined.of_forall
  intro selection hmem
  rw [List.mem_singleton.mp hmem]
  constructor
  · intro name hname
    exact .direct (Remnant.mem_spreadsOf.mpr ⟨_, List.mem_singleton_self _, hspreads name hname⟩)
  · intro name hname
    exact .level (Remnant.mem_variablesOf.mpr ⟨_, List.mem_singleton_self _, hmentions name hname⟩)

theorem forward_eq (h : Indistinct pruner other level) {selections : List Selection}
    {fragments : List Fragment}
    (hcovers : Confined (pruner.Remains level) (pruner.Occurs level) selections)
    (hfragments : pruner.fragmentClosure selections = .ok fragments) :
    forwardVariables other (usedVariables selections fragments) =
      forwardVariables pruner.client (usedVariables selections fragments) :=
  h.forwardVariables_eq fun _ => occurs_of_used hcovers hfragments

theorem askRootField_eq {kind : OperationKind} {field field' : Field}
    (h : Indistinct pruner other [pruner.fieldRemnant kind.rootType field])
    (hremnant : { pruner with client := other }.fieldRemnant kind.rootType field' =
      pruner.fieldRemnant kind.rootType field) :
    { pruner with client := other }.askRootField kind field' = pruner.askRootField kind field := by
  have hprune := pruneField_congr hremnant fun name hname =>
    h.isSome_eq (.direct (Remnant.mem_spreadsOf.mpr ⟨_, List.mem_singleton_self _, hname⟩))
  rw [askRootField, askRootField, hprune]
  cases hdelegated : pruner.pruneField kind.rootType field with
  | error error => rfl
  | ok delegated =>
    have hcovers := covers_of_pruneField hdelegated
    dsimp only [bind, Except.bind]
    rw [h.fragmentClosure_eq hcovers.spreads]
    cases hfragments : pruner.fragmentClosure [delegated.toSelection] with
    | error error => rfl
    | ok fragments =>
      have hhead : field'.head = field.head := by
        apply Option.some.inj
        rw [← head?_fieldRemnant, hremnant, head?_fieldRemnant]
      dsimp only
      rw [h.forward_eq hcovers hfragments, Field.name, hhead]
      rfl

theorem askRepresentations_eq (h : Indistinct pruner other level) {choices : List Selection}
    (hcovers : Confined (pruner.Remains level) (pruner.Occurs level) choices) (representations : List Json) :
    { pruner with client := other }.askRepresentations choices representations =
      pruner.askRepresentations choices representations := by
  have hcovers := hcovers.cons_bare typenameField
  rw [askRepresentations, askRepresentations, h.fragmentClosure_eq hcovers.spreads]
  cases hfragments : pruner.fragmentClosure (.bare typenameField :: choices) with
  | error error => rfl
  | ok fragments =>
    dsimp only [bind, Except.bind]
    rw [h.forward_eq hcovers hfragments]

theorem askEntities_eq {field field' : Field} {types : List String}
    (h : Indistinct pruner other (types.flatMap fun type => pruner.remnants type field.selections))
    (hremnants : ∀ type ∈ types, { pruner with client := other }.remnants type field'.selections =
      pruner.remnants type field.selections) (representations : List Json) :
    { pruner with client := other }.askEntities field' types representations =
      pruner.askEntities field types representations := by
  have hspreads : ∀ type ∈ types, ∀ name ∈ Remnant.spreadsOf (pruner.remnants type field.selections),
      pruner.Remains (types.flatMap fun type => pruner.remnants type field.selections) name := by
    intro type htype name hname
    obtain ⟨remnant, hremnant, hname⟩ := Remnant.mem_spreadsOf.mp hname
    exact .direct (Remnant.mem_spreadsOf.mpr
      ⟨remnant, List.mem_flatMap.mpr ⟨type, htype, hremnant⟩, hname⟩)
  have hchoices : types.mapM ({ pruner with client := other }.choiceOn field') =
      types.mapM (pruner.choiceOn field) := by
    apply Outcome.mapM_congr
    intro type htype
    rw [choiceOn, choiceOn, prune_congr (hremnants type htype) fun name hname =>
      h.isSome_eq (hspreads type htype name hname)]
  rw [askEntities, askEntities, hchoices]
  cases hmap : types.mapM (pruner.choiceOn field) with
  | error error => rfl
  | ok choices =>
    refine h.askRepresentations_eq (Confined.choices ?_) representations
    intro choice hmem
    obtain ⟨type, htype, hchoice⟩ := exists_related (Outcome.mapM_eq_ok hmap) hmem
    obtain ⟨level, hlevel, rfl⟩ := choiceOn_eq_ok hchoice
    -- What a choice selects lies within the remnants on its type.
    have hwithin := within_of_prune hlevel
    refine ⟨some type, level, rfl, ?_, ?_⟩
    · intro name hname
      exact hspreads type htype name (hwithin.spreads name hname)
    · intro name hname
      obtain ⟨remnant, hremnant, hname⟩ := Remnant.mem_variablesOf.mp (hwithin.mentions name hname)
      refine .level (Remnant.mem_variablesOf.mpr ⟨remnant, ?_, hname⟩)
      exact List.mem_flatMap.mpr ⟨type, htype, hremnant⟩

theorem askEntityField_eq {parentType : String} {field field' : Field}
    (h : Indistinct pruner other [pruner.fieldRemnant parentType field])
    (hremnant : { pruner with client := other }.fieldRemnant parentType field' =
      pruner.fieldRemnant parentType field) (condition : String) (representation : Json) :
    { pruner with client := other }.askEntityField field' parentType condition representation =
      pruner.askEntityField field parentType condition representation := by
  have hprune := pruneField_congr hremnant fun name hname =>
    h.isSome_eq (.direct (Remnant.mem_spreadsOf.mpr ⟨_, List.mem_singleton_self _, hname⟩))
  rw [askEntityField, askEntityField, hprune]
  cases hdelegated : pruner.pruneField parentType field with
  | error error => rfl
  | ok delegated =>
    have hcovers := covers_of_pruneField hdelegated
    exact h.askRepresentations_eq (hcovers.inline (some condition)) [representation]

end Indistinct

/-- Two clients of which the same remains for a service, and who agree on the variables that occur in it,
give rise to the same operations for the service, or to the same errors. -/
theorem synthesis_isolated {pruner : Pruner} {other : ClientOperation}
    (hkind : other.kind = pruner.client.kind) (field field' : Field) :
    ({ pruner with client := other }.fieldRemnant pruner.client.kind.rootType field' =
        pruner.fieldRemnant pruner.client.kind.rootType field →
      pruner.Indistinct other [pruner.fieldRemnant pruner.client.kind.rootType field] →
      { pruner with client := other }.askRootField other.kind field' =
        pruner.askRootField pruner.client.kind field) ∧
    (∀ types, (∀ type ∈ types, { pruner with client := other }.remnants type field'.selections =
        pruner.remnants type field.selections) →
      pruner.Indistinct other (types.flatMap fun type => pruner.remnants type field.selections) →
      ∀ representations, { pruner with client := other }.askEntities field' types representations =
        pruner.askEntities field types representations) ∧
    ∀ parentType, { pruner with client := other }.fieldRemnant parentType field' =
        pruner.fieldRemnant parentType field →
      pruner.Indistinct other [pruner.fieldRemnant parentType field] →
      ∀ condition representation,
        { pruner with client := other }.askEntityField field' parentType condition representation =
          pruner.askEntityField field parentType condition representation := by
  refine ⟨?_, ?_, ?_⟩
  · intro hremnant h
    rw [hkind]
    exact h.askRootField_eq hremnant
  · intro types hremnants h representations
    exact h.askEntities_eq hremnants representations
  · intro parentType hremnant h condition representation
    exact h.askEntityField_eq hremnant condition representation

/-- A field of which the service of users is asked for the name only: it has no part in the rest, where a
variable and a fragment are not defined. -/
def reviewerForEveryone : Field where
  head := .bare "reviewer"
  selections := [.bare "name",
    .field { FieldHead.bare "reviews" with arguments := [("token", .variable "token")] } [.bare "body"],
    .inline (some "Staff") [] [.spread "Salary" []]]

/-- The same field without that rest. -/
def reviewerForUsers : Field := ⟨.bare "reviewer", [.bare "name"]⟩

/-- Another client, without variables and fragments. -/
def plainClient : ClientOperation := ⟨⟨.query, none, [], [], []⟩, .empty, .empty⟩

/-- Where neither fragments nor variables remain, nothing is left to agree on. -/
theorem indistinct_of_nil {pruner : Pruner} {other : ClientOperation} {level : List Remnant}
    (hspreads : Remnant.spreadsOf level = []) (hvariables : Remnant.variablesOf level = []) :
    pruner.Indistinct other level := by
  have hremains : ∀ name, ¬ pruner.Remains level name := by
    intro name hname
    induction hname with
    | direct hmem =>
      rw [hspreads] at hmem
      cases hmem
    | through _ _ _ ih => exact ih
  have hoccurs : ∀ name, ¬ pruner.Occurs level name := by
    intro name hname
    cases hname with
    | level hmem =>
      rw [hvariables] at hmem
      cases hmem
    | directive hname => exact hremains _ hname
    | fragment hname => exact hremains _ hname
  constructor
  · intro name hname
    exact absurd hname (hremains name)
  · simp [hoccurs]
  · intro name hname
    exact absurd hname (hoccurs name)

/-- What the service of users is sent for either field is the same, in each shape of operation. -/
theorem synthesis_isolated_reviewer :
    plainClient.kind = Sample.client.kind ∧
    { Sample.pruner Sample.users with client := plainClient }.askRootField .query reviewerForUsers =
      (Sample.pruner Sample.users).askRootField .query reviewerForEveryone ∧
    { Sample.pruner Sample.users with client := plainClient }.askEntities reviewerForUsers ["User"] [.null] =
      (Sample.pruner Sample.users).askEntities reviewerForEveryone ["User"] [.null] ∧
    { Sample.pruner Sample.users with client := plainClient }.askEntityField reviewerForUsers "Query" "User"
        .null =
      (Sample.pruner Sample.users).askEntityField reviewerForEveryone "Query" "User" .null := by
  have hkind : plainClient.kind = (Sample.pruner Sample.users).client.kind := rfl
  -- The name is all that remains of either field, and it neither spreads nor refers to anything.
  have hfield : (Sample.pruner Sample.users).fieldRemnant "Query" reviewerForEveryone =
      .field (.bare "reviewer") [.leaf (.bare "name")] := by rfl
  have hremnants : ["User"].flatMap (fun type =>
      (Sample.pruner Sample.users).remnants type reviewerForEveryone.selections) =
        [.leaf (.bare "name")] := by rfl
  have hsame : ∀ type ∈ ["User"],
      { Sample.pruner Sample.users with client := plainClient }.remnants type reviewerForUsers.selections =
        (Sample.pruner Sample.users).remnants type reviewerForEveryone.selections := by
    intro type htype
    rw [List.mem_singleton.mp htype]
    rfl
  have hindistinct : (Sample.pruner Sample.users).Indistinct plainClient
      [(Sample.pruner Sample.users).fieldRemnant "Query" reviewerForEveryone] := by
    rw [hfield]
    exact indistinct_of_nil rfl rfl
  have hentities : (Sample.pruner Sample.users).Indistinct plainClient (["User"].flatMap fun type =>
      (Sample.pruner Sample.users).remnants type reviewerForEveryone.selections) := by
    rw [hremnants]
    exact indistinct_of_nil rfl rfl
  obtain ⟨hroot, hchoices, hentity⟩ := synthesis_isolated hkind reviewerForEveryone reviewerForUsers
  exact ⟨hkind, hroot rfl hindistinct, hchoices ["User"] hsame hentities [.null],
    hentity "Query" rfl hindistinct "User" .null⟩

end Pruner

end Supergraph
