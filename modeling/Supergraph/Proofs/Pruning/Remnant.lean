import Supergraph.Proofs.Pruning.Selecting
import Supergraph.Proofs.Variables

/-!
What remains of selections for one service: the fields that it can be asked for, and the fragments on types
that it knows.

1. `Confined` says which fragments selections spread and which variables they refer to, at the most.
2. `remnants` deletes everything else, at every level. A spread of a fragment that is not defined remains,
   because pruning fails there.
3. `pruneSelections_eq`: pruning looks at nothing but the remnants, errors included.
4. `within_of_prune`: what is left by pruning is confined to the names of the remnants, and so to those of the
   client (`remnants_subset`).
-/

namespace Supergraph

open GraphQL

/-! ## Names that selections have -/

theorem append_subset_append {first second third fourth : List String} (h₁ : first ⊆ third)
    (h₂ : second ⊆ fourth) : first ++ second ⊆ third ++ fourth :=
  fun _ hmem => List.mem_append.mpr ((List.mem_append.mp hmem).imp (@h₁ _) (@h₂ _))

theorem GraphQL.Selection.exists_of_mem_variablesOf {selections : List Selection} {name : String}
    (h : name ∈ variablesOf selections) : ∃ selection ∈ selections, name ∈ selection.variableNames := by
  obtain ⟨selection, hmem, hmentions⟩ := (mem_variablesOf selections).mp h
  exact ⟨selection, hmem, (mem_variableNames selection).mpr hmentions⟩

/-- Selections spread only fragments, and refer only to variables, of the given kind. -/
structure Confined (spread mention : String → Prop) (selections : List Selection) : Prop where
  spreads : ∀ name ∈ Selection.spreadsOf selections, spread name
  mentions : ∀ name ∈ Selection.variablesOf selections, mention name

namespace Confined

variable {spread mention : String → Prop} {selections : List Selection}

theorem of_forall (h : ∀ selection ∈ selections, (∀ name ∈ selection.spreads, spread name) ∧
    ∀ name ∈ selection.variableNames, mention name) : Confined spread mention selections where
  spreads name hname := by
    obtain ⟨selection, hmem, hname⟩ := Selection.mem_spreadsOf.mp hname
    exact (h selection hmem).1 name hname
  mentions name hname := by
    obtain ⟨selection, hmem, hname⟩ := Selection.exists_of_mem_variablesOf hname
    exact (h selection hmem).2 name hname

theorem cons_bare (h : Confined spread mention selections) (name : String) :
    Confined spread mention (.bare name :: selections) :=
  ⟨h.spreads, h.mentions⟩

theorem inline (h : Confined spread mention selections) (condition : Option String) :
    Confined spread mention [.inline condition [] selections] := by
  apply of_forall
  intro selection hmem
  rw [List.mem_singleton.mp hmem]
  exact ⟨h.spreads, h.mentions⟩

theorem choices {choices : List Selection} (h : ∀ choice ∈ choices, ∃ condition level,
    choice = .inline condition [] level ∧ Confined spread mention level) :
    Confined spread mention choices := by
  apply of_forall
  intro choice hmem
  obtain ⟨condition, level, rfl, hlevel⟩ := h choice hmem
  exact ⟨hlevel.spreads, hlevel.mentions⟩

/-- The variables that synthesis collects are of that kind, if those of the fragments are. -/
theorem of_used (h : Confined spread mention selections) {fragments : List Fragment}
    (hfragments : ∀ fragment ∈ fragments, (∀ name ∈ Directive.variablesOf fragment.directives, mention name) ∧
      ∀ name ∈ Selection.variablesOf fragment.selections, mention name) {name : String}
    (hused : (usedVariables selections fragments).contains name = true) : mention name := by
  rw [usedVariables, NameSet.contains_ofList, List.mem_append, List.mem_flatMap] at hused
  rcases hused with hmem | ⟨fragment, hfragment, hmem⟩
  · exact h.mentions name hmem
  · obtain ⟨hdirectives, hselections⟩ := hfragments fragment hfragment
    rcases List.mem_append.mp hmem with hmem | hmem
    · exact hdirectives name hmem
    · exact hselections name hmem

end Confined

/-! ## What remains -/

/-- What remains of a selection. A field that was written without sub-selections is a leaf; one whose
sub-selections are all deleted is not. -/
inductive Remnant where
  | leaf (head : FieldHead)
  | field (head : FieldHead) (below : List Remnant)
  | spread (fragment : String) (directives : List Directive)
  | inline (condition : Option String) (directives : List Directive) (below : List Remnant)

namespace Remnant

def head? : Remnant → Option FieldHead
  | leaf head => some head
  | field head _ => some head
  | _ => none

mutual

/-- The fragments that a remnant spreads. -/
def spreads : Remnant → List String
  | leaf _ => []
  | field _ below => spreadsOf below
  | spread fragment _ => [fragment]
  | inline _ _ below => spreadsOf below

def spreadsOf : List Remnant → List String
  | [] => []
  | remnant :: rest => remnant.spreads ++ spreadsOf rest

end

mutual

def variableNames : Remnant → List String
  | leaf head => head.variableNames
  | field head below => head.variableNames ++ variablesOf below
  | spread _ directives => Directive.variablesOf directives
  | inline _ directives below => Directive.variablesOf directives ++ variablesOf below

def variablesOf : List Remnant → List String
  | [] => []
  | remnant :: rest => remnant.variableNames ++ variablesOf rest

end

theorem mem_spreadsOf {remnants : List Remnant} {name : String} :
    name ∈ spreadsOf remnants ↔ ∃ remnant ∈ remnants, name ∈ remnant.spreads := by
  induction remnants with
  | nil => simp [spreadsOf]
  | cons remnant remnants ih => rw [spreadsOf, List.mem_append, ih, List.exists_mem_cons_iff]

theorem mem_variablesOf {remnants : List Remnant} {name : String} :
    name ∈ variablesOf remnants ↔ ∃ remnant ∈ remnants, name ∈ remnant.variableNames := by
  induction remnants with
  | nil => simp [variablesOf]
  | cons remnant remnants ih => rw [variablesOf, List.mem_append, ih, List.exists_mem_cons_iff]

end Remnant

namespace Pruner

/-! ## Deletion -/

mutual

/-- What remains of a selection on a type, if anything does. Below a field of which the type that it
returns is not known there is nothing to judge by. -/
def remnant? (pruner : Pruner) (type : String) : Selection → Option Remnant
  | .field head selections =>
    if head.name = typenameField ∨ pruner.service.shape.canSelect type head.name = true then
      if selections.isEmpty then some (.leaf head)
      else
        match pruner.schema.field? type head.name with
        | some composed => some (.field head (pruner.remnants composed.returnType selections))
        | none => some (.field head [])
    else none
  | .spread fragment directives =>
    match pruner.client.fragment? fragment with
    | some definition =>
      if pruner.service.shape.knows definition.condition then some (.spread fragment directives)
      else none
    | none => some (.spread fragment directives)
  | .inline condition directives selections =>
    if pruner.service.shape.knows (condition.getD type) then
      some (.inline condition directives (pruner.remnants (condition.getD type) selections))
    else none

def remnants (pruner : Pruner) (type : String) : List Selection → List Remnant
  | [] => []
  | selection :: rest => (pruner.remnant? type selection).toList ++ pruner.remnants type rest

end

/-- What remains of a delegated field. The field itself is not judged. -/
def fieldRemnant (pruner : Pruner) (type : String) (field : Field) : Remnant :=
  if field.selections.isEmpty then .leaf field.head
  else
    match pruner.schema.field? type field.name with
    | some composed => .field field.head (pruner.remnants composed.returnType field.selections)
    | none => .field field.head []

variable {pruner : Pruner}

theorem remnant?_field (pruner : Pruner) (type : String) (head : FieldHead) (selections : List Selection) :
    pruner.remnant? type (.field head selections) =
      if head.name = typenameField ∨ pruner.service.shape.canSelect type head.name = true then
        some (pruner.fieldRemnant type ⟨head, selections⟩) else none := by
  rw [remnant?, fieldRemnant, Field.name]
  dsimp only
  split
  · split
    · rfl
    · cases pruner.schema.field? type head.name <;> rfl
  · rfl

theorem fieldRemnant_cases (pruner : Pruner) (type : String) (field : Field) :
    pruner.fieldRemnant type field = .leaf field.head ∨
      ∃ below, pruner.fieldRemnant type field = .field field.head below := by
  rw [fieldRemnant]
  split
  · exact .inl rfl
  · split
    · exact .inr ⟨_, rfl⟩
    · exact .inr ⟨_, rfl⟩

theorem head?_fieldRemnant (pruner : Pruner) (type : String) (field : Field) :
    (pruner.fieldRemnant type field).head? = some field.head := by
  rcases pruner.fieldRemnant_cases type field with hfield | ⟨_, hfield⟩
  · rw [hfield]
    rfl
  · rw [hfield]
    rfl

theorem mem_remnants {type : String} {selections : List Selection} {remnant : Remnant} :
    remnant ∈ pruner.remnants type selections ↔
      ∃ selection ∈ selections, pruner.remnant? type selection = some remnant := by
  induction selections with
  | nil => simp [remnants]
  | cons selection selections ih =>
    rw [remnants, List.mem_append, ih, List.exists_mem_cons_iff, Option.mem_toList]

mutual

theorem remnant?_subset : ∀ (selection : Selection) {type : String} {remnant : Remnant},
    pruner.remnant? type selection = some remnant →
      remnant.spreads ⊆ selection.spreads ∧ remnant.variableNames ⊆ selection.variableNames
  | .field head selections, type, remnant, h => by
    rw [remnant?] at h
    split at h
    · split at h
      · cases h
        exact ⟨List.nil_subset _, List.subset_append_left _ _⟩
      · split at h
        · next composed _ =>
          cases h
          obtain ⟨hspreads, hvariables⟩ := remnants_subset selections composed.returnType
          exact ⟨hspreads, append_subset_append (List.Subset.refl _) hvariables⟩
        · cases h
          rw [Remnant.variableNames, Remnant.variablesOf, List.append_nil]
          exact ⟨List.nil_subset _, List.subset_append_left _ _⟩
    · cases h
  | .spread fragment directives, type, remnant, h => by
    have hremnant : remnant = .spread fragment directives := by
      rw [remnant?] at h
      grind
    rw [hremnant]
    exact ⟨List.Subset.refl _, List.Subset.refl _⟩
  | .inline condition directives selections, type, remnant, h => by
    rw [remnant?] at h
    split at h
    · cases h
      obtain ⟨hspreads, hvariables⟩ := remnants_subset selections (condition.getD type)
      exact ⟨hspreads, append_subset_append (List.Subset.refl _) hvariables⟩
    · cases h

theorem remnants_subset : ∀ (selections : List Selection) (type : String),
    Remnant.spreadsOf (pruner.remnants type selections) ⊆ Selection.spreadsOf selections ∧
      Remnant.variablesOf (pruner.remnants type selections) ⊆ Selection.variablesOf selections
  | [], _ => ⟨List.Subset.refl _, List.Subset.refl _⟩
  | selection :: rest, type => by
    obtain ⟨hspreads, hvariables⟩ := remnants_subset rest type
    rw [remnants]
    cases hremnant : pruner.remnant? type selection with
    | none =>
      exact ⟨List.subset_append_of_subset_right _ hspreads, List.subset_append_of_subset_right _ hvariables⟩
    | some remnant =>
      obtain ⟨hfirst, hnames⟩ := remnant?_subset selection hremnant
      exact ⟨append_subset_append hfirst hspreads, append_subset_append hnames hvariables⟩

end

/-! ## Pruning by remnants -/

/-- The level `kept` with `__typename` under the label of a field, unless it selects a field of the response
key plainly. -/
def keepTypename (kept : List Selection) (head : FieldHead) : List Selection :=
  if selects kept head.responseKey then kept else kept ++ [typenameAs head.label]

mutual

/-- The level `kept` extended by what becomes of one more remnant. -/
def pruneRemnant (pruner : Pruner) (type : String) (kept : List Selection) :
    Remnant → Except SynthesisError (List Selection)
  | .leaf head =>
    if head.name = typenameField then .ok (keepTypename kept head)
    else .ok (kept ++ [.field head []])
  | .field head below =>
    if head.name = typenameField then .ok (keepTypename kept head)
    else do
      let inner ← pruner.returnType type head.name
      let level ← pruner.pruneRemnants inner [] below
      return kept ++ [.field head (pruner.complete inner level)]
  | .spread fragment directives =>
    if (pruner.client.fragment? fragment).isSome then .ok (kept ++ [.spread fragment directives])
    else .error (.unknownFragment fragment)
  | .inline condition directives below => do
    let level ← pruner.pruneRemnants (condition.getD type) [] below
    return kept ++ [.inline condition directives (pruner.complete (condition.getD type) level)]

def pruneRemnants (pruner : Pruner) (type : String) (kept : List Selection) :
    List Remnant → Except SynthesisError (List Selection)
  | [] => .ok kept
  | remnant :: rest => do
    let kept ← pruner.pruneRemnant type kept remnant
    pruner.pruneRemnants type kept rest

end

/-- Whatever is written at a `__typename` or below it, no more than its label is kept. -/
theorem pruneRemnant_typename {type : String} {kept : List Selection} {field : Field}
    (h : field.head.name = typenameField) :
    pruner.pruneRemnant type kept (pruner.fieldRemnant type field) = .ok (keepTypename kept field.head) := by
  rcases pruner.fieldRemnant_cases type field with hleaf | ⟨below, hbelow⟩
  · rw [hleaf, pruneRemnant, if_pos h]
  · rw [hbelow, pruneRemnant, if_pos h]

mutual

theorem pruneSelection_eq : ∀ (selection : Selection) (type : String) (kept : List Selection),
    pruner.pruneSelection type kept selection =
      (pruner.remnant? type selection).elim (.ok kept) (pruner.pruneRemnant type kept)
  | .field head selections, type, kept => by
    rw [pruneSelection]
    split
    · next htypename =>
      have hremnant := pruner.remnant?_field type head selections
      rw [if_pos (.inl htypename)] at hremnant
      rw [hremnant, Option.elim_some, pruneRemnant_typename htypename, keepTypename]
      split <;> rfl
    · next htypename =>
      split
      · next hselect =>
        have hremnant := pruner.remnant?_field type head selections
        rw [if_pos (.inr hselect)] at hremnant
        rw [hremnant, Option.elim_some, fieldRemnant, Field.name]
        dsimp only
        split
        · rw [pruneRemnant, if_neg htypename]
        · cases hfield : pruner.schema.field? type head.name with
          | none =>
            rw [pruneRemnant, if_neg htypename, returnType, hfield]
            rfl
          | some composed =>
            rw [pruneRemnant, if_neg htypename, returnType, hfield]
            dsimp only [bind, Except.bind]
            rw [pruneSelections_eq selections]
      · next hselect => rw [remnant?_field, if_neg (not_or.mpr ⟨htypename, hselect⟩), Option.elim_none]
  | .spread fragment directives, type, kept => by
    rw [pruneSelection, remnant?]
    cases hfragment : pruner.client.fragment? fragment with
    | none => simp [pruneRemnant, hfragment]
    | some definition =>
      dsimp only
      split
      · simp [pruneRemnant, hfragment]
      · rfl
  | .inline condition directives selections, type, kept => by
    rw [pruneSelection, remnant?]
    split
    · rw [pruneSelections_eq selections, Option.elim_some, pruneRemnant]
    · rfl

/-- Pruning looks at the remnants alone. -/
theorem pruneSelections_eq : ∀ (selections : List Selection) (type : String) (kept : List Selection),
    pruner.pruneSelections type kept selections =
      pruner.pruneRemnants type kept (pruner.remnants type selections)
  | [], _, _ => rfl
  | selection :: rest, type, kept => by
    rw [pruneSelections, pruneSelection_eq selection, remnants]
    cases pruner.remnant? type selection with
    | none => exact pruneSelections_eq rest type kept
    | some remnant =>
      rw [Option.toList_some, List.singleton_append, pruneRemnants]
      exact congrArg _ (funext fun next => pruneSelections_eq rest type next)

end

theorem pruneField_of_leaf {type : String} {field : Field} {head : FieldHead}
    (h : pruner.fieldRemnant type field = .leaf head) : pruner.pruneField type field = .ok ⟨head, []⟩ := by
  obtain ⟨_, selections⟩ := field
  rw [fieldRemnant] at h
  split at h
  · next hempty =>
    cases h
    cases List.isEmpty_iff.mp hempty
    rfl
  · split at h <;> cases h

theorem pruneField_of_field {type : String} {field : Field} {head : FieldHead} {below : List Remnant}
    (h : pruner.fieldRemnant type field = .field head below) : pruner.pruneField type field = do
      let inner ← pruner.returnType type head.name
      let level ← pruner.pruneRemnants inner [] below
      return ⟨head, pruner.complete inner level⟩ := by
  obtain ⟨written, selections⟩ := field
  rw [fieldRemnant, Field.name] at h
  split at h
  · cases h
  · next hempty =>
    rw [pruneField, Field.name, if_neg hempty]
    dsimp only at h ⊢
    cases hfield : pruner.schema.field? type written.name with
    | none =>
      rw [hfield] at h
      cases h
      simp only [returnType, hfield]
      rfl
    | some composed =>
      rw [hfield] at h
      cases h
      simp only [returnType, hfield, prune, pruneSelections_eq, bind_assoc, pure_bind]
      rfl

mutual

theorem pruneRemnant_congr {other : ClientOperation} : ∀ (remnant : Remnant) (type : String)
    (kept : List Selection), (∀ name ∈ remnant.spreads,
      (other.fragment? name).isSome = (pruner.client.fragment? name).isSome) →
    { pruner with client := other }.pruneRemnant type kept remnant = pruner.pruneRemnant type kept remnant
  | .leaf _, _, _, _ => by rw [pruneRemnant, pruneRemnant]
  | .field head below, type, kept, h => by
    have hbelow := fun inner => pruneRemnants_congr below inner [] h
    rw [pruneRemnant, pruneRemnant]
    simp only [hbelow]
    rfl
  | .spread fragment directives, type, kept, h => by
    rw [pruneRemnant, pruneRemnant, h fragment (List.mem_singleton_self _)]
  | .inline condition directives below, type, kept, h => by
    rw [pruneRemnant, pruneRemnant, pruneRemnants_congr below _ [] h]
    rfl

/-- Of the client, pruning by remnants asks no more than which spreads are defined. -/
theorem pruneRemnants_congr {other : ClientOperation} : ∀ (remnants : List Remnant) (type : String)
    (kept : List Selection), (∀ name ∈ Remnant.spreadsOf remnants,
      (other.fragment? name).isSome = (pruner.client.fragment? name).isSome) →
    { pruner with client := other }.pruneRemnants type kept remnants =
      pruner.pruneRemnants type kept remnants
  | [], _, _, _ => by rw [pruneRemnants, pruneRemnants]
  | remnant :: rest, type, kept, h => by
    rw [Remnant.spreadsOf, List.forall_mem_append] at h
    rw [pruneRemnants, pruneRemnants, pruneRemnant_congr remnant type kept h.1]
    exact congrArg _ (funext fun next => pruneRemnants_congr rest type next h.2)

end

/-! ## What is left lies within the remnants -/

/-- A level has no names but those of the remnants of the client's selections. -/
def Within (pruner : Pruner) (type : String) (client level : List Selection) : Prop :=
  Confined (· ∈ Remnant.spreadsOf (pruner.remnants type client))
    (· ∈ Remnant.variablesOf (pruner.remnants type client)) level

theorem exists_remnant {type : String} {source left : Selection}
    (hadmits : pruner.admits type source = true)
    (h : Trimmed pruner.schema (pruner.Below pruner.Within) type source left) :
    ∃ remnant, pruner.remnant? type source = some remnant ∧
      (∀ name ∈ left.spreads, name ∈ remnant.spreads) ∧
      ∀ name ∈ left.variableNames, name ∈ remnant.variableNames := by
  cases h with
  | @leaf head =>
    simp only [admits, decide_eq_true_eq] at hadmits
    refine ⟨.leaf head, ?_, by simp [Selection.spreads, Selection.spreadsOf], ?_⟩
    · rw [remnant?_field, if_pos (.inr hadmits.2)]
      rfl
    · simp [Selection.variableNames, Selection.variablesOf, Remnant.variableNames]
  | @nested head client level composed hclient hfield hbelow =>
    simp only [admits, decide_eq_true_eq] at hadmits
    obtain ⟨_, hwithin⟩ := hbelow
    refine ⟨.field head (pruner.remnants composed.returnType client), ?_, hwithin.spreads, ?_⟩
    · rw [remnant?_field, if_pos (.inr hadmits.2), fieldRemnant, Field.name]
      simp [hclient, hfield]
    · intro name hmem
      rw [Selection.variableNames, List.mem_append] at hmem
      exact List.mem_append.mpr (hmem.imp_right (hwithin.mentions name))
  | @spread fragment directives =>
    refine ⟨.spread fragment directives, ?_, fun _ => id, fun _ => id⟩
    rw [remnant?]
    cases hfragment : pruner.client.fragment? fragment with
    | none => rfl
    | some definition =>
      simp only [admits, hfragment] at hadmits
      simp [hadmits]
  | @inline condition directives client level hbelow =>
    obtain ⟨_, hwithin⟩ := hbelow
    refine ⟨.inline condition directives (pruner.remnants (condition.getD type) client), ?_,
      hwithin.spreads, ?_⟩
    · rw [remnant?]
      exact if_pos hadmits
    · intro name hmem
      rw [Selection.variableNames, List.mem_append] at hmem
      exact List.mem_append.mpr (hmem.imp_right (hwithin.mentions name))

theorem within_of_prune {type : String} {client level : List Selection}
    (h : pruner.prune type client = .ok level) : pruner.Within type client level := by
  refine prune_induction ?_ h
  intro type client kept hsteps
  apply Confined.of_forall
  intro left hmem
  rcases of_mem_complete hmem with hkept | ⟨name, rfl, _⟩
  · rcases hsteps.exists_source left hkept with hnil | ⟨head, _, _, _, rfl⟩ | ⟨source, hin, hadmits, htrimmed⟩
    · cases hnil
    · exact ⟨List.forall_mem_nil _, List.forall_mem_nil _⟩
    · obtain ⟨remnant, hremnant, hspreads, hvariables⟩ := exists_remnant hadmits htrimmed
      have hremnant := mem_remnants.mpr ⟨source, hin, hremnant⟩
      constructor
      · intro name hname
        exact Remnant.mem_spreadsOf.mpr ⟨remnant, hremnant, hspreads name hname⟩
      · intro name hname
        exact Remnant.mem_variablesOf.mpr ⟨remnant, hremnant, hvariables name hname⟩
  · -- What completion appends has no names of its own.
    exact ⟨List.forall_mem_nil _, List.forall_mem_nil _⟩

theorem spreadsOf_subset_of_prune {type : String} {client level : List Selection}
    (h : pruner.prune type client = .ok level) :
    Selection.spreadsOf level ⊆ Selection.spreadsOf client :=
  fun name hname => (remnants_subset client type).1 ((within_of_prune h).spreads name hname)

theorem variablesOf_subset_of_prune {type : String} {client level : List Selection}
    (h : pruner.prune type client = .ok level) :
    Selection.variablesOf level ⊆ Selection.variablesOf client :=
  fun name hname => (remnants_subset client type).2 ((within_of_prune h).mentions name hname)

theorem within_of_pruneField {type : String} {field delegated : Field}
    (h : pruner.pruneField type field = .ok delegated) :
    (∀ name ∈ delegated.toSelection.spreads, name ∈ (pruner.fieldRemnant type field).spreads) ∧
      ∀ name ∈ delegated.toSelection.variableNames,
        name ∈ (pruner.fieldRemnant type field).variableNames := by
  obtain ⟨hempty, rfl⟩ | ⟨hne, composed, level, hcomposed, hlevel, rfl⟩ := pruneField_eq_ok h
  · rw [fieldRemnant, if_pos (List.isEmpty_iff.mpr hempty), Field.toSelection, hempty]
    simp [Selection.spreads, Selection.spreadsOf, Selection.variableNames, Selection.variablesOf,
      Remnant.variableNames]
  · have hwithin := within_of_prune hlevel
    rw [fieldRemnant, if_neg (fun hempty => hne (List.isEmpty_iff.mp hempty)), hcomposed]
    refine ⟨hwithin.spreads, ?_⟩
    intro name hmem
    rw [Field.toSelection, Selection.variableNames, List.mem_append] at hmem
    exact List.mem_append.mpr (hmem.imp_right (hwithin.mentions name))

end Pruner

end Supergraph
