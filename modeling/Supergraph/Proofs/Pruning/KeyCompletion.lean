import Supergraph.Proofs.Pruning.ResponseKeys
import Supergraph.Proofs.Pruning.Exactness

/-!
Key completion: whether the answer to a level has the keys of its object, whatever the variables are.

Completion leaves a key alone that the client selects plainly, and such a selection may carry directives,
which the service may take for a reason not to answer it.

1. `levelwise_of_prune` and `exists_source_of_levelIn`: the levels of a result are the results of the
   levels of the client that stay.
2. `fetchesKeys_iff`: one level fetches its keys exactly if the client guards none of them.
3. `fetchesKeys_prune_iff` puts both together, and `key_guarded` is a level that misses its key.
-/

namespace Supergraph

open GraphQL

/-- A level of selections on a type, with the type that it is on: the selections themselves, and what
stands in braces in a field or in an inline fragment of a level. -/
inductive LevelIn (schema : Schema) :
    String → List Selection → String → List Selection → Prop
  | here {type : String} {level : List Selection} : LevelIn schema type level type level
  | field {type inner : String} {level selections found : List Selection} {head : FieldHead}
      {composed : SchemaField} : .field head selections ∈ level → selections ≠ [] →
      schema.field? type head.name = some composed →
      LevelIn schema composed.returnType selections inner found → LevelIn schema type level inner found
  | inline {type inner : String} {level selections found : List Selection} {condition : Option String}
      {directives : List Directive} : .inline condition directives selections ∈ level →
      LevelIn schema (condition.getD type) selections inner found → LevelIn schema type level inner found

namespace Pruner

variable {pruner : Pruner} {type inner : String} {client level : List Selection}

/-! ## The levels of a result -/

theorem steps_of_prune (h : pruner.prune type client = .ok level) :
    ∃ kept, Steps pruner (fun type client level => pruner.prune type client = .ok level) type [] client
      kept ∧ pruner.complete type kept = level := by
  obtain ⟨kept, hkept, heq⟩ := prune_eq_ok.mp h
  have hsteps : Steps pruner (pruner.Below fun _ _ _ => True) type [] client kept :=
    steps_of_pruneSelections (fun _ _ _ _ => trivial) client hkept
  exact ⟨kept, hsteps.mono fun _ _ _ hbelow => hbelow.1, heq⟩

theorem exists_source_of_prune (h : pruner.prune type client = .ok level) {left : Selection}
    (hmem : left ∈ level) :
    (∃ head, left = .field head []) ∨ ∃ source ∈ client, pruner.admits type source = true ∧
      Trimmed pruner.schema (fun type client level => pruner.prune type client = .ok level) type
        source left := by
  obtain ⟨kept, hsteps, rfl⟩ := steps_of_prune h
  rcases of_mem_complete hmem with hkept | ⟨name, rfl, _⟩
  · rcases hsteps.exists_source left hkept with hnone | ⟨_, _, _, _, rfl⟩ | hsource
    · cases hnone
    · exact .inl ⟨_, rfl⟩
    · exact .inr hsource
  · exact .inl ⟨_, rfl⟩

theorem mem_keptAmong {entry : String × List Selection} :
    entry ∈ pruner.keptAmong type client ↔
      ∃ selection ∈ client, entry ∈ pruner.keptBelow type selection := by
  induction client with
  | nil => simp [keptAmong]
  | cons selection rest ih => rw [keptAmong, List.mem_append, ih, List.exists_mem_cons_iff]

theorem keptBelow_field {head : FieldHead} {selections : List Selection} {composed : SchemaField}
    (hadmits : pruner.admits type (.field head selections) = true)
    (hfield : pruner.schema.field? type head.name = some composed) :
    pruner.keptBelow type (.field head selections) =
      (composed.returnType, selections) :: pruner.keptAmong composed.returnType selections := by
  rw [keptBelow, if_pos hadmits, hfield]

theorem keptBelow_inline {condition : Option String} {directives : List Directive}
    {selections : List Selection}
    (hadmits : pruner.admits type (.inline condition directives selections) = true) :
    pruner.keptBelow type (.inline condition directives selections) =
      (condition.getD type, selections) :: pruner.keptAmong (condition.getD type) selections := by
  rw [keptBelow, if_pos hadmits]

/-- Every level of a result is the result of a level of the client that stays. -/
theorem exists_source_of_levelIn {found : List Selection} (h : LevelIn pruner.schema type level inner found) :
    ∀ {client}, pruner.prune type client = .ok level →
      ∃ source, (inner, source) ∈ (type, client) :: pruner.keptAmong type client ∧
        pruner.prune inner source = .ok found := by
  induction h with
  | here =>
    intro client hprune
    exact ⟨client, List.mem_cons_self, hprune⟩
  | field hmem hne hfield _ ih =>
    intro client hprune
    rcases exists_source_of_prune hprune hmem with ⟨_, hleaf⟩ | ⟨source, hin, hadmits, htrimmed⟩
    · cases hleaf
      contradiction
    · cases htrimmed with
      | leaf => contradiction
      | nested _ hfield' hbelow =>
        cases hfield.symm.trans hfield'
        obtain ⟨found, hkept, hfound⟩ := ih hbelow
        rw [← keptBelow_field hadmits hfield] at hkept
        exact ⟨found, List.mem_cons_of_mem _ (mem_keptAmong.mpr ⟨_, hin, hkept⟩), hfound⟩
  | inline hmem _ ih =>
    intro client hprune
    rcases exists_source_of_prune hprune hmem with ⟨_, hleaf⟩ | ⟨source, hin, hadmits, htrimmed⟩
    · cases hleaf
    · cases htrimmed with
      | inline hbelow =>
        obtain ⟨found, hkept, hfound⟩ := ih hbelow
        rw [← keptBelow_inline hadmits] at hkept
        exact ⟨found, List.mem_cons_of_mem _ (mem_keptAmong.mpr ⟨_, hin, hkept⟩), hfound⟩

/-- Every level of the client that stays has its result among the levels of the result. -/
def Levelwise (pruner : Pruner) (type : String) (client level : List Selection) : Prop :=
  ∀ entry ∈ pruner.keptAmong type client, entry.2 = [] ∨
    ∃ found, LevelIn pruner.schema type level entry.1 found ∧ pruner.prune entry.1 entry.2 = .ok found

theorem levelwise_of_prune (h : pruner.prune type client = .ok level) :
    pruner.Levelwise type client level := by
  apply prune_induction _ h
  intro type client kept hsteps entry hentry
  obtain ⟨source, hin, hbelow⟩ := mem_keptAmong.mp hentry
  have hadmits : pruner.admits type source = true := by
    by_contra hnot
    rw [keptBelow_of_not_admits (Bool.not_eq_true _ ▸ hnot)] at hbelow
    cases hbelow
  obtain ⟨left, hleft, htrimmed⟩ := hsteps.exists_left hin hadmits
  have hmem : left ∈ pruner.complete type kept := mem_complete_of_mem hleft
  cases htrimmed with
  | @leaf head =>
    left
    rw [keptBelow, if_pos hadmits] at hbelow
    cases hfield : pruner.schema.field? type head.name with
    | none => simp [hfield] at hbelow
    | some composed =>
      simp only [hfield, keptAmong, List.mem_singleton] at hbelow
      rw [hbelow]
  | nested _ hfield hresult =>
    rw [keptBelow_field hadmits hfield] at hbelow
    have hne := ne_nil_of_prune hresult.1
    rcases List.mem_cons.mp hbelow with rfl | hbelow
    · exact .inr ⟨_, .field hmem hne hfield .here, hresult.1⟩
    · refine (hresult.2 entry hbelow).imp_right ?_
      rintro ⟨found, hfound, hprune⟩
      exact ⟨found, .field hmem hne hfield hfound, hprune⟩
  | spread => cases hbelow
  | inline hresult =>
    rw [keptBelow_inline hadmits] at hbelow
    rcases List.mem_cons.mp hbelow with rfl | hbelow
    · exact .inr ⟨_, .inline hmem .here, hresult.1⟩
    · refine (hresult.2 entry hbelow).imp_right ?_
      rintro ⟨found, hfound, hprune⟩
      exact ⟨found, .inline hmem hfound, hprune⟩

/-! ## The keys of one level -/

/-- A level selects each key that completes its type under its own name and unconditionally. -/
def KeysPlain (pruner : Pruner) (type : String) (level : List Selection) : Prop :=
  ∀ key ∈ pruner.index.keysOf type, pruner.completes type key = true →
    ∃ head selections, .field head selections ∈ level ∧ head.name = key ∧ head.responseKey = key ∧
      head.directives = []

/-- A level of the client selects a key under its own name, but never without directives. -/
def Guards (pruner : Pruner) (type : String) (client : List Selection) : Prop :=
  ∃ key ∈ pruner.index.keysOf type, pruner.completes type key = true ∧ key ≠ typenameField ∧
    selects client key = true ∧ ∀ head selections, .field head selections ∈ client →
      head.name = key → head.responseKey = key → head.directives ≠ []

section Level

variable {below : String → List Selection → List Selection → Prop} {kept : List Selection}

/-- The fields of a name that the service can be asked for are left with all that is written at them. -/
theorem Steps.exists_field_iff (h : Steps pruner below type [] client kept) {head : FieldHead}
    (hname : head.name ≠ typenameField)
    (hselect : pruner.service.shape.canSelect type head.name = true) :
    (∃ selections, .field head selections ∈ kept) ↔ ∃ selections, .field head selections ∈ client := by
  constructor
  · rintro ⟨selections, hmem⟩
    rcases h.exists_source _ hmem with hnone | ⟨_, _, _, _, heq⟩ | ⟨source, hin, _, htrimmed⟩
    · cases hnone
    · cases heq
      exact absurd rfl hname
    · cases htrimmed with
      | leaf => exact ⟨_, hin⟩
      | nested => exact ⟨_, hin⟩
  · rintro ⟨selections, hmem⟩
    obtain ⟨left, hleft, htrimmed⟩ := h.exists_left hmem (decide_eq_true ⟨hname, hselect⟩)
    cases htrimmed with
    | leaf => exact ⟨_, hleft⟩
    | nested => exact ⟨_, hleft⟩

theorem Steps.selects_eq (h : Steps pruner below type [] client kept) {key : String}
    (hcompletes : pruner.completes type key = true) (hkey : key ≠ typenameField) :
    selects kept key = true ↔ selects client key = true := by
  have hselect := canSelect_of_completes hcompletes
  rw [selects_iff, selects_iff]
  constructor
  · rintro ⟨head, selections, hmem, rfl, hresponse⟩
    obtain ⟨others, hin⟩ := (h.exists_field_iff hkey hselect).mp ⟨selections, hmem⟩
    exact ⟨head, others, hin, rfl, hresponse⟩
  · rintro ⟨head, selections, hmem, rfl, hresponse⟩
    obtain ⟨others, hin⟩ := (h.exists_field_iff hkey hselect).mpr ⟨selections, hmem⟩
    exact ⟨head, others, hin, rfl, hresponse⟩

/-- What completes a level is selected without directives unless the client guards it. -/
theorem keysPlain_iff (h : pruner.prune type client = .ok level) :
    pruner.KeysPlain type level ↔ ¬ pruner.Guards type client := by
  obtain ⟨kept, hsteps, rfl⟩ := steps_of_prune h
  constructor
  · rintro hplain ⟨key, hin, hcompletes, hkey, hselects, hguarded⟩
    obtain ⟨head, selections, hmem, rfl, hresponse, hdirectives⟩ := hplain key hin hcompletes
    rcases field_of_mem_complete hmem with hkept | ⟨name, rfl, _, hnot⟩
    · have hselect := canSelect_of_completes hcompletes
      obtain ⟨others, hclient⟩ := (hsteps.exists_field_iff hkey hselect).mp ⟨selections, hkept⟩
      exact hguarded head others hclient rfl hresponse hdirectives
    · -- The key would only be appended if the client did not select it.
      rw [← hsteps.selects_eq hcompletes hkey] at hselects
      exact absurd hselects (Bool.not_eq_true _ ▸ hnot)
  · intro hguards key hin hcompletes
    have hcompleting : pruner.Completing type key := .inr ⟨hin, hcompletes⟩
    obtain ⟨head, selections, hmem, hname, hresponse⟩ := selects_iff.mp (selects_complete kept hcompleting)
    rcases field_of_mem_complete hmem with hkept | ⟨name, rfl, _, _⟩
    · by_cases hkey : key = typenameField
      · -- A `__typename` of the client loses its directives.
        have htypename : isTypename (.field head selections) = true := decide_eq_true (hname.trans hkey)
        obtain ⟨label, heq⟩ := hsteps.labels_only (by simp) _ hkept htypename
        cases heq
        exact ⟨_, _, hmem, hname, hresponse, rfl⟩
      · by_contra hnone
        refine hguards ⟨key, hin, hcompletes, hkey, ?_, ?_⟩
        · rw [← hsteps.selects_eq hcompletes hkey]
          exact selects_iff.mpr ⟨head, selections, hkept, hname, hresponse⟩
        · rintro other others hclient rfl hother hdirectives
          have hselect := canSelect_of_completes hcompletes
          obtain ⟨left, hleft⟩ := (hsteps.exists_field_iff hkey hselect).mpr ⟨others, hclient⟩
          exact hnone ⟨other, left, mem_complete_of_mem hleft, rfl, hother, hdirectives⟩
    · exact ⟨_, _, hmem, hname, hresponse, rfl⟩

end Level

/-! ## Whole results -/

/-- At every level, each key that completes it is selected under its own name and unconditionally. -/
def FetchesKeys (pruner : Pruner) (type : String) (level : List Selection) : Prop :=
  ∀ inner found, LevelIn pruner.schema type level inner found → pruner.KeysPlain inner found

/-- At no level that stays the client guards a key. -/
def Unguarded (pruner : Pruner) (type : String) (client : List Selection) : Prop :=
  ∀ entry ∈ (type, client) :: pruner.keptAmong type client, ¬ pruner.Guards entry.1 entry.2

theorem not_guards_nil : ¬ pruner.Guards type [] := by
  rintro ⟨_, _, _, _, hselects, _⟩
  cases hselects

theorem fetchesKeys_iff (h : pruner.prune type client = .ok level) :
    pruner.FetchesKeys type level ↔ pruner.Unguarded type client := by
  constructor
  · intro hfetches
    rw [Unguarded, List.forall_mem_cons]
    refine ⟨(keysPlain_iff h).mp (hfetches _ _ .here), ?_⟩
    intro entry hentry
    rcases levelwise_of_prune h entry hentry with hnil | ⟨found, hfound, hprune⟩
    · rw [hnil]
      exact not_guards_nil
    · exact (keysPlain_iff hprune).mp (hfetches _ _ hfound)
  · intro hunguarded inner found hfound
    obtain ⟨source, hkept, hprune⟩ := exists_source_of_levelIn hfound h
    exact (keysPlain_iff hprune).mpr (hunguarded _ hkept)

/-- A result and the fragments that it reaches select each key that completes a level under its own name
and unconditionally, at every level, if and only if the client guards none of them at a level that
stays. -/
theorem fetchesKeys_prune_iff (h : pruner.prune type client = .ok level) :
    (pruner.FetchesKeys type level ↔ pruner.Unguarded type client) ∧
      ∀ fragments, pruner.fragmentClosure level = .ok fragments → ∀ fragment ∈ fragments,
        ∃ name definition, pruner.client.fragment? name = some definition ∧
          fragment = { definition with selections := fragment.selections } ∧
          (pruner.FetchesKeys definition.condition fragment.selections ↔
            pruner.Unguarded definition.condition definition.selections) := by
  refine ⟨fetchesKeys_iff h, ?_⟩
  intro fragments hclosure fragment hmem
  obtain ⟨entered, rfl, closure⟩ := fragmentClosure_eq_ok hclosure
  obtain ⟨⟨name, collected⟩, hentry, rfl⟩ := List.mem_map.mp hmem
  obtain ⟨definition, hdefinition, hpruned⟩ := closure.pruned _ hentry
  obtain ⟨heq, hbody⟩ := pruneFragment_eq_ok hpruned
  exact ⟨name, definition, hdefinition, heq, fetchesKeys_iff hbody⟩

/-- The body of a review, and its key under a directive of the client. -/
def guardedKey : List Selection :=
  [.field { FieldHead.bare "id" with directives := [⟨"include", [("if", .variable "full")]⟩] } [],
    .bare "body"]

/-- The author of a review, whose key is selected once without a directive, too. -/
theorem fetchesKeys_prune_author :
    let client : List Selection := [.field (.bare "author") (.bare "id" :: guardedKey)]
    let pruner := Sample.pruner Sample.reviews
    ∃ level, pruner.prune "Review" client = .ok level ∧ pruner.Unguarded "Review" client ∧
      pruner.FetchesKeys "Review" level := by
  intro client pruner
  have hclient : ∃ level, pruner.prune "Review" client = .ok level := ⟨_, rfl⟩
  obtain ⟨level, h⟩ := hclient
  have hkept : pruner.keptAmong "Review" client =
      [("User", .bare "id" :: guardedKey), ("ID", []), ("ID", [])] := by rfl
  have hreview : pruner.index.keysOf "Review" = ["id"] := by decide +kernel
  have huser : pruner.index.keysOf "User" = ["id"] := by decide +kernel
  have hunguarded : pruner.Unguarded "Review" client := by
    rw [Unguarded, hkept]
    simp only [List.forall_mem_cons, List.not_mem_nil, false_implies, implies_true, and_true]
    refine ⟨?_, ?_, ?_⟩
    · rintro ⟨key, hin, _, _, hselects, _⟩
      rw [hreview] at hin
      cases List.mem_singleton.mp hin
      cases hselects
    · rintro ⟨key, hin, _, _, _, hguarded⟩
      rw [huser] at hin
      cases List.mem_singleton.mp hin
      exact hguarded (.bare "id") [] List.mem_cons_self rfl rfl rfl
    · exact ⟨not_guards_nil, not_guards_nil⟩
  exact ⟨level, h, hunguarded, (fetchesKeys_prune_iff h).1.mpr hunguarded⟩

/-- The key is left alone because the client selects it, and the answer has no `id` where the client does
not want it. -/
theorem key_guarded :
    ∃ level, (Sample.pruner Sample.reviews).prune "Review" guardedKey = .ok level ∧
      (Sample.pruner Sample.reviews).completes "Review" "id" = true ∧
      ¬ (Sample.pruner Sample.reviews).FetchesKeys "Review" level := by
  have h : (Sample.pruner Sample.reviews).prune "Review" guardedKey =
      .ok (guardedKey ++ [.bare "__typename"]) := by rfl
  have hin : "id" ∈ (Sample.pruner Sample.reviews).index.keysOf "Review" := by decide +kernel
  have hcompletes : (Sample.pruner Sample.reviews).completes "Review" "id" = true := by decide +kernel
  refine ⟨_, h, hcompletes, ?_⟩
  rw [fetchesKeys_iff h]
  intro hunguarded
  refine hunguarded _ List.mem_cons_self ⟨"id", hin, hcompletes, by decide, rfl, ?_⟩
  intro head selections hmem hname _
  rcases List.mem_cons.mp hmem with heq | hmem
  · cases heq
    simp
  · cases List.mem_singleton.mp hmem
    exact absurd hname (by decide)

end Pruner

end Supergraph
