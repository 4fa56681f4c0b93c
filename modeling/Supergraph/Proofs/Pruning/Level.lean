import Supergraph.Pruning
import Supergraph.Proofs.Outcome

/-!
Pruning one level: what becomes of each of its selections, and what completion appends.

`Step` says what becomes of one selection, and `Steps.exists_source` and `Steps.exists_left` where what is
left comes from and what of the client is left. `prune_induction` carries a property of the nested levels to
the level that they stand in: it is the induction that every statement about whole results goes by.
`complete_eq_append` says what a level is completed by.
-/

namespace Supergraph

open GraphQL

def isTypename : Selection → Bool
  | .field head _ => head.name = typenameField
  | _ => false

/-- `__typename` under a label, without anything else that a field may have. -/
def typenameAs (label : Option String) : Selection :=
  .field { FieldHead.bare typenameField with label } []

@[simp] theorem isTypename_typenameAs (label : Option String) : isTypename (typenameAs label) = true := by
  simp [isTypename, typenameAs, FieldHead.bare]

theorem isTypename_bare {name : String} : isTypename (.bare name) = decide (name = typenameField) := rfl

/-! ## Plain selections -/

theorem selectsPlainly_iff {name : String} {selection : Selection} :
    selectsPlainly name selection = true ↔
      ∃ head selections, selection = .field head selections ∧ head.name = name ∧
        head.responseKey = name := by
  cases selection <;> simp [selectsPlainly]

theorem selects_iff {level : List Selection} {name : String} :
    selects level name = true ↔
      ∃ head selections, .field head selections ∈ level ∧ head.name = name ∧
        head.responseKey = name := by
  rw [selects, List.any_eq_true]
  refine ⟨?_, ?_⟩
  · intro h
    obtain ⟨selection, hmem, hplain⟩ := h
    obtain ⟨head, selections, rfl, hname, hkey⟩ := selectsPlainly_iff.mp hplain
    exact ⟨head, selections, hmem, hname, hkey⟩
  · intro h
    obtain ⟨head, selections, hmem, hname, hkey⟩ := h
    exact ⟨_, hmem, selectsPlainly_iff.mpr ⟨head, selections, rfl, hname, hkey⟩⟩

theorem selects_append (first second : List Selection) (name : String) :
    selects (first ++ second) name = (selects first name || selects second name) :=
  List.any_append

theorem selects_bare (name : String) : selects [.bare name] name = true :=
  selects_iff.mpr ⟨.bare name, [], List.mem_singleton_self _, rfl, rfl⟩

namespace Pruner

/-! ## Completion -/

theorem ensure_of_selects {level : List Selection} {name : String} (h : selects level name = true) :
    ensure level name = level := by
  rw [ensure, if_pos h]

theorem ensure_of_not_selects {level : List Selection} {name : String}
    (h : selects level name = false) : ensure level name = level ++ [.bare name] := by
  rw [ensure, h, if_neg Bool.false_ne_true]

theorem selects_ensure (level : List Selection) (name : String) :
    selects (ensure level name) name = true := by
  cases h : selects level name with
  | true => rw [ensure_of_selects h, h]
  | false => rw [ensure_of_not_selects h, selects_append, selects_bare, Bool.or_true]

/-- Ensuring several names appends some of them, each once, and each of which the level does not
select plainly. -/
theorem foldl_ensure_eq_append : ∀ (names : List String) (level : List Selection),
    ∃ added : List String, names.foldl ensure level = level ++ added.map Selection.bare ∧
      added.Nodup ∧ ∀ name ∈ added, name ∈ names ∧ selects level name = false
  | [], level => ⟨[], by simp, .nil, by simp⟩
  | name :: names, level => by
    obtain ⟨added, heq, hnodup, hadded⟩ := foldl_ensure_eq_append names (ensure level name)
    rw [List.foldl_cons, heq]
    cases h : selects level name with
    | true =>
      rw [ensure_of_selects h] at hadded ⊢
      refine ⟨added, rfl, hnodup, ?_⟩
      intro other hmem
      exact ⟨List.mem_cons_of_mem _ (hadded other hmem).1, (hadded other hmem).2⟩
    | false =>
      -- The name is selected from now on, so the names after it do not append it again.
      have hnew : name ∉ added := by
        intro hmem
        have hnot := (hadded name hmem).2
        rw [selects_ensure] at hnot
        cases hnot
      rw [ensure_of_not_selects h] at hadded ⊢
      refine ⟨name :: added, by simp, List.nodup_cons.mpr ⟨hnew, hnodup⟩, ?_⟩
      intro other hmem
      rcases List.mem_cons.mp hmem with rfl | hmem
      · exact ⟨List.mem_cons_self, h⟩
      · obtain ⟨hin, hsel⟩ := hadded other hmem
        rw [selects_append, Bool.or_eq_false_iff] at hsel
        exact ⟨List.mem_cons_of_mem _ hin, hsel.1⟩

theorem selects_foldl_ensure {names : List String} {level : List Selection} {name : String}
    (h : selects level name = true ∨ name ∈ names) :
    selects (names.foldl ensure level) name = true := by
  induction names generalizing level with
  | nil => simpa using h
  | cons first names ih =>
    rw [List.foldl_cons]
    apply ih
    rcases h with h | h
    · left
      unfold ensure
      split
      · exact h
      · rw [selects_append, h, Bool.true_or]
    · rcases List.mem_cons.mp h with rfl | h
      · exact .inl (selects_ensure level name)
      · exact .inr h

/-- Whether a name belongs to what completes the levels of a type. -/
def Completing (pruner : Pruner) (type name : String) : Prop :=
  name = typenameField ∨ name ∈ pruner.index.keysOf type ∧ pruner.completes type name = true

instance (pruner : Pruner) (type name : String) : Decidable (pruner.Completing type name) :=
  inferInstanceAs (Decidable (_ ∨ _ ∧ _))

theorem complete_eq_foldl (pruner : Pruner) (type : String) (level : List Selection) :
    pruner.complete type level =
      (((pruner.index.keysOf type).filter (pruner.completes type)) ++ [typenameField]).foldl
        ensure level := by
  rw [complete, List.foldl_append, List.foldl_cons, List.foldl_nil]

theorem mem_completing {pruner : Pruner} {type name : String} :
    name ∈ (pruner.index.keysOf type).filter (pruner.completes type) ++ [typenameField] ↔
      pruner.Completing type name := by
  rw [List.mem_append, List.mem_filter, List.mem_singleton, Completing, or_comm]

/-- Completion appends names under themselves, each once: keys of the type that the service answers,
and `__typename`, none of which the level selects plainly. -/
theorem complete_eq_append (pruner : Pruner) (type : String) (level : List Selection) :
    ∃ added : List String, pruner.complete type level = level ++ added.map Selection.bare ∧
      added.Nodup ∧ ∀ name ∈ added, pruner.Completing type name ∧ selects level name = false := by
  obtain ⟨added, heq, hnodup, hadded⟩ := foldl_ensure_eq_append
    ((pruner.index.keysOf type).filter (pruner.completes type) ++ [typenameField]) level
  rw [complete_eq_foldl]
  refine ⟨added, heq, hnodup, ?_⟩
  intro name hmem
  obtain ⟨hin, hsel⟩ := hadded name hmem
  exact ⟨mem_completing.mp hin, hsel⟩

theorem mem_complete_of_mem {pruner : Pruner} {type : String} {level : List Selection}
    {selection : Selection} (h : selection ∈ level) : selection ∈ pruner.complete type level := by
  obtain ⟨added, heq, _⟩ := pruner.complete_eq_append type level
  rw [heq]
  exact List.mem_append_left _ h

theorem of_mem_complete {pruner : Pruner} {type : String} {level : List Selection}
    {selection : Selection} (h : selection ∈ pruner.complete type level) :
    selection ∈ level ∨ ∃ name, selection = .bare name ∧ pruner.Completing type name ∧
      selects level name = false := by
  obtain ⟨added, heq, _, hadded⟩ := pruner.complete_eq_append type level
  rw [heq] at h
  rcases List.mem_append.mp h with hmem | hmem
  · exact .inl hmem
  · obtain ⟨name, hname, rfl⟩ := List.mem_map.mp hmem
    exact .inr ⟨name, rfl, hadded name hname⟩

theorem selects_complete {pruner : Pruner} {type name : String} (level : List Selection)
    (h : pruner.Completing type name) : selects (pruner.complete type level) name = true := by
  rw [complete_eq_foldl]
  exact selects_foldl_ensure (.inr (mem_completing.mpr h))

/-! ## The selections of a level -/

/-- Whether the service is asked for a selection on a type: for a field that it can select, or for a
fragment on a type that it knows. `__typename` is apart. -/
def admits (pruner : Pruner) (type : String) : Selection → Bool
  | .field head _ => head.name ≠ typenameField ∧ pruner.service.shape.canSelect type head.name
  | .spread fragment _ =>
    match pruner.client.fragment? fragment with
    | some definition => pruner.service.shape.knows definition.condition
    | none => false
  | .inline condition _ _ => pruner.service.shape.knows (condition.getD type)

theorem isTypename_eq_false_of_admits {pruner : Pruner} {type : String} {selection : Selection}
    (h : pruner.admits type selection = true) : isTypename selection = false := by
  cases selection with
  | field head selections =>
    simp only [admits, decide_eq_true_eq] at h
    simpa [isTypename] using h.1
  | spread => rfl
  | inline => rfl

end Pruner

/-- What is left of a selection on a type: all that is written at it stays, and its sub-selections
are as `below` says on the type that they are on. -/
inductive Trimmed (schema : Schema) (below : String → List Selection → List Selection → Prop) :
    String → Selection → Selection → Prop
  | leaf {type head} : Trimmed schema below type (.field head []) (.field head [])
  | nested {type head client level composed} : client ≠ [] →
      schema.field? type head.name = some composed → below composed.returnType client level →
      Trimmed schema below type (.field head client) (.field head level)
  | spread {type fragment directives} :
      Trimmed schema below type (.spread fragment directives) (.spread fragment directives)
  | inline {type condition directives client level} : below (condition.getD type) client level →
      Trimmed schema below type (.inline condition directives client)
        (.inline condition directives level)

namespace Pruner

/-- One step of pruning: the level `kept` and one more selection give the level that comes next. -/
inductive Step (pruner : Pruner) (below : String → List Selection → List Selection → Prop)
    (type : String) (kept : List Selection) : Selection → List Selection → Prop
  | known {head selections} : head.name = typenameField →
      selects kept head.responseKey = true → Step pruner below type kept (.field head selections) kept
  | typename {head selections} : head.name = typenameField →
      selects kept head.responseKey = false →
      Step pruner below type kept (.field head selections) (kept ++ [typenameAs head.label])
  | admitted {selection left} : pruner.admits type selection = true →
      Trimmed pruner.schema below type selection left →
      Step pruner below type kept selection (kept ++ [left])
  | dropped {selection} : isTypename selection = false → pruner.admits type selection = false →
      Step pruner below type kept selection kept

/-- The steps of pruning through selections. -/
inductive Steps (pruner : Pruner) (below : String → List Selection → List Selection → Prop)
    (type : String) : List Selection → List Selection → List Selection → Prop
  | nil {kept} : Steps pruner below type kept [] kept
  | cons {kept selection next rest level} : Step pruner below type kept selection next →
      Steps pruner below type next rest level →
      Steps pruner below type kept (selection :: rest) level

section Steps

variable {pruner : Pruner} {below : String → List Selection → List Selection → Prop} {type : String}
  {client kept level : List Selection}

theorem Steps.exists_append (h : Steps pruner below type kept client level) :
    ∃ more, level = kept ++ more := by
  induction h with
  | nil => exact ⟨[], (List.append_nil _).symm⟩
  | cons hstep _ ih =>
    obtain ⟨more, rfl⟩ := ih
    cases hstep with
    | known => exact ⟨more, rfl⟩
    | typename => exact ⟨_ :: more, List.append_assoc _ _ _⟩
    | admitted => exact ⟨_ :: more, List.append_assoc _ _ _⟩
    | dropped => exact ⟨more, rfl⟩

theorem Steps.prefix_mem (h : Steps pruner below type kept client level) :
    ∀ selection ∈ kept, selection ∈ level := by
  obtain ⟨more, rfl⟩ := h.exists_append
  exact fun selection hmem => List.mem_append_left more hmem

/-- What the steps add is a `__typename` under a label that the client gave to one, or it is left of a
selection that the service is asked for. -/
theorem Steps.exists_source (h : Steps pruner below type kept client level) :
    ∀ left ∈ level, left ∈ kept ∨
      (∃ head selections, .field head selections ∈ client ∧ head.name = typenameField ∧
        left = typenameAs head.label) ∨
      ∃ source ∈ client, pruner.admits type source = true ∧
        Trimmed pruner.schema below type source left := by
  induction h with
  | nil => exact fun left hmem => .inl hmem
  | @cons kept first next rest level hstep _ ih =>
    intro left hmem
    rcases ih left hmem with hnext | ⟨head, selections, hin, hleft⟩ | ⟨source, hin, hleft⟩
    · cases hstep with
      | known => exact .inl hnext
      | typename htypename _ =>
        rcases List.mem_append.mp hnext with hkept | hlast
        · exact .inl hkept
        · exact .inr (.inl ⟨_, _, List.mem_cons_self, htypename, List.mem_singleton.mp hlast⟩)
      | admitted hadmits htrimmed =>
        rcases List.mem_append.mp hnext with hkept | hlast
        · exact .inl hkept
        · rw [List.mem_singleton.mp hlast]
          exact .inr (.inr ⟨first, List.mem_cons_self, hadmits, htrimmed⟩)
      | dropped => exact .inl hnext
    · exact .inr (.inl ⟨head, selections, List.mem_cons_of_mem _ hin, hleft⟩)
    · exact .inr (.inr ⟨source, List.mem_cons_of_mem _ hin, hleft⟩)

theorem Steps.exists_left (h : Steps pruner below type kept client level) {source : Selection}
    (hmem : source ∈ client) (hadmits : pruner.admits type source = true) :
    ∃ left ∈ level, Trimmed pruner.schema below type source left := by
  induction h with
  | nil => cases hmem
  | @cons kept first next rest level hstep hsteps ih =>
    rcases List.mem_cons.mp hmem with rfl | hmem
    · cases hstep with
      | known htypename _ => simp [admits, htypename] at hadmits
      | typename htypename _ => simp [admits, htypename] at hadmits
      | @admitted _ left _ htrimmed =>
        have hleft : left ∈ kept ++ [left] := List.mem_append_right _ (List.mem_singleton_self left)
        exact ⟨left, hsteps.prefix_mem left hleft, htrimmed⟩
      | dropped _ hnot => simp [hnot] at hadmits
    · exact ih hmem

end Steps

/-! ## Induction over the levels of a result -/

theorem returnType_eq_ok {pruner : Pruner} {type field inner : String} :
    pruner.returnType type field = .ok inner ↔
      ∃ composed, pruner.schema.field? type field = some composed ∧ composed.returnType = inner := by
  rw [returnType]
  cases pruner.schema.field? type field <;> simp

/-- What is known of the levels below the one in question: they are results of pruning, and have the
property at issue. -/
def Below (pruner : Pruner) (motive : String → List Selection → List Selection → Prop)
    (type : String) (client level : List Selection) : Prop :=
  pruner.prune type client = .ok level ∧ motive type client level

section Induction

variable {pruner : Pruner} {motive : String → List Selection → List Selection → Prop}

theorem prune_eq_ok {type : String} {client level : List Selection} :
    pruner.prune type client = .ok level ↔
      ∃ kept, pruner.pruneSelections type [] client = .ok kept ∧ pruner.complete type kept = level := by
  rw [prune, Outcome.bind_eq_ok]
  simp only [Outcome.pure_eq_ok]

theorem ne_nil_of_prune {type : String} {client level : List Selection}
    (h : pruner.prune type client = .ok level) : level ≠ [] := by
  obtain ⟨kept, _, rfl⟩ := prune_eq_ok.mp h
  have hselects := @selects_complete pruner type typenameField kept (.inl rfl)
  intro hnil
  rw [hnil] at hselects
  cases hselects

/-- That the property of a level follows from that of the levels below it. -/
def Ascends (pruner : Pruner) (motive : String → List Selection → List Selection → Prop) : Prop :=
  ∀ type client kept, Steps pruner (pruner.Below motive) type [] client kept →
    motive type client (pruner.complete type kept)

mutual

theorem step_of_pruneSelection (hlevel : pruner.Ascends motive) :
    ∀ (selection : Selection) {type : String} {kept next : List Selection},
      pruner.pruneSelection type kept selection = .ok next →
      Step pruner (pruner.Below motive) type kept selection next
  | .field head selections, type, kept, next, h => by
    rw [pruneSelection] at h
    split at h
    · next htypename =>
      split at h
      · next hselects =>
        rw [Except.ok.injEq] at h
        rw [← h]
        exact .known htypename hselects
      · next hselects =>
        rw [Except.ok.injEq] at h
        rw [← h]
        exact .typename htypename (Bool.not_eq_true _ ▸ hselects)
    · next htypename =>
      split at h
      · next hselect =>
        have hadmits : pruner.admits type (.field head selections) = true := by
          simp [admits, htypename, hselect]
        split at h
        · next hempty =>
          rw [Except.ok.injEq] at h
          rw [List.isEmpty_iff] at hempty
          subst hempty
          rw [← h]
          exact .admitted hadmits .leaf
        · next hempty =>
          obtain ⟨inner, hinner, h⟩ := Outcome.bind_eq_ok.mp h
          obtain ⟨level, hnested, h⟩ := Outcome.bind_eq_ok.mp h
          obtain ⟨composed, hfield, rfl⟩ := returnType_eq_ok.mp hinner
          rw [Outcome.pure_eq_ok] at h
          rw [← h]
          -- The level below is a result of its own, on the return type of the field.
          have hmotive := hlevel _ _ _ (steps_of_pruneSelections hlevel selections hnested)
          have hprune := prune_eq_ok.mpr ⟨level, hnested, rfl⟩
          refine .admitted hadmits (.nested ?_ hfield ⟨hprune, hmotive⟩)
          rwa [Ne, ← List.isEmpty_iff]
      · next hselect =>
        rw [Except.ok.injEq] at h
        rw [← h]
        exact .dropped (by simp [isTypename, htypename]) (by simp [admits, hselect])
  | .spread fragment directives, type, kept, next, h => by
    rw [pruneSelection] at h
    split at h
    · cases h
    · next definition hdefinition =>
      split at h
      · next hknows =>
        rw [Except.ok.injEq] at h
        rw [← h]
        exact .admitted (by simp [admits, hdefinition, hknows]) .spread
      · next hknows =>
        rw [Except.ok.injEq] at h
        rw [← h]
        exact .dropped rfl (by simp [admits, hdefinition, hknows])
  | .inline condition directives selections, type, kept, next, h => by
    rw [pruneSelection] at h
    split at h
    · next hknows =>
      obtain ⟨level, hnested, h⟩ := Outcome.bind_eq_ok.mp h
      rw [Outcome.pure_eq_ok] at h
      rw [← h]
      -- And here it is on the condition, or on the type at hand where there is none.
      have hmotive := hlevel _ _ _ (steps_of_pruneSelections hlevel selections hnested)
      have hprune := prune_eq_ok.mpr ⟨level, hnested, rfl⟩
      exact .admitted hknows (.inline ⟨hprune, hmotive⟩)
    · next hknows =>
      rw [Except.ok.injEq] at h
      rw [← h]
      exact .dropped rfl (Bool.not_eq_true _ ▸ hknows)

theorem steps_of_pruneSelections (hlevel : pruner.Ascends motive) :
    ∀ (selections : List Selection) {type : String} {kept level : List Selection},
      pruner.pruneSelections type kept selections = .ok level →
      Steps pruner (pruner.Below motive) type kept selections level
  | [], type, kept, level, h => by
    rw [pruneSelections, Except.ok.injEq] at h
    rw [← h]
    exact .nil
  | selection :: rest, type, kept, level, h => by
    rw [pruneSelections] at h
    obtain ⟨next, hnext, hrest⟩ := Outcome.bind_eq_ok.mp h
    exact .cons (step_of_pruneSelection hlevel selection hnext)
      (steps_of_pruneSelections hlevel rest hrest)

end

/-- A property that goes from the nested levels to their level holds of every result. -/
theorem prune_induction (hlevel : pruner.Ascends motive) {type : String}
    {client level : List Selection} (h : pruner.prune type client = .ok level) :
    motive type client level := by
  obtain ⟨kept, hkept, rfl⟩ := prune_eq_ok.mp h
  exact hlevel type client kept (steps_of_pruneSelections hlevel client hkept)

end Induction

end Pruner

end Supergraph
