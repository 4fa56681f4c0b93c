import Supergraph.Proofs.Pruning.Fragments
import Supergraph.Proofs.Gateway

/-!
Pruning is exact for its service. A level of the result has what the service can be asked for and
nothing else but `__typename` and completed keys, and nothing of the client's level is missing that the
service can be asked for. The same holds of the levels below, each on its own type, and of the fragments
that go along with the result.

`Exact` is the statement for a level of the client next to what is left of it.
-/

namespace Supergraph

open GraphQL

/-! ## What is left of a selection -/

section Trimmed

variable {schema : Schema} {below other : String → List Selection → List Selection → Prop}
  {type : String} {client left : Selection}

theorem Trimmed.mono (hbelow : ∀ type client level, below type client level → other type client level)
    (h : Trimmed schema below type client left) : Trimmed schema other type client left := by
  cases h with
  | leaf => exact .leaf
  | nested hne hfield h => exact .nested hne hfield (hbelow _ _ _ h)
  | spread => exact .spread
  | inline h => exact .inline (hbelow _ _ _ h)

theorem Trimmed.isTypename_eq (h : Trimmed schema below type client left) :
    isTypename left = isTypename client := by
  cases h <;> rfl

theorem Trimmed.admits_eq {pruner : Pruner} (h : Trimmed schema below type client left) :
    pruner.admits type left = pruner.admits type client := by
  cases h <;> rfl

end Trimmed

theorem exists_related {α β : Type} {related : α → β → Prop} {items : List α} {others : List β}
    (h : List.Forall₂ related items others) {other : β} (hmem : other ∈ others) :
    ∃ item ∈ items, related item other := by
  induction h with
  | nil => cases hmem
  | cons h _ ih =>
    rcases List.mem_cons.mp hmem with rfl | hmem
    · exact ⟨_, List.mem_cons_self, h⟩
    · obtain ⟨item, hitem, h⟩ := ih hmem
      exact ⟨item, List.mem_cons_of_mem _ hitem, h⟩

namespace Pruner

variable {pruner : Pruner}

mutual

/-- A level of the result is exact for a level of the client on a type: it has only what the service
can be asked for, and `__typename`; what the service can be asked for of the client's level is there, in
the client's order; and all the rest is `__typename` without more than a label, and keys of the type
under their own names, each once and only if what is left of the client's level does not select it so. -/
inductive Exact (pruner : Pruner) : String → List Selection → List Selection → Prop
  | intro {type : String} {client level lefts : List Selection} {keys : List String}
    (only : ∀ selection ∈ level, isTypename selection = true ∨ pruner.admits type selection = true)
    (kept : ExactAll pruner type (client.filter (pruner.admits type)) lefts)
    (rest : level.filter (fun selection => !isTypename selection) = lefts ++ keys.map Selection.bare)
    (once : keys.Nodup)
    (completed : ∀ key ∈ keys, key ∈ pruner.index.keysOf type ∧ pruner.completes type key = true ∧
      selects lefts key = false)
    (typenames : ∀ selection ∈ level, isTypename selection = true →
      ∃ label, selection = typenameAs label) :
    Exact pruner type client level

/-- Selections of the client next to what is left of them, one by one. -/
inductive ExactAll (pruner : Pruner) : String → List Selection → List Selection → Prop
  | nil {type : String} : ExactAll pruner type [] []
  | cons {type : String} {client left : Selection} {clients lefts : List Selection} :
    ExactOne pruner type client left → ExactAll pruner type clients lefts →
      ExactAll pruner type (client :: clients) (left :: lefts)

/-- A selection of the client next to what is left of it: all that is written at it stays, and its
sub-selections are exact, those of a field on its return type, those of an inline fragment on its
condition if it has one. -/
inductive ExactOne (pruner : Pruner) : String → Selection → Selection → Prop
  | leaf {type : String} {head : FieldHead} : ExactOne pruner type (.field head []) (.field head [])
  | nested {type : String} {head : FieldHead} {client level : List Selection}
    {composed : SchemaField} : client ≠ [] → pruner.schema.field? type head.name = some composed →
      Exact pruner composed.returnType client level →
      ExactOne pruner type (.field head client) (.field head level)
  | spread {type fragment : String} {directives : List Directive} :
    ExactOne pruner type (.spread fragment directives) (.spread fragment directives)
  | inline {type : String} {condition : Option String} {directives : List Directive}
    {client level : List Selection} : Exact pruner (condition.getD type) client level →
      ExactOne pruner type (.inline condition directives client) (.inline condition directives level)

end

theorem exactOne_of_trimmed {type : String} {client left : Selection}
    (h : Trimmed pruner.schema (Exact pruner) type client left) : ExactOne pruner type client left := by
  cases h with
  | leaf => exact .leaf
  | nested hne hfield h => exact .nested hne hfield h
  | spread => exact .spread
  | inline h => exact .inline h

theorem exactAll_of_forall₂ {type : String} {clients lefts : List Selection}
    (h : List.Forall₂ (Trimmed pruner.schema (Exact pruner) type) clients lefts) :
    ExactAll pruner type clients lefts := by
  induction h with
  | nil => exact .nil
  | cons h _ ih => exact .cons (exactOne_of_trimmed h) ih

theorem ExactAll.forall₂ {type : String} {clients lefts : List Selection}
    (h : ExactAll pruner type clients lefts) : List.Forall₂ (ExactOne pruner type) clients lefts := by
  induction clients generalizing lefts with
  | nil =>
    cases h
    exact .nil
  | cons client clients ih =>
    cases h with
    | cons hone hall => exact .cons hone (ih hall)

/-! ## One level -/

section Level

variable {below : String → List Selection → List Selection → Prop} {type : String}
  {client kept level : List Selection}

/-- The steps through a level leave what is admitted, in order, apart from `__typename`. -/
theorem Steps.trimmed (h : Steps pruner below type kept client level) :
    ∃ lefts, List.Forall₂ (Trimmed pruner.schema below type) (client.filter (pruner.admits type)) lefts ∧
      level.filter (fun selection => !isTypename selection) =
        kept.filter (fun selection => !isTypename selection) ++ lefts := by
  induction h with
  | nil => exact ⟨[], .nil, by simp⟩
  | cons hstep _ ih =>
    obtain ⟨lefts, hlefts, heq⟩ := ih
    -- A `__typename` counts on neither side; only an admitted selection adds to both.
    cases hstep with
    | known htypename _ =>
      refine ⟨lefts, ?_, heq⟩
      rwa [List.filter_cons_of_neg (by simp [admits, htypename])]
    | typename htypename _ =>
      refine ⟨lefts, ?_, ?_⟩
      · rwa [List.filter_cons_of_neg (by simp [admits, htypename])]
      · rw [heq, List.filter_append, List.filter_cons_of_neg (by simp), List.filter_nil,
          List.append_nil]
    | @admitted _ left hadmits hleft =>
      have hleft' : isTypename left = false := by
        rw [hleft.isTypename_eq]
        exact isTypename_eq_false_of_admits hadmits
      refine ⟨left :: lefts, ?_, ?_⟩
      · rw [List.filter_cons_of_pos hadmits]
        exact .cons hleft hlefts
      · rw [heq, List.filter_append, List.filter_cons_of_pos (by simp [hleft']), List.filter_nil,
          List.append_assoc, List.singleton_append]
    | dropped _ hadmits =>
      refine ⟨lefts, ?_, heq⟩
      rwa [List.filter_cons_of_neg (by simp [hadmits])]

theorem Steps.labels_only (h : Steps pruner below type kept client level)
    (hkept : ∀ selection ∈ kept, isTypename selection = true → ∃ label, selection = typenameAs label) :
    ∀ selection ∈ level, isTypename selection = true → ∃ label, selection = typenameAs label := by
  intro selection hmem htypename
  rcases h.exists_source selection hmem with hin | ⟨head, _, _, _, rfl⟩ | ⟨source, _, hadmits, hleft⟩
  · exact hkept selection hin htypename
  · exact ⟨head.label, rfl⟩
  · rw [hleft.isTypename_eq, isTypename_eq_false_of_admits hadmits] at htypename
    cases htypename

theorem Steps.labels_only_complete (h : Steps pruner below type [] client level) :
    ∀ selection ∈ pruner.complete type level, isTypename selection = true →
      ∃ label, selection = typenameAs label := by
  intro selection hmem htypename
  rcases of_mem_complete hmem with hkept | ⟨name, rfl, _⟩
  · exact h.labels_only (by simp) selection hkept htypename
  · rw [isTypename_bare, decide_eq_true_eq] at htypename
    rw [htypename]
    exact ⟨none, rfl⟩

theorem canSelect_of_completes {key : String} (h : pruner.completes type key = true) :
    pruner.service.shape.canSelect type key = true := by
  rw [completes, Bool.and_eq_true, Bool.or_eq_true] at h
  rw [ServiceShape.canSelect]
  rcases h.1 with howns | hserves
  · simp [howns]
  · simp [hserves]

/-- What is known of the steps through a level makes the completed level exact. -/
theorem exact_complete (h : Steps pruner (Exact pruner) type [] client level) :
    Exact pruner type client (pruner.complete type level) := by
  obtain ⟨lefts, hlefts, hlevel⟩ := h.trimmed
  rw [List.filter_nil, List.nil_append] at hlevel
  obtain ⟨added, heq, hnodup, hadded⟩ := pruner.complete_eq_append type level
  -- The names that completion appends are keys, once `__typename` is set apart.
  let keys := added.filter (fun name => name ≠ typenameField)
  have hkeys : (added.map Selection.bare).filter (fun selection => !isTypename selection) =
      keys.map Selection.bare := by
    rw [List.filter_map]
    apply congrArg
    apply List.filter_congr
    intro name _
    simp [isTypename_bare]
  have hleft : ∀ key, selects level key = false → selects lefts key = false := by
    intro key hnot
    rw [Bool.eq_false_iff, Ne, selects_iff] at hnot ⊢
    intro hselects
    obtain ⟨head, selections, hmem, hplain⟩ := hselects
    rw [← hlevel] at hmem
    exact hnot ⟨head, selections, (List.mem_filter.mp hmem).1, hplain⟩
  have hcompleted : ∀ key ∈ keys, key ∈ pruner.index.keysOf type ∧
      pruner.completes type key = true ∧ selects lefts key = false := by
    intro key hkey
    obtain ⟨hmem, hne⟩ := List.mem_filter.mp hkey
    obtain ⟨hcompleting, hnot⟩ := hadded key hmem
    obtain ⟨hin, hcompletes⟩ := hcompleting.resolve_left (of_decide_eq_true hne)
    exact ⟨hin, hcompletes, hleft key hnot⟩
  have hrest : (pruner.complete type level).filter (fun selection => !isTypename selection) =
      lefts ++ keys.map Selection.bare := by
    rw [heq, List.filter_append, hlevel, hkeys]
  refine .intro ?_ (exactAll_of_forall₂ hlefts) hrest (hnodup.filter _) hcompleted h.labels_only_complete
  -- What is neither `__typename` nor a key is left of something that was admitted.
  intro selection hmem
  cases htypename : isTypename selection with
  | true => exact .inl rfl
  | false =>
    have hin : selection ∈ lefts ++ keys.map Selection.bare := by
      rw [← hrest]
      exact List.mem_filter.mpr ⟨hmem, by simp [htypename]⟩
    rcases List.mem_append.mp hin with hin | hin
    · obtain ⟨source, hsource, htrimmed⟩ := exists_related hlefts hin
      rw [htrimmed.admits_eq]
      exact .inr (List.mem_filter.mp hsource).2
    · obtain ⟨key, hkey, rfl⟩ := List.mem_map.mp hin
      have hne : key ≠ typenameField := by simpa [isTypename_bare] using htypename
      have hselect := canSelect_of_completes (hcompleted key hkey).2.1
      exact .inr (decide_eq_true ⟨hne, hselect⟩)

end Level

/-! ## Whole results -/

theorem Steps.mono {below other : String → List Selection → List Selection → Prop} {type : String}
    {client kept level : List Selection}
    (hbelow : ∀ type client level, below type client level → other type client level)
    (h : Steps pruner below type kept client level) : Steps pruner other type kept client level := by
  induction h with
  | nil => exact .nil
  | cons hstep _ ih =>
    refine .cons ?_ ih
    cases hstep with
    | known htypename hselects => exact .known htypename hselects
    | typename htypename hselects => exact .typename htypename hselects
    | admitted hadmits hleft => exact .admitted hadmits (hleft.mono hbelow)
    | dropped htypename hadmits => exact .dropped htypename hadmits

theorem exact_of_prune {type : String} {client level : List Selection}
    (h : pruner.prune type client = .ok level) : Exact pruner type client level := by
  apply prune_induction (motive := Exact pruner) _ h
  intro type client kept hsteps
  apply exact_complete
  exact hsteps.mono fun _ _ _ hbelow => hbelow.2

/-- A fragment that is collected keeps all but its selections, and these are exact on its condition. -/
theorem Prunes.exact {name : String} {fragment : Fragment} (h : pruner.Prunes name fragment) :
    ∃ definition, pruner.client.fragment? name = some definition ∧
      fragment = { definition with selections := fragment.selections } ∧
      pruner.Exact definition.condition definition.selections fragment.selections := by
  obtain ⟨definition, hdefinition, hpruned⟩ := h
  obtain ⟨heq, hbody⟩ := pruneFragment_eq_ok hpruned
  exact ⟨definition, hdefinition, heq, exact_of_prune hbody⟩

/-- Pruning is exact at every level of its result, and at every level of the fragments that the result
reaches. -/
theorem prune_exact {type : String} {client level : List Selection}
    (h : pruner.prune type client = .ok level) :
    pruner.Exact type client level ∧
      ∀ fragments, pruner.fragmentClosure level = .ok fragments → ∀ fragment ∈ fragments,
        ∃ name definition, pruner.client.fragment? name = some definition ∧
          fragment = { definition with selections := fragment.selections } ∧
          pruner.Exact definition.condition definition.selections fragment.selections := by
  refine ⟨exact_of_prune h, ?_⟩
  intro fragments hclosure fragment hmem
  obtain ⟨entered, rfl, closure⟩ := fragmentClosure_eq_ok hclosure
  obtain ⟨⟨name, collected⟩, hentry, rfl⟩ := List.mem_map.mp hmem
  exact ⟨name, (closure.pruned _ hentry).exact⟩

/-- A review that the service of reviews is asked for: labels and fragments stay, what only others have
goes, and the keys are completed. The fragment on its author loses the name and gets the key. -/
theorem prune_exact_review :
    let client : List Selection :=
      [.field { FieldHead.bare "body" with label := some "text" } [], .bare "stars",
        .field (.bare "author") [.spread "Person" [], .bare "name"],
        .inline (some "Review") [] [typenameAs (some "kind"), .bare "body"],
        .inline (some "Photo") [] [.bare "url"]]
    let level : List Selection :=
      [.field { FieldHead.bare "body" with label := some "text" } [],
        .field (.bare "author") [.spread "Person" [], .bare "id", .bare "__typename"],
        .inline (some "Review") []
          [typenameAs (some "kind"), .bare "body", .bare "id", .bare "__typename"],
        .bare "id", .bare "__typename"]
    let pruner := Sample.pruner Sample.reviews
    ∃ person, pruner.prune "Review" client = .ok level ∧ pruner.fragmentClosure level = .ok [person] ∧
      pruner.Exact "Review" client level ∧
      ∃ name definition, pruner.client.fragment? name = some definition ∧
        person = { definition with selections := person.selections } ∧
        pruner.Exact definition.condition definition.selections person.selections := by
  intro client level pruner
  let person : Fragment := ⟨"Person", "User", [⟨"include", [("if", .variable "full")]⟩],
    [.bare "id", .bare "__typename"]⟩
  have h : pruner.prune "Review" client = .ok level := by rfl
  have hclosure : pruner.fragmentClosure level = .ok [person] := by rfl
  obtain ⟨hlevel, hfragments⟩ := prune_exact h
  exact ⟨person, h, hclosure, hlevel, hfragments [person] hclosure person (List.mem_singleton_self person)⟩

end Pruner

end Supergraph
