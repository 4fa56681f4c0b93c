import Supergraph.Proofs.Pruning.ResponseKeys
import Supergraph.Proofs.Pruning.Exactness

/-!
The type of every object. A result asks for `__typename` once at every level, so that whatever object the
service answers with, its type is known.

1. `Steps.countP_le` and `countP_complete`: the client may ask for it several times, and a key may be
   `__typename`, too, but of plain selections one is left.
2. `getLast?_complete`: it stands last, unless it was there before the level was completed.
3. `LevelOf` goes down through a result and through the client's selections together, `leftOf` pairs the
   selections of two levels. `covered_of_prune`: no level of a result is missed that way.
4. `marked_prune` puts this together for a result and its fragments. `emptied_typename` is the one kind of
   field that loses its selections.
-/

namespace Supergraph

open GraphQL

namespace Pruner

variable {pruner : Pruner} {type : String} {client kept level : List Selection}

/-! ## How often a level selects a name -/

theorem countP_eq_zero_iff {name : String} :
    level.countP (selectsPlainly name) = 0 ↔ selects level name = false := by
  rw [List.countP_eq_zero, selects, List.any_eq_false]

theorem countP_ensure_le {name other : String} (h : level.countP (selectsPlainly name) ≤ 1) :
    (ensure level other).countP (selectsPlainly name) ≤ 1 := by
  cases hselects : selects level other with
  | true => rwa [ensure_of_selects hselects]
  | false =>
    rw [ensure_of_not_selects hselects, List.countP_append]
    by_cases hname : other = name
    · -- Only a name that is not there is appended.
      subst hname
      have hnone := countP_eq_zero_iff.mpr hselects
      have hone := List.countP_le_length (p := selectsPlainly other) (l := [.bare other])
      simp only [List.length_singleton] at hone
      omega
    · have hother : [Selection.bare other].countP (selectsPlainly name) = 0 := by
        simp [selectsPlainly, Selection.bare, FieldHead.bare, hname]
      omega

theorem countP_foldl_ensure_le {name : String} (names : List String)
    (h : level.countP (selectsPlainly name) ≤ 1) :
    (names.foldl ensure level).countP (selectsPlainly name) ≤ 1 := by
  induction names generalizing level with
  | nil => exact h
  | cons other names ih => exact ih (countP_ensure_le h)

theorem countP_complete {name : String} (hcompleting : pruner.Completing type name)
    (h : kept.countP (selectsPlainly name) ≤ 1) :
    (pruner.complete type kept).countP (selectsPlainly name) = 1 := by
  have hle : (pruner.complete type kept).countP (selectsPlainly name) ≤ 1 := by
    rw [complete_eq_foldl]
    exact countP_foldl_ensure_le _ h
  have hne : (pruner.complete type kept).countP (selectsPlainly name) ≠ 0 := by
    intro hzero
    have hselects := selects_complete kept hcompleting
    rw [countP_eq_zero_iff.mp hzero] at hselects
    cases hselects
  omega

/-! ## One level -/

section Level

variable {below : String → List Selection → List Selection → Prop}

theorem selectsPlainly_typename {selection : Selection} (h : isTypename selection = false) :
    selectsPlainly typenameField selection = false := by
  cases selection with
  | field head selections =>
    have hne : head.name ≠ typenameField := by simpa [isTypename] using h
    simp [selectsPlainly, hne]
  | spread => rfl
  | inline => rfl

/-- A `__typename` of the client is only kept plainly where there is none yet. -/
theorem Steps.countP_le (h : Steps pruner below type kept client level)
    (hkept : kept.countP (selectsPlainly typenameField) ≤ 1) :
    level.countP (selectsPlainly typenameField) ≤ 1 := by
  induction h with
  | nil => exact hkept
  | @cons kept selection next rest level hstep _ ih =>
    apply ih
    cases hstep with
    | known => exact hkept
    | @typename head _ htypename hselects =>
      rw [List.countP_append, List.countP_singleton]
      split
      · next hplain =>
        have hkey : head.responseKey = typenameField := by
          have hlabel : head.label.getD typenameField = typenameField := by
            simpa [selectsPlainly, typenameAs, FieldHead.bare, FieldHead.responseKey] using hplain
          rw [FieldHead.responseKey, htypename, hlabel]
        rw [hkey] at hselects
        have hnone := countP_eq_zero_iff.mpr hselects
        omega
      · omega
    | @admitted _ left hadmits htrimmed =>
      have htypename : isTypename left = false := by
        rw [htrimmed.isTypename_eq]
        exact isTypename_eq_false_of_admits hadmits
      rw [List.countP_append, List.countP_singleton, selectsPlainly_typename htypename]
      simpa using hkept
    | dropped => exact hkept

theorem Steps.selects_typename (h : Steps pruner below type [] client kept)
    (hselects : selects kept typenameField = true) : selects client typenameField = true := by
  obtain ⟨left, selections, hmem, hname, hkey⟩ := selects_iff.mp hselects
  have htypename : isTypename (.field left selections) = true := by simpa [isTypename] using hname
  rcases h.exists_source _ hmem with hnone | ⟨head, others, hin, hhead, heq⟩ | ⟨source, _, hadmits, htrimmed⟩
  · cases hnone
  · cases heq
    refine selects_iff.mpr ⟨head, others, hin, hhead, ?_⟩
    rw [FieldHead.responseKey, hhead]
    exact hkey
  · rw [htrimmed.isTypename_eq, isTypename_eq_false_of_admits hadmits] at htypename
    cases htypename

/-- What completes a level last is `__typename`, unless the level or its keys bring it before. -/
theorem getLast?_complete (hkept : selects kept typenameField = false)
    (hkeys : typenameField ∉ pruner.index.keysOf type) :
    (pruner.complete type kept).getLast? = some (.bare typenameField) := by
  obtain ⟨added, heq, _, hadded⟩ := foldl_ensure_eq_append
    ((pruner.index.keysOf type).filter (pruner.completes type)) kept
  have hnone : selects (added.map Selection.bare) typenameField = false := by
    rw [Bool.eq_false_iff]
    intro hselects
    obtain ⟨head, selections, hmem, hname, _⟩ := selects_iff.mp hselects
    obtain ⟨key, hkey, hbare⟩ := List.mem_map.mp hmem
    cases hbare
    rw [← hname] at hkeys
    exact hkeys (List.mem_filter.mp (hadded key hkey).1).1
  have hbefore : selects (kept ++ added.map Selection.bare) typenameField = false := by
    rw [selects_append, hkept, hnone, Bool.or_false]
  rw [complete, heq, ensure_of_not_selects hbefore, List.getLast?_concat]

/-! ## What is left of a level -/

/-- What the service is asked for of a level of the client, next to what is left of it. In the result it
comes first, in order, once every `__typename` is set aside. -/
def leftOf (pruner : Pruner) (type : String) (client level : List Selection) :
    List (Selection × Selection) :=
  (client.filter (pruner.admits type)).zip (level.filter fun selection => !isTypename selection)

theorem Steps.leftOf_complete (h : Steps pruner below type [] client kept) :
    ∃ lefts, List.Forall₂ (Trimmed pruner.schema below type) (client.filter (pruner.admits type)) lefts ∧
      (kept.filter fun selection => !isTypename selection) = lefts ∧
      pruner.leftOf type client (pruner.complete type kept) =
        (client.filter (pruner.admits type)).zip lefts := by
  obtain ⟨lefts, hlefts, hkept⟩ := h.trimmed
  rw [List.filter_nil, List.nil_append] at hkept
  obtain ⟨added, heq, _⟩ := pruner.complete_eq_append type kept
  refine ⟨lefts, hlefts, hkept, ?_⟩
  rw [leftOf, heq, List.filter_append, hkept]
  calc (client.filter (pruner.admits type)).zip (lefts ++ _)
      = (client.filter (pruner.admits type) ++ []).zip (lefts ++ _) := by rw [List.append_nil]
    _ = (client.filter (pruner.admits type)).zip lefts ++ [].zip _ := List.zip_append hlefts.length_eq
    _ = (client.filter (pruner.admits type)).zip lefts := by rw [List.zip_nil_left, List.append_nil]

theorem Steps.trimmed_of_mem_leftOf (h : Steps pruner below type [] client kept)
    {source left : Selection}
    (hmem : (source, left) ∈ pruner.leftOf type client (pruner.complete type kept)) :
    Trimmed pruner.schema below type source left := by
  obtain ⟨lefts, hlefts, _, heq⟩ := h.leftOf_complete
  rw [heq] at hmem
  exact List.forall₂_zip hlefts hmem

theorem Steps.exists_mem_leftOf (h : Steps pruner below type [] client kept) {left : Selection}
    (hmem : left ∈ pruner.complete type kept) :
    (∃ head, left = .field head []) ∨
      ∃ source, (source, left) ∈ pruner.leftOf type client (pruner.complete type kept) := by
  rcases of_mem_complete hmem with hkept | ⟨name, rfl, _⟩
  · cases htypename : isTypename left with
    | true =>
      obtain ⟨label, rfl⟩ := h.labels_only (by simp) left hkept htypename
      exact .inl ⟨_, rfl⟩
    | false =>
      obtain ⟨lefts, hlefts, hkept', heq⟩ := h.leftOf_complete
      have hin : left ∈ lefts := by
        rw [← hkept']
        exact List.mem_filter.mpr ⟨hkept, by simp [htypename]⟩
      have hsnd : left ∈ ((client.filter (pruner.admits type)).zip lefts).map Prod.snd := by
        rw [List.map_snd_zip (Nat.le_of_eq hlefts.length_eq.symm)]
        exact hin
      obtain ⟨⟨source, _⟩, hpair, rfl⟩ := List.mem_map.mp hsnd
      rw [heq]
      exact .inr ⟨source, hpair⟩
  · exact .inl ⟨_, rfl⟩

end Level

/-! ## All levels -/

/-- A level of a result next to the level of the client that it is left of, with the type that both are
on: the two as a whole, and below them what is left in the braces of a field or of an inline fragment. -/
inductive LevelOf (pruner : Pruner) :
    String → List Selection → List Selection → String → List Selection → List Selection → Prop
  | here {type : String} {client level : List Selection} :
      LevelOf pruner type client level type client level
  | field {type inner : String} {client level sources lefts source found : List Selection}
      {head : FieldHead} {composed : SchemaField} :
      (.field head sources, .field head lefts) ∈ pruner.leftOf type client level → sources ≠ [] →
      pruner.schema.field? type head.name = some composed →
      LevelOf pruner composed.returnType sources lefts inner source found →
      LevelOf pruner type client level inner source found
  | inline {type inner : String} {client level sources lefts source found : List Selection}
      {condition : Option String} {directives : List Directive} :
      (.inline condition directives sources, .inline condition directives lefts) ∈
        pruner.leftOf type client level →
      LevelOf pruner (condition.getD type) sources lefts inner source found →
      LevelOf pruner type client level inner source found

/-- Every level of a result is left of one of the client's, but for the empty one of a leaf. -/
def Covered (pruner : Pruner) (type : String) (client level : List Selection) : Prop :=
  ∀ found ∈ levelsAmong level, found = [] ∨
    ∃ inner source, LevelOf pruner type client level inner source found

theorem mem_levelsAmong {found : List Selection} :
    found ∈ levelsAmong level ↔ ∃ selection ∈ level, found ∈ levelsBelow selection := by
  induction level with
  | nil => simp [levelsAmong]
  | cons selection rest ih => rw [levelsAmong, List.mem_append, ih, List.exists_mem_cons_iff]

theorem covered_of_prune (h : pruner.prune type client = .ok level) :
    pruner.Covered type client level := by
  apply prune_induction (motive := pruner.Covered) _ h
  intro type client kept hsteps found hfound
  obtain ⟨left, hmem, hbelow⟩ := mem_levelsAmong.mp hfound
  rcases hsteps.exists_mem_leftOf hmem with ⟨head, rfl⟩ | ⟨source, hpair⟩
  · left
    simpa [levelsBelow, levelsAmong] using hbelow
  · -- What is in braces below the level is a result itself, or in braces below one.
    cases hsteps.trimmed_of_mem_leftOf hpair with
    | leaf =>
      left
      simpa [levelsBelow, levelsAmong] using hbelow
    | nested hne hfield hresult =>
      rcases List.mem_cons.mp hbelow with rfl | hdeeper
      · exact .inr ⟨_, _, .field hpair hne hfield .here⟩
      · rcases hresult.2 found hdeeper with hnil | ⟨inner, source, hlevel⟩
        · exact .inl hnil
        · exact .inr ⟨inner, source, .field hpair hne hfield hlevel⟩
    | spread => cases hbelow
    | inline hresult =>
      rcases List.mem_cons.mp hbelow with rfl | hdeeper
      · exact .inr ⟨_, _, .inline hpair .here⟩
      · rcases hresult.2 found hdeeper with hnil | ⟨inner, source, hlevel⟩
        · exact .inl hnil
        · exact .inr ⟨inner, source, .inline hpair hlevel⟩

/-- A level of a result, left of a level `source` of the client, asks for the type of its object: once
under the name `__typename`, with nothing written at it, and in the last place unless the client or a key
of the type brings it before. No field that the client selects with sub-selections is left without, and no
inline fragment is. -/
structure Marked (pruner : Pruner) (type : String) (source found : List Selection) : Prop where
  once : found.countP (selectsPlainly typenameField) = 1
  bare : ∀ selection ∈ found, isTypename selection = true → ∃ label, selection = typenameAs label
  last : found.getLast? = some (.bare typenameField) ∨ selects source typenameField = true ∨
    typenameField ∈ pruner.index.keysOf type
  filled : ∀ head sources left, (.field head sources, left) ∈ pruner.leftOf type source found →
    sources ≠ [] → ∃ lefts, left = .field head lefts ∧ lefts ≠ []
  opened : ∀ condition directives selections, .inline condition directives selections ∈ found →
    selections ≠ []

/-- Every level of a result is left of one of the client's, and asks for the type of its object. -/
structure MarkedThroughout (pruner : Pruner) (type : String) (client level : List Selection) : Prop where
  covered : pruner.Covered type client level
  marked : ∀ inner source found, LevelOf pruner type client level inner source found →
    pruner.Marked inner source found

theorem Steps.marked {below : String → List Selection → List Selection → Prop}
    (h : Steps pruner below type [] client kept)
    (hbelow : ∀ inner source found, below inner source found → found ≠ []) :
    pruner.Marked type client (pruner.complete type kept) where
  once := countP_complete (.inl rfl) (h.countP_le (by simp))
  bare := h.labels_only_complete
  last := by
    by_cases hkeys : typenameField ∈ pruner.index.keysOf type
    · exact .inr (.inr hkeys)
    · cases hselects : selects kept typenameField with
      | true => exact .inr (.inl (h.selects_typename hselects))
      | false => exact .inl (getLast?_complete hselects hkeys)
  filled := by
    intro head sources left hpair hne
    cases h.trimmed_of_mem_leftOf hpair with
    | leaf => exact absurd rfl hne
    | nested _ _ hresult => exact ⟨_, rfl, hbelow _ _ _ hresult⟩
  opened := by
    intro condition directives selections hmem
    rcases h.exists_mem_leftOf hmem with ⟨head, hfield⟩ | ⟨source, hpair⟩
    · cases hfield
    · cases h.trimmed_of_mem_leftOf hpair with
      | inline hresult => exact hbelow _ _ _ hresult

theorem markedThroughout_of_prune (h : pruner.prune type client = .ok level) :
    pruner.MarkedThroughout type client level := by
  refine ⟨covered_of_prune h, ?_⟩
  apply prune_induction (motive := fun type client level => ∀ inner source found,
    LevelOf pruner type client level inner source found → pruner.Marked inner source found) _ h
  intro type client kept hsteps inner source found hlevel
  cases hlevel with
  | here => exact hsteps.marked fun _ _ _ hresult => ne_nil_of_prune hresult.1
  | field hpair hne hfield hdeeper =>
    cases hsteps.trimmed_of_mem_leftOf hpair with
    | leaf => exact absurd rfl hne
    | nested _ hfield' hresult =>
      cases hfield.symm.trans hfield'
      exact hresult.2 _ _ _ hdeeper
  | inline hpair hdeeper =>
    cases hsteps.trimmed_of_mem_leftOf hpair with
    | inline hresult => exact hresult.2 _ _ _ hdeeper

/-- Every level of a result asks for the type of its object, and so does every level of the fragments that
are reached, from the result or from any other selections. -/
theorem marked_prune (h : pruner.prune type client = .ok level) :
    pruner.MarkedThroughout type client level ∧
      ∀ reaching fragments, pruner.fragmentClosure reaching = .ok fragments → ∀ fragment ∈ fragments,
        ∃ name definition, pruner.client.fragment? name = some definition ∧
          fragment = { definition with selections := fragment.selections } ∧
          pruner.MarkedThroughout definition.condition definition.selections fragment.selections := by
  refine ⟨markedThroughout_of_prune h, ?_⟩
  intro reaching fragments hclosure fragment hmem
  obtain ⟨entered, rfl, closure⟩ := fragmentClosure_eq_ok hclosure
  obtain ⟨⟨name, collected⟩, hentry, rfl⟩ := List.mem_map.mp hmem
  obtain ⟨definition, hdefinition, hpruned⟩ := closure.pruned _ hentry
  obtain ⟨heq, hbody⟩ := pruneFragment_eq_ok hpruned
  exact ⟨name, definition, hdefinition, heq, markedThroughout_of_prune hbody⟩

/-- A review whose type is asked for twice, and once more under a label; its author goes by a fragment. -/
theorem marked_prune_twice :
    let client : List Selection :=
      [typenameAs (some "kind"),
        .field ⟨none, "__typename", [], [⟨"include", [("if", .variable "full")]⟩]⟩ [], .bare "body",
        .bare "__typename", .field (.bare "author") [.spread "Person" [], .bare "name"]]
    let level : List Selection :=
      [typenameAs (some "kind"), .bare "__typename", .bare "body",
        .field (.bare "author") [.spread "Person" [], .bare "id", .bare "__typename"], .bare "id"]
    let pruner := Sample.pruner Sample.reviews
    ∃ person, pruner.prune "Review" client = .ok level ∧ pruner.fragmentClosure level = .ok [person] ∧
      pruner.MarkedThroughout "Review" client level ∧
      ∃ name definition, pruner.client.fragment? name = some definition ∧
        person = { definition with selections := person.selections } ∧
        pruner.MarkedThroughout definition.condition definition.selections person.selections := by
  intro client level pruner
  let person : Fragment := ⟨"Person", "User", [⟨"include", [("if", .variable "full")]⟩],
    [.bare "id", .bare "__typename"]⟩
  have h : pruner.prune "Review" client = .ok level := by rfl
  have hclosure : pruner.fragmentClosure level = .ok [person] := by rfl
  obtain ⟨hlevel, hfragments⟩ := marked_prune h
  exact ⟨person, h, hclosure, hlevel, hfragments level [person] hclosure person (List.mem_singleton_self person)⟩

/-- What the client writes in the braces of a `__typename` goes, and nothing comes in its place. -/
theorem emptied_typename :
    let head : FieldHead := { FieldHead.bare "__typename" with label := some "kind" }
    ∃ level, (Sample.pruner Sample.reviews).prune "Review" [.field head [.bare "id"]] = .ok level ∧
      .field head [] ∈ level ∧ ∀ selections, .field head selections ∈ level → selections = [] := by
  intro head
  have h : (Sample.pruner Sample.reviews).prune "Review" [.field head [.bare "id"]] =
      .ok [.field head [], .bare "id", .bare "__typename"] := by rfl
  refine ⟨_, h, List.mem_cons_self, ?_⟩
  intro selections hmem
  simpa [head, Selection.bare, FieldHead.bare] using hmem

end Pruner

end Supergraph
