import Supergraph.Proofs.Pruning.Exactness

/-!
What a result selects on objects of a type, looking through fragments.

A field that the client selects on a type is selected under the same response key by the result and the
fragments that go along with it, if and only if the service can be asked for it on that type
(`Closure.selectsOn_iff`).
-/

namespace Supergraph

open GraphQL

/-- Selections select a field under a response key on objects of a type: at their own level, or in a
fragment on that type. -/
inductive SelectsOn (fragment? : String → Option Fragment) (type name key : String) :
    List Selection → Prop
  | field {level : List Selection} {head : FieldHead} {selections : List Selection} :
      .field head selections ∈ level → head.name = name → head.responseKey = key →
      SelectsOn fragment? type name key level
  | inline {level : List Selection} {condition : Option String} {directives : List Directive}
      {selections : List Selection} :
      .inline condition directives selections ∈ level → condition.getD type = type →
      SelectsOn fragment? type name key selections → SelectsOn fragment? type name key level
  | spread {level : List Selection} {spread : String} {directives : List Directive}
      {fragment : Fragment} :
      .spread spread directives ∈ level → fragment? spread = some fragment →
      fragment.condition = type → SelectsOn fragment? type name key fragment.selections →
      SelectsOn fragment? type name key level

def fragmentNamed (fragments : List Fragment) (name : String) : Option Fragment :=
  fragments.find? fun fragment => fragment.name = name

/-! ## The client's fragments -/

/-- Every fragment stands under its own name. -/
def ClientOperation.Keyed (client : ClientOperation) : Prop :=
  ∀ name fragment, client.fragment? name = some fragment → fragment.name = name

theorem find?_foldl_insert_name {fragments : List Fragment} {map : NameMap Fragment}
    (hmap : ∀ name fragment, map.find? name = some fragment → fragment.name = name) :
    ∀ name fragment, (fragments.foldl (fun map f => map.insert f.name f) map).find? name =
      some fragment → fragment.name = name := by
  induction fragments generalizing map with
  | nil => exact hmap
  | cons first fragments ih =>
    apply ih
    intro name fragment h
    rw [NameMap.find?_insert] at h
    split at h
    · next heq =>
      cases h
      exact heq
    · exact hmap name fragment h

theorem ClientOperation.keyed_of_ofDocument {document : Document} {name : Option String}
    {values : NameMap Json} {client : ClientOperation}
    (h : ClientOperation.ofDocument document name values = .ok client) : client.Keyed := by
  have hfragments : client.fragments =
      document.fragments.foldl (fun map f => map.insert f.name f) NameMap.empty := by
    unfold ofDocument at h
    dsimp only at h
    split at h
    · split at h
      all_goals
        obtain ⟨operation, _, h⟩ := Outcome.bind_eq_ok.mp h
        rw [Outcome.pure_eq_ok] at h
        rw [← h]
    all_goals
      obtain ⟨operation, _, h⟩ := Outcome.bind_eq_ok.mp h
      rw [Outcome.pure_eq_ok] at h
      rw [← h]
  intro fragment definition hfind
  rw [fragment?, hfragments] at hfind
  exact find?_foldl_insert_name (by simp) fragment definition hfind

/-! ## Selections of a level -/

theorem Selection.mem_spreadsOf {level : List Selection} {name : String} :
    name ∈ Selection.spreadsOf level ↔ ∃ selection ∈ level, name ∈ selection.spreads := by
  induction level with
  | nil => simp [Selection.spreadsOf]
  | cons selection level ih =>
    rw [Selection.spreadsOf, List.mem_append, ih, List.exists_mem_cons_iff]

theorem ServiceShape.knows_of_canSelect {shape : ServiceShape} {type field : String}
    (h : shape.canSelect type field = true) : shape.knows type = true := by
  rw [canSelect, Bool.or_eq_true, Bool.or_eq_true] at h
  rw [knows]
  rcases h with (h | h) | h
  · rw [Ownership.contains_of_has h, Bool.true_or, Bool.true_or, Bool.true_or]
  · rw [Ownership.contains_of_has h, Bool.or_true, Bool.true_or, Bool.true_or]
  · rw [servesKey, Bool.and_eq_true, KeyTable.keysOf] at h
    have hkeys : shape.keys.contains type = true := by
      rw [NameMap.contains]
      cases hfind : shape.keys.find? type with
      | none => simp [hfind] at h
      | some keys => rfl
    rw [hkeys, Bool.or_true]

namespace Pruner

variable {pruner : Pruner} {type : String} {client level : List Selection}

theorem Exact.exists_left (h : Exact pruner type client level) {selection : Selection}
    (hmem : selection ∈ client) (hadmits : pruner.admits type selection = true) :
    ∃ left ∈ level, ExactOne pruner type selection left := by
  cases h with
  | intro _ hkept hrest _ _ _ =>
    obtain ⟨left, hleft, hone⟩ :=
      exists_related hkept.forall₂.flip (List.mem_filter.mpr ⟨hmem, hadmits⟩)
    have hin : left ∈ level.filter fun selection => !isTypename selection := by
      rw [hrest]
      exact List.mem_append_left _ hleft
    exact ⟨left, (List.mem_filter.mp hin).1, hone⟩

theorem Exact.exists_client (h : Exact pruner type client level) {left : Selection}
    (hmem : left ∈ level) (hfield : ∀ head selections, left ≠ .field head selections) :
    ∃ selection ∈ client, ExactOne pruner type selection left := by
  cases h with
  | @intro _ _ _ lefts keys _ hkept hrest _ _ _ =>
    have htypename : isTypename left = false := by
      cases left with
      | field head selections => exact absurd rfl (hfield head selections)
      | spread => rfl
      | inline => rfl
    have hin : left ∈ lefts ++ keys.map Selection.bare := by
      rw [← hrest]
      exact List.mem_filter.mpr ⟨hmem, by simp [htypename]⟩
    rcases List.mem_append.mp hin with hin | hin
    · obtain ⟨selection, hselection, hone⟩ := exists_related hkept.forall₂ hin
      exact ⟨selection, (List.mem_filter.mp hselection).1, hone⟩
    · obtain ⟨key, _, rfl⟩ := List.mem_map.mp hin
      exact absurd rfl (hfield _ _)

theorem Exact.canSelect (h : Exact pruner type client level) {head : FieldHead}
    {selections : List Selection} (hmem : .field head selections ∈ level)
    (hname : head.name ≠ typenameField) :
    pruner.service.shape.canSelect type head.name = true := by
  cases h with
  | intro honly _ _ _ _ _ =>
    rcases honly _ hmem with htypename | hadmits
    · exact absurd (of_decide_eq_true htypename) hname
    · exact (of_decide_eq_true hadmits).2

/-! ## Through fragments -/

variable {selections : List Selection} {entered : List (String × Fragment)} {name key : String}

theorem Prunes.name_eq (hkeyed : pruner.client.Keyed) {spread : String} {fragment : Fragment}
    (h : pruner.Prunes spread fragment) : fragment.name = spread := by
  obtain ⟨definition, hdefinition, hpruned⟩ := h
  have hsame : fragment.name = definition.name := by rw [(pruneFragment_eq_ok hpruned).1]
  rw [hsame, hkeyed _ _ hdefinition]

theorem Closure.fragmentNamed_eq_some (h : Closure pruner selections entered)
    (hkeyed : pruner.client.Keyed) {spread : String} {fragment : Fragment}
    (hfind : fragmentNamed (entered.map Prod.snd) spread = some fragment) :
    (spread, fragment) ∈ entered := by
  have hname : fragment.name = spread := by simpa using List.find?_some hfind
  obtain ⟨⟨under, collected⟩, hentry, rfl⟩ := List.mem_map.mp (List.mem_of_find?_eq_some hfind)
  have hsame : collected.name = under := (h.pruned _ hentry).name_eq hkeyed
  rw [← hname, hsame]
  exact hentry

theorem Closure.exists_fragmentNamed (h : Closure pruner selections entered)
    (hkeyed : pruner.client.Keyed) {spread : String} (hmem : spread ∈ entered.map Prod.fst) :
    ∃ fragment, fragmentNamed (entered.map Prod.snd) spread = some fragment := by
  obtain ⟨⟨under, fragment⟩, hentry, rfl⟩ := List.mem_map.mp hmem
  have hsame : fragment.name = under := (h.pruned _ hentry).name_eq hkeyed
  rw [← Option.isSome_iff_exists, fragmentNamed, List.find?_isSome]
  exact ⟨fragment, List.mem_map_of_mem hentry, decide_eq_true hsame⟩

/-- What the client selects on a type is selected by what is left, where the service can be asked for
it. The induction follows the client's fragments; every spread that is left has been entered. -/
theorem Closure.selectsOn_left (h : Closure pruner selections entered) (hkeyed : pruner.client.Keyed)
    (hname : name ≠ typenameField) (hcan : pruner.service.shape.canSelect type name = true)
    (hclient : SelectsOn pruner.client.fragment? type name key client) :
    ∀ {level}, Exact pruner type client level →
      (∀ spread ∈ Selection.spreadsOf level, spread ∈ entered.map Prod.fst) →
      SelectsOn (fragmentNamed (entered.map Prod.snd)) type name key level := by
  have hknows := ServiceShape.knows_of_canSelect hcan
  induction hclient with
  | @field _ head selections hmem hfield hkey =>
    intro level hexact _
    have hadmits : pruner.admits type (.field head selections) = true := by
      rw [← hfield] at hname hcan
      exact decide_eq_true ⟨hname, hcan⟩
    obtain ⟨left, hleft, hone⟩ := hexact.exists_left hmem hadmits
    cases hone with
    | leaf => exact .field hleft hfield hkey
    | nested => exact .field hleft hfield hkey
  | @inline _ condition directives selections hmem hcondition _ ih =>
    intro level hexact hspreads
    -- A fragment on the type is kept because the service knows a type that it has fields of.
    have hadmits : pruner.admits type (.inline condition directives selections) = true := by
      rw [admits, hcondition, hknows]
    obtain ⟨left, hleft, hone⟩ := hexact.exists_left hmem hadmits
    cases hone with
    | inline hinner =>
      rw [hcondition] at hinner
      refine .inline hleft hcondition (ih hinner fun spread hspread => hspreads spread ?_)
      exact Selection.mem_spreadsOf.mpr ⟨_, hleft, hspread⟩
  | @spread _ spread directives definition hmem hdefinition hcondition _ ih =>
    intro level hexact hspreads
    have hadmits : pruner.admits type (.spread spread directives) = true := by
      simp [admits, hdefinition, hcondition, hknows]
    obtain ⟨left, hleft, hone⟩ := hexact.exists_left hmem hadmits
    cases hone with
    | spread =>
      have hentered := hspreads spread (Selection.mem_spreadsOf.mpr ⟨_, hleft, List.mem_singleton_self _⟩)
      obtain ⟨fragment, hfragment⟩ := h.exists_fragmentNamed hkeyed hentered
      have hentry := h.fragmentNamed_eq_some hkeyed hfragment
      -- The fragment of that name was pruned from the one that the client has under it.
      have hpruned : pruner.Prunes spread fragment := h.pruned _ hentry
      obtain ⟨source, hsource, heq, hbody⟩ := hpruned.exact
      rw [hdefinition, Option.some.injEq] at hsource
      subst hsource
      have hsame : fragment.condition = definition.condition := by rw [heq]
      rw [hcondition] at hsame hbody
      exact .spread hleft hfragment hsame (ih hbody (h.closed _ hentry))

theorem Closure.canSelect_of_selectsOn (h : Closure pruner selections entered)
    (hkeyed : pruner.client.Keyed) (hname : name ≠ typenameField)
    (hleft : SelectsOn (fragmentNamed (entered.map Prod.snd)) type name key level) :
    ∀ {client}, Exact pruner type client level →
      pruner.service.shape.canSelect type name = true := by
  induction hleft with
  | field hmem hfield _ =>
    intro client hexact
    rw [← hfield]
    exact hexact.canSelect hmem (hfield ▸ hname)
  | inline hmem hcondition _ ih =>
    intro client hexact
    obtain ⟨selection, _, hone⟩ := hexact.exists_client hmem (by simp)
    cases hone with
    | inline hinner =>
      rw [hcondition] at hinner
      exact ih hinner
  | @spread _ spread _ fragment _ hfragment hcondition _ ih =>
    intro client _
    have hpruned : pruner.Prunes spread fragment :=
      h.pruned _ (h.fragmentNamed_eq_some hkeyed hfragment)
    obtain ⟨definition, _, heq, hbody⟩ := hpruned.exact
    have hsame : fragment.condition = definition.condition := by rw [heq]
    rw [← hsame, hcondition] at hbody
    exact ih hbody

/-- What the client selects on a type is selected by what is left if and only if the service can be asked
for it. -/
theorem Closure.selectsOn_iff (h : Closure pruner selections entered) (hkeyed : pruner.client.Keyed)
    (hname : name ≠ typenameField) (hexact : Exact pruner type client level)
    (hspreads : ∀ spread ∈ Selection.spreadsOf level, spread ∈ Selection.spreadsOf selections)
    (hclient : SelectsOn pruner.client.fragment? type name key client) :
    SelectsOn (fragmentNamed (entered.map Prod.snd)) type name key level ↔
      pruner.service.shape.canSelect type name = true := by
  refine ⟨?_, ?_⟩
  · intro hleft
    exact h.canSelect_of_selectsOn hkeyed hname hleft hexact
  · intro hcan
    exact h.selectsOn_left hkeyed hname hcan hclient hexact
      fun spread hspread => h.spread spread (hspreads spread hspread)

end Pruner

end Supergraph
