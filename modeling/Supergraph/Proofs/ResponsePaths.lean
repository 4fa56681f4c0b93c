import Supergraph.Proofs.SpreadGraph

/-!
Fields at response paths.

A response path goes from field to field by response keys. Where several fields of one level have the same
key, the response has them merged, and the path may go on below any of them.

1. `Lists` is a level as the list of its fields, through inline fragments and spreads. Where no fragment
   spreads itself there is one (`Acyclic.exists_lists`), and its members are what the level selects.
2. `fieldWithKey_eq`: a search for a key gives the first field of that list that has it. What the search
   passes over because it was searched before has no such field (`Lists.findsFirst`, by induction on the
   list, which covers the fragment graph and the selections at once).
3. `finds_paths_iff`: so the field at a path is the end of the chain of first fields. Every path is found if
   and only if no further field with a key leads anywhere that the first one does not, and
   `merged_path_missed` is a path below a further field.
-/

namespace Supergraph

open GraphQL

namespace ClientOperation

variable {client : ClientOperation}

/-! ## The fields of a level -/

/-- Selections select a field, through inline fragments and spreads. -/
inductive Selects (client : ClientOperation) : List Selection → Field → Prop
  | field {head : FieldHead} {inner rest : List Selection} :
      Selects client (.field head inner :: rest) ⟨head, inner⟩
  | inline {condition : Option String} {directives : List Directive} {inner rest : List Selection}
      {field : Field} :
      Selects client inner field → Selects client (.inline condition directives inner :: rest) field
  | spread {name : String} {directives : List Directive} {fragment : Fragment} {rest : List Selection}
      {field : Field} :
      client.fragment? name = some fragment → Selects client fragment.selections field →
      Selects client (.spread name directives :: rest) field
  | later {selection : Selection} {rest : List Selection} {field : Field} :
      Selects client rest field → Selects client (selection :: rest) field

/-- The fields that selections select, in the order of the text, a fragment standing where it is spread. -/
inductive Lists (client : ClientOperation) : List Selection → List Field → Prop
  | nil : Lists client [] []
  | field {head : FieldHead} {inner rest : List Selection} {fields : List Field} :
      Lists client rest fields → Lists client (.field head inner :: rest) (⟨head, inner⟩ :: fields)
  | inline {condition : Option String} {directives : List Directive} {inner rest : List Selection}
      {below fields : List Field} :
      Lists client inner below → Lists client rest fields →
      Lists client (.inline condition directives inner :: rest) (below ++ fields)
  | spread {name : String} {directives : List Directive} {fragment : Fragment} {rest : List Selection}
      {below fields : List Field} :
      client.fragment? name = some fragment → Lists client fragment.selections below →
      Lists client rest fields → Lists client (.spread name directives :: rest) (below ++ fields)
  | undefined {name : String} {directives : List Directive} {rest : List Selection}
      {fields : List Field} :
      client.fragment? name = none → Lists client rest fields →
      Lists client (.spread name directives :: rest) fields

namespace Lists

variable {selections others : List Selection} {fields fields' : List Field}

theorem selects_iff (h : client.Lists selections fields) (field : Field) :
    client.Selects selections field ↔ field ∈ fields := by
  induction h with
  | nil =>
    refine iff_of_false ?_ List.not_mem_nil
    intro h
    cases h
  | field _ ih =>
    rw [List.mem_cons, ← ih]
    constructor
    · intro h
      cases h with
      | field => exact .inl rfl
      | later h => exact .inr h
    · rintro (rfl | h)
      · exact .field
      · exact .later h
  | inline _ _ ihinner ih =>
    rw [List.mem_append, ← ihinner, ← ih]
    constructor
    · intro h
      cases h with
      | inline h => exact .inl h
      | later h => exact .inr h
    · rintro (h | h)
      · exact .inline h
      · exact .later h
  | spread hfragment _ _ ihbody ih =>
    rw [List.mem_append, ← ihbody, ← ih]
    constructor
    · intro h
      cases h with
      | spread hfragment' h =>
        cases hfragment.symm.trans hfragment'
        exact .inl h
      | later h => exact .inr h
    · rintro (h | h)
      · exact .spread hfragment h
      · exact .later h
  | undefined hnone _ ih =>
    rw [← ih]
    refine ⟨?_, .later⟩
    intro h
    cases h with
    | spread hfragment _ => cases hnone.symm.trans hfragment
    | later h => exact h

theorem append (h : client.Lists selections fields) (h' : client.Lists others fields') :
    client.Lists (selections ++ others) (fields ++ fields') := by
  induction h with
  | nil => exact h'
  | field _ ih => exact .field ih
  | inline hinner _ _ ih =>
    rw [List.append_assoc]
    exact .inline hinner ih
  | spread hfragment hbody _ _ ih =>
    rw [List.append_assoc]
    exact .spread hfragment hbody ih
  | undefined hnone _ ih => exact .undefined hnone ih

end Lists

mutual

theorem exists_lists_selection : ∀ selection : Selection,
    (∀ name ∈ selection.spreads, ∀ fragment, client.fragment? name = some fragment →
      ∃ fields, client.Lists fragment.selections fields) → ∃ fields, client.Lists [selection] fields
  | .field _ _, _ => ⟨_, .field .nil⟩
  | .spread name directives, h => by
    cases hfragment : client.fragment? name with
    | none => exact ⟨_, .undefined hfragment .nil⟩
    | some fragment =>
      obtain ⟨fields, hbody⟩ := h name (List.mem_singleton_self name) fragment hfragment
      exact ⟨_, .spread hfragment hbody .nil⟩
  | .inline condition directives inner, h => by
    obtain ⟨fields, hinner⟩ := exists_lists_selections inner h
    exact ⟨_, .inline hinner .nil⟩

theorem exists_lists_selections : ∀ selections : List Selection,
    (∀ name ∈ Selection.spreadsOf selections, ∀ fragment, client.fragment? name = some fragment →
      ∃ fields, client.Lists fragment.selections fields) → ∃ fields, client.Lists selections fields
  | [], _ => ⟨[], .nil⟩
  | selection :: rest, h => by
    obtain ⟨fields, hselection⟩ := exists_lists_selection selection fun name hname =>
      h name (List.mem_append_left _ hname)
    obtain ⟨others, hrest⟩ := exists_lists_selections rest fun name hname =>
      h name (List.mem_append_right _ hname)
    exact ⟨_, hselection.append hrest⟩

end

theorem Acyclic.exists_lists (hacyclic : client.Acyclic) (selections : List Selection) :
    ∃ fields, client.Lists selections fields := by
  have hbody : ∀ name fragment, client.fragment? name = some fragment →
      ∃ fields, client.Lists fragment.selections fields := by
    intro name
    induction name using hacyclic.wellFounded.induction with
    | _ name ih =>
    intro fragment hfragment
    exact exists_lists_selections _ fun spread hspread => ih spread ⟨fragment, hfragment, hspread⟩
  exact exists_lists_selections selections fun name _ => hbody name

/-! ## The search for a key -/

variable {key : String} {selections : List Selection} {fields : List Field}

/-- The fragment of a name selects no field with the key. -/
def Vain (client : ClientOperation) (key name : String) : Prop :=
  ∀ fragment field, client.fragment? name = some fragment →
    client.Selects fragment.selections field → field.responseKey ≠ key

/-- Selections spread a fragment, perhaps through others. -/
def Reaches (client : ClientOperation) (selections : List Selection) (name : String) : Prop :=
  ∃ spread ∈ Selection.spreadsOf selections, Relation.ReflTransGen client.FragmentSpreads spread name

/-- The outcome of a search is right for a list of fields: it is the first that has the key; or none has it,
and what is searched by then was so before or has been searched in vain. -/
inductive Answers (client : ClientOperation) (key : String) (fields : List Field)
    (earlier : List String) : FieldSearch → Prop
  | found {field : Field} : fields.find? (fun field => field.responseKey = key) = some field →
      Answers client key fields earlier (.found field)
  | missing {later : List String} : fields.find? (fun field => field.responseKey = key) = none →
      earlier ⊆ later → (∀ name ∈ later, name ∈ earlier ∨ client.Vain key name) →
      Answers client key fields earlier (.missing later)

/-- A search, and another one after it if it finds nothing. -/
def FieldSearch.orElse (first : FieldSearch) (next : List String → FieldSearch) : FieldSearch :=
  match first with
  | .found field => .found field
  | .missing searched => next searched

theorem searchSelections_cons (follow : List String → String → FieldSearch) (searched : List String)
    (selection : Selection) (rest : List Selection) :
    searchSelections key follow searched (selection :: rest) =
      (searchSelection key follow searched selection).orElse fun searched =>
        searchSelections key follow searched rest := by
  rw [searchSelections]
  rfl

namespace Answers

variable {below : List Field} {earlier : List String}

theorem orElse {first : FieldSearch} {next : List String → FieldSearch}
    (hfirst : client.Answers key below earlier first)
    (hnext : ∀ later, earlier ⊆ later → (∀ name ∈ later, name ∈ earlier ∨ client.Vain key name) →
      client.Answers key fields later (next later)) :
    client.Answers key (below ++ fields) earlier (first.orElse next) := by
  cases hfirst with
  | found hfield => exact .found (by rw [List.find?_append, hfield, Option.some_or])
  | @missing later hnone hsubset hvain =>
    have hrest := hnext later hsubset hvain
    rw [FieldSearch.orElse]
    generalize next later = result at hrest
    cases hrest with
    | found hfield => exact .found (by rw [List.find?_append, hnone, Option.none_or, hfield])
    | missing hnone' hsubset' hvain' =>
      refine .missing (by rw [List.find?_append, hnone, hnone', Option.none_or])
        (List.Subset.trans hsubset hsubset') fun name hname => ?_
      rcases hvain' name hname with hlater | hvain'
      · exact hvain name hlater
      · exact .inr hvain'

theorem nothing (earlier : List String) : client.Answers key [] earlier (.missing earlier) :=
  .missing rfl (List.Subset.refl _) fun _ hname => .inl hname

end Answers

theorem searchFragment_of_searched {depth : Nat} {searched : List String} {name : String}
    (h : name ∈ searched) : client.searchFragment key depth searched name = .missing searched := by
  unfold searchFragment
  simp [h]

theorem searchFragment_of_undefined {depth : Nat} {searched : List String} {name : String}
    (h : client.fragment? name = none) :
    client.searchFragment key depth searched name = .missing searched := by
  unfold searchFragment
  cases depth <;> simp [h]

theorem searchFragment_of_defined {depth : Nat} {searched : List String} {name : String}
    {fragment : Fragment} (hsearched : name ∉ searched)
    (hfragment : client.fragment? name = some fragment) :
    client.searchFragment key (depth + 1) searched name =
      searchSelections key (client.searchFragment key depth) (name :: searched) fragment.selections := by
  rw [searchFragment.eq_def]
  simp [hsearched, hfragment]

/-- A search answers for a list of fields if it may go deep enough for all fragments that are left, and if the
fragments that it reaches and that were searched before were searched in vain. -/
def FindsFirst (client : ClientOperation) (key : String) (selections : List Selection)
    (fields : List Field) : Prop :=
  ∀ (depth : Nat) (searched : List String), client.unentered searched ≤ depth →
    (∀ name ∈ searched, client.Reaches selections name → client.Vain key name) →
    client.Answers key fields searched
      (searchSelections key (client.searchFragment key depth) searched selections)

theorem Reaches.mono {others : List Selection} {name : String}
    (hsubset : Selection.spreadsOf others ⊆ Selection.spreadsOf selections)
    (h : client.Reaches others name) : client.Reaches selections name := by
  obtain ⟨spread, hmem, hpath⟩ := h
  exact ⟨spread, hsubset hmem, hpath⟩

theorem FindsFirst.cons {selection : Selection} {rest : List Selection} {below : List Field}
    (hselection : ∀ depth searched, client.unentered searched ≤ depth →
      (∀ name ∈ searched, client.Reaches (selection :: rest) name → client.Vain key name) →
      client.Answers key below searched
        (searchSelection key (client.searchFragment key depth) searched selection))
    (hrest : client.FindsFirst key rest fields) :
    client.FindsFirst key (selection :: rest) (below ++ fields) := by
  intro depth searched hdepth hvain
  rw [searchSelections_cons]
  refine (hselection depth searched hdepth hvain).orElse fun later hsubset hlater => ?_
  refine hrest depth later ((unentered_le_of_subset hsubset).trans hdepth) fun name hname hreaches => ?_
  rcases hlater name hname with hearlier | hvain'
  · exact hvain name hearlier (hreaches.mono (List.subset_append_right _ _))
  · exact hvain'

/-- The search of a fragment answers for the fields of its body. The fragment counts as searched from its
beginning on, but its body does not reach it. -/
theorem searchFragment_answers (hacyclic : client.Acyclic) {name : String} {fragment : Fragment}
    (hfragment : client.fragment? name = some fragment)
    (hlists : client.Lists fragment.selections fields)
    (hbody : client.FindsFirst key fragment.selections fields) {depth : Nat} {searched : List String}
    (hdepth : client.unentered searched ≤ depth)
    (hvain : ∀ other ∈ searched, Relation.ReflTransGen client.FragmentSpreads name other →
      client.Vain key other) :
    client.Answers key fields searched (client.searchFragment key depth searched name) := by
  by_cases hsearched : name ∈ searched
  · rw [searchFragment_of_searched hsearched]
    refine .missing ?_ (List.Subset.refl _) fun _ hname => .inl hname
    rw [List.find?_eq_none]
    intro field hmem
    simpa using hvain name hsearched .refl fragment field hfragment ((hlists.selects_iff field).mpr hmem)
  · have hlt := unentered_cons_lt hsearched hfragment
    obtain ⟨rest, rfl⟩ := Nat.exists_eq_succ_of_ne_zero (show depth ≠ 0 by omega)
    rw [searchFragment_of_defined hsearched hfragment]
    have hinner := hbody rest (name :: searched) (by omega) fun other hother hreaches => by
      obtain ⟨spread, hspread, hpath⟩ := hreaches
      have hstep : client.FragmentSpreads name spread := ⟨fragment, hfragment, hspread⟩
      rcases List.mem_cons.mp hother with rfl | hother
      · exact absurd (Relation.TransGen.head' hstep hpath) (hacyclic other)
      · exact hvain other hother (.head hstep hpath)
    cases hresult : searchSelections key (client.searchFragment key rest) (name :: searched)
        fragment.selections with
    | found field =>
      rw [hresult] at hinner
      cases hinner with
      | found hfield => exact .found hfield
    | missing later =>
      rw [hresult] at hinner
      cases hinner with
      | missing hnone hsubset hlater =>
        -- The body has no field with the key, so that the fragment itself was searched in vain.
        have hname : client.Vain key name := by
          intro fragment' field hfragment' hselects
          cases hfragment.symm.trans hfragment'
          simpa using List.find?_eq_none.mp hnone field ((hlists.selects_iff field).mp hselects)
        refine .missing hnone (fun other hother => hsubset (List.mem_cons_of_mem _ hother)) ?_
        intro other hother
        rcases hlater other hother with hearlier | hvain'
        · rcases List.mem_cons.mp hearlier with rfl | hearlier
          · exact .inr hname
          · exact .inl hearlier
        · exact .inr hvain'

theorem Lists.findsFirst (hacyclic : client.Acyclic) (h : client.Lists selections fields) (key : String) :
    client.FindsFirst key selections fields := by
  induction h with
  | nil => exact fun _ searched _ _ => .nothing searched
  | @field head inner rest fields _ ih =>
    show client.FindsFirst key (.field head inner :: rest) ([⟨head, inner⟩] ++ fields)
    refine .cons (fun depth searched _ _ => ?_) ih
    rw [searchSelection]
    by_cases hkey : head.responseKey = key
    · rw [if_pos hkey]
      exact .found (List.find?_cons_of_pos (decide_eq_true hkey))
    · rw [if_neg hkey]
      refine .missing ?_ (List.Subset.refl _) fun _ hname => .inl hname
      simp [Field.responseKey, hkey]
  | inline _ _ ihinner ih =>
    refine FindsFirst.cons (fun depth searched hdepth hvain => ?_) ih
    rw [searchSelection]
    exact ihinner depth searched hdepth fun name hname hreaches =>
      hvain name hname (hreaches.mono (List.subset_append_left _ _))
  | spread hfragment hlists _ ihbody ih =>
    refine FindsFirst.cons (fun depth searched hdepth hvain => ?_) ih
    rw [searchSelection]
    refine searchFragment_answers hacyclic hfragment hlists ihbody hdepth fun other hother hpath => ?_
    exact hvain other hother ⟨_, List.mem_cons_self, hpath⟩
  | @undefined name directives rest fields hnone _ ih =>
    show client.FindsFirst key (.spread name directives :: rest) ([] ++ fields)
    refine .cons (fun depth searched _ _ => ?_) ih
    rw [searchSelection, searchFragment_of_undefined hnone]
    exact .nothing searched

/-- A search for a key finds the first field of the level that has it. -/
theorem Lists.fieldWithKey_eq (hacyclic : client.Acyclic) (h : client.Lists selections fields)
    (key : String) :
    client.fieldWithKey selections key = fields.find? fun field => field.responseKey = key := by
  have hanswers := h.findsFirst hacyclic key _ [] (client.unentered_le_length []) (by simp)
  rw [fieldWithKey]
  cases hresult : searchSelections key
      (client.searchFragment key client.fragments.entries.length) [] selections with
  | found field =>
    rw [hresult] at hanswers
    cases hanswers with
    | found hfield => exact hfield.symm
  | missing later =>
    rw [hresult] at hanswers
    cases hanswers with
    | missing hnone _ _ => exact hnone.symm

/-! ## Chains of fields -/

/-- Selections select a field with a response key. -/
def SelectsAs (client : ClientOperation) (selections : List Selection) (key : String) (field : Field) :
    Prop :=
  client.Selects selections field ∧ field.responseKey = key

/-- The field is the first that selections select with its response key. -/
def Leads (client : ClientOperation) (selections : List Selection) (key : String) (field : Field) :
    Prop :=
  ∃ fields, client.Lists selections fields ∧
    fields.find? (fun field => field.responseKey = key) = some field

/-- A chain of fields along a path: the first is linked to selections by the first key of the path, and each
further one to the sub-selections of the one before it. -/
inductive Chain (link : List Selection → String → Field → Prop) :
    List Selection → List String → Field → Prop
  | last {selections : List Selection} {key : String} {field : Field} :
      link selections key field → Chain link selections [key] field
  | next {selections : List Selection} {key : String} {field last : Field} {path : List String} :
      link selections key field → Chain link field.selections path last →
      Chain link selections (key :: path) last

theorem Chain.mono {link other : List Selection → String → Field → Prop}
    (hlink : ∀ {selections key field}, link selections key field → other selections key field)
    {path : List String} {field : Field} (h : Chain link selections path field) :
    Chain other selections path field := by
  induction h with
  | last hfield => exact .last (hlink hfield)
  | next hfield _ ih => exact .next (hlink hfield) ih

theorem Leads.selectsAs {field : Field} (h : client.Leads selections key field) :
    client.SelectsAs selections key field := by
  obtain ⟨fields, hlists, hfind⟩ := h
  exact ⟨(hlists.selects_iff field).mpr (List.mem_of_find?_eq_some hfind),
    by simpa using List.find?_some hfind⟩

theorem fieldWithKey_eq_some_iff (hacyclic : client.Acyclic) {field : Field} :
    client.fieldWithKey selections key = some field ↔ client.Leads selections key field := by
  constructor
  · intro h
    obtain ⟨fields, hlists⟩ := hacyclic.exists_lists selections
    exact ⟨fields, hlists, (hlists.fieldWithKey_eq hacyclic key).symm.trans h⟩
  · rintro ⟨fields, hlists, hfind⟩
    exact (hlists.fieldWithKey_eq hacyclic key).trans hfind

theorem Leads.unique (hacyclic : client.Acyclic) {field other : Field}
    (h : client.Leads selections key field) (h' : client.Leads selections key other) : field = other := by
  rw [← fieldWithKey_eq_some_iff hacyclic] at h h'
  exact Option.some.inj (h.symm.trans h')

theorem SelectsAs.exists_leads (hacyclic : client.Acyclic) {field : Field}
    (h : client.SelectsAs selections key field) : ∃ leader, client.Leads selections key leader := by
  obtain ⟨fields, hlists⟩ := hacyclic.exists_lists selections
  obtain ⟨hselects, hkey⟩ := h
  have hsome : (fields.find? fun field => field.responseKey = key).isSome = true := by
    rw [List.find?_isSome]
    exact ⟨field, (hlists.selects_iff field).mp hselects, by simpa using hkey⟩
  obtain ⟨leader, hleader⟩ := Option.isSome_iff_exists.mp hsome
  exact ⟨leader, fields, hlists, hleader⟩

/-- A path below selections leads to the end of the chain of first fields. -/
theorem fieldBelow_eq_some_iff (hacyclic : client.Acyclic) {field : Field} :
    ∀ {path : List String} {selections : List Selection},
      client.fieldBelow selections path = some field ↔ Chain client.Leads selections path field
  | [], _ => by
    refine iff_of_false (by simp [fieldBelow]) ?_
    intro h
    cases h
  | [key], _ => by
    rw [fieldBelow, fieldWithKey_eq_some_iff hacyclic]
    refine ⟨.last, ?_⟩
    intro h
    cases h with
    | last h => exact h
    | next _ h => cases h
  | key :: next :: path, selections => by
    rw [fieldBelow, Option.bind_eq_some_iff]
    · constructor
      · rintro ⟨first, hfirst, hrest⟩
        exact .next ((fieldWithKey_eq_some_iff hacyclic).mp hfirst)
          ((fieldBelow_eq_some_iff hacyclic).mp hrest)
      · intro h
        cases h with
        | next hfirst hrest =>
          exact ⟨_, (fieldWithKey_eq_some_iff hacyclic).mpr hfirst,
            (fieldBelow_eq_some_iff hacyclic).mpr hrest⟩
    · simp

/-! ## Which paths are found -/

/-- There is a chain of fields for a path below selections. -/
def HasPath (client : ClientOperation) (selections : List Selection) (path : List String) : Prop :=
  ∃ field, Chain client.SelectsAs selections path field

/-- The levels that first fields lead to. -/
inductive Visited (client : ClientOperation) : List Selection → Prop
  | operation : Visited client client.operation.selections
  | next {level : List Selection} {key : String} {leader : Field} :
      Visited client level → client.Leads level key leader → Visited client leader.selections

/-- Where several fields of a level have one key, no path goes on below a further one only. -/
def LeadersSuffice (client : ClientOperation) : Prop :=
  ∀ level key leader other path, client.Visited level → client.Leads level key leader →
    client.SelectsAs level key other → client.HasPath other.selections path →
    client.HasPath leader.selections path

theorem Visited.exists_chain (hacyclic : client.Acyclic) {level : List Selection}
    (hlevel : client.Visited level)
    (hall : ∀ path, client.HasPath client.operation.selections path →
      ∃ field, Chain client.Leads client.operation.selections path field) :
    ∀ path, client.HasPath level path → ∃ field, Chain client.Leads level path field := by
  induction hlevel with
  | operation => exact hall
  | @next level key leader _ hleader ih =>
    rintro path ⟨field, hchain⟩
    -- With the key in front the path is one of the level before, and is found there through the leader.
    obtain ⟨last, hlast⟩ := ih (key :: path) ⟨field, .next hleader.selectsAs hchain⟩
    cases hlast with
    | last _ => cases hchain
    | next hfirst hrest =>
      cases hfirst.unique hacyclic hleader
      exact ⟨last, hrest⟩

theorem LeadersSuffice.exists_chain (hacyclic : client.Acyclic) (h : client.LeadersSuffice) :
    ∀ {path : List String} {level : List Selection}, client.Visited level → client.HasPath level path →
      ∃ field, Chain client.Leads level path field := by
  intro path
  induction path with
  | nil =>
    rintro level _ ⟨field, hchain⟩
    cases hchain
  | cons key path ih =>
    rintro level hlevel ⟨field, hchain⟩
    cases hchain with
    | last hfield =>
      obtain ⟨leader, hleader⟩ := hfield.exists_leads hacyclic
      exact ⟨leader, .last hleader⟩
    | next hother hrest =>
      -- The chain may start with a further field, but then the first one goes on along the same path.
      obtain ⟨leader, hleader⟩ := hother.exists_leads hacyclic
      obtain ⟨last, hlast⟩ := ih (.next hlevel hleader)
        (h level key leader _ path hlevel hleader hother ⟨field, hrest⟩)
      exact ⟨last, .next hleader hlast⟩

theorem leadersSuffice_iff (hacyclic : client.Acyclic) :
    (∀ path, client.HasPath client.operation.selections path →
      ∃ field, Chain client.Leads client.operation.selections path field) ↔ client.LeadersSuffice := by
  constructor
  · rintro hall level key leader other path hlevel hleader hother ⟨field, hchain⟩
    obtain ⟨last, hlast⟩ := hlevel.exists_chain hacyclic hall (key :: path) ⟨field, .next hother hchain⟩
    cases hlast with
    | last _ => cases hchain
    | next hfirst hrest =>
      cases hfirst.unique hacyclic hleader
      exact ⟨last, hrest.mono Leads.selectsAs⟩
  · intro h path hpath
    exact h.exists_chain hacyclic .operation hpath

/-- The field at a response path is the end of the chain of first fields along it, so that it ends a chain of
selected fields. Every path that has such a chain is found if and only if no path goes on below a further
field of a key only. -/
theorem finds_paths_iff (hacyclic : client.Acyclic) :
    (∀ path field, client.fieldAt path = some field ↔
      Chain client.Leads client.operation.selections path field) ∧
    (∀ path field, client.fieldAt path = some field →
      Chain client.SelectsAs client.operation.selections path field) ∧
    ((∀ path, (∃ field, client.fieldAt path = some field) ↔
      client.HasPath client.operation.selections path) ↔ client.LeadersSuffice) := by
  have hfield : ∀ path field, client.fieldAt path = some field ↔
      Chain client.Leads client.operation.selections path field :=
    fun path field => fieldBelow_eq_some_iff hacyclic
  have hsound : ∀ path field, client.fieldAt path = some field →
      Chain client.SelectsAs client.operation.selections path field :=
    fun path field h => ((hfield path field).mp h).mono Leads.selectsAs
  refine ⟨hfield, hsound, ?_⟩
  rw [← leadersSuffice_iff hacyclic]
  refine forall_congr' fun path => ?_
  simp only [hfield]
  constructor
  · exact Iff.mpr
  · intro h
    exact ⟨fun ⟨field, hchain⟩ => ⟨field, hchain.mono Leads.selectsAs⟩, h⟩

/-! ## Reviews that are selected twice -/

/-- A query that selects the latest reviews twice, the first time by a fragment. -/
def latestDocument : Document :=
  [.shorthand [.field ⟨some "latest", "reviews", [], []⟩ [.spread "Parts" []],
      .field ⟨some "latest", "reviews", [], []⟩ [.bare "id"]],
    .fragment ⟨"Parts", "Review", [], [.bare "id", .bare "body"]⟩]

/-- The body of the latest reviews is found through the fragment. -/
theorem finds_paths_latest :
    ∃ client, ClientOperation.ofDocument latestDocument none .empty = .ok client ∧ client.Acyclic ∧
      client.fieldAt ["latest", "body"] = some ⟨.bare "body", []⟩ ∧
      Chain client.SelectsAs client.operation.selections ["latest", "body"] ⟨.bare "body", []⟩ := by
  have hclient : ∃ client, ClientOperation.ofDocument latestDocument none .empty = .ok client :=
    ⟨_, rfl⟩
  obtain ⟨client, hclient⟩ := hclient
  have hacyclic : client.Acyclic := by
    apply acyclic_of_lt fun _ => 0
    rintro name other ⟨fragment, hfragment, hother⟩
    cases hclient
    simp only [fragment?, Document.fragments, latestDocument, List.filterMap_cons, List.filterMap_nil,
      List.foldl_cons, List.foldl_nil, NameMap.find?_insert, NameMap.find?_empty] at hfragment
    split at hfragment
    · cases hfragment
      cases hother
    · cases hfragment
  refine ⟨client, hclient, hacyclic, ?_⟩
  obtain ⟨_, hsound, _⟩ := finds_paths_iff hacyclic
  cases hclient
  exact ⟨rfl, hsound _ _ rfl⟩

/-- A query that selects the reviews twice, each time with another field. -/
def twiceDocument : Document :=
  [.shorthand [.field (.bare "reviews") [.bare "id"], .field (.bare "reviews") [.bare "body"]]]

/-- The second selection of the reviews is not searched, so that their body is not found. -/
theorem merged_path_missed :
    ∃ client, ClientOperation.ofDocument twiceDocument none .empty = .ok client ∧ client.Acyclic ∧
      client.Defines (Selection.spreadsOf client.operation.selections) ∧ client.SpreadsDefined ∧
      Chain client.SelectsAs client.operation.selections ["reviews", "body"] ⟨.bare "body", []⟩ ∧
      client.fieldAt ["reviews", "body"] = none := by
  have hclient : ∃ client, ClientOperation.ofDocument twiceDocument none .empty = .ok client :=
    ⟨_, rfl⟩
  obtain ⟨client, hclient⟩ := hclient
  have hnone : ∀ name, client.fragment? name = none := by
    cases hclient
    exact fun _ => rfl
  refine ⟨client, hclient, ?_, ?_, ?_, ?_, ?_⟩
  · apply acyclic_of_lt fun _ => 0
    rintro name other ⟨fragment, hfragment, _⟩
    cases (hnone name).symm.trans hfragment
  · cases hclient
    exact fun _ hname => by cases hname
  · intro name fragment hfragment
    cases (hnone name).symm.trans hfragment
  · cases hclient
    exact .next ⟨.later .field, rfl⟩ (.last ⟨.field, rfl⟩)
  · cases hclient
    rfl

end ClientOperation

end Supergraph
