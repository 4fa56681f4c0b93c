import Supergraph.Proofs.Pruning.Remnant
import Supergraph.Proofs.SpreadGraph

/-!
Spreads and inline fragments are pruned alike, though one path prunes an inline fragment where it stands
and another prunes the body of a spread fragment on its own.

1. `Expands` replaces spreads by inline fragments, through fragments of fragments. It is a partial
   function (`Expands.unique`), defined where the spreads are and form no cycle (`exists_expands`).
2. `pruneSelections_expand`: pruning an expansion gives an expansion of what pruning gives, by induction
   on the expansion, which covers the fragment graph and the selections at once.
3. `prune_expand` adds what the closure of the result has to do with it: it succeeds where the result has
   an expansion, and its fragments are those that the expansion takes.
-/

namespace Supergraph

open GraphQL

/-! ## Expansion -/

/-- Selections with every spread replaced by an inline fragment: on the condition of the fragment, with
the directives of the spread and then those of the fragment, and with its body expanded in turn. -/
inductive Expands (fragment? : String → Option Fragment) : List Selection → List Selection → Prop
  | nil : Expands fragment? [] []
  | field {head : FieldHead} {inner inner' rest rest' : List Selection} :
      Expands fragment? inner inner' → Expands fragment? rest rest' →
      Expands fragment? (.field head inner :: rest) (.field head inner' :: rest')
  | inline {condition : Option String} {directives : List Directive}
      {inner inner' rest rest' : List Selection} :
      Expands fragment? inner inner' → Expands fragment? rest rest' →
      Expands fragment? (.inline condition directives inner :: rest)
        (.inline condition directives inner' :: rest')
  | spread {name : String} {directives : List Directive} {fragment : Fragment}
      {body rest rest' : List Selection} :
      fragment? name = some fragment → Expands fragment? fragment.selections body →
      Expands fragment? rest rest' →
      Expands fragment? (.spread name directives :: rest)
        (.inline (some fragment.condition) (directives ++ fragment.directives) body :: rest')

namespace Expands

variable {fragment? other? : String → Option Fragment} {first second expanded : List Selection}

theorem unique (h : Expands fragment? first expanded) :
    ∀ {other}, Expands fragment? first other → other = expanded := by
  induction h with
  | nil =>
    intro other h
    cases h
    rfl
  | field _ _ ihinner ihrest =>
    intro other h
    cases h with
    | field hinner hrest => rw [ihinner hinner, ihrest hrest]
  | inline _ _ ihinner ihrest =>
    intro other h
    cases h with
    | inline hinner hrest => rw [ihinner hinner, ihrest hrest]
  | spread hfragment _ _ ihbody ihrest =>
    intro other h
    cases h with
    | spread hfragment' hbody hrest =>
      cases hfragment.symm.trans hfragment'
      rw [ihbody hbody, ihrest hrest]

theorem iff_eq (h : Expands fragment? first expanded) (other : List Selection) :
    Expands fragment? first other ↔ other = expanded := by
  constructor
  · exact h.unique
  · rintro rfl
    exact h

theorem append {expanded' : List Selection} (h₁ : Expands fragment? first expanded)
    (h₂ : Expands fragment? second expanded') :
    Expands fragment? (first ++ second) (expanded ++ expanded') := by
  induction h₁ with
  | nil => exact h₂
  | field hinner _ _ ih => exact .field hinner ih
  | inline hinner _ _ ih => exact .inline hinner ih
  | spread hfragment hbody _ _ ih => exact .spread hfragment hbody ih

theorem of_append (h : Expands fragment? (first ++ second) expanded) :
    ∃ expanded₁ expanded₂, expanded = expanded₁ ++ expanded₂ ∧ Expands fragment? first expanded₁ ∧
      Expands fragment? second expanded₂ := by
  induction first generalizing expanded with
  | nil => exact ⟨[], expanded, rfl, .nil, h⟩
  | cons selection first ih =>
    cases h with
    | field hinner hrest =>
      obtain ⟨rest₁, rest₂, rfl, h₁, h₂⟩ := ih hrest
      exact ⟨_ :: rest₁, rest₂, rfl, .field hinner h₁, h₂⟩
    | inline hinner hrest =>
      obtain ⟨rest₁, rest₂, rfl, h₁, h₂⟩ := ih hrest
      exact ⟨_ :: rest₁, rest₂, rfl, .inline hinner h₁, h₂⟩
    | spread hfragment hbody hrest =>
      obtain ⟨rest₁, rest₂, rfl, h₁, h₂⟩ := ih hrest
      exact ⟨_ :: rest₁, rest₂, rfl, .spread hfragment hbody h₁, h₂⟩

/-- Look-ups that agree on the names in question give the same expansion. `names` is closed under
spreads, so that it has all names that the expansion looks up. -/
theorem congr {names : List String} (hagree : ∀ name ∈ names, fragment? name = other? name)
    (hclosed : ∀ name ∈ names, ∀ fragment, fragment? name = some fragment →
      Selection.spreadsOf fragment.selections ⊆ names)
    (h : Expands fragment? first expanded) (hfirst : Selection.spreadsOf first ⊆ names) :
    Expands other? first expanded := by
  induction h with
  | nil => exact .nil
  | field _ _ ihinner ihrest =>
    rw [Selection.spreadsOf, Selection.spreads, List.append_subset] at hfirst
    exact .field (ihinner hfirst.1) (ihrest hfirst.2)
  | inline _ _ ihinner ihrest =>
    rw [Selection.spreadsOf, Selection.spreads, List.append_subset] at hfirst
    exact .inline (ihinner hfirst.1) (ihrest hfirst.2)
  | @spread name _ fragment _ _ _ hfragment _ _ ihbody ihrest =>
    rw [Selection.spreadsOf, Selection.spreads, List.append_subset] at hfirst
    have hname : name ∈ names := hfirst.1 (List.mem_singleton_self name)
    have hbody := hclosed name hname fragment hfragment
    exact .spread (hagree name hname ▸ hfragment) (ihbody hbody) (ihrest hfirst.2)

theorem exists_of_mem_spreadsOf (h : Expands fragment? first expanded) {name : String}
    (hname : name ∈ Selection.spreadsOf first) :
    ∃ fragment body, fragment? name = some fragment ∧ Expands fragment? fragment.selections body := by
  induction h with
  | nil => simp [Selection.spreadsOf] at hname
  | field _ _ ihinner ihrest =>
    rw [Selection.spreadsOf, Selection.spreads, List.mem_append] at hname
    exact hname.elim ihinner ihrest
  | inline _ _ ihinner ihrest =>
    rw [Selection.spreadsOf, Selection.spreads, List.mem_append] at hname
    exact hname.elim ihinner ihrest
  | spread hfragment hbody _ _ ihrest =>
    rw [Selection.spreadsOf, Selection.spreads, List.mem_append, List.mem_singleton] at hname
    rcases hname with rfl | hname
    · exact ⟨_, _, hfragment, hbody⟩
    · exact ihrest hname

theorem isEmpty_eq (h : Expands fragment? first expanded) : expanded.isEmpty = first.isEmpty := by
  cases h <;> rfl

theorem selects_eq (h : Expands fragment? first expanded) (name : String) :
    selects expanded name = selects first name := by
  induction h with
  | nil => rfl
  | field _ _ _ ih => simp only [selects, List.any_cons] at ih ⊢; rw [ih]; rfl
  | inline _ _ _ ih => simp only [selects, List.any_cons] at ih ⊢; rw [ih]; rfl
  | spread _ _ _ _ ih => simp only [selects, List.any_cons] at ih ⊢; rw [ih]; rfl

theorem bare (name : String) : Expands fragment? [.bare name] [.bare name] := .field .nil .nil

theorem ensure (h : Expands fragment? first expanded) (name : String) :
    Expands fragment? (Pruner.ensure first name) (Pruner.ensure expanded name) := by
  rw [Pruner.ensure, Pruner.ensure, h.selects_eq]
  split
  · exact h
  · exact h.append (.bare name)

theorem complete (pruner : Pruner) (type : String) (h : Expands fragment? first expanded) :
    Expands fragment? (pruner.complete type first) (pruner.complete type expanded) := by
  rw [Pruner.complete_eq_foldl, Pruner.complete_eq_foldl]
  generalize (pruner.index.keysOf type).filter (pruner.completes type) ++ [typenameField] = names
  induction names generalizing first expanded with
  | nil => exact h
  | cons name names ih => exact ih (h.ensure name)

theorem of_complete {pruner : Pruner} {type : String}
    (h : Expands fragment? (pruner.complete type first) expanded) :
    ∃ level, Expands fragment? first level ∧ expanded = pruner.complete type level := by
  obtain ⟨added, heq, _⟩ := pruner.complete_eq_append type first
  have hfirst : ∃ level, Expands fragment? first level := by
    rw [heq] at h
    obtain ⟨level, _, _, hlevel, _⟩ := h.of_append
    exact ⟨level, hlevel⟩
  obtain ⟨level, hlevel⟩ := hfirst
  exact ⟨level, hlevel, (hlevel.complete pruner type).unique h⟩

end Expands

mutual

theorem exists_expands_selection {fragment? : String → Option Fragment} : ∀ selection : Selection,
    (∀ name ∈ selection.spreads, ∃ fragment body, fragment? name = some fragment ∧
      Expands fragment? fragment.selections body) → ∃ expanded, Expands fragment? [selection] expanded
  | .field head inner, h => by
    obtain ⟨expanded, hinner⟩ := exists_expands_selections inner h
    exact ⟨_, .field hinner .nil⟩
  | .spread name directives, h => by
    obtain ⟨fragment, body, hfragment, hbody⟩ := h name (List.mem_singleton_self name)
    exact ⟨_, .spread hfragment hbody .nil⟩
  | .inline condition directives inner, h => by
    obtain ⟨expanded, hinner⟩ := exists_expands_selections inner h
    exact ⟨_, .inline hinner .nil⟩

theorem exists_expands_selections {fragment? : String → Option Fragment} : ∀ selections : List Selection,
    (∀ name ∈ Selection.spreadsOf selections, ∃ fragment body, fragment? name = some fragment ∧
      Expands fragment? fragment.selections body) → ∃ expanded, Expands fragment? selections expanded
  | [], _ => ⟨[], .nil⟩
  | selection :: rest, h => by
    obtain ⟨expanded, hselection⟩ := exists_expands_selection selection fun name hname =>
      h name (List.mem_append_left _ hname)
    obtain ⟨others, hrest⟩ := exists_expands_selections rest fun name hname =>
      h name (List.mem_append_right _ hname)
    exact ⟨_, hselection.append hrest⟩

end

/-- Selections have an expansion if their spreads are among names whose fragments are known, spread none
but these names, and form no cycle. -/
theorem exists_expands {client : ClientOperation} (hacyclic : client.Acyclic)
    {fragment? : String → Option Fragment} {names : List String}
    (hnames : ∀ name ∈ names, ∃ fragment, fragment? name = some fragment ∧
      ∀ spread ∈ Selection.spreadsOf fragment.selections,
        spread ∈ names ∧ client.FragmentSpreads name spread)
    {selections : List Selection} (hselections : Selection.spreadsOf selections ⊆ names) :
    ∃ expanded, Expands fragment? selections expanded := by
  have hbody : ∀ name, name ∈ names → ∃ fragment body, fragment? name = some fragment ∧
      Expands fragment? fragment.selections body := by
    intro name
    induction name using hacyclic.wellFounded.induction with
    | _ name ih =>
    intro hname
    obtain ⟨fragment, hfragment, hspreads⟩ := hnames name hname
    obtain ⟨body, hbody⟩ := exists_expands_selections fragment.selections fun spread hspread =>
      ih spread (hspreads spread hspread).2 (hspreads spread hspread).1
    exact ⟨fragment, body, hfragment, hbody⟩
  exact exists_expands_selections selections fun name hname => hbody name (hselections hname)

/-- The fragments of a client have an expansion where they form no cycle and spread only what is there. -/
theorem ClientOperation.Acyclic.exists_expands {client : ClientOperation} (hacyclic : client.Acyclic)
    (hdefined : client.SpreadsDefined) {selections : List Selection}
    (hselections : client.Defines (Selection.spreadsOf selections)) :
    ∃ expanded, Expands client.fragment? selections expanded := by
  apply Supergraph.exists_expands hacyclic _ fun name hname =>
    NameMap.mem_names_iff.mpr (hselections name hname)
  intro name hname
  obtain ⟨fragment, hfragment⟩ := Option.isSome_iff_exists.mp (NameMap.mem_names_iff.mp hname)
  refine ⟨fragment, hfragment, ?_⟩
  intro spread hspread
  exact ⟨NameMap.mem_names_iff.mpr (hdefined name fragment hfragment spread hspread),
    fragment, hfragment, hspread⟩

namespace Pruner

variable {pruner : Pruner}

/-! ## Pruning an expansion -/

def pruned? (pruner : Pruner) (name : String) : Option Fragment :=
  (pruner.client.fragment? name).bind fun definition => (pruner.pruneFragment definition).toOption

theorem pruned?_eq_some {name : String} {fragment : Fragment} :
    pruner.pruned? name = some fragment ↔ pruner.Prunes name fragment := by
  rw [pruned?, Option.bind_eq_some_iff]
  apply exists_congr
  intro definition
  apply and_congr_right
  intro _
  cases pruner.pruneFragment definition <;> simp [Except.toOption]

/-- Two computations agree up to expansion: the second has a result if and only if the first has one that
can be expanded, and it is the expansion. -/
def Agree (pruner : Pruner) (plain expanded : Except SynthesisError (List Selection)) : Prop :=
  ∀ result', expanded = .ok result' ↔
    ∃ result, plain = .ok result ∧ Expands pruner.pruned? result result'

theorem agree_ok {level level' : List Selection} (h : Expands pruner.pruned? level level') :
    pruner.Agree (.ok level) (.ok level') := by
  intro result'
  simp only [Except.ok.injEq, exists_eq_left', h.iff_eq, eq_comm]

theorem agree_error {error error' : SynthesisError} : pruner.Agree (.error error) (.error error') := by
  intro result'
  simp

theorem Agree.complete {type : String} {client client' : List Selection}
    (h : pruner.Agree (pruner.pruneSelections type [] client) (pruner.pruneSelections type [] client')) :
    pruner.Agree (pruner.prune type client) (pruner.prune type client') := by
  intro result'
  simp only [prune_eq_ok]
  constructor
  · rintro ⟨kept', hkept', rfl⟩
    obtain ⟨kept, hkept, hexpands⟩ := (h kept').mp hkept'
    exact ⟨_, ⟨kept, hkept, rfl⟩, hexpands.complete pruner type⟩
  · rintro ⟨_, ⟨kept, hkept, rfl⟩, hexpands⟩
    obtain ⟨kept', hkept', rfl⟩ := hexpands.of_complete
    exact ⟨kept', (h kept').mpr ⟨kept, hkept, hkept'⟩, rfl⟩

/-- What is left of a selection with a level below it agrees if the levels do, and expanding what is left
is expanding its level. -/
theorem Agree.append (left left' : List Selection → Selection) {kept kept' : List Selection}
    (hkept : Expands pruner.pruned? kept kept') {type : String} {client client' : List Selection}
    (h : pruner.Agree (pruner.prune type client) (pruner.prune type client'))
    (hleft : ∀ level others, Expands pruner.pruned? [left level] others ↔
      ∃ level', Expands pruner.pruned? level level' ∧ others = [left' level']) :
    pruner.Agree
      (do let level ← pruner.pruneSelections type [] client
          return kept ++ [left (pruner.complete type level)])
      (do let level ← pruner.pruneSelections type [] client'
          return kept' ++ [left' (pruner.complete type level)]) := by
  have hbind : ∀ (kept : List Selection) (left : List Selection → Selection) client result,
      (do let level ← pruner.pruneSelections type [] client
          return kept ++ [left (pruner.complete type level)]) = .ok result ↔
        ∃ level, pruner.prune type client = .ok level ∧ kept ++ [left level] = result := by
    intro kept left client result
    simp only [Outcome.bind_eq_ok, Outcome.pure_eq_ok, prune_eq_ok]
    grind
  intro result'
  simp only [hbind]
  constructor
  · rintro ⟨level', hlevel', rfl⟩
    obtain ⟨level, hlevel, hexpands⟩ := (h level').mp hlevel'
    exact ⟨_, ⟨level, hlevel, rfl⟩, hkept.append ((hleft level _).mpr ⟨level', hexpands, rfl⟩)⟩
  · rintro ⟨_, ⟨level, hlevel, rfl⟩, hexpands⟩
    obtain ⟨kept'', others, rfl, hkept'', hothers⟩ := hexpands.of_append
    obtain ⟨level', hlevel', rfl⟩ := (hleft level others).mp hothers
    exact ⟨level', (h level').mpr ⟨level, hlevel, hlevel'⟩, by rw [hkept.unique hkept'']⟩

theorem expands_field_iff {fragment? : String → Option Fragment} {head : FieldHead}
    {level others : List Selection} : Expands fragment? [.field head level] others ↔
      ∃ level', Expands fragment? level level' ∧ others = [.field head level'] := by
  constructor
  · intro h
    cases h with
    | field hinner hrest =>
      cases hrest
      exact ⟨_, hinner, rfl⟩
  · rintro ⟨level', h, rfl⟩
    exact .field h .nil

theorem expands_inline_iff {fragment? : String → Option Fragment} {condition : Option String}
    {directives : List Directive} {level others : List Selection} :
    Expands fragment? [.inline condition directives level] others ↔
      ∃ level', Expands fragment? level level' ∧ others = [.inline condition directives level'] := by
  constructor
  · intro h
    cases h with
    | inline hinner hrest =>
      cases hrest
      exact ⟨_, hinner, rfl⟩
  · rintro ⟨level', h, rfl⟩
    exact .inline h .nil

/-- A level is extended by what is left of one more selection, the same for a selection and for its
expansion. -/
def StepAgrees (pruner : Pruner) (selection selection' : Selection) : Prop :=
  ∀ type kept kept', Expands pruner.pruned? kept kept' →
    pruner.Agree (pruner.pruneSelection type kept selection)
      (pruner.pruneSelection type kept' selection')

theorem stepAgrees_field {head : FieldHead} {inner inner' : List Selection}
    (hempty : inner'.isEmpty = inner.isEmpty)
    (h : ∀ type, pruner.Agree (pruner.prune type inner) (pruner.prune type inner')) :
    pruner.StepAgrees (.field head inner) (.field head inner') := by
  intro type kept kept' hkept
  have hbare : ∀ head, pruner.Agree (.ok (kept ++ [.field head []])) (.ok (kept' ++ [.field head []])) :=
    fun head => agree_ok (hkept.append (.field .nil .nil))
  rw [pruneSelection, pruneSelection, hkept.selects_eq, hempty]
  split
  · split
    · exact agree_ok hkept
    · exact hbare _
  · split
    · split
      · exact hbare head
      · cases hinner : pruner.returnType type head.name with
        | error error => exact agree_error
        | ok composed => exact (h composed).append (.field head) (.field head) hkept fun _ _ => expands_field_iff
    · exact agree_ok hkept

theorem stepAgrees_inline {condition : Option String} {directives : List Directive}
    {inner inner' : List Selection}
    (h : ∀ type, pruner.Agree (pruner.prune type inner) (pruner.prune type inner')) :
    pruner.StepAgrees (.inline condition directives inner) (.inline condition directives inner') := by
  intro type kept kept' hkept
  rw [pruneSelection, pruneSelection]
  split
  · exact (h _).append (.inline condition directives) (.inline condition directives) hkept
      fun _ _ => expands_inline_iff
  · exact agree_ok hkept

/-- A spread is left as it is, and its fragment pruned on its own condition; the inline fragment in its
place is pruned on the same condition where it stands. -/
theorem stepAgrees_spread {name : String} {directives : List Directive} {fragment : Fragment}
    {body : List Selection} (hfragment : pruner.client.fragment? name = some fragment)
    (h : ∀ type, pruner.Agree (pruner.prune type fragment.selections) (pruner.prune type body)) :
    pruner.StepAgrees (.spread name directives)
      (.inline (some fragment.condition) (directives ++ fragment.directives) body) := by
  intro type kept kept' hkept
  rw [pruneSelection, pruneSelection, hfragment]
  dsimp only [Option.getD_some]
  split
  · intro result'
    simp only [Outcome.bind_eq_ok, Outcome.pure_eq_ok, Except.ok.injEq, exists_eq_left']
    constructor
    · rintro ⟨plain', hplain', rfl⟩
      obtain ⟨level, hlevel, hexpands⟩ := (h _ _).mp (prune_eq_ok.mpr ⟨plain', hplain', rfl⟩)
      have hprunes : pruner.Prunes name { fragment with selections := level } :=
        ⟨fragment, hfragment, by rw [pruneFragment, hlevel]; rfl⟩
      have hpruned := pruned?_eq_some.mpr hprunes
      have hspread := @Expands.spread _ _ directives _ _ [] [] hpruned hexpands .nil
      exact hkept.append hspread
    · intro hexpands
      obtain ⟨kept'', others, rfl, hkept'', hothers⟩ := hexpands.of_append
      cases hothers with
      | @spread _ _ pruned level' _ _ hpruned hbody hrest =>
      cases hrest
      obtain ⟨definition, hdefinition, hprune⟩ := pruned?_eq_some.mp hpruned
      cases hfragment.symm.trans hdefinition
      obtain ⟨heq, hlevel⟩ := pruneFragment_eq_ok hprune
      obtain ⟨plain', hplain', rfl⟩ := prune_eq_ok.mp ((h _ _).mpr ⟨_, hlevel, hbody⟩)
      refine ⟨plain', hplain', ?_⟩
      rw [hkept.unique hkept'', heq]
  · exact agree_ok hkept

theorem Agree.bind {plain expanded : Except SynthesisError (List Selection)}
    {next next' : List Selection → Except SynthesisError (List Selection)}
    (h : pruner.Agree plain expanded)
    (hnext : ∀ kept kept', Expands pruner.pruned? kept kept' → pruner.Agree (next kept) (next' kept'))
    (hextends : ∀ kept level, next kept = .ok level → ∃ more, level = kept ++ more) :
    pruner.Agree (plain >>= next) (expanded >>= next') := by
  intro result'
  simp only [Outcome.bind_eq_ok]
  constructor
  · rintro ⟨kept', hkept', hresult'⟩
    obtain ⟨kept, hkept, hexpands⟩ := (h kept').mp hkept'
    obtain ⟨result, hresult, hresults⟩ := (hnext _ _ hexpands result').mp hresult'
    exact ⟨result, ⟨kept, hkept, hresult⟩, hresults⟩
  · rintro ⟨result, ⟨kept, hkept, hresult⟩, hresults⟩
    -- What the rest extends has an expansion, because what the rest comes to has one.
    obtain ⟨more, rfl⟩ := hextends kept result hresult
    obtain ⟨kept', _, _, hexpands, _⟩ := hresults.of_append
    exact ⟨kept', (h kept').mpr ⟨kept, hkept, hexpands⟩,
      (hnext _ _ hexpands result').mpr ⟨_, hresult, hresults⟩⟩

theorem pruneSelections_extends {type : String} {client kept level : List Selection}
    (h : pruner.pruneSelections type kept client = .ok level) : ∃ more, level = kept ++ more := by
  have hsteps : Steps pruner (pruner.Below fun _ _ _ => True) type kept client level :=
    steps_of_pruneSelections (fun _ _ _ _ => trivial) client h
  exact hsteps.exists_append

/-- The induction is on the expansion. It has a case for the body of every fragment that is spread, where
the fragments of the fragments are expanded already. -/
theorem pruneSelections_expand {client client' : List Selection}
    (h : Expands pruner.client.fragment? client client') :
    ∀ type kept kept', Expands pruner.pruned? kept kept' →
      pruner.Agree (pruner.pruneSelections type kept client) (pruner.pruneSelections type kept' client') := by
  have hcons : ∀ {selection selection' : Selection} {rest rest' : List Selection},
      pruner.StepAgrees selection selection' →
      (∀ type kept kept', Expands pruner.pruned? kept kept' →
        pruner.Agree (pruner.pruneSelections type kept rest)
          (pruner.pruneSelections type kept' rest')) →
      ∀ type kept kept', Expands pruner.pruned? kept kept' →
        pruner.Agree (pruner.pruneSelections type kept (selection :: rest))
          (pruner.pruneSelections type kept' (selection' :: rest')) := by
    intro selection selection' rest rest' hstep hrest type kept kept' hkept
    rw [pruneSelections, pruneSelections]
    exact (hstep type kept kept' hkept).bind (hrest type) fun _ _ h => pruneSelections_extends h
  induction h with
  | nil =>
    intro type kept kept' hkept
    exact agree_ok hkept
  | field hinner _ ihinner ihrest =>
    exact hcons (stepAgrees_field hinner.isEmpty_eq fun type => (ihinner type [] [] .nil).complete) ihrest
  | inline _ _ ihinner ihrest =>
    exact hcons (stepAgrees_inline fun type => (ihinner type [] [] .nil).complete) ihrest
  | spread hfragment _ _ ihbody ihrest =>
    exact hcons (stepAgrees_spread hfragment fun type => (ihbody type [] [] .nil).complete) ihrest

/-! ## Spreads of a result -/

theorem Prunes.fragmentSpreads {name other : String} {fragment : Fragment}
    (h : pruner.Prunes name fragment) (hother : other ∈ Selection.spreadsOf fragment.selections) :
    pruner.client.FragmentSpreads name other := by
  obtain ⟨definition, hdefinition, hpruned⟩ := h
  exact ⟨definition, hdefinition, spreadsOf_subset_of_prune (pruneFragment_eq_ok hpruned).2 hother⟩

/-! ## The closure of a result and its expansion -/

theorem exists_prunes_of_expands {level result : List Selection}
    (h : Expands pruner.pruned? level result) {name : String}
    (hreached : pruner.Reached (Selection.spreadsOf level) name) :
    ∃ fragment body, pruner.Prunes name fragment ∧ Expands pruner.pruned? fragment.selections body := by
  induction hreached with
  | direct hmem =>
    obtain ⟨fragment, body, hfragment, hbody⟩ := h.exists_of_mem_spreadsOf hmem
    exact ⟨fragment, body, pruned?_eq_some.mp hfragment, hbody⟩
  | through _ hprunes hmem ih =>
    obtain ⟨fragment, body, hprunes', hbody⟩ := ih
    cases hprunes.unique hprunes'
    obtain ⟨inner, innerBody, hinner, hinnerBody⟩ := hbody.exists_of_mem_spreadsOf hmem
    exact ⟨inner, innerBody, pruned?_eq_some.mp hinner, hinnerBody⟩

theorem Closure.exists_expands {level : List Selection} {entered : List (String × Fragment)}
    (h : Closure pruner level entered) (hacyclic : pruner.client.Acyclic) :
    ∃ result, Expands pruner.pruned? level result := by
  apply Supergraph.exists_expands hacyclic _ h.spread
  intro name hname
  obtain ⟨entry, hentry, rfl⟩ := List.mem_map.mp hname
  have hprunes := h.pruned entry hentry
  exact ⟨entry.2, pruned?_eq_some.mpr hprunes, fun spread hspread =>
    ⟨h.closed entry hentry spread hspread, hprunes.fragmentSpreads hspread⟩⟩

/-- The fragments of a closure are all that its expansion looks up. -/
theorem Closure.expands_iff {level : List Selection} {entered : List (String × Fragment)}
    (h : Closure pruner level entered) (hkeyed : pruner.client.Keyed) (other : List Selection) :
    Expands (fragmentNamed (entered.map Prod.snd)) level other ↔ Expands pruner.pruned? level other := by
  have hpruned : ∀ entry ∈ entered, pruner.pruned? entry.1 = some entry.2 :=
    fun entry hentry => pruned?_eq_some.mpr (h.pruned entry hentry)
  have hagree : ∀ name ∈ entered.map Prod.fst,
      fragmentNamed (entered.map Prod.snd) name = pruner.pruned? name := by
    intro name hname
    obtain ⟨fragment, hfragment⟩ := h.exists_fragmentNamed hkeyed hname
    rw [hfragment, hpruned _ (h.fragmentNamed_eq_some hkeyed hfragment)]
  have hclosed : ∀ name ∈ entered.map Prod.fst, ∀ fragment, pruner.pruned? name = some fragment →
      Selection.spreadsOf fragment.selections ⊆ entered.map Prod.fst := by
    intro name hname fragment hfragment
    obtain ⟨entry, hentry, rfl⟩ := List.mem_map.mp hname
    cases (hpruned entry hentry).symm.trans hfragment
    exact h.closed entry hentry
  constructor
  · intro hexpands
    refine hexpands.congr hagree ?_ h.spread
    intro name hname fragment hfragment
    rw [hagree name hname] at hfragment
    exact hclosed name hname fragment hfragment
  · intro hexpands
    exact hexpands.congr (fun name hname => (hagree name hname).symm) hclosed h.spread

/-- Pruning an expansion succeeds if and only if both pruning what it expands and the closure of the
result do, and then it gives the expansion of the result by the fragments of the closure. -/
theorem prune_expand {document : Document} {operation : Option String} {values : NameMap Json}
    (hclient : ClientOperation.ofDocument document operation values = .ok pruner.client)
    (hacyclic : pruner.client.Acyclic) (hdefined : pruner.client.SpreadsDefined)
    {client : List Selection} (hspreads : pruner.client.Defines (Selection.spreadsOf client))
    (type : String) :
    ∃ expanded, (∀ other, Expands pruner.client.fragment? client other ↔ other = expanded) ∧
      ((∃ result, pruner.prune type expanded = .ok result) ↔
        ∃ level fragments, pruner.prune type client = .ok level ∧
          pruner.fragmentClosure level = .ok fragments) ∧
      ∀ level fragments, pruner.prune type client = .ok level →
        pruner.fragmentClosure level = .ok fragments →
        ∃ result, pruner.prune type expanded = .ok result ∧
          ∀ other, Expands (fragmentNamed fragments) level other ↔ other = result := by
  have hkeyed := ClientOperation.keyed_of_ofDocument hclient
  obtain ⟨expanded, hexpands⟩ := hacyclic.exists_expands hdefined hspreads
  have hagree : pruner.Agree (pruner.prune type client) (pruner.prune type expanded) :=
    (pruneSelections_expand hexpands type [] [] .nil).complete
  have hresult : ∀ level fragments, pruner.prune type client = .ok level →
      pruner.fragmentClosure level = .ok fragments →
      ∃ result, pruner.prune type expanded = .ok result ∧
        ∀ other, Expands (fragmentNamed fragments) level other ↔ other = result := by
    intro level fragments hlevel hfragments
    obtain ⟨entered, rfl, hclosure⟩ := fragmentClosure_eq_ok hfragments
    obtain ⟨result, hresult⟩ := hclosure.exists_expands hacyclic
    refine ⟨result, (hagree result).mpr ⟨level, hlevel, hresult⟩, ?_⟩
    intro other
    rw [hclosure.expands_iff hkeyed, hresult.iff_eq]
  refine ⟨expanded, hexpands.iff_eq, ⟨?_, ?_⟩, hresult⟩
  · rintro ⟨result, h⟩
    obtain ⟨level, hlevel, hexpands⟩ := (hagree result).mp h
    have hprunes : ∀ name, pruner.Reached (Selection.spreadsOf level) name →
        ∃ fragment, pruner.Prunes name fragment := by
      intro name hreached
      obtain ⟨fragment, _, hpruned, _⟩ := exists_prunes_of_expands hexpands hreached
      exact ⟨fragment, hpruned⟩
    obtain ⟨fragments, hfragments⟩ := fragmentClosure_isOk_iff.mpr hprunes
    exact ⟨level, fragments, hlevel, hfragments⟩
  · rintro ⟨level, fragments, hlevel, hfragments⟩
    obtain ⟨result, h, _⟩ := hresult level fragments hlevel hfragments
    exact ⟨result, h⟩

def nestedDocument : Document :=
  [.shorthand [.field (.bare "reviews") [.spread "A" []]],
    .fragment ⟨"A", "Review", [], [.bare "stars", .spread "B" [⟨"include", [("if", .variable "full")]⟩]]⟩,
    .fragment ⟨"B", "Review", [⟨"cached", []⟩], [.bare "body"]⟩]

theorem fragmentSpreads_nested {client : ClientOperation}
    (hclient : ClientOperation.ofDocument nestedDocument none .empty = .ok client) {name other : String}
    (h : client.FragmentSpreads name other) : name = "A" ∧ other = "B" := by
  cases hclient
  obtain ⟨fragment, hfragment, hother⟩ := h
  simp only [ClientOperation.fragment?, nestedDocument, Document.fragments, List.filterMap,
    List.foldl_cons, List.foldl_nil, NameMap.find?_insert, NameMap.find?_empty] at hfragment
  split at hfragment
  · cases hfragment
    cases hother
  · split at hfragment
    · next hname =>
      cases hfragment
      exact ⟨hname.symm, List.mem_singleton.mp hother⟩
    · cases hfragment

/-- The inline fragments in the place of the spreads are pruned to the fragments of the result. -/
theorem prune_expand_nested :
    ∃ client, ClientOperation.ofDocument nestedDocument none .empty = .ok client ∧ client.Acyclic ∧
      client.SpreadsDefined ∧ client.Defines ["A"] ∧
      let pruner := { Sample.pruner Sample.reviews with client }
      let inner : List Directive := [⟨"include", [("if", .variable "full")]⟩, ⟨"cached", []⟩]
      let expanded : List Selection := [.inline (some "Review") []
        [.bare "stars", .inline (some "Review") inner [.bare "body"]]]
      let result : List Selection := [.inline (some "Review") []
          [.inline (some "Review") inner [.bare "body", .bare "id", .bare "__typename"],
            .bare "id", .bare "__typename"],
        .bare "id", .bare "__typename"]
      Expands client.fragment? [.spread "A" []] expanded ∧ pruner.prune "Review" expanded = .ok result ∧
        ∃ level fragments, pruner.prune "Review" [.spread "A" []] = .ok level ∧
          pruner.fragmentClosure level = .ok fragments ∧
          ∀ other, Expands (fragmentNamed fragments) level other ↔ other = result := by
  have hclient : ∃ client, ClientOperation.ofDocument nestedDocument none .empty = .ok client :=
    ⟨_, rfl⟩
  obtain ⟨client, hclient⟩ := hclient
  have hacyclic : client.Acyclic := by
    apply ClientOperation.acyclic_of_lt fun name => if name = "A" then 1 else 0
    intro name other h
    obtain ⟨rfl, rfl⟩ := fragmentSpreads_nested hclient h
    decide
  have hdefined : client.SpreadsDefined := by
    intro name fragment hfragment other hother
    obtain ⟨_, rfl⟩ := fragmentSpreads_nested hclient ⟨fragment, hfragment, hother⟩
    cases hclient
    rfl
  have hspreads : client.Defines ["A"] := by
    cases hclient
    intro name hname
    rw [List.mem_singleton.mp hname]
    rfl
  refine ⟨client, hclient, hacyclic, hdefined, hspreads, ?_⟩
  intro pruner inner expanded result
  obtain ⟨other, hunique, hiff, hresult⟩ :=
    @prune_expand pruner _ _ _ hclient hacyclic hdefined [.spread "A" []] hspreads "Review"
  cases hclient
  have hA : pruner.client.fragment? "A" = some ⟨"A", "Review", [],
    [.bare "stars", .spread "B" [⟨"include", [("if", .variable "full")]⟩]]⟩ := rfl
  have hB : pruner.client.fragment? "B" =
    some ⟨"B", "Review", [⟨"cached", []⟩], [.bare "body"]⟩ := rfl
  have hbody := @Expands.spread _ "B" [⟨"include", [("if", .variable "full")]⟩] _ _ [] [] hB
    (.bare "body") .nil
  have hexpands : Expands pruner.client.fragment? [.spread "A" []] expanded :=
    @Expands.spread _ "A" [] _ _ [] [] hA (.field .nil hbody) .nil
  have hprune : pruner.prune "Review" expanded = .ok result := by rfl
  cases (hunique expanded).mp hexpands
  obtain ⟨level, fragments, hlevel, hfragments⟩ := hiff.mp ⟨result, hprune⟩
  refine ⟨hexpands, hprune, level, fragments, hlevel, hfragments, ?_⟩
  obtain ⟨found, hfound, hexpansion⟩ := hresult level fragments hlevel hfragments
  cases hprune.symm.trans hfound
  exact hexpansion

end Pruner

end Supergraph
