import Supergraph.Proofs.Pruning.Level
import Supergraph.Proofs.SpreadGraph

/-!
The fragments of a result: `fragmentClosure` follows spreads into the pruned bodies of fragments.

1. `Searches` is the search without a bound on how deep it goes, one rule for each thing that may become
   of the next spread. `searches_foldlM`: the bound that `follow` is given is never met, because every
   fragment entered is one less that may still be entered. So the search ends, whatever cycles the spreads
   form.
2. `Searches.exists_entered` says what a search that succeeds has collected: under each name that it
   entered, the client's fragment of that name, pruned; each name once; and every name that was spread.
3. `Searches.exists_not_prunes` says why a search fails: a name that it reaches has no fragment, or one
   that cannot be pruned.
4. `fragmentClosure_eq_ok` and `fragmentClosure_isOk_iff` say the same of a whole closure.
-/

namespace Supergraph

namespace Pruner

open GraphQL

variable {pruner : Pruner}

/-- A fragment is what pruning makes of the client's fragment of a name. -/
def Prunes (pruner : Pruner) (name : String) (fragment : Fragment) : Prop :=
  ∃ definition, pruner.client.fragment? name = some definition ∧
    pruner.pruneFragment definition = .ok fragment

theorem Prunes.unique {name : String} {fragment other : Fragment} (h₁ : pruner.Prunes name fragment)
    (h₂ : pruner.Prunes name other) : fragment = other := by
  obtain ⟨definition, hdefinition, hpruned⟩ := h₁
  obtain ⟨definition', hdefinition', hpruned'⟩ := h₂
  cases hdefinition.symm.trans hdefinition'
  exact Except.ok.inj (hpruned.symm.trans hpruned')

/-- The names that spreads reach: the spreads themselves, and what the pruned bodies of the fragments
that they reach spread. -/
inductive Reached (pruner : Pruner) (spreads : List String) : String → Prop
  | direct {name : String} : name ∈ spreads → Reached pruner spreads name
  | through {other name : String} {fragment : Fragment} : Reached pruner spreads other →
      pruner.Prunes other fragment → name ∈ Selection.spreadsOf fragment.selections →
      Reached pruner spreads name

theorem Reached.trans {spreads others : List String} {name : String}
    (hothers : ∀ other ∈ others, pruner.Reached spreads other) (h : pruner.Reached others name) :
    pruner.Reached spreads name := by
  induction h with
  | direct hmem => exact hothers _ hmem
  | through _ hpruned hmem ih => exact .through ih hpruned hmem

theorem Reached.mono {spreads others : List String} {name : String} (hsubset : others ⊆ spreads)
    (h : pruner.Reached others name) : pruner.Reached spreads name :=
  h.trans fun _ hmem => .direct (hsubset hmem)

theorem Reached.of_prunes {name other : String} {names : List String} {fragment : Fragment}
    (hpruned : pruner.Prunes name fragment)
    (h : pruner.Reached (Selection.spreadsOf fragment.selections) other) :
    pruner.Reached (name :: names) other :=
  h.trans fun _ hmem => .through (.direct List.mem_cons_self) hpruned hmem

/-! ## The search without a bound -/

/-- What following several spreads comes to. A name that was met is passed over. Of any other name the
fragment is pruned, its spreads are followed, and it is collected after those that they enter. The first
error ends the search. -/
inductive Searches (pruner : Pruner) :
    FragmentSearch → List String → Except SynthesisError FragmentSearch → Prop
  | nil {search : FragmentSearch} : Searches pruner search [] (.ok search)
  | met {search : FragmentSearch} {name : String} {names : List String}
      {outcome : Except SynthesisError FragmentSearch} :
      name ∈ search.met → Searches pruner search names outcome →
      Searches pruner search (name :: names) outcome
  | undefined {search : FragmentSearch} {name : String} {names : List String} :
      name ∉ search.met → pruner.client.fragment? name = none →
      Searches pruner search (name :: names) (.error (.unknownFragment name))
  | unprunable {search : FragmentSearch} {name : String} {names : List String} {definition : Fragment}
      {error : SynthesisError} :
      name ∉ search.met → pruner.client.fragment? name = some definition →
      pruner.pruneFragment definition = .error error →
      Searches pruner search (name :: names) (.error error)
  | failed {search : FragmentSearch} {name : String} {names : List String} {fragment : Fragment}
      {error : SynthesisError} :
      name ∉ search.met → pruner.Prunes name fragment →
      Searches pruner { search with met := name :: search.met }
        (Selection.spreadsOf fragment.selections) (.error error) →
      Searches pruner search (name :: names) (.error error)
  | entered {search last : FragmentSearch} {name : String} {names : List String} {fragment : Fragment}
      {outcome : Except SynthesisError FragmentSearch} :
      name ∉ search.met → pruner.Prunes name fragment →
      Searches pruner { search with met := name :: search.met }
        (Selection.spreadsOf fragment.selections) (.ok last) →
      Searches pruner { last with collected := last.collected ++ [fragment] } names outcome →
      Searches pruner search (name :: names) outcome

theorem Searches.met_subset {search : FragmentSearch} {names : List String}
    {outcome : Except SynthesisError FragmentSearch} (h : Searches pruner search names outcome) :
    ∀ later, outcome = .ok later → search.met ⊆ later.met := by
  induction h with
  | nil =>
    intro later heq
    cases heq
    exact List.Subset.refl _
  | met _ _ ih => exact ih
  | undefined => simp
  | unprunable => simp
  | failed => simp
  | entered _ _ _ _ ihbody ih =>
    intro later heq
    have hbody := ihbody _ rfl
    have hrest := ih later heq
    exact fun name hmem => hrest (hbody (List.mem_cons_of_mem _ hmem))

theorem Searches.unique {search : FragmentSearch} {names : List String}
    {outcome : Except SynthesisError FragmentSearch} (h : Searches pruner search names outcome) :
    ∀ other, Searches pruner search names other → other = outcome := by
  induction h with
  | nil =>
    intro other h
    cases h
    rfl
  | met hmet _ ih =>
    intro other h
    cases h with
    | met _ h => exact ih other h
    | _ => contradiction
  | undefined =>
    intro other h
    cases h <;> grind [Prunes]
  | unprunable =>
    intro other h
    cases h <;> grind [Prunes]
  | failed _ hprunes _ ih =>
    intro other h
    cases h with
    | failed _ hprunes' h =>
      cases hprunes.unique hprunes'
      exact ih _ h
    | entered _ hprunes' h =>
      cases hprunes.unique hprunes'
      cases ih _ h
    | _ => grind [Prunes]
  | entered _ hprunes _ _ ihbody ih =>
    intro other h
    cases h with
    | failed _ hprunes' h =>
      cases hprunes.unique hprunes'
      cases ihbody _ h
    | entered _ hprunes' h hrest =>
      cases hprunes.unique hprunes'
      cases ihbody _ h
      exact ih _ hrest
    | _ => grind [Prunes]

/-! ## The bound -/

/-- How many fragments of the client have not been met. -/
def unmet (pruner : Pruner) (search : FragmentSearch) : Nat :=
  (pruner.client.fragments.names.toFinset \ search.met.toFinset).card

theorem unmet_le_of_subset {search later : FragmentSearch} (h : search.met ⊆ later.met) :
    pruner.unmet later ≤ pruner.unmet search :=
  ClientOperation.unentered_le_of_subset h

theorem unmet_enter_lt {search : FragmentSearch} {name : String} {definition : Fragment}
    (hmet : name ∉ search.met) (hdefinition : pruner.client.fragment? name = some definition) :
    pruner.unmet { search with met := name :: search.met } < pruner.unmet search :=
  ClientOperation.unentered_cons_lt hmet hdefinition

theorem unmet_le_length (pruner : Pruner) (search : FragmentSearch) :
    pruner.unmet search ≤ pruner.client.fragments.entries.length :=
  pruner.client.unentered_le_length search.met

theorem follow_of_met {depth : Nat} {search : FragmentSearch} {name : String} (h : name ∈ search.met) :
    pruner.follow depth search name = .ok search := by
  unfold follow
  simp [h]

theorem follow_of_undefined {depth : Nat} {search : FragmentSearch} {name : String}
    (hmet : name ∉ search.met) (hnone : pruner.client.fragment? name = none) :
    pruner.follow depth search name = .error (.unknownFragment name) := by
  unfold follow
  cases depth <;> simp [hmet, hnone]

theorem follow_of_defined {depth : Nat} {search : FragmentSearch} {name : String} {definition : Fragment}
    (hmet : name ∉ search.met) (hdefinition : pruner.client.fragment? name = some definition) :
    pruner.follow (depth + 1) search name = do
      let fragment ← pruner.pruneFragment definition
      let last ← (Selection.spreadsOf fragment.selections).foldlM (pruner.follow depth)
        { search with met := name :: search.met }
      return { last with collected := last.collected ++ [fragment] } := by
  unfold follow
  simp [hmet, hdefinition]

/-- Where the depth is enough for all fragments that have not been met, the search does what the search
without a bound does. The induction is on the depth, and within it on the spreads. -/
theorem searches_foldlM (depth : Nat) : ∀ {search : FragmentSearch} {names : List String},
    pruner.unmet search ≤ depth →
      Searches pruner search names (names.foldlM (pruner.follow depth) search) := by
  induction depth using Nat.strong_induction_on with
  | _ depth ih =>
  intro search names hdepth
  induction names generalizing search with
  | nil => exact .nil
  | cons name names ihnames =>
    rw [List.foldlM_cons]
    by_cases hmet : name ∈ search.met
    · rw [follow_of_met hmet]
      exact .met hmet (ihnames hdepth)
    cases hdefinition : pruner.client.fragment? name with
    | none =>
      rw [follow_of_undefined hmet hdefinition]
      exact .undefined hmet hdefinition
    | some definition =>
      have hlt := unmet_enter_lt hmet hdefinition
      obtain ⟨rest, rfl⟩ := Nat.exists_eq_succ_of_ne_zero (show depth ≠ 0 by omega)
      rw [follow_of_defined hmet hdefinition]
      cases hpruned : pruner.pruneFragment definition with
      | error error => exact .unprunable hmet hdefinition hpruned
      | ok fragment =>
        have hprunes : pruner.Prunes name fragment := ⟨definition, hdefinition, hpruned⟩
        have hle : pruner.unmet { search with met := name :: search.met } ≤ rest := by omega
        have hbody := @ih rest (Nat.lt_succ_self rest) _ (Selection.spreadsOf fragment.selections) hle
        dsimp only [bind, Except.bind, pure, Except.pure]
        cases hlast : (Selection.spreadsOf fragment.selections).foldlM (pruner.follow rest)
            { search with met := name :: search.met } with
        | error error =>
          rw [hlast] at hbody
          exact .failed hmet hprunes hbody
        | ok last =>
          rw [hlast] at hbody
          -- What the body met stays met, so the depth is still enough for the other spreads.
          have hsubset := hbody.met_subset last rfl
          have hle : pruner.unmet { last with collected := last.collected ++ [fragment] } ≤
              pruner.unmet { search with met := name :: search.met } := unmet_le_of_subset hsubset
          exact .entered hmet hprunes hbody (ihnames (by omega))

/-- The search of a closure is the search without a bound, which comes to exactly one outcome. -/
theorem fragmentClosure_eq_map (pruner : Pruner) (selections : List Selection) :
    ∃ outcome, (∀ other, Searches pruner ⟨[], []⟩ (Selection.spreadsOf selections) other ↔
        other = outcome) ∧
      pruner.fragmentClosure selections = outcome.map FragmentSearch.collected := by
  have hsearch : pruner.Searches ⟨[], []⟩ (Selection.spreadsOf selections) _ :=
    searches_foldlM _ (pruner.unmet_le_length ⟨[], []⟩)
  refine ⟨_, fun other => ⟨hsearch.unique other, ?_⟩, ?_⟩
  · rintro rfl
    exact hsearch
  · rw [fragmentClosure]
    cases (Selection.spreadsOf selections).foldlM
      (pruner.follow pruner.client.fragments.entries.length) ⟨[], []⟩ <;> rfl

/-! ## What a search collects -/

/-- What a search did from one state to a later one: it entered fragments under new names, each once, and
collected them pruned; whatever they spread has been met. -/
structure Entered (pruner : Pruner) (earlier later : FragmentSearch)
    (entered : List (String × Fragment)) : Prop where
  met : ∀ name, name ∈ later.met ↔ name ∈ entered.map Prod.fst ∨ name ∈ earlier.met
  collected : later.collected = earlier.collected ++ entered.map Prod.snd
  pruned : ∀ entry ∈ entered, pruner.Prunes entry.1 entry.2
  closed : ∀ entry ∈ entered, ∀ name ∈ Selection.spreadsOf entry.2.selections, name ∈ later.met
  fresh : ∀ name ∈ entered.map Prod.fst, name ∉ earlier.met
  distinct : (entered.map Prod.fst).Nodup

namespace Entered

theorem refl (search : FragmentSearch) : Entered pruner search search [] where
  met := by simp
  collected := by simp
  pruned := by simp
  closed := by simp
  fresh := by simp
  distinct := .nil

theorem trans {first second third : FragmentSearch} {entered others : List (String × Fragment)}
    (h₁ : Entered pruner first second entered) (h₂ : Entered pruner second third others) :
    Entered pruner first third (entered ++ others) where
  met name := by
    rw [h₂.met, h₁.met, List.map_append, List.mem_append]
    tauto
  collected := by rw [h₂.collected, h₁.collected, List.map_append, List.append_assoc]
  pruned entry hmem := by
    rcases List.mem_append.mp hmem with h | h
    · exact h₁.pruned entry h
    · exact h₂.pruned entry h
  closed entry hmem name hname := by
    rcases List.mem_append.mp hmem with h | h
    · exact (h₂.met name).mpr (.inr (h₁.closed entry h name hname))
    · exact h₂.closed entry h name hname
  fresh name hmem := by
    rw [List.map_append] at hmem
    rcases List.mem_append.mp hmem with h | h
    · exact h₁.fresh name h
    · exact fun hfirst => h₂.fresh name h ((h₁.met name).mpr (.inr hfirst))
  distinct := by
    rw [List.map_append]
    apply List.Nodup.append h₁.distinct h₂.distinct
    intro name hentered hothers
    exact h₂.fresh name hothers ((h₁.met name).mpr (.inl hentered))

theorem collect {search later : FragmentSearch} {entered : List (String × Fragment)} {name : String}
    {fragment : Fragment} (hmet : name ∉ search.met) (hpruned : pruner.Prunes name fragment)
    (h : Entered pruner { search with met := name :: search.met } later entered)
    (hspreads : ∀ spread ∈ Selection.spreadsOf fragment.selections, spread ∈ later.met) :
    Entered pruner search { later with collected := later.collected ++ [fragment] }
      (entered ++ [(name, fragment)]) where
  met other := by
    rw [h.met other, List.map_append, List.mem_append, List.mem_cons]
    simp only [List.map_cons, List.map_nil, List.mem_singleton]
    tauto
  collected := by simp [h.collected]
  pruned entry hmem := by
    rcases List.mem_append.mp hmem with hmem | hmem
    · exact h.pruned entry hmem
    · rw [List.mem_singleton.mp hmem]
      exact hpruned
  closed entry hmem spread hspread := by
    rcases List.mem_append.mp hmem with hmem | hmem
    · exact h.closed entry hmem spread hspread
    · rw [List.mem_singleton.mp hmem] at hspread
      exact hspreads spread hspread
  fresh other hmem := by
    rw [List.map_append] at hmem
    rcases List.mem_append.mp hmem with hmem | hmem
    · exact fun hin => h.fresh other hmem (List.mem_cons_of_mem _ hin)
    · rw [List.mem_singleton.mp hmem]
      exact hmet
  distinct := by
    rw [List.map_append]
    apply List.Nodup.append h.distinct (List.nodup_singleton name)
    intro other hentered hother
    have hfresh := h.fresh other hentered
    rw [List.mem_singleton.mp hother] at hfresh
    exact hfresh List.mem_cons_self

end Entered

/-- A search that succeeds has met all that it followed, and entered only what that reaches. -/
theorem Searches.exists_entered {search : FragmentSearch} {names : List String}
    {outcome : Except SynthesisError FragmentSearch} (h : Searches pruner search names outcome) :
    ∀ later, outcome = .ok later → ∃ entered, Entered pruner search later entered ∧
      (∀ name ∈ names, name ∈ later.met) ∧
      ∀ name ∈ entered.map Prod.fst, pruner.Reached names name := by
  induction h with
  | @nil search =>
    intro later heq
    cases heq
    exact ⟨[], .refl search, by simp, by simp⟩
  | @met search name names outcome hmet _ ih =>
    intro later heq
    obtain ⟨entered, hentered, hmets, hreached⟩ := ih later heq
    refine ⟨entered, hentered, ?_, ?_⟩
    · rw [List.forall_mem_cons]
      exact ⟨(hentered.met name).mpr (.inr hmet), hmets⟩
    · intro other hmem
      exact (hreached other hmem).mono (List.subset_cons_self name names)
  | undefined => simp
  | unprunable => simp
  | failed => simp
  | @entered search last name names fragment outcome hmet hprunes _ _ ihbody ih =>
    intro later heq
    obtain ⟨inner, hinner, hspreads, hbody⟩ := ihbody last rfl
    obtain ⟨others, hothers, hmets, hreached⟩ := ih later heq
    have hcollect := hinner.collect hmet hprunes hspreads
    have hname : name ∈ last.met := (hinner.met name).mpr (.inr List.mem_cons_self)
    refine ⟨inner ++ [(name, fragment)] ++ others, hcollect.trans hothers, ?_, ?_⟩
    · rw [List.forall_mem_cons]
      exact ⟨(hothers.met name).mpr (.inr hname), hmets⟩
    · intro other hmem
      simp only [List.map_append, List.mem_append, List.map_cons, List.map_nil,
        List.mem_singleton] at hmem
      rcases hmem with (hmem | rfl) | hmem
      · exact .of_prunes hprunes (hbody other hmem)
      · exact .direct List.mem_cons_self
      · exact (hreached other hmem).mono (List.subset_cons_self name names)

/-- A search that fails has reached a name of which there is no pruned fragment. -/
theorem Searches.exists_not_prunes {search : FragmentSearch} {names : List String}
    {outcome : Except SynthesisError FragmentSearch} (h : Searches pruner search names outcome) :
    ∀ error, outcome = .error error →
      ∃ name, pruner.Reached names name ∧ ∀ fragment, ¬ pruner.Prunes name fragment := by
  induction h with
  | nil => simp
  | @met search name names outcome _ _ ih =>
    intro error heq
    obtain ⟨other, hreached, hnot⟩ := ih error heq
    exact ⟨other, hreached.mono (List.subset_cons_self name names), hnot⟩
  | @undefined search name names _ hnone =>
    intro error _
    refine ⟨name, .direct List.mem_cons_self, ?_⟩
    rintro fragment ⟨definition, hdefinition, _⟩
    cases hnone.symm.trans hdefinition
  | @unprunable search name names definition error _ hdefinition herror =>
    intro _ _
    refine ⟨name, .direct List.mem_cons_self, ?_⟩
    rintro fragment ⟨other, hother, hpruned⟩
    cases hdefinition.symm.trans hother
    cases herror.symm.trans hpruned
  | @failed search name names fragment error _ hprunes _ ih =>
    intro _ _
    obtain ⟨other, hreached, hnot⟩ := ih error rfl
    exact ⟨other, .of_prunes hprunes hreached, hnot⟩
  | @entered search last name names fragment outcome _ _ _ _ _ ih =>
    intro error heq
    obtain ⟨other, hreached, hnot⟩ := ih error heq
    exact ⟨other, hreached.mono (List.subset_cons_self name names), hnot⟩

/-! ## Closures -/

/-- The fragments collected for selections, each under the name that it was entered by: none is missing
that is spread, and none is there that the selections do not reach. -/
structure Closure (pruner : Pruner) (selections : List Selection)
    (entered : List (String × Fragment)) : Prop where
  pruned : ∀ entry ∈ entered, pruner.Prunes entry.1 entry.2
  spread : ∀ name ∈ Selection.spreadsOf selections, name ∈ entered.map Prod.fst
  closed : ∀ entry ∈ entered, ∀ name ∈ Selection.spreadsOf entry.2.selections,
    name ∈ entered.map Prod.fst
  reached : ∀ name ∈ entered.map Prod.fst, pruner.Reached (Selection.spreadsOf selections) name
  distinct : (entered.map Prod.fst).Nodup

/-- The collected fragments are the client's, pruned, and they are those that the selections reach. -/
theorem fragmentClosure_eq_ok {selections : List Selection} {fragments : List Fragment}
    (h : pruner.fragmentClosure selections = .ok fragments) :
    ∃ entered, fragments = entered.map Prod.snd ∧ Closure pruner selections entered := by
  obtain ⟨outcome, hunique, heq⟩ := pruner.fragmentClosure_eq_map selections
  have hsearch := (hunique outcome).mpr rfl
  cases outcome with
  | error error => cases heq.symm.trans h
  | ok search =>
    obtain ⟨entered, hentered, hmet, hreached⟩ := hsearch.exists_entered search rfl
    -- The search began with nothing met, so what has been met is what was entered.
    have hmet' : ∀ name, name ∈ search.met ↔ name ∈ entered.map Prod.fst := by
      intro name
      rw [hentered.met name, or_iff_left List.not_mem_nil]
    have hcollected : search.collected = fragments := Except.ok.inj (heq.symm.trans h)
    refine ⟨entered, ?_, hentered.pruned, ?_, ?_, hreached, hentered.distinct⟩
    · rw [← hcollected, hentered.collected, List.nil_append]
    · intro name hname
      exact (hmet' name).mp (hmet name hname)
    · intro entry hentry name hname
      exact (hmet' name).mp (hentered.closed entry hentry name hname)

theorem Closure.mem_of_reached {selections : List Selection} {entered : List (String × Fragment)}
    (h : Closure pruner selections entered) {name : String}
    (hreached : pruner.Reached (Selection.spreadsOf selections) name) : name ∈ entered.map Prod.fst := by
  induction hreached with
  | direct hmem => exact h.spread _ hmem
  | through _ hpruned hmem ih =>
    obtain ⟨⟨other, collected⟩, hentry, rfl⟩ := List.mem_map.mp ih
    have hsame := hpruned.unique (h.pruned _ hentry)
    rw [hsame] at hmem
    exact h.closed _ hentry _ hmem

/-- The closure of selections succeeds if and only if every name that they reach has a fragment that can
be pruned. -/
theorem fragmentClosure_isOk_iff {selections : List Selection} :
    (∃ fragments, pruner.fragmentClosure selections = .ok fragments) ↔
      ∀ name, pruner.Reached (Selection.spreadsOf selections) name →
        ∃ fragment, pruner.Prunes name fragment := by
  constructor
  · rintro ⟨fragments, h⟩ name hreached
    obtain ⟨entered, _, hclosure⟩ := fragmentClosure_eq_ok h
    obtain ⟨entry, hentry, rfl⟩ := List.mem_map.mp (hclosure.mem_of_reached hreached)
    exact ⟨entry.2, hclosure.pruned entry hentry⟩
  · intro h
    obtain ⟨outcome, hunique, heq⟩ := pruner.fragmentClosure_eq_map selections
    have hsearch := (hunique outcome).mpr rfl
    cases outcome with
    | ok search => exact ⟨_, heq⟩
    | error error =>
      obtain ⟨name, hreached, hnot⟩ := hsearch.exists_not_prunes error rfl
      obtain ⟨fragment, hpruned⟩ := h name hreached
      exact absurd hpruned (hnot fragment)

/-- A pruned fragment keeps all but its selections, which are pruned on its own condition. -/
theorem pruneFragment_eq_ok {definition fragment : Fragment}
    (h : pruner.pruneFragment definition = .ok fragment) :
    fragment = { definition with selections := fragment.selections } ∧
      pruner.prune definition.condition definition.selections = .ok fragment.selections := by
  rw [pruneFragment] at h
  obtain ⟨level, hlevel, h⟩ := Outcome.bind_eq_ok.mp h
  rw [Outcome.pure_eq_ok] at h
  rw [← h]
  exact ⟨rfl, hlevel⟩

end Pruner

end Supergraph
