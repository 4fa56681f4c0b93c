import Mathlib.Data.List.Nodup
import Supergraph.Proofs.Pruning.Selecting
import Supergraph.Proofs.Synthesis

/-!
The fragments of synthesized documents.

1. `gathers_of_fragmentClosure`: a closure has the fragments that its selections reach through pruned
   bodies, each once and pruned on its own condition, whatever cycles the client's fragments form.
2. `Gathers.closed_document`: a document with such fragments is closed. Each of its spreads has one
   definition, and each definition is reached from the operation.
3. `fragments_gathered` puts together the search, which ends, with the documents of all three shapes.
-/

namespace Supergraph

open GraphQL

/-! ## Documents -/

namespace GraphQL.Document

/-- A document spreads a fragment, in an operation or in another fragment. -/
def Spreads (document : Document) (name : String) : Prop :=
  (∃ operation ∈ document.operations, name ∈ Selection.spreadsOf operation.selections) ∨
    ∃ fragment ∈ document.fragments, name ∈ Selection.spreadsOf fragment.selections

/-- A name is reached from the operations of a document, through the fragments that it defines. -/
inductive Reaches (document : Document) : String → Prop
  | operation {operation : Operation} {name : String} : operation ∈ document.operations →
      name ∈ Selection.spreadsOf operation.selections → Reaches document name
  | fragment {fragment : Fragment} {name : String} : Reaches document fragment.name →
      fragment ∈ document.fragments → name ∈ Selection.spreadsOf fragment.selections →
      Reaches document name

/-- Every spread of a document has exactly one definition, and every fragment of it is reached. -/
structure Closed (document : Document) : Prop where
  defined : ∀ name, document.Spreads name → (document.fragments.map Fragment.name).count name = 1
  reached : ∀ fragment ∈ document.fragments, document.Reaches fragment.name

end GraphQL.Document

@[simp] theorem ServiceOperation.operations_document (synthesized : ServiceOperation) :
    synthesized.document.operations = [synthesized.operation] := by
  have hnone : ∀ fragments : List Fragment,
      Document.operations (fragments.map Definition.fragment) = [] := by
    intro fragments
    induction fragments with
    | nil => rfl
    | cons fragment fragments ih => exact ih
  have htail := hnone synthesized.fragments
  simp only [Document.operations] at htail
  simp [document, Document.operations, htail]

@[simp] theorem ServiceOperation.fragments_document (synthesized : ServiceOperation) :
    synthesized.document.fragments = synthesized.fragments := by
  simp [document, Document.fragments, List.filterMap_map]

namespace Pruner

variable {pruner : Pruner}

/-- Fragments are those that selections reach through pruned bodies: each once, and each what pruning
makes of the client's fragment of its name. -/
structure Gathers (pruner : Pruner) (selections : List Selection) (fragments : List Fragment) :
    Prop where
  distinct : (fragments.map Fragment.name).Nodup
  reached : ∀ name, name ∈ fragments.map Fragment.name ↔
    pruner.Reached (Selection.spreadsOf selections) name
  pruned : ∀ fragment ∈ fragments, pruner.Prunes fragment.name fragment

theorem gathers_of_fragmentClosure (hkeyed : pruner.client.Keyed) {selections : List Selection}
    {fragments : List Fragment} (h : pruner.fragmentClosure selections = .ok fragments) :
    pruner.Gathers selections fragments := by
  obtain ⟨entered, rfl, hclosure⟩ := fragmentClosure_eq_ok h
  -- A fragment goes by the name that it was entered under.
  have hsame : ∀ entry ∈ entered, entry.2.name = entry.1 := by
    intro entry hentry
    exact (hclosure.pruned entry hentry).name_eq hkeyed
  have hnames : (entered.map Prod.snd).map Fragment.name = entered.map Prod.fst := by
    rw [List.map_map]
    exact List.map_congr_left hsame
  refine ⟨?_, ?_, ?_⟩
  · rw [hnames]
    exact hclosure.distinct
  · intro name
    rw [hnames]
    exact ⟨hclosure.reached name, hclosure.mem_of_reached⟩
  · intro fragment hmem
    obtain ⟨entry, hentry, rfl⟩ := List.mem_map.mp hmem
    rw [hsame entry hentry]
    exact hclosure.pruned entry hentry

section Documents

variable {selections : List Selection} {fragments : List Fragment} {synthesized : ServiceOperation}

theorem Gathers.mem_of_spreads (h : pruner.Gathers selections fragments)
    (hfragments : synthesized.fragments = fragments)
    (hspreads : Selection.spreadsOf synthesized.operation.selections = Selection.spreadsOf selections)
    {name : String} (hname : synthesized.document.Spreads name) :
    name ∈ fragments.map Fragment.name := by
  rw [h.reached]
  rcases hname with ⟨operation, hoperation, hmem⟩ | ⟨fragment, hfragment, hmem⟩
  · rw [ServiceOperation.operations_document, List.mem_singleton] at hoperation
    rw [hoperation, hspreads] at hmem
    exact .direct hmem
  · rw [ServiceOperation.fragments_document, hfragments] at hfragment
    have hreached := (h.reached fragment.name).mp (List.mem_map_of_mem hfragment)
    exact .through hreached (h.pruned fragment hfragment) hmem

theorem Gathers.reaches_of_reached (h : pruner.Gathers selections fragments)
    (hfragments : synthesized.fragments = fragments)
    (hspreads : Selection.spreadsOf synthesized.operation.selections = Selection.spreadsOf selections)
    {name : String} (hname : pruner.Reached (Selection.spreadsOf selections) name) :
    synthesized.document.Reaches name := by
  induction hname with
  | direct hmem =>
    rw [← hspreads] at hmem
    exact .operation (by simp) hmem
  | @through other name fragment hother hpruned hmem ih =>
    -- The document has the fragment of the name on the way, and it is the one that was pruned.
    obtain ⟨found, hfound, rfl⟩ := List.mem_map.mp ((h.reached other).mpr hother)
    have hsame := hpruned.unique (h.pruned found hfound)
    subst hsame
    exact .fragment ih (by simpa [hfragments] using hfound) hmem

/-- A document is closed if its fragments are those that its operation reaches. -/
theorem Gathers.closed_document (h : pruner.Gathers selections fragments)
    (hfragments : synthesized.fragments = fragments)
    (hspreads : Selection.spreadsOf synthesized.operation.selections = Selection.spreadsOf selections) :
    synthesized.document.Closed where
  defined name hname := by
    rw [ServiceOperation.fragments_document, hfragments]
    exact List.count_eq_one_of_mem h.distinct (h.mem_of_spreads hfragments hspreads hname)
  reached fragment hmem := by
    rw [ServiceOperation.fragments_document, hfragments] at hmem
    have hreached := (h.reached fragment.name).mp (List.mem_map_of_mem hmem)
    exact h.reaches_of_reached hfragments hspreads hreached

end Documents

theorem closed_of_askRootField (hkeyed : pruner.client.Keyed) {field : Field} {kind : OperationKind}
    {synthesized : ServiceOperation} (h : pruner.askRootField kind field = .ok synthesized) :
    synthesized.document.Closed := by
  obtain ⟨delegated, fragments, _, _, _, hfragments, _, rfl⟩ := askRootField_eq_ok h
  exact (gathers_of_fragmentClosure hkeyed hfragments).closed_document rfl rfl

theorem closed_of_askRepresentations (hkeyed : pruner.client.Keyed) {choices : List Selection}
    {representations : List Json} {synthesized : ServiceOperation}
    (h : pruner.askRepresentations choices representations = .ok synthesized) :
    synthesized.document.Closed := by
  obtain ⟨fragments, _, _, hfragments, _, _, rfl⟩ := askRepresentations_eq_ok h
  -- The level of the entities has all spreads of the operation.
  apply (gathers_of_fragmentClosure hkeyed hfragments).closed_document rfl
  simp [Selection.spreadsOf, Selection.spreads]

/-- The fragments of a result are gathered by a search that ends, for all fragments of the client and all
selections. It succeeds if and only if every name that is reached has a fragment that can be pruned, and
then it has the fragments that are reached, each once. So every synthesized document is closed. -/
theorem fragments_gathered {document : Document} {operation : Option String} {values : NameMap Json}
    (hclient : ClientOperation.ofDocument document operation values = .ok pruner.client) :
    (∀ selections,
      (∃ outcome, (∀ other, pruner.Searches ⟨[], []⟩ (Selection.spreadsOf selections) other ↔
          other = outcome) ∧
        pruner.fragmentClosure selections = outcome.map FragmentSearch.collected) ∧
      ((∃ fragments, pruner.fragmentClosure selections = .ok fragments) ↔
        ∀ name, pruner.Reached (Selection.spreadsOf selections) name →
          ∃ fragment, pruner.Prunes name fragment) ∧
      ∀ fragments, pruner.fragmentClosure selections = .ok fragments →
        pruner.Gathers selections fragments) ∧
    ∀ field synthesized,
      (∀ kind, pruner.askRootField kind field = .ok synthesized → synthesized.document.Closed) ∧
      (∀ types representations, pruner.askEntities field types representations = .ok synthesized →
        synthesized.document.Closed) ∧
      (∀ parentType condition representation,
        pruner.askEntityField field parentType condition representation = .ok synthesized →
        synthesized.document.Closed) := by
  have hkeyed := ClientOperation.keyed_of_ofDocument hclient
  refine ⟨?_, ?_⟩
  · intro selections
    refine ⟨pruner.fragmentClosure_eq_map selections, fragmentClosure_isOk_iff, ?_⟩
    intro fragments h
    exact gathers_of_fragmentClosure hkeyed h
  · intro field synthesized
    refine ⟨?_, ?_, ?_⟩
    · intro kind h
      exact closed_of_askRootField hkeyed h
    · intro types representations h
      obtain ⟨choices, _, h⟩ := askEntities_eq_ok h
      exact closed_of_askRepresentations hkeyed h
    · intro parentType condition representation h
      obtain ⟨delegated, _, h⟩ := askEntityField_eq_ok h
      exact closed_of_askRepresentations hkeyed h

/-- A query for reviews by two fragments that spread each other. -/
def cyclicDocument : Document :=
  [.shorthand [.field (.bare "reviews") [.spread "A" []]],
    .fragment ⟨"A", "Review", [], [.bare "id", .field (.bare "author") [.bare "name"], .spread "B" []]⟩,
    .fragment ⟨"B", "Review", [], [.bare "body", .spread "A" []]⟩]

/-- The service of reviews is asked with both fragments, each once and without the names that it does not
have. -/
theorem fragments_gathered_cyclic :
    ∃ client, ClientOperation.ofDocument cyclicDocument none .empty = .ok client ∧
      let pruner := { Sample.pruner Sample.reviews with client }
      let fragments : List Fragment :=
        [⟨"B", "Review", [], [.bare "body", .spread "A" [], .bare "id", .bare "__typename"]⟩,
          ⟨"A", "Review", [], [.bare "id", .field (.bare "author") [.bare "id", .bare "__typename"],
            .spread "B" [], .bare "__typename"]⟩]
      pruner.fragmentClosure [.spread "A" []] = .ok fragments ∧
        pruner.Gathers [.spread "A" []] fragments ∧
        ∃ synthesized, pruner.askRootField .query ⟨.bare "reviews", [.spread "A" []]⟩ = .ok synthesized ∧
          synthesized.document.Closed := by
  have hclient : ∃ client, ClientOperation.ofDocument cyclicDocument none .empty = .ok client :=
    ⟨_, rfl⟩
  obtain ⟨client, hclient⟩ := hclient
  refine ⟨client, hclient, ?_⟩
  intro pruner fragments
  obtain ⟨hgathers, hclosed⟩ := @fragments_gathered pruner _ _ _ hclient
  cases hclient
  have hfragments : pruner.fragmentClosure [.spread "A" []] = .ok fragments := by rfl
  refine ⟨hfragments, (hgathers _).2.2 _ hfragments, ?_⟩
  have hasked : (pruner.askRootField .query ⟨.bare "reviews", [.spread "A" []]⟩).isOk = true := by
    decide +kernel
  cases h : pruner.askRootField .query ⟨.bare "reviews", [.spread "A" []]⟩ with
  | error error =>
    rw [h] at hasked
    cases hasked
  | ok synthesized => exact ⟨synthesized, rfl, (hclosed _ synthesized).1 _ h⟩

end Pruner

end Supergraph
