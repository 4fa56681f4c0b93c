import Mathlib.Data.Finset.Card
import Mathlib.Data.Set.Finite.List
import Mathlib.Order.WellFoundedSet
import Supergraph.ClientOperation

/-!
The graph of a client's fragments: which fragment spreads which. Where no fragment spreads itself, not even
through others, what is said of a fragment may rest on what is said of those that it spreads
(`Acyclic.wellFounded`), since the client has only finitely many.

A search that enters each fragment once has fewer and fewer of them left (`unentered_cons_lt`), so that their
number bounds how deep it goes.
-/

namespace Supergraph

open GraphQL

namespace ClientOperation

variable {client : ClientOperation}

/-- The client's fragment of a name spreads another name. -/
def FragmentSpreads (client : ClientOperation) (name other : String) : Prop :=
  ∃ fragment, client.fragment? name = some fragment ∧
    other ∈ Selection.spreadsOf fragment.selections

/-- No fragment spreads itself, not even through others. -/
def Acyclic (client : ClientOperation) : Prop :=
  ∀ name, ¬ Relation.TransGen client.FragmentSpreads name name

/-- Each of several spreads has a definition. -/
def Defines (client : ClientOperation) (spreads : List String) : Prop :=
  ∀ name ∈ spreads, (client.fragment? name).isSome = true

def SpreadsDefined (client : ClientOperation) : Prop :=
  ∀ name fragment, client.fragment? name = some fragment →
    client.Defines (Selection.spreadsOf fragment.selections)

theorem finite_defined (client : ClientOperation) :
    {name | (client.fragment? name).isSome = true}.Finite := by
  apply (List.finite_toSet client.fragments.names).subset
  intro name hname
  exact NameMap.mem_names_iff.mpr hname

theorem acc_of_undefined {name : String} (hname : (client.fragment? name).isSome ≠ true) :
    Acc (fun other name => client.FragmentSpreads name other) name := by
  constructor
  rintro other ⟨fragment, hfragment, _⟩
  simp [hfragment] at hname

theorem Acyclic.wellFounded (h : client.Acyclic) :
    WellFounded fun other name => client.FragmentSpreads name other := by
  let below : String → String → Prop :=
    fun other name => Relation.TransGen client.FragmentSpreads name other
  have : IsTrans String below := ⟨fun _ _ _ hab hbc => hbc.trans hab⟩
  have : Std.Irrefl below := ⟨h⟩
  have : IsStrictOrder String below := ⟨⟩
  have hwf := client.finite_defined.wellFoundedOn (r := below)
  constructor
  intro name
  by_cases hname : (client.fragment? name).isSome = true
  · refine hwf.induction hname ?_
    intro name _ ih
    constructor
    intro other hspreads
    by_cases hother : (client.fragment? other).isSome = true
    · exact ih other hother (.single hspreads)
    · exact acc_of_undefined hother
  · exact acc_of_undefined hname

/-- Fragments form no cycle if each has a rank above those that it spreads. -/
theorem acyclic_of_lt (rank : String → Nat)
    (h : ∀ name other, client.FragmentSpreads name other → rank other < rank name) : client.Acyclic := by
  intro name hloop
  have hlt : ∀ other, Relation.TransGen client.FragmentSpreads name other → rank other < rank name := by
    intro other hreach
    induction hreach with
    | single hspreads => exact h _ _ hspreads
    | tail _ hspreads ih => exact (h _ _ hspreads).trans ih
  exact lt_irrefl _ (hlt name hloop)

/-! ## Fragments that are left to enter -/

/-- How many fragments of the client are not among names. -/
def unentered (client : ClientOperation) (entered : List String) : Nat :=
  (client.fragments.names.toFinset \ entered.toFinset).card

theorem unentered_le_of_subset {entered later : List String} (h : entered ⊆ later) :
    client.unentered later ≤ client.unentered entered := by
  apply Finset.card_le_card
  intro name hmem
  simp only [Finset.mem_sdiff, List.mem_toFinset] at hmem ⊢
  exact ⟨hmem.1, fun hentered => hmem.2 (h hentered)⟩

theorem unentered_cons_lt {entered : List String} {name : String} {fragment : Fragment}
    (hname : name ∉ entered) (hfragment : client.fragment? name = some fragment) :
    client.unentered (name :: entered) < client.unentered entered := by
  have hdefined : name ∈ client.fragments.names := by
    rw [NameMap.mem_names_iff, NameMap.contains]
    exact Option.isSome_of_eq_some hfragment
  apply Finset.card_lt_card
  rw [Finset.ssubset_iff_of_subset]
  · exact ⟨name, by simp [hdefined, hname], by simp⟩
  · intro other hmem
    simp only [Finset.mem_sdiff, List.mem_toFinset, List.mem_cons, not_or] at hmem ⊢
    exact ⟨hmem.1, hmem.2.2⟩

theorem unentered_le_length (client : ClientOperation) (entered : List String) :
    client.unentered entered ≤ client.fragments.entries.length :=
  calc client.unentered entered
      ≤ client.fragments.names.toFinset.card := Finset.card_le_card Finset.sdiff_subset
    _ ≤ client.fragments.names.length := List.toFinset_card_le _
    _ = client.fragments.entries.length := List.length_map _

end ClientOperation

end Supergraph
