import Supergraph.Proofs.Gateway
import Supergraph.Proofs.Pruning.Level

/-!
Pruning once is enough: what it leaves, it leaves again as it is.

The second pass meets each selection of the result behind the same selections as the first pass did, so
that it decides alike.

1. `Passes` says that a pass goes through selections without a change, behind what it has kept so far.
2. `Steps.passes`: what the steps through a level leave, passes.
3. `Passes.complete`: what completes a level passes, too, and completes it for good.
4. `prune_idempotent` follows from both by induction on the levels of the result.
-/

namespace Supergraph

open GraphQL

namespace Pruner

variable {pruner : Pruner} {type : String} {client kept level first second : List Selection}

/-! ## One pass -/

theorem pruneSelections_append (pruner : Pruner) (type : String) (kept first second : List Selection) :
    pruner.pruneSelections type kept (first ++ second) =
      (pruner.pruneSelections type kept first).bind fun next =>
        pruner.pruneSelections type next second := by
  induction first generalizing kept with
  | nil => rfl
  | cons selection rest ih =>
    rw [List.cons_append, pruneSelections, pruneSelections]
    cases hnext : pruner.pruneSelection type kept selection with
    | error error => rfl
    | ok next => exact ih next

/-- A pass goes through the selections, behind those that it has kept, without a change. -/
def Passes (pruner : Pruner) (type : String) (kept selections : List Selection) : Prop :=
  pruner.pruneSelections type kept selections = .ok (kept ++ selections)

namespace Passes

theorem nil : pruner.Passes type kept [] := by
  rw [Passes, pruneSelections, List.append_nil]

theorem single {selection : Selection}
    (h : pruner.pruneSelection type kept selection = .ok (kept ++ [selection])) :
    pruner.Passes type kept [selection] := by
  rw [Passes, pruneSelections, h]
  show pruner.pruneSelections type (kept ++ [selection]) [] = _
  rw [pruneSelections]

theorem append (h₁ : pruner.Passes type kept first) (h₂ : pruner.Passes type (kept ++ first) second) :
    pruner.Passes type kept (first ++ second) := by
  rw [Passes, pruneSelections_append, h₁, ← List.append_assoc]
  exact h₂

/-- A `__typename` without anything but its label passes, unless its response key is selected plainly. -/
theorem typenameAs (label : Option String) (h : selects kept (label.getD typenameField) = false) :
    pruner.Passes type kept [typenameAs label] := by
  have hselects : selects kept (FieldHead.responseKey ⟨label, typenameField, [], []⟩) = false := h
  apply single
  show pruner.pruneSelection type kept (.field ⟨label, typenameField, [], []⟩ []) = _
  rw [pruneSelection, if_pos rfl, hselects, if_neg Bool.false_ne_true]
  rfl

theorem leaf {head : FieldHead} (hne : head.name ≠ typenameField)
    (hcan : pruner.service.shape.canSelect type head.name = true) :
    pruner.Passes type kept [.field head []] := by
  apply single
  rw [pruneSelection, if_neg hne, if_pos hcan]
  rfl

end Passes

/-- Pruning leaves the level as it is, whatever it is left of. -/
def Fixed (pruner : Pruner) (type : String) (_client level : List Selection) : Prop :=
  pruner.prune type level = .ok level

/-- What is left of a selection passes, if the level below it is fixed. -/
theorem Passes.trimmed {source left : Selection} (hadmits : pruner.admits type source = true)
    (h : Trimmed pruner.schema (pruner.Below pruner.Fixed) type source left) :
    pruner.Passes type kept [left] := by
  cases h with
  | leaf =>
    obtain ⟨hne, hcan⟩ := of_decide_eq_true hadmits
    exact .leaf hne hcan
  | @nested head client level composed hnonempty hfield hbelow =>
    obtain ⟨hne, hcan⟩ := of_decide_eq_true hadmits
    obtain ⟨kept', hkept, hcomplete⟩ := prune_eq_ok.mp hbelow.2
    have hlevel : level.isEmpty = false := by
      rw [← Bool.not_eq_true, List.isEmpty_iff]
      exact ne_nil_of_prune hbelow.1
    have hreturn : pruner.returnType type head.name = .ok composed.returnType :=
      returnType_eq_ok.mpr ⟨composed, hfield, rfl⟩
    apply Passes.single
    rw [pruneSelection, if_neg hne, if_pos hcan, hlevel, if_neg Bool.false_ne_true, hreturn]
    show (pruner.pruneSelections composed.returnType [] level).bind _ = _
    rw [hkept, ← hcomplete]
    rfl
  | @spread fragment directives =>
    rw [admits] at hadmits
    apply Passes.single
    rw [pruneSelection]
    split at hadmits
    · next definition hdefinition =>
      rw [hdefinition]
      exact if_pos hadmits
    · cases hadmits
  | @inline condition directives client level hbelow =>
    obtain ⟨kept', hkept, hcomplete⟩ := prune_eq_ok.mp hbelow.2
    have hknows : pruner.service.shape.knows (condition.getD type) = true := hadmits
    apply Passes.single
    rw [pruneSelection, if_pos hknows, hkept, ← hcomplete]
    rfl

/-- What the steps through a level leave passes behind what was there before. -/
theorem Steps.passes (h : Steps pruner (pruner.Below pruner.Fixed) type kept client level) :
    ∃ more, level = kept ++ more ∧ pruner.Passes type kept more := by
  induction h with
  | nil => exact ⟨[], (List.append_nil _).symm, .nil⟩
  | @cons kept selection next rest level hstep _ ih =>
    obtain ⟨more, rfl, hmore⟩ := ih
    cases hstep with
    | known => exact ⟨more, rfl, hmore⟩
    | @typename head _ htypename hselects =>
      refine ⟨_, List.append_assoc _ _ _, .append (.typenameAs _ ?_) hmore⟩
      rwa [FieldHead.responseKey, htypename] at hselects
    | admitted hadmits hleft =>
      exact ⟨_, List.append_assoc _ _ _, .append (.trimmed hadmits hleft) hmore⟩
    | dropped => exact ⟨more, rfl, hmore⟩

/-! ## Completion -/

/-- What completes a level passes: it is `__typename`, or a key that the service can be asked for. -/
theorem Passes.bare {name : String} (hcompleting : pruner.Completing type name)
    (hnot : selects kept name = false) : pruner.Passes type kept [.bare name] := by
  by_cases htypename : name = typenameField
  · subst htypename
    exact .typenameAs none hnot
  · obtain ⟨_, hcompletes⟩ := hcompleting.resolve_left htypename
    rw [completes, Bool.and_eq_true] at hcompletes
    refine .leaf htypename ?_
    show pruner.service.shape.canSelect type name = true
    rw [ServiceShape.canSelect]
    rcases Bool.or_eq_true _ _ ▸ hcompletes.1 with howns | hserves
    · rw [howns, Bool.true_or, Bool.true_or]
    · rw [hserves, Bool.or_true]

theorem Passes.ensure {name : String} (h : pruner.Passes type [] level)
    (hcompleting : pruner.Completing type name) : pruner.Passes type [] (ensure level name) := by
  cases hselects : selects level name with
  | true => rwa [ensure_of_selects hselects]
  | false =>
    rw [ensure_of_not_selects hselects]
    exact h.append (.bare hcompleting hselects)

theorem Passes.foldl_ensure {names : List String}
    (hnames : ∀ name ∈ names, pruner.Completing type name) (h : pruner.Passes type [] level) :
    pruner.Passes type [] (names.foldl Pruner.ensure level) := by
  induction names generalizing level with
  | nil => exact h
  | cons name names ih =>
    obtain ⟨hname, hnames⟩ := List.forall_mem_cons.mp hnames
    exact ih hnames (h.ensure hname)

theorem Passes.complete (h : pruner.Passes type [] level) :
    pruner.Passes type [] (pruner.complete type level) := by
  rw [complete_eq_foldl]
  exact h.foldl_ensure fun name => mem_completing.mp

/-- A completed level selects plainly all that would complete it. -/
theorem complete_complete (pruner : Pruner) (type : String) (level : List Selection) :
    pruner.complete type (pruner.complete type level) = pruner.complete type level := by
  obtain ⟨added, heq, _, hadded⟩ := pruner.complete_eq_append type (pruner.complete type level)
  have hnil : added = [] := by
    apply List.eq_nil_iff_forall_not_mem.mpr
    intro name hmem
    obtain ⟨hcompleting, hnot⟩ := hadded name hmem
    rw [selects_complete level hcompleting] at hnot
    cases hnot
  rw [heq, hnil, List.map_nil, List.append_nil]

/-! ## Whole results -/

/-- Pruning what pruning left changes nothing. -/
theorem prune_idempotent (h : pruner.prune type client = .ok level) :
    pruner.prune type level = .ok level := by
  apply prune_induction (motive := pruner.Fixed) _ h
  intro type client kept hsteps
  obtain ⟨more, rfl, hmore⟩ := hsteps.passes
  exact prune_eq_ok.mpr ⟨_, hmore.complete, complete_complete pruner type _⟩

/-- A review whose type is asked for under the label of its key, with a level that has `__typename` in
front and one that is on the type of its parent. -/
theorem prune_idempotent_review :
    let client : List Selection :=
      [.field ⟨some "id", "__typename", [], [⟨"include", [("if", .variable "full")]⟩]⟩ [],
        .field (.bare "author") [.bare "name"], .inline none [] [.bare "__typename", .bare "body"]]
    let level : List Selection :=
      [typenameAs (some "id"), .field (.bare "author") [.bare "id", .bare "__typename"],
        .inline none [] [.bare "__typename", .bare "body", .bare "id"], .bare "id", .bare "__typename"]
    (Sample.pruner Sample.reviews).prune "Review" client = .ok level ∧
      (Sample.pruner Sample.reviews).prune "Review" level = .ok level := by
  intro client level
  have h : (Sample.pruner Sample.reviews).prune "Review" client = .ok level := by rfl
  exact ⟨h, prune_idempotent h⟩

end Pruner

end Supergraph
