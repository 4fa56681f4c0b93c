import Supergraph.Proofs.Pruning.Level
import Supergraph.Proofs.Gateway

/-!
Response keys of a result. Two fields of one level that share a response key have to be the same field
with the same arguments, or the service refuses the operation.

Completion adds fields under their own names without a look at the labels that are there. So a result
is free of conflicts exactly if no label that stays is the name of something that completes its level
(`conflictFree_prune_iff`), and `conflict_of_label` is a level where one is.
-/

namespace Supergraph

open GraphQL

/-! ## Levels -/

mutual

/-- The levels below a selection. -/
def levelsBelow : Selection → List (List Selection)
  | .field _ selections => selections :: levelsAmong selections
  | .spread _ _ => []
  | .inline _ _ selections => selections :: levelsAmong selections

def levelsAmong : List Selection → List (List Selection)
  | [] => []
  | selection :: rest => levelsBelow selection ++ levelsAmong rest

end

theorem levelsAmong_append (first second : List Selection) :
    levelsAmong (first ++ second) = levelsAmong first ++ levelsAmong second := by
  induction first with
  | nil => rfl
  | cons selection rest ih => rw [List.cons_append, levelsAmong, levelsAmong, ih, List.append_assoc]

/-- Two fields may stand in one level: if they share a response key, then they have the same name and
the same arguments, whose order does not matter. -/
def Compatible : Selection → Selection → Prop
  | .field head _, .field other _ => head.responseKey = other.responseKey →
      head.name = other.name ∧ head.arguments.Perm other.arguments
  | _, _ => True

/-- Any two fields of a level may stand in it together. -/
def Mergeable (level : List Selection) : Prop :=
  ∀ first ∈ level, ∀ second ∈ level, Compatible first second

/-- Every level of the selections is mergeable. -/
def ConflictFree (selections : List Selection) : Prop :=
  Mergeable selections ∧ ∀ level ∈ levelsAmong selections, Mergeable level

theorem ConflictFree.of_nil : ConflictFree [] := by
  refine ⟨?_, ?_⟩
  · intro first hmem
    cases hmem
  · intro level hmem
    cases hmem

theorem Mergeable.compatible {level : List Selection} {head other : FieldHead}
    {selections others : List Selection} (h : Mergeable level)
    (hmem : .field head selections ∈ level) (hother : .field other others ∈ level)
    (hkey : head.responseKey = other.responseKey) :
    head.name = other.name ∧ head.arguments.Perm other.arguments :=
  h _ hmem _ hother hkey

theorem mergeable_of_fields {level : List Selection}
    (h : ∀ head selections other others, .field head selections ∈ level → .field other others ∈ level →
      head.responseKey = other.responseKey → head.name = other.name ∧ head.arguments.Perm other.arguments) :
    Mergeable level := by
  intro first hfirst second hsecond
  cases first with
  | field head selections =>
    cases second with
    | field other others => exact h _ _ _ _ hfirst hsecond
    | spread => trivial
    | inline => trivial
  | spread => trivial
  | inline => trivial

theorem conflictFree_iff_forall {selections : List Selection} :
    ConflictFree selections ↔ ∀ level ∈ selections :: levelsAmong selections, Mergeable level := by
  rw [List.forall_mem_cons, ConflictFree]

namespace Pruner

variable {pruner : Pruner}

/-! ## What stays of a level -/

/-- Whether a field stays when its level is pruned. -/
def Stays (pruner : Pruner) (type : String) (head : FieldHead) : Prop :=
  head.name = typenameField ∨ pruner.service.shape.canSelect type head.name = true

/-- A label of a field that stays is the name of something else that completes the level. -/
def Clashes (pruner : Pruner) (type : String) (level : List Selection) : Prop :=
  ∃ head selections, .field head selections ∈ level ∧ pruner.Stays type head ∧
    head.name ≠ head.responseKey ∧ pruner.Completing type head.responseKey

section Steps

variable {below : String → List Selection → List Selection → Prop} {type : String}
  {client kept level : List Selection}

/-- What a field that is left comes from: a field of the client that stays, of the same name and
response key. A `__typename` loses its arguments, any other field keeps them. -/
def ComesFrom (pruner : Pruner) (type : String) (client : List Selection) (left : FieldHead) : Prop :=
  ∃ head selections, .field head selections ∈ client ∧ pruner.Stays type head ∧
    left.name = head.name ∧ left.responseKey = head.responseKey ∧
    if left.name = typenameField then left.arguments = [] else left.arguments = head.arguments

theorem Steps.comesFrom (h : Steps pruner below type kept client level) {left : FieldHead}
    {selections : List Selection} (hmem : .field left selections ∈ level) :
    .field left selections ∈ kept ∨ pruner.ComesFrom type client left := by
  rcases h.exists_source _ hmem with hkept | ⟨head, others, hin, htypename, hleft⟩ |
    ⟨source, hin, hadmits, htrimmed⟩
  · exact .inl hkept
  · cases hleft
    refine .inr ⟨head, others, hin, .inl htypename, htypename.symm, ?_, rfl⟩
    simp [FieldHead.responseKey, FieldHead.bare, htypename]
  · have hsource : ∃ others, source = .field left others := by
      cases htrimmed with
      | leaf => exact ⟨_, rfl⟩
      | nested => exact ⟨_, rfl⟩
    obtain ⟨others, rfl⟩ := hsource
    have hasked := of_decide_eq_true hadmits
    refine .inr ⟨left, others, hin, .inr hasked.2, rfl, rfl, ?_⟩
    rw [if_neg hasked.1]

/-- A field of the client that stays is left, or its response key is one that the level selects
plainly; the latter only happens to a `__typename`. -/
theorem Steps.stays (h : Steps pruner below type kept client level) {head : FieldHead}
    {selections : List Selection} (hmem : .field head selections ∈ client)
    (hstays : pruner.Stays type head) :
    (∃ left others, .field left others ∈ level ∧ left.name = head.name ∧
        left.responseKey = head.responseKey) ∨
      head.name = typenameField ∧ selects level head.responseKey = true := by
  induction h with
  | nil => cases hmem
  | @cons kept selection next rest level hstep hsteps ih =>
    rcases List.mem_cons.mp hmem with rfl | hmem
    · -- Whatever this step leaves is still there when the level is done.
      cases hstep with
      | known htypename hselects =>
        obtain ⟨other, others, hin, hplain⟩ := selects_iff.mp hselects
        exact .inr ⟨htypename, selects_iff.mpr ⟨other, others, hsteps.prefix_mem _ hin, hplain⟩⟩
      | typename htypename _ =>
        refine .inl ⟨_, _, hsteps.prefix_mem _ (List.mem_append_right _ (List.mem_singleton_self _)),
          htypename.symm, ?_⟩
        simp [FieldHead.responseKey, FieldHead.bare, htypename]
      | @admitted _ left hadmits htrimmed =>
        have hin : left ∈ level :=
          hsteps.prefix_mem _ (List.mem_append_right _ (List.mem_singleton_self _))
        cases htrimmed with
        | leaf => exact .inl ⟨_, _, hin, rfl, rfl⟩
        | nested => exact .inl ⟨_, _, hin, rfl, rfl⟩
      | dropped htypename hadmits =>
        have hne : head.name ≠ typenameField := by simpa [isTypename] using htypename
        have hselect := hstays.resolve_left hne
        simp [admits, hne, hselect] at hadmits
    · exact ih hmem

/-! ## One completed level -/

theorem field_of_mem_complete {left : FieldHead} {selections : List Selection}
    (hmem : .field left selections ∈ pruner.complete type kept) :
    .field left selections ∈ kept ∨ ∃ name, left = .bare name ∧ pruner.Completing type name ∧
      selects kept name = false := by
  rcases of_mem_complete hmem with hmem | ⟨name, heq, hcompleting⟩
  · exact .inl hmem
  · cases heq
    exact .inr ⟨name, rfl, hcompleting⟩

/-- Two fields that are left come from fields that may stand in one level, so that they may, too. -/
theorem ComesFrom.compatible {left other : FieldHead} (hclient : Mergeable client)
    (h₁ : pruner.ComesFrom type client left) (h₂ : pruner.ComesFrom type client other)
    (hkey : left.responseKey = other.responseKey) :
    left.name = other.name ∧ left.arguments.Perm other.arguments := by
  obtain ⟨head, _, hin, _, hname, hresponse, harguments⟩ := h₁
  obtain ⟨head', _, hin', _, hname', hresponse', harguments'⟩ := h₂
  have hsame := hclient.compatible hin hin' (by rw [← hresponse, ← hresponse', hkey])
  have hnames : left.name = other.name := by rw [hname, hname', hsame.1]
  refine ⟨hnames, ?_⟩
  by_cases htypename : left.name = typenameField
  · rw [if_pos htypename] at harguments
    rw [if_pos (hnames ▸ htypename)] at harguments'
    rw [harguments, harguments']
  · rw [if_neg htypename] at harguments
    rw [if_neg (hnames ▸ htypename)] at harguments'
    rw [harguments, harguments']
    exact hsame.2

/-- A completed name and a field that is left may stand in one level where no label clashes. -/
theorem ComesFrom.name_ne {left : FieldHead} {selections : List Selection} {name : String}
    (hfrom : pruner.ComesFrom type client left) (hmem : .field left selections ∈ kept)
    (hclash : ¬ pruner.Clashes type client) (hcompleting : pruner.Completing type name)
    (hnot : selects kept name = false) : left.responseKey ≠ name := by
  intro hkey
  have hne : left.name ≠ name := by
    intro hname
    rw [selects_iff.mpr ⟨left, selections, hmem, hname, hkey⟩] at hnot
    cases hnot
  obtain ⟨head, others, hin, hstays, hname, hresponse, _⟩ := hfrom
  rw [hname] at hne
  rw [hresponse] at hkey
  exact hclash ⟨head, others, hin, hstays, hkey ▸ hne, hkey ▸ hcompleting⟩

/-- Of a mergeable level of the client a mergeable level is left if and only if no label clashes. -/
theorem Steps.mergeable_complete_iff (h : Steps pruner below type [] client kept)
    (hclient : Mergeable client) :
    Mergeable (pruner.complete type kept) ↔ ¬ pruner.Clashes type client := by
  refine ⟨?_, ?_⟩
  · intro hmergeable hclash
    obtain ⟨head, selections, hmem, hstays, hne, hcompleting⟩ := hclash
    -- The name is selected plainly once the level is complete, next to the field that has it for a label.
    obtain ⟨plain, others, hplain, hname, hkey⟩ := selects_iff.mp (selects_complete kept hcompleting)
    rcases h.stays hmem hstays with ⟨left, lefts, hleft, hsame, hresponse⟩ | ⟨htypename, hselects⟩
    · have hin : .field left lefts ∈ pruner.complete type kept := mem_complete_of_mem hleft
      have hmerged := hmergeable.compatible hin hplain (by rw [hresponse, hkey])
      exact hne (by rw [← hsame, hmerged.1, hname])
    · -- The `__typename` was passed over for a field of the client that has its label as a name.
      obtain ⟨other, _, hother, hothername, hotherkey⟩ := selects_iff.mp hselects
      rcases h.comesFrom hother with hnone | ⟨source, _, hsource, _, hn, hr, _⟩
      · cases hnone
      · have hmerged := hclient.compatible hmem hsource (by rw [← hr, hotherkey])
        exact hne (by rw [hmerged.1, ← hn, hothername])
  · intro hclash
    have hfrom : ∀ left selections, .field left selections ∈ kept → pruner.ComesFrom type client left :=
      fun left selections hmem => (h.comesFrom hmem).resolve_left List.not_mem_nil
    apply mergeable_of_fields
    intro left lefts other others hleft hother hkey
    -- Each of the two is left of the client's level or was completed; two completed ones are bare.
    rcases field_of_mem_complete hleft with hleft | ⟨name, rfl, hcompleting, hnot⟩
    · rcases field_of_mem_complete hother with hother | ⟨name, rfl, hcompleting, hnot⟩
      · exact (hfrom _ _ hleft).compatible hclient (hfrom _ _ hother) hkey
      · exact absurd hkey ((hfrom _ _ hleft).name_ne hleft hclash hcompleting hnot)
    · rcases field_of_mem_complete hother with hother | ⟨other, rfl, _, _⟩
      · exact absurd hkey.symm ((hfrom _ _ hother).name_ne hother hclash hcompleting hnot)
      · exact ⟨hkey, .refl _⟩

end Steps

/-! ## Whole results -/

mutual

/-- The levels of the client below a selection that stay, each with its type. -/
def keptBelow (pruner : Pruner) (type : String) : Selection → List (String × List Selection)
  | .field head selections =>
    if pruner.admits type (.field head selections) then
      match pruner.schema.field? type head.name with
      | some composed =>
        (composed.returnType, selections) :: pruner.keptAmong composed.returnType selections
      | none => []
    else []
  | .spread _ _ => []
  | .inline condition directives selections =>
    if pruner.admits type (.inline condition directives selections) then
      (condition.getD type, selections) :: pruner.keptAmong (condition.getD type) selections
    else []

def keptAmong (pruner : Pruner) (type : String) : List Selection → List (String × List Selection)
  | [] => []
  | selection :: rest => pruner.keptBelow type selection ++ pruner.keptAmong type rest

end

/-- No label clashes at any level of the client that stays. -/
def Unclashing (pruner : Pruner) (type : String) (client : List Selection) : Prop :=
  ∀ entry ∈ (type, client) :: pruner.keptAmong type client, ¬ pruner.Clashes entry.1 entry.2

theorem keptBelow_of_not_admits {type : String} {selection : Selection}
    (h : pruner.admits type selection = false) : pruner.keptBelow type selection = [] := by
  cases selection with
  | field => rw [keptBelow, h, if_neg Bool.false_ne_true]
  | spread => rfl
  | inline => rw [keptBelow, h, if_neg Bool.false_ne_true]

theorem not_clashes_nil {type : String} : ¬ pruner.Clashes type [] := by
  intro hclash
  obtain ⟨_, _, hmem, _⟩ := hclash
  cases hmem

/-- What is shown of results level by level. -/
def Judged (pruner : Pruner) (type : String) (client level : List Selection) : Prop :=
  ConflictFree client → (ConflictFree level ↔ pruner.Unclashing type client)

theorem judged_below {type : String} {selection left : Selection}
    (hadmits : pruner.admits type selection = true)
    (h : Trimmed pruner.schema (pruner.Below pruner.Judged) type selection left)
    (hclient : ∀ level ∈ levelsBelow selection, Mergeable level) :
    (∀ level ∈ levelsBelow left, Mergeable level) ↔
      ∀ entry ∈ pruner.keptBelow type selection, ¬ pruner.Clashes entry.1 entry.2 := by
  cases h with
  | @leaf head =>
    refine iff_of_true hclient ?_
    rw [keptBelow, if_pos hadmits]
    cases pruner.schema.field? type head.name with
    | none => simp
    | some composed => simp [keptAmong, not_clashes_nil]
  | nested _ hfield hbelow =>
    rw [keptBelow, if_pos hadmits, hfield, levelsBelow, ← conflictFree_iff_forall]
    exact hbelow.2 (conflictFree_iff_forall.mpr hclient)
  | spread => simp [levelsBelow, keptBelow]
  | inline hbelow =>
    rw [keptBelow, if_pos hadmits, levelsBelow, ← conflictFree_iff_forall]
    exact hbelow.2 (conflictFree_iff_forall.mpr hclient)

theorem Steps.judged {type : String} {client kept level : List Selection}
    (h : Steps pruner (pruner.Below pruner.Judged) type kept client level)
    (hclient : ∀ inner ∈ levelsAmong client, Mergeable inner) :
    (∀ inner ∈ levelsAmong level, Mergeable inner) ↔
      (∀ inner ∈ levelsAmong kept, Mergeable inner) ∧
        ∀ entry ∈ pruner.keptAmong type client, ¬ pruner.Clashes entry.1 entry.2 := by
  induction h with
  | nil => simp [keptAmong]
  | @cons kept selection next rest level hstep _ ih =>
    rw [levelsAmong, List.forall_mem_append] at hclient
    rw [ih hclient.2, keptAmong, List.forall_mem_append]
    cases hstep with
    | known htypename _ => rw [keptBelow_of_not_admits (by simp [admits, htypename])]; simp
    | typename htypename _ =>
      rw [keptBelow_of_not_admits (by simp [admits, htypename]), levelsAmong_append,
        List.forall_mem_append]
      simp [levelsAmong, levelsBelow, typenameAs, ConflictFree.of_nil.1]
    | admitted hadmits hleft =>
      rw [levelsAmong_append, List.forall_mem_append, levelsAmong, levelsAmong, List.append_nil,
        judged_below hadmits hleft hclient.1, and_assoc]
    | dropped _ hadmits => rw [keptBelow_of_not_admits hadmits]; simp

theorem levelsAmong_bare (names : List String) :
    ∀ level ∈ levelsAmong (names.map Selection.bare), Mergeable level := by
  induction names with
  | nil => simp [levelsAmong]
  | cons name names ih =>
    rw [List.map_cons, levelsAmong, List.forall_mem_append]
    exact ⟨by simp [Selection.bare, levelsBelow, levelsAmong, ConflictFree.of_nil.1], ih⟩

/-- Pruning a selection without conflicts gives one without conflicts, at every level, if and only if at
no level that stays a label is the name of something else that completes the level. -/
theorem conflictFree_prune_iff {type : String} {client level : List Selection}
    (hclient : ConflictFree client) (h : pruner.prune type client = .ok level) :
    ConflictFree level ↔ pruner.Unclashing type client := by
  apply prune_induction (motive := pruner.Judged) _ h hclient
  intro type client kept hsteps hclient
  obtain ⟨added, heq, _⟩ := pruner.complete_eq_append type kept
  rw [ConflictFree, hsteps.mergeable_complete_iff hclient.1, Unclashing, List.forall_mem_cons]
  apply and_congr_right
  intro _
  -- What completion appends has nothing below it.
  rw [heq, levelsAmong_append, List.forall_mem_append, hsteps.judged hclient.2]
  exact ⟨fun h => h.1.2, fun h => ⟨⟨by simp [levelsAmong], h⟩, levelsAmong_bare added⟩⟩

def labelled (name label : String) : List Selection :=
  [.field { FieldHead.bare name with label := some label } []]

theorem conflictFree_labelled (name label : String) : ConflictFree (labelled name label) := by
  refine ⟨?_, ?_⟩
  · apply mergeable_of_fields
    intro head selections other others hhead hother _
    cases List.mem_singleton.mp hhead
    cases List.mem_singleton.mp hother
    exact ⟨rfl, .refl _⟩
  · simp [labelled, levelsAmong, levelsBelow, ConflictFree.of_nil.1]

/-- The text of a review under a label that no key has. -/
theorem conflictFree_prune_text :
    ∃ level, (Sample.pruner Sample.reviews).prune "Review" (labelled "body" "text") = .ok level ∧
      ConflictFree (labelled "body" "text") ∧
        (ConflictFree level ↔
          (Sample.pruner Sample.reviews).Unclashing "Review" (labelled "body" "text")) := by
  have hclient := conflictFree_labelled "body" "text"
  have h : (Sample.pruner Sample.reviews).prune "Review" (labelled "body" "text") =
      .ok (labelled "body" "text" ++ [.bare "id", .bare "__typename"]) := by rfl
  exact ⟨_, h, hclient, conflictFree_prune_iff hclient h⟩

/-- The text of a review under the name of its key: the key is completed next to it, and the response
key `id` stands for two fields. -/
theorem conflict_of_label :
    ConflictFree (labelled "body" "id") ∧
      ∃ level, (Sample.pruner Sample.reviews).prune "Review" (labelled "body" "id") = .ok level ∧
        ¬ ConflictFree level := by
  have h : (Sample.pruner Sample.reviews).prune "Review" (labelled "body" "id") =
      .ok (labelled "body" "id" ++ [.bare "id", .bare "__typename"]) := by rfl
  refine ⟨conflictFree_labelled "body" "id", _, h, ?_⟩
  intro hlevel
  have hbody : .field { FieldHead.bare "body" with label := some "id" } [] ∈
      labelled "body" "id" ++ [.bare "id", .bare "__typename"] := List.mem_cons_self
  have hid : .field (.bare "id") [] ∈ labelled "body" "id" ++ [.bare "id", .bare "__typename"] :=
    List.mem_cons_of_mem _ List.mem_cons_self
  have hsame := (hlevel.1.compatible hbody hid rfl).1
  exact absurd hsame (by decide)

end Pruner

end Supergraph
