import Mathlib.Data.List.Nodup
import Supergraph.Composition
import Supergraph.Proofs.Claims

/-!
Composed schemas: what every one of them keeps to, and what it has of the declarations of the services.

1. `forall_ofServices`: what holds of a type without fields, and stays when a field is added, holds of
   every composed type. So types stand under their own names, and their fields are plain and distinct.
2. `enters_merge`: a declaration claims its type for its kind. So the schemas go together if and only if
   no type is declared as two kinds (`foldlM_isOk_iff`).
3. `field?_ofServices`: a composed field is the first that the declarations have of the name. Where they
   agree, it does not matter which is the first (`field?_perm`).
-/

namespace Supergraph

open GraphQL

/-! ## Declarations -/

namespace GraphQL.TypeDeclaration

/-- The fields that a declaration adds to its type: all but those of the protocol. -/
def composedFields (declaration : TypeDeclaration) : List SchemaField :=
  (declaration.fields.filter fun field => !isInternalName field.name).map SchemaField.ofDefinition

def composedField? (declaration : TypeDeclaration) (type name : String) : Option SchemaField :=
  if isInternalName declaration.name = false ∧ declaration.name = type then
    declaration.composedFields.find? fun field => field.name = name
  else none

theorem mem_composedFields {declaration : TypeDeclaration} {field : SchemaField} :
    field ∈ declaration.composedFields ↔ ∃ definition ∈ declaration.fields,
      isInternalName definition.name = false ∧ SchemaField.ofDefinition definition = field := by
  simp [composedFields, and_assoc]

theorem exists_definition {declaration : TypeDeclaration} {type name : String} {field : SchemaField}
    (h : declaration.composedField? type name = some field) :
    declaration.name = type ∧ ∃ definition ∈ declaration.fields, definition.name = name ∧
      SchemaField.ofDefinition definition = field := by
  rw [composedField?] at h
  split at h
  · next hname =>
    have hfield : field.name = name := by simpa using List.find?_some h
    obtain ⟨definition, hmem, _, rfl⟩ := mem_composedFields.mp (List.mem_of_find?_eq_some h)
    exact ⟨hname.2, definition, hmem, hfield, rfl⟩
  · cases h

end GraphQL.TypeDeclaration

namespace Schema

def declarationsOf (services : List Service) : List TypeDeclaration := services.flatMap Service.schema

theorem ofServices_eq_foldlM (services : List Service) :
    ofServices services = (declarationsOf services).foldlM merge builtIn := by
  rw [ofServices]
  generalize builtIn = schema
  induction services generalizing schema with
  | nil => rfl
  | cons service services ih =>
    rw [List.foldlM_cons, declarationsOf, List.flatMap_cons, List.foldlM_append]
    exact congrArg _ (funext fun merged => ih merged)

theorem merge_eq_ok {schema merged : Schema} {declaration : TypeDeclaration}
    (h : schema.merge declaration = .ok merged) :
    isInternalName declaration.name = true ∧ merged = schema ∨
      isInternalName declaration.name = false ∧ ∃ known,
        (schema.type? declaration.name).getD ⟨declaration.name, declaration.kind, []⟩ = known ∧
        known.kind = declaration.kind ∧ merged = ⟨schema.types.insert declaration.name
          (declaration.composedFields.foldl SchemaType.addField known)⟩ := by
  rw [merge] at h
  split at h
  · next hinternal =>
    cases h
    exact .inl ⟨hinternal, rfl⟩
  · next hinternal =>
    dsimp only at h
    split at h
    · next hkind =>
      cases h
      exact .inr ⟨Bool.not_eq_true _ ▸ hinternal, _, rfl, hkind, rfl⟩
    · cases h

end Schema

/-! ## What every composed type keeps to -/

theorem SchemaType.name_addField (type : SchemaType) (field : SchemaField) :
    (type.addField field).name = type.name := by
  rw [addField]
  split <;> rfl

theorem SchemaType.kind_foldl_addField (fields : List SchemaField) (type : SchemaType) :
    (fields.foldl SchemaType.addField type).kind = type.kind := by
  induction fields generalizing type with
  | nil => rfl
  | cons field fields ih =>
    rw [List.foldl_cons, ih, SchemaType.addField]
    split <;> rfl

namespace Schema

section Invariant

variable {kept : String → SchemaType → Prop} {schema : Schema}

theorem forall_insert (h : ∀ name type, schema.type? name = some type → kept name type) {name : String}
    {type : SchemaType} (htype : kept name type) :
    ∀ other found, type? ⟨schema.types.insert name type⟩ other = some found → kept other found := by
  intro other found hfound
  rw [type?, NameMap.find?_insert] at hfound
  split at hfound
  · next heq =>
    cases hfound
    rwa [← heq]
  · exact h other found hfound

theorem forall_builtIn (hnew : ∀ name kind, kept name ⟨name, kind, []⟩) :
    ∀ name type, builtIn.type? name = some type → kept name type := by
  have hinsert : ∀ (names : List String) (schema : Schema),
      (∀ name type, schema.type? name = some type → kept name type) →
      ∀ name type, (names.foldl (fun schema name => schema.insertType ⟨name, .scalar, []⟩) schema).type?
        name = some type → kept name type := by
    intro names
    induction names with
    | nil => exact fun _ h => h
    | cons name names ih => exact fun schema h => ih _ (forall_insert h (hnew name .scalar))
  exact hinsert builtInScalars empty (fun _ _ h => by cases h)

theorem forall_ofServices (hnew : ∀ name kind, kept name ⟨name, kind, []⟩)
    (hadd : ∀ name type field, kept name type → isInternalName field.name = false →
      field.delegation = none → kept name (type.addField field))
    {services : List Service} (h : ofServices services = .ok schema) :
    ∀ name type, schema.type? name = some type → kept name type := by
  rw [ofServices_eq_foldlM] at h
  refine Outcome.foldlM_induction
    (fun schema => ∀ name type, schema.type? name = some type → kept name type) ?_ _ _ _
    (forall_builtIn hnew) h
  intro schema declaration merged hschema hmerged
  obtain ⟨_, rfl⟩ | ⟨_, known, hknown, _, rfl⟩ := merge_eq_ok hmerged
  · exact hschema
  have hkept : kept declaration.name known := by
    cases hfind : schema.type? declaration.name with
    | none =>
      rw [hfind] at hknown
      exact hknown ▸ hnew declaration.name declaration.kind
    | some type =>
      rw [hfind] at hknown
      exact hknown ▸ hschema declaration.name type hfind
  have hfields : ∀ field ∈ declaration.composedFields,
      isInternalName field.name = false ∧ field.delegation = none := by
    intro field hmem
    obtain ⟨definition, _, hname, rfl⟩ := TypeDeclaration.mem_composedFields.mp hmem
    exact ⟨hname, rfl⟩
  apply forall_insert hschema
  exact List.foldlRecOn _ SchemaType.addField hkept fun type htype field hmem =>
    hadd declaration.name type field htype (hfields field hmem).1 (hfields field hmem).2

end Invariant

end Schema

/-- None of the fields of a type belongs to the protocol, and none is delegated. -/
def SchemaType.Plain (type : SchemaType) : Prop :=
  ∀ field ∈ type.fields, isInternalName field.name = false ∧ field.delegation = none

theorem SchemaType.Plain.addField {type : SchemaType} (h : type.Plain) {field : SchemaField}
    (hname : isInternalName field.name = false) (hdelegation : field.delegation = none) :
    (type.addField field).Plain := by
  rw [SchemaType.addField]
  split
  · exact h
  · intro other hmem
    rcases List.mem_append.mp hmem with hmem | hmem
    · exact h other hmem
    · rw [List.mem_singleton.mp hmem]
      exact ⟨hname, hdelegation⟩

/-- Where no two items have one name, a search for a name finds the item that has it. -/
theorem find?_eq_some_iff_of_nodup {α : Type} (nameOf : α → String) {items : List α}
    (h : (items.map nameOf).Nodup) {name : String} {item : α} :
    items.find? (fun other => nameOf other = name) = some item ↔ item ∈ items ∧ nameOf item = name := by
  constructor
  · intro hfind
    exact ⟨List.mem_of_find?_eq_some hfind, by simpa using List.find?_some hfind⟩
  · rintro ⟨hmem, rfl⟩
    cases hfind : items.find? fun other => nameOf other = nameOf item with
    | none => exact absurd (decide_eq_true rfl) (List.find?_eq_none.mp hfind item hmem)
    | some found =>
      have hname : nameOf found = nameOf item := by simpa using List.find?_some hfind
      rw [List.inj_on_of_nodup_map h (List.mem_of_find?_eq_some hfind) hmem hname]

/-- No two fields of a type have one name. -/
def SchemaType.Distinct (type : SchemaType) : Prop := (type.fields.map SchemaField.name).Nodup

instance (type : SchemaType) : Decidable type.Distinct := inferInstanceAs (Decidable (List.Nodup _))

theorem SchemaType.Distinct.addField {type : SchemaType} (h : type.Distinct) (field : SchemaField) :
    (type.addField field).Distinct := by
  rw [SchemaType.addField]
  split
  · exact h
  · next hnone =>
    have hfresh : field.name ∉ type.fields.map SchemaField.name := by
      intro hmem
      obtain ⟨other, hother, hname⟩ := List.mem_map.mp hmem
      exact List.find?_eq_none.mp hnone other hother (decide_eq_true hname)
    rw [SchemaType.Distinct, List.map_append]
    exact List.Nodup.append h (List.nodup_singleton _) (by simpa using hfresh)

namespace Schema

theorem field?_eq_some {schema : Schema} {type name : String} {field : SchemaField}
    (h : schema.field? type name = some field) :
    ∃ composed, schema.type? type = some composed ∧ field ∈ composed.fields ∧ field.name = name := by
  obtain ⟨composed, htype, hfind⟩ := Option.bind_eq_some_iff.mp h
  exact ⟨composed, htype, List.mem_of_find?_eq_some hfind, by simpa using List.find?_some hfind⟩

theorem delegation?_eq_none {schema : Schema} (h : ∀ name type, schema.type? name = some type →
    ∀ field ∈ type.fields, field.delegation = none) (type name : String) :
    schema.delegation? type name = none := by
  rw [delegation?]
  cases hfield : schema.field? type name with
  | none => rfl
  | some field =>
    obtain ⟨composed, htype, hmem, _⟩ := field?_eq_some hfield
    exact h type composed htype field hmem

/-- Every type stands under its own name. -/
def Named (schema : Schema) : Prop := ∀ name type, schema.type? name = some type → type.name = name

/-- Every type stands under its own name and is plain. -/
def Plain (schema : Schema) : Prop :=
  ∀ name type, schema.type? name = some type → type.name = name ∧ type.Plain

theorem Plain.named {schema : Schema} (h : schema.Plain) : schema.Named :=
  fun name type htype => (h name type htype).1

theorem Plain.delegation?_eq_none {schema : Schema} (h : schema.Plain) (type name : String) :
    schema.delegation? type name = none :=
  Schema.delegation?_eq_none (fun known composed htype field hmem =>
    ((h known composed htype).2 field hmem).2) type name

theorem plain_ofServices {services : List Service} {schema : Schema}
    (h : ofServices services = .ok schema) : schema.Plain := by
  refine forall_ofServices ?_ ?_ h
  · intro name kind
    exact ⟨rfl, by simp [SchemaType.Plain]⟩
  · intro name type field htype hname hdelegation
    exact ⟨(type.name_addField field).trans htype.1, htype.2.addField hname hdelegation⟩

theorem distinct_ofServices {services : List Service} {schema : Schema}
    (h : ofServices services = .ok schema) :
    ∀ name type, schema.type? name = some type → type.Distinct := by
  refine forall_ofServices ?_ ?_ h
  · intro name kind
    exact List.nodup_nil
  · intro name type field htype _ _
    exact htype.addField field

/-! ## Kinds -/

def kind? (schema : Schema) (name : String) : Option TypeKind := (schema.type? name).map SchemaType.kind

/-- A declaration claims its type for its kind. -/
theorem enters_merge (declaration : TypeDeclaration) :
    Enters kind? declaration.kind
      (fun name => isInternalName declaration.name = false ∧ declaration.name = name)
      (merge · declaration) where
  accepts schema := by
    rw [merge]
    split
    · next hinternal => simp [hinternal]
    · next hinternal =>
      have hvisible : isInternalName declaration.name = false := Bool.not_eq_true _ ▸ hinternal
      simp only [hvisible, true_and, forall_eq', kind?]
      cases schema.type? declaration.name with
      | none => simp
      | some known => by_cases hkind : known.kind = declaration.kind <;> simp [hkind]
  adds := by
    intro schema merged h name kind
    obtain ⟨hinternal, rfl⟩ | ⟨hvisible, known, hknown, hkind, rfl⟩ := merge_eq_ok h
    · simp [hinternal]
    · rw [kind?, type?, NameMap.find?_insert]
      split
      · next hname =>
        subst hname
        rw [Option.map_some, SchemaType.kind_foldl_addField, hkind]
        constructor
        · exact fun hsome => .inr ⟨⟨hvisible, rfl⟩, Option.some.inj hsome⟩
        · rintro (hbefore | ⟨_, rfl⟩)
          · obtain ⟨type, htype, rfl⟩ := Option.map_eq_some_iff.mp hbefore
            rw [htype, Option.getD_some] at hknown
            rw [hknown, hkind]
          · rfl
      · next hname => simp [hname, kind?, type?]

theorem kind?_of_mem {services : List Service} {schema : Schema} (h : ofServices services = .ok schema)
    {declaration : TypeDeclaration} (hmem : declaration ∈ declarationsOf services)
    (hvisible : isInternalName declaration.name = false) :
    schema.kind? declaration.name = some declaration.kind := by
  rw [ofServices_eq_foldlM] at h
  exact (foldlM_adds enters_merge h _ _).mpr (.inr ⟨declaration, hmem, ⟨hvisible, rfl⟩, rfl⟩)

/-! ## Fields -/

theorem field?_foldl_addField (fields : List SchemaField) (type : SchemaType) (name : String) :
    (fields.foldl SchemaType.addField type).field? name =
      (type.field? name).or (fields.find? fun field => field.name = name) := by
  induction fields generalizing type with
  | nil => simp
  | cons field fields ih =>
    have hadd : (type.addField field).field? name =
        (type.field? name).or (if field.name = name then some field else none) := by
      rw [SchemaType.addField]
      cases hfind : type.field? field.name with
      | some known =>
        by_cases hname : field.name = name
        · simp [← hname, hfind]
        · simp [hname]
      | none => simp [SchemaType.field?, List.find?_append, List.find?_singleton]
    rw [List.foldl_cons, ih, hadd, Option.or_assoc, List.find?_cons]
    by_cases hname : field.name = name <;> simp [hname]

theorem field?_merge {schema merged : Schema} {declaration : TypeDeclaration}
    (h : schema.merge declaration = .ok merged) (type name : String) :
    merged.field? type name =
      (schema.field? type name).or (declaration.composedField? type name) := by
  obtain ⟨hinternal, rfl⟩ | ⟨hvisible, known, hknown, _, rfl⟩ := merge_eq_ok h
  · simp [TypeDeclaration.composedField?, hinternal]
  · rw [field?, type?, NameMap.find?_insert, TypeDeclaration.composedField?]
    by_cases htype : declaration.name = type
    · subst htype
      rw [if_pos rfl, if_pos ⟨hvisible, rfl⟩, Option.bind_some, field?_foldl_addField, ← hknown, field?]
      cases schema.type? declaration.name <;> rfl
    · simp [htype, field?, type?]

theorem field?_builtIn (type name : String) : builtIn.field? type name = none := by
  have hempty : ∀ other found, builtIn.type? other = some found → found.fields = [] :=
    forall_builtIn fun _ _ => rfl
  rw [field?]
  cases htype : builtIn.type? type with
  | none => rfl
  | some found => simp [SchemaType.field?, hempty type found htype]

theorem field?_ofServices {services : List Service} {schema : Schema}
    (h : ofServices services = .ok schema) (type name : String) :
    schema.field? type name =
      (declarationsOf services).findSome? (·.composedField? type name) := by
  have hfold : ∀ (declarations : List TypeDeclaration) (first last : Schema),
      declarations.foldlM merge first = .ok last → last.field? type name =
        (first.field? type name).or (declarations.findSome? (·.composedField? type name)) := by
    intro declarations
    induction declarations with
    | nil =>
      intro first last hlast
      rw [List.foldlM_nil, Outcome.pure_eq_ok] at hlast
      simp [hlast]
    | cons declaration declarations ih =>
      intro first last hlast
      obtain ⟨merged, hmerged, hlast⟩ := Outcome.bind_eq_ok.mp hlast
      rw [ih merged last hlast, field?_merge hmerged, Option.or_assoc, List.findSome?_cons]
      cases declaration.composedField? type name <;> rfl
  rw [ofServices_eq_foldlM] at h
  rw [hfold _ _ _ h, field?_builtIn, Option.none_or]

/-- The composed fields are those of all declarations, without those of the protocol. -/
theorem isSome_field?_iff {services : List Service} {schema : Schema}
    (h : ofServices services = .ok schema) {type name : String} :
    (schema.field? type name).isSome = true ↔ isInternalName type = false ∧ isInternalName name = false ∧
      ∃ declaration ∈ declarationsOf services, declaration.name = type ∧
        ∃ definition ∈ declaration.fields, definition.name = name := by
  have hdeclares : ∀ declaration : TypeDeclaration,
      (declaration.composedField? type name).isSome = true ↔ isInternalName type = false ∧
        isInternalName name = false ∧ declaration.name = type ∧
          ∃ definition ∈ declaration.fields, definition.name = name := by
    intro declaration
    rw [TypeDeclaration.composedField?]
    split
    · next hname =>
      simp only [List.find?_isSome, TypeDeclaration.mem_composedFields, decide_eq_true_eq]
      constructor
      · rintro ⟨_, ⟨definition, hmem, hvisible, rfl⟩, rfl⟩
        exact ⟨hname.2 ▸ hname.1, hvisible, hname.2, definition, hmem, rfl⟩
      · rintro ⟨_, hvisible, _, definition, hmem, rfl⟩
        exact ⟨_, ⟨definition, hmem, hvisible, rfl⟩, rfl⟩
    · next hname => grind
  rw [field?_ofServices h, List.findSome?_isSome_iff]
  simp only [hdeclares]
  grind

/-! ## The order of the services -/

/-- All declarations of a field of one type agree on what it returns, and on whether it returns a list. -/
def FieldsAgree (declarations : List TypeDeclaration) : Prop :=
  ∀ first ∈ declarations, ∀ second ∈ declarations, first.name = second.name →
    ∀ field ∈ first.fields, ∀ other ∈ second.fields, field.name = other.name →
      field.type.base = other.type.base ∧ field.type.isList = other.type.isList

theorem FieldsAgree.composedField?_eq {declarations : List TypeDeclaration}
    (h : FieldsAgree declarations) {first second : TypeDeclaration} (hfirst : first ∈ declarations)
    (hsecond : second ∈ declarations) {type name : String} {field other : SchemaField}
    (hfield : first.composedField? type name = some field)
    (hother : second.composedField? type name = some other) : field = other := by
  obtain ⟨rfl, definition, hmem, rfl, rfl⟩ := TypeDeclaration.exists_definition hfield
  obtain ⟨hname, definition', hmem', hname', rfl⟩ := TypeDeclaration.exists_definition hother
  obtain ⟨hbase, hlist⟩ := h first hfirst second hsecond hname.symm _ hmem _ hmem' hname'.symm
  rw [SchemaField.ofDefinition, SchemaField.ofDefinition, hname', hbase, hlist]

/-- Which item comes first does not matter where all items that give something give the same. -/
theorem findSome?_eq_of_perm {α β : Type} {f : α → Option β} {items others : List α}
    (hperm : items.Perm others)
    (hagree : ∀ item ∈ items, ∀ other ∈ items, ∀ value value', f item = some value →
      f other = some value' → value = value') : items.findSome? f = others.findSome? f := by
  cases hfind : items.findSome? f with
  | none =>
    rw [List.findSome?_eq_none_iff] at hfind
    exact (List.findSome?_eq_none_iff.mpr fun item hmem => hfind item (hperm.mem_iff.mpr hmem)).symm
  | some value =>
    obtain ⟨item, hitem, hvalue⟩ := List.exists_of_findSome?_eq_some hfind
    cases hothers : others.findSome? f with
    | none =>
      have hnone := List.findSome?_eq_none_iff.mp hothers item (hperm.mem_iff.mp hitem)
      cases hnone.symm.trans hvalue
    | some value' =>
      obtain ⟨other, hother, hvalue'⟩ := List.exists_of_findSome?_eq_some hothers
      rw [hagree item hitem other (hperm.mem_iff.mpr hother) value value' hvalue hvalue']

section Perm

variable {services others : List Service} {schema composed : Schema}

theorem declarationsOf_perm (hperm : services.Perm others) :
    (declarationsOf services).Perm (declarationsOf others) :=
  hperm.flatMap_right Service.schema

theorem ofServices_isOk_perm (hperm : services.Perm others) :
    (∃ schema, ofServices services = .ok schema) ↔ ∃ schema, ofServices others = .ok schema := by
  rw [ofServices_eq_foldlM, ofServices_eq_foldlM]
  exact foldlM_isOk_perm enters_merge (declarationsOf_perm hperm) builtIn

theorem kind?_perm (hperm : services.Perm others) (h : ofServices services = .ok schema)
    (hother : ofServices others = .ok composed) (name : String) :
    schema.kind? name = composed.kind? name := by
  rw [ofServices_eq_foldlM] at h hother
  apply Option.ext
  intro kind
  rw [foldlM_adds enters_merge h, foldlM_adds enters_merge hother]
  simp only [(declarationsOf_perm hperm).mem_iff]

theorem field?_perm (hperm : services.Perm others) (hagree : FieldsAgree (declarationsOf services))
    (h : ofServices services = .ok schema) (hother : ofServices others = .ok composed)
    (type name : String) : schema.field? type name = composed.field? type name := by
  rw [field?_ofServices h, field?_ofServices hother]
  apply findSome?_eq_of_perm (declarationsOf_perm hperm)
  intro first hfirst second hsecond field other hfield hother
  exact hagree.composedField?_eq hfirst hsecond hfield hother

end Perm

end Schema

end Supergraph
