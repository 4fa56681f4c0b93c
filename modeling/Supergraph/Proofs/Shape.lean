import Mathlib.Data.List.Basic
import Supergraph.Service.Shape

/-!
The shape of a service, read off its schema: which declarations enter the fields of a table, and with
which fields.

A declaration is a definition, or it adds to a type of another service, or it has no part in the shape
(`TypeDeclaration.role`). `owns_ofSchema_iff`, `contributes_ofSchema_iff` and `external_ofSchema_iff` are
one lemma about a fold, `has_foldl_record`, for the three tables. Whatever a service can be asked for is in
one of the tables (`records_of_canSelect`), and so a field of one of its declarations
(`exists_declaration_of_canSelect`).
-/

namespace Supergraph

open GraphQL

namespace FieldTable

theorem has_insert (table : FieldTable) (name type field : String) (fields : NameSet) :
    has (table.insert name fields) type field =
      if name = type then fields.contains field else table.has type field := by
  rw [has, NameMap.find?_insert, has]
  by_cases hname : name = type <;> simp [hname]

theorem contains_getD (table : FieldTable) (type field : String) :
    ((table.find? type).getD .empty).contains field = table.has type field := by
  rw [has]
  cases table.find? type <;> rfl

theorem has_record {table : FieldTable} {name type field : String} {fields : List String} :
    (table.record name fields).has type field = true ↔ table.has type field = true ∨
      isInternalName name = false ∧ name = type ∧ keeps type field = true ∧ field ∈ fields := by
  rw [record]
  split
  · next hinternal => simp [hinternal]
  · next hinternal =>
    rw [has_insert]
    split
    · next hname =>
      subst hname
      rw [NameSet.contains_foldl_add, List.mem_filter, contains_getD]
      simp [hinternal, or_comm, and_comm]
    · next hname => simp [hname]

end FieldTable

/-- What a declaration is to the shape of its service. -/
inductive DeclarationRole where
  | definition
  | extension
  | neither
  deriving DecidableEq

/-- The role of a declaration. An extension of `Query` or `Mutation` counts as a definition; one of
`Subscription` does not. -/
def GraphQL.TypeDeclaration.role (declaration : TypeDeclaration) : DeclarationRole :=
  match declaration.extending, declaration.kind with
  | false, .object | false, .interface | false, .union => .definition
  | true, .object =>
    if declaration.name = "Query" ∨ declaration.name = "Mutation" then .definition else .extension
  | true, .interface => .extension
  | _, _ => .neither

theorem GraphQL.TypeDeclaration.role_of_kind {declaration : TypeDeclaration}
    (h : declaration.kind = .object ∨ declaration.kind = .interface) :
    declaration.role = .definition ∨ declaration.role = .extension := by
  obtain ⟨extending, kind, name, directives, fields⟩ := declaration
  rw [role]
  rcases h with hkind | hkind
  · cases hkind
    cases extending with
    | false => exact .inl rfl
    | true =>
      dsimp only
      split
      · exact .inl rfl
      · exact .inr rfl
  · cases hkind
    cases extending with
    | false => exact .inl rfl
    | true => exact .inr rfl

namespace ServiceShape

/-- A declaration enters its fields by its role. Which keys it enters is left open. -/
theorem record_eq (shape : ServiceShape) (declaration : TypeDeclaration) :
    ∃ keys, shape.record declaration = { (match declaration.role with
      | .definition => shape.recordDefinition declaration
      | .extension => shape.recordExtension declaration
      | .neither => shape) with keys } := by
  obtain ⟨extending, kind, name, directives, fields⟩ := declaration
  rw [record, TypeDeclaration.role]
  cases extending with
  | false => cases kind <;> exact ⟨_, rfl⟩
  | true =>
    cases kind with
    | object =>
      dsimp only
      split
      · exact ⟨_, rfl⟩
      · exact ⟨_, rfl⟩
    | _ => exact ⟨_, rfl⟩

theorem declared_record (shape : ServiceShape) (declaration : TypeDeclaration) :
    (shape.record declaration).declared = if declaration.role = .definition then
      shape.declared.record declaration.name (declaration.fields.map (·.name)) else shape.declared := by
  obtain ⟨keys, hrecord⟩ := shape.record_eq declaration
  rw [hrecord]
  cases declaration.role <;> rfl

theorem contributed_record (shape : ServiceShape) (declaration : TypeDeclaration) :
    (shape.record declaration).contributed = if declaration.role = .extension then
      shape.contributed.record declaration.name ((declaration.fields.partition isExternal).2.map (·.name))
      else shape.contributed := by
  obtain ⟨keys, hrecord⟩ := shape.record_eq declaration
  rw [hrecord]
  cases declaration.role <;> rfl

theorem external_record (shape : ServiceShape) (declaration : TypeDeclaration) :
    (shape.record declaration).external = if declaration.role = .extension then
      shape.external.record declaration.name ((declaration.fields.partition isExternal).1.map (·.name))
      else shape.external := by
  obtain ⟨keys, hrecord⟩ := shape.record_eq declaration
  rw [hrecord]
  cases declaration.role <;> rfl

/-- What a table has in the end: what it had at the start, and what the declarations of one role enter. -/
theorem has_foldl_record {table : ServiceShape → FieldTable} {role : DeclarationRole}
    {entered : TypeDeclaration → List FieldDefinition}
    (hrecord : ∀ shape declaration, table (shape.record declaration) =
      if declaration.role = role then
        (table shape).record declaration.name ((entered declaration).map (·.name)) else table shape)
    {type field : String} (schema : SchemaDocument) : ∀ shape : ServiceShape,
    (table (schema.foldl record shape)).has type field = true ↔ (table shape).has type field = true ∨
      isInternalName type = false ∧ FieldTable.keeps type field = true ∧
        ∃ declaration ∈ schema, declaration.role = role ∧ declaration.name = type ∧
          ∃ definition ∈ entered declaration, definition.name = field := by
  induction schema with
  | nil => simp
  | cons declaration schema ih =>
    intro shape
    rw [List.foldl_cons, ih, hrecord]
    by_cases hrole : declaration.role = role
    · rw [if_pos hrole, FieldTable.has_record, List.mem_map, List.exists_mem_cons_iff]
      grind
    · rw [if_neg hrole, List.exists_mem_cons_iff]
      simp [hrole]

variable {schema : SchemaDocument} {type field : String}

/-- A service owns the fields of its definitions. Of types and root fields of the protocol it owns none. -/
theorem owns_ofSchema_iff : (ofSchema schema).owns type field = true ↔
    isInternalName type = false ∧ FieldTable.keeps type field = true ∧
      ∃ declaration ∈ schema, declaration.role = .definition ∧ declaration.name = type ∧
        ∃ definition ∈ declaration.fields, definition.name = field := by
  rw [owns, ofSchema, has_foldl_record declared_record]
  exact or_iff_right Bool.false_ne_true

/-- A service contributes the fields of its extensions that are not marked external. -/
theorem contributes_ofSchema_iff : (ofSchema schema).contributes type field = true ↔
    isInternalName type = false ∧ FieldTable.keeps type field = true ∧
      ∃ declaration ∈ schema, declaration.role = .extension ∧ declaration.name = type ∧
        ∃ definition ∈ declaration.fields, isExternal definition = false ∧ definition.name = field := by
  rw [contributes, ofSchema, has_foldl_record contributed_record]
  simp only [List.partition_eq_filter_filter, List.mem_filter, Function.comp_apply, Bool.not_eq_true',
    and_assoc]
  exact or_iff_right Bool.false_ne_true

theorem external_ofSchema_iff : (ofSchema schema).external.has type field = true ↔
    isInternalName type = false ∧ FieldTable.keeps type field = true ∧
      ∃ declaration ∈ schema, declaration.role = .extension ∧ declaration.name = type ∧
        ∃ definition ∈ declaration.fields, isExternal definition = true ∧ definition.name = field := by
  rw [ofSchema, has_foldl_record external_record]
  simp only [List.partition_eq_filter_filter, List.mem_filter, and_assoc]
  exact or_iff_right Bool.false_ne_true

/-- One of the three tables of the shape has the field. -/
def Records (shape : ServiceShape) (type field : String) : Prop :=
  shape.owns type field = true ∨ shape.contributes type field = true ∨
    shape.external.has type field = true

/-- What can be asked for is recorded: a key is answered only where a table has it. -/
theorem records_of_canSelect {shape : ServiceShape} (h : shape.canSelect type field = true) :
    shape.Records type field := by
  rw [canSelect, servesKey] at h
  rw [Records]
  grind

theorem exists_declaration_of_canSelect (h : (ofSchema schema).canSelect type field = true) :
    isInternalName type = false ∧ ∃ declaration ∈ schema, declaration.name = type ∧
      ∃ definition ∈ declaration.fields, definition.name = field := by
  have hrecords := records_of_canSelect h
  rw [Records, owns_ofSchema_iff, contributes_ofSchema_iff, external_ofSchema_iff] at hrecords
  grind

end ServiceShape

end Supergraph
