import Supergraph.Proofs.Composition
import Supergraph.Proofs.Ownership

/-!
What composition makes of schemas that are given as texts.

1. `Gives` is what a reader guarantees of its results. In a schema that is read from a text only objects
   and interfaces have fields (`fielded_of_ofText?`).
2. `type?_merge` says what one declaration does to a type, and `type?_ofServices` what all of them do.
3. `firstFields_foldl_addField`: adding fields to a type keeps the first one of each name.
4. `composed_exact` puts these together.
-/

namespace Supergraph

open GraphQL

/-! ## Schemas from texts -/

namespace GraphQL

/-- Only objects and interfaces have fields. -/
def TypeDeclaration.Fielded (declaration : TypeDeclaration) : Prop :=
  declaration.kind = .object ∨ declaration.kind = .interface ∨ declaration.fields = []

namespace Reader

variable {α β : Type} {property : α → Prop} {other : β → Prop}

/-- Every result of a reader has a property. -/
def Gives (reader : Reader α) (property : α → Prop) : Prop :=
  ∀ ⦃tokens result rest⦄, reader tokens = some (result, rest) → property result

theorem Gives.pure {result : α} (h : property result) : Gives (pure result) property := by
  intro tokens found rest hread
  cases hread
  exact h

theorem Gives.failure : Gives failure property := by
  intro tokens result rest hread
  cases hread

theorem Gives.bind {first : Reader α} {next : α → Reader β} (hfirst : Gives first property)
    (hnext : ∀ result, property result → Gives (next result) other) : Gives (first >>= next) other := by
  intro tokens found rest hread
  obtain ⟨⟨result, middle⟩, hresult, hread⟩ := Option.bind_eq_some_iff.mp hread
  exact hnext result (hfirst hresult) hread

theorem Gives.after {first : Reader α} {next : α → Reader β} (hnext : ∀ result, Gives (next result) other) :
    Gives (first >>= next) other := by
  have hfirst : Gives first fun _ => True := fun _ _ _ _ => trivial
  exact hfirst.bind fun result _ => hnext result

theorem gives_definitionsUpTo {definition : Reader α} (h : Gives definition property) (fuel : Nat) :
    Gives (definitionsUpTo definition fuel) fun definitions => ∀ item ∈ definitions, property item := by
  induction fuel with
  | zero => exact Gives.after fun _ => Gives.after fun _ => Gives.pure (by simp)
  | succ fuel ih =>
    apply Gives.after
    intro ended
    split
    · exact Gives.pure (by simp)
    · refine h.bind fun first hfirst => ih.bind fun rest hrest => ?_
      exact Gives.pure (List.forall_mem_cons.mpr ⟨hfirst, hrest⟩)

theorem forall_mem_of_document? {definition : Reader α} (h : Gives definition property) {text : String}
    {definitions : List α} (hread : document? definition text = some definitions) :
    ∀ item ∈ definitions, property item := by
  obtain ⟨tokens, _, hread⟩ := Option.bind_eq_some_iff.mp hread
  obtain ⟨⟨found, rest⟩, hfound, hread⟩ := Option.bind_eq_some_iff.mp hread
  obtain ⟨_, _, hsame⟩ := Option.bind_eq_some_iff.mp hread
  cases hsame
  exact gives_definitionsUpTo h _ hfound

theorem gives_typeDeclaration (extending : Bool) (kind : TypeKind) :
    Gives (typeDeclaration extending kind) TypeDeclaration.Fielded := by
  unfold typeDeclaration
  apply Gives.after
  intro type
  dsimp only
  by_cases hkind : kind = .object ∨ kind = .interface
  · have hfielded : ∀ declaration : TypeDeclaration, declaration.kind = kind → declaration.Fielded := by
      intro declaration hsame
      rw [← hsame] at hkind
      exact hkind.elim .inl fun hinterface => .inr (.inl hinterface)
    rw [if_pos hkind]
    refine Gives.after fun implemented => Gives.after fun directives => ?_
    rw [if_pos hkind]
    apply Gives.after
    intro fields
    split <;> exact Gives.after fun _ => Gives.after fun _ => Gives.pure (hfielded _ rfl)
  · rw [if_neg hkind]
    refine Gives.after fun implemented => Gives.after fun directives => ?_
    -- The list of fields is empty because none is read.
    rw [if_neg hkind, pure_bind]
    split <;> exact Gives.after fun _ => Gives.after fun _ => Gives.pure (.inr (.inr rfl))

theorem gives_schemaItem :
    Gives schemaItem fun item => ∀ declaration ∈ item, declaration.Fielded := by
  have hread : ∀ extending kind, Gives (some <$> typeDeclaration extending kind) fun item =>
      ∀ declaration ∈ item, declaration.Fielded := by
    intro extending kind
    rw [map_eq_pure_bind]
    refine (gives_typeDeclaration extending kind).bind fun declaration hdeclaration => Gives.pure ?_
    simpa using hdeclaration
  unfold schemaItem
  refine Gives.after fun described => Gives.after fun keyword => ?_
  split
  · exact Gives.after fun _ => Gives.after fun _ => Gives.pure (by simp)
  · refine Gives.after fun _ => Gives.after fun keyword => ?_
    split
    · exact hread true _
    · exact Gives.failure
  · exact Gives.after fun _ => Gives.pure (by simp)
  · split
    · exact hread false _
    · exact Gives.failure

end Reader

/-- In a schema that is read from a text only objects and interfaces have fields. -/
theorem fielded_of_ofText? {text : String} {schema : SchemaDocument}
    (h : SchemaDocument.ofText? text = some schema) : ∀ declaration ∈ schema, declaration.Fielded := by
  obtain ⟨items, hread, rfl⟩ := Option.map_eq_some_iff.mp h
  intro declaration hmem
  obtain ⟨item, hitem, hsome⟩ := List.mem_filterMap.mp hmem
  exact Reader.forall_mem_of_document? Reader.gives_schemaItem hread item hitem declaration hsome

/-! ## The first fields -/

/-- The fields that a declaration gives a type. -/
def TypeDeclaration.fieldsFor (declaration : TypeDeclaration) (type : String) : List SchemaField :=
  if declaration.name = type then declaration.composedFields else []

end GraphQL

/-- The fields of a list without those whose name an earlier one has, in their order. -/
structure FirstFields (declared fields : List SchemaField) : Prop where
  names : Ownership.FirstMentions (declared.map SchemaField.name) (fields.map SchemaField.name)
  first : ∀ field ∈ fields, declared.find? (fun other => other.name = field.name) = some field

theorem SchemaType.map_name_addField (type : SchemaType) (field : SchemaField) :
    (type.addField field).fields.map SchemaField.name =
      KeyTable.appendNew (type.fields.map SchemaField.name) field.name := by
  have hknown : (type.fields.map SchemaField.name).contains field.name = (type.field? field.name).isSome := by
    rw [Bool.eq_iff_iff, List.contains_iff_mem]
    simp [field?]
  rw [addField, KeyTable.appendNew, hknown]
  cases type.field? field.name <;> simp

theorem SchemaType.map_name_foldl_addField (fields : List SchemaField) (type : SchemaType) :
    (fields.foldl addField type).fields.map SchemaField.name =
      (fields.map SchemaField.name).foldl KeyTable.appendNew (type.fields.map SchemaField.name) := by
  induction fields generalizing type with
  | nil => rfl
  | cons field fields ih => rw [List.foldl_cons, ih, map_name_addField, List.map_cons, List.foldl_cons]

theorem firstFields_foldl_addField (declared : List SchemaField) (name : String) (kind : TypeKind) :
    FirstFields declared (declared.foldl SchemaType.addField ⟨name, kind, []⟩).fields := by
  have hnames := Ownership.firstMentions_foldl_appendNew (declared.map SchemaField.name)
  rw [← List.map_nil, ← SchemaType.map_name_foldl_addField declared ⟨name, kind, []⟩] at hnames
  refine ⟨hnames, ?_⟩
  intro field hmem
  have hfind := (find?_eq_some_iff_of_nodup SchemaField.name hnames.nodup).mpr ⟨hmem, rfl⟩
  have hfirst := Schema.field?_foldl_addField declared ⟨name, kind, []⟩ field.name
  rw [SchemaType.field?, hfind] at hfirst
  exact hfirst.symm

namespace Schema

variable {services : List Service} {schema : Schema}

/-! ## Kinds -/

theorem kind?_insertType (schema : Schema) (type : SchemaType) (name : String) :
    (schema.insertType type).kind? name = if name = type.name then some type.kind else schema.kind? name := by
  rw [kind?, insertType, type?, NameMap.find?_insert]
  by_cases hname : name = type.name
  · simp [hname]
  · simp [hname, Ne.symm hname, kind?, type?]

theorem kind?_builtIn {name : String} {kind : TypeKind} :
    builtIn.kind? name = some kind ↔ name ∈ builtInScalars ∧ kind = .scalar := by
  have hinsert : ∀ (names : List String) (schema : Schema),
      (names.foldl (fun schema name => schema.insertType ⟨name, .scalar, []⟩) schema).kind? name =
        if name ∈ names then some .scalar else schema.kind? name := by
    intro names
    induction names with
    | nil => exact fun _ => rfl
    | cons first names ih =>
      intro schema
      rw [List.foldl_cons, ih, kind?_insertType]
      by_cases hname : name = first <;> simp [hname]
  rw [builtIn, hinsert]
  by_cases hname : name ∈ builtInScalars
  · simp [hname, eq_comm]
  · simp [hname, kind?, type?, empty]

/-- A name has a kind: it is a built-in scalar, or a service declares it, by a definition or an extension.
The names of the protocol have none. -/
def Declared (services : List Service) (name : String) (kind : TypeKind) : Prop :=
  name ∈ builtInScalars ∧ kind = .scalar ∨ isInternalName name = false ∧
    ∃ declaration ∈ declarationsOf services, declaration.name = name ∧ declaration.kind = kind

theorem Declared.not_internal {name : String} {kind : TypeKind} (h : Declared services name kind) :
    isInternalName name = false := by
  have hbuiltIn : ∀ name ∈ builtInScalars, isInternalName name = false := by decide
  rcases h with ⟨hmem, _⟩ | ⟨hvisible, _⟩
  · exact hbuiltIn name hmem
  · exact hvisible

theorem kind?_ofServices (h : ofServices services = .ok schema) {name : String} {kind : TypeKind} :
    schema.kind? name = some kind ↔ Declared services name kind := by
  rw [ofServices_eq_foldlM] at h
  rw [foldlM_adds enters_merge h, kind?_builtIn, Declared]
  apply or_congr_right
  refine ⟨?_, ?_⟩
  · intro hdeclared
    obtain ⟨declaration, hmem, ⟨hvisible, rfl⟩, hkind⟩ := hdeclared
    exact ⟨hvisible, declaration, hmem, rfl, hkind⟩
  · intro hdeclared
    obtain ⟨hvisible, declaration, hmem, rfl, hkind⟩ := hdeclared
    exact ⟨declaration, hmem, ⟨hvisible, rfl⟩, hkind⟩

theorem ofServices_isOk_iff : (∃ schema, ofServices services = .ok schema) ↔
    ∀ name first second, Declared services name first → Declared services name second →
      first = second := by
  refine ⟨?_, ?_⟩
  · intro hok name first second hfirst hsecond
    obtain ⟨schema, h⟩ := hok
    rw [← kind?_ofServices h] at hfirst hsecond
    exact Option.some.inj (hfirst.symm.trans hsecond)
  · intro hagree
    rw [ofServices_eq_foldlM, foldlM_isOk_iff enters_merge, pairwise_concordant_iff]
    refine ⟨?_, ?_⟩
    · intro declaration hmem
      rw [(enters_merge declaration).accepts]
      intro name hclaims first hfirst
      obtain ⟨hvisible, rfl⟩ := hclaims
      exact hagree _ _ _ (.inl (kind?_builtIn.mp hfirst)) (.inr ⟨hvisible, declaration, hmem, rfl, rfl⟩)
    · intro first hfirst second hsecond name hclaims hothers
      obtain ⟨hvisible, rfl⟩ := hclaims
      obtain ⟨_, hname⟩ := hothers
      exact hagree _ _ _ (.inr ⟨hvisible, first, hfirst, rfl, rfl⟩) (.inr ⟨hvisible, second, hsecond, hname, rfl⟩)

/-! ## Types -/

/-- The fields that the declarations of all services give a type, in their order. -/
def declaredFields (services : List Service) (type : String) : List SchemaField :=
  (declarationsOf services).flatMap fun declaration => declaration.fieldsFor type

/-- A type that is not there yet stands for one without fields. A declaration adds its fields to its type,
and nothing to another one. -/
theorem type?_getD_merge {merged : Schema} {declaration : TypeDeclaration}
    (h : schema.merge declaration = .ok merged) {name : String} {kind : TypeKind}
    (hvisible : isInternalName name = false) (hkind : declaration.name = name → declaration.kind = kind) :
    (merged.type? name).getD ⟨name, kind, []⟩ =
      (declaration.fieldsFor name).foldl SchemaType.addField
        ((schema.type? name).getD ⟨name, kind, []⟩) := by
  rw [TypeDeclaration.fieldsFor]
  obtain ⟨hinternal, rfl⟩ | ⟨_, known, hknown, _, rfl⟩ := merge_eq_ok h
  · rw [if_neg]
    · rfl
    · intro hname
      rw [hname, hvisible] at hinternal
      cases hinternal
  · rw [type?, NameMap.find?_insert]
    split
    · next hname => rw [← hkind hname, ← hname, hknown, Option.getD_some]
    · rfl

theorem type?_getD_foldlM {name : String} {kind : TypeKind} (hvisible : isInternalName name = false)
    (declarations : List TypeDeclaration)
    (hkinds : ∀ declaration ∈ declarations, declaration.name = name → declaration.kind = kind) :
    ∀ {first last : Schema}, declarations.foldlM merge first = .ok last →
      (last.type? name).getD ⟨name, kind, []⟩ =
        (declarations.flatMap fun declaration => declaration.fieldsFor name).foldl SchemaType.addField
          ((first.type? name).getD ⟨name, kind, []⟩) := by
  induction declarations with
  | nil =>
    intro first last hlast
    rw [List.foldlM_nil, Outcome.pure_eq_ok] at hlast
    rw [hlast]
    rfl
  | cons declaration declarations ih =>
    intro first last hlast
    obtain ⟨hkind, hkinds⟩ := List.forall_mem_cons.mp hkinds
    obtain ⟨merged, hmerged, hlast⟩ := Outcome.bind_eq_ok.mp hlast
    rw [ih hkinds hlast, type?_getD_merge hmerged hvisible hkind, List.flatMap_cons, List.foldl_append]

/-- A composed type is none of the protocol, and its declarations are of its kind. -/
theorem kind_eq_of_type? (h : ofServices services = .ok schema) {name : String} {type : SchemaType}
    (htype : schema.type? name = some type) : isInternalName name = false ∧
      ∀ declaration ∈ declarationsOf services, declaration.name = name → declaration.kind = type.kind := by
  have hkind : schema.kind? name = some type.kind := by rw [kind?, htype, Option.map_some]
  have hvisible := ((kind?_ofServices h).mp hkind).not_internal
  refine ⟨hvisible, ?_⟩
  intro declaration hmem hname
  have hfound := kind?_of_mem h hmem (hname ▸ hvisible)
  rw [hname, hkind] at hfound
  exact (Option.some.inj hfound).symm

/-- A composed type has the fields that the declarations give it, added one after the other. -/
theorem type?_ofServices (h : ofServices services = .ok schema) {name : String} {type : SchemaType}
    (htype : schema.type? name = some type) :
    type = (declaredFields services name).foldl SchemaType.addField ⟨name, type.kind, []⟩ := by
  obtain ⟨hvisible, hkinds⟩ := kind_eq_of_type? h htype
  -- A type that is there before the first declaration is a built-in scalar.
  have hbuiltIn : (builtIn.type? name).getD ⟨name, type.kind, []⟩ = ⟨name, type.kind, []⟩ := by
    have hscalars : ∀ name type, builtIn.type? name = some type → type = ⟨name, type.kind, []⟩ :=
      forall_builtIn fun _ _ => rfl
    cases hfind : builtIn.type? name with
    | none => rfl
    | some scalar =>
      have hsame : builtIn.kind? name = some scalar.kind := by rw [kind?, hfind, Option.map_some]
      have hkept := (kind?_ofServices h).mpr (.inl (kind?_builtIn.mp hsame))
      rw [kind?, htype, Option.map_some, Option.some.injEq] at hkept
      rw [Option.getD_some, hscalars name scalar hfind, hkept]
  rw [ofServices_eq_foldlM] at h
  have hfold := type?_getD_foldlM hvisible (declarationsOf services) hkinds h
  rw [htype, Option.getD_some, hbuiltIn] at hfold
  exact hfold

/-- The composed schema is the union of the declarations, in which the first declaration of a field counts. -/
structure Unites (services : List Service) (schema : Schema) : Prop where
  kinds : ∀ name kind, schema.kind? name = some kind ↔ Declared services name kind
  named : schema.Named
  fields : ∀ name type, schema.type? name = some type →
    FirstFields (declaredFields services name) type.fields
  undelegated : ∀ name type, schema.type? name = some type → ∀ field ∈ type.fields, field.delegation = none
  others : ∀ name type, schema.type? name = some type → type.kind ≠ .object → type.kind ≠ .interface →
    type.fields = []

theorem unites_ofServices (h : ofServices services = .ok schema) : Unites services schema where
  kinds _ _ := kind?_ofServices h
  named := (plain_ofServices h).named
  fields := by
    intro name type htype
    rw [type?_ofServices h htype]
    exact firstFields_foldl_addField _ name type.kind
  undelegated name type htype field hmem := ((plain_ofServices h name type htype).2 field hmem).2
  others := by
    intro name type htype hobject hinterface
    have hempty : declaredFields services name = [] := by
      rw [declaredFields, List.flatMap_eq_nil_iff]
      intro declaration hmem
      rw [TypeDeclaration.fieldsFor]
      split
      · next hname =>
        -- The declaration is of the kind of the type, and comes from a text.
        have hkind := (kind_eq_of_type? h htype).2 declaration hmem hname
        obtain ⟨service, _, hmem⟩ := List.mem_flatMap.mp hmem
        have hfielded := fielded_of_ofText? service.parsed declaration hmem
        rw [TypeDeclaration.Fielded, hkind, or_iff_right hobject, or_iff_right hinterface] at hfielded
        rw [TypeDeclaration.composedFields, hfielded]
        rfl
      · rfl
    rw [type?_ofServices h htype, hempty]
    rfl

/-- Composition succeeds if and only if no name has two kinds, and then it unites the declarations. -/
theorem composed_exact (services : List Service) :
    ((∃ schema, ofServices services = .ok schema) ↔
      ∀ name first second, Declared services name first → Declared services name second →
        first = second) ∧
    ∀ schema, ofServices services = .ok schema → Unites services schema := by
  refine ⟨ofServices_isOk_iff, ?_⟩
  intro schema h
  exact unites_ofServices h

end Schema

namespace Sample

/-- The service of a text, which has to be one of a schema. -/
def ofText (name text : String) (h : (SchemaDocument.ofText? text).isSome = true) : Service where
  config := .ofAddress name ""
  sdl := text
  schema := (SchemaDocument.ofText? text).get h
  shape := .ofSchema ((SchemaDocument.ofText? text).get h)
  parsed := (Option.some_get h).symm
  shaped := rfl

def members : Service :=
  ofText "members" "type Member \x7b id: ID! name: String \x7d" (by decide +kernel)

/-- A service that adds fields to members, one of them under a name that is taken. -/
def teams : Service :=
  ofText "teams" "extend type Member \x7b name: [String] team: Team _rank: Int \x7d enum Team \x7b A B \x7d"
    (by decide +kernel)

end Sample

/-- The name of a member is what the first service says, in its place. -/
theorem Schema.composed_exact_members :
    let services := [Sample.members, Sample.teams]
    ∃ schema, ofServices services = .ok schema ∧ Unites services schema ∧
      schema.kind? "Team" = some .enum ∧
      schema.type? "Member" = some ⟨"Member", .object, [⟨"id", "ID", false, none⟩,
        ⟨"name", "String", false, none⟩, ⟨"team", "Team", false, none⟩]⟩ := by
  intro services
  have hok : (ofServices services).isOk = true := by decide +kernel
  obtain ⟨schema, h⟩ := Outcome.exists_of_isOk hok
  have htypes : (ofServices services).toOption.map (fun schema =>
      (schema.kind? "Team", schema.type? "Member")) = some (some .enum, some ⟨"Member", .object,
        [⟨"id", "ID", false, none⟩, ⟨"name", "String", false, none⟩, ⟨"team", "Team", false, none⟩]⟩) := by
    decide +kernel
  rw [h] at htypes
  obtain ⟨hteam, hmember⟩ := Prod.mk.inj (Option.some.inj htypes)
  exact ⟨schema, h, (composed_exact services).2 schema h, hteam, hmember⟩

end Supergraph
