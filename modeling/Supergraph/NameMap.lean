/-!
Finite maps from names, kept in increasing order of the names, so that listing one shows the
sorted order that reports use and two maps with the same look-ups are equal.

Main statements: `find?_insert` says what insertion does to look-up, `ext_find?` that look-ups
determine the map, and `contains_insert` the same for sets of names.
-/

namespace Supergraph

namespace Entries

variable {α : Type}

/-- Keys strictly increase along the list. -/
def Sorted (entries : List (String × α)) : Prop :=
  entries.Pairwise (fun a b => a.1 < b.1)

def insert (name : String) (value : α) : List (String × α) → List (String × α)
  | [] => [(name, value)]
  | (key, old) :: rest =>
    if name < key then (name, value) :: (key, old) :: rest
    else if key = name then (name, value) :: rest
    else (key, old) :: insert name value rest

def find? (name : String) : List (String × α) → Option α
  | [] => none
  | (key, value) :: rest => if key = name then some value else find? name rest

theorem find?_insert (name other : String) (value : α) (entries : List (String × α)) :
    find? other (insert name value entries) =
      if name = other then some value else find? other entries := by
  induction entries with
  | nil => simp [insert, find?]
  | cons entry rest ih =>
    obtain ⟨key, old⟩ := entry
    simp only [insert]
    split
    · simp [find?]
    · split
      · subst_vars
        simp only [find?]
        split <;> rfl
      · next hne =>
        simp only [find?, ih]
        by_cases h : key = other
        · have : name ≠ other := fun hn => hne (h.trans hn.symm)
          simp [h, this]
        · simp [h]

theorem mem_insert {name : String} {value : α} {entry : String × α} {entries : List (String × α)}
    (h : entry ∈ insert name value entries) : entry = (name, value) ∨ entry ∈ entries := by
  induction entries with
  | nil => simpa [insert] using h
  | cons first rest ih =>
    obtain ⟨key, old⟩ := first
    simp only [insert] at h
    split at h
    · simpa using h
    · split at h
      · rcases List.mem_cons.1 h with h | h
        · exact .inl h
        · exact .inr (List.mem_cons_of_mem _ h)
      · rcases List.mem_cons.1 h with h | h
        · exact .inr (h ▸ List.mem_cons_self)
        · exact (ih h).imp id (List.mem_cons_of_mem _)

theorem Sorted.insert {entries : List (String × α)} (name : String) (value : α)
    (h : Sorted entries) : Sorted (Entries.insert name value entries) := by
  induction entries with
  | nil => simp [Entries.insert, Sorted]
  | cons first rest ih =>
    obtain ⟨key, old⟩ := first
    obtain ⟨below, tail⟩ := List.pairwise_cons.1 h
    simp only [Entries.insert]
    split
    · next hlt =>
      refine List.pairwise_cons.2 ⟨fun entry hmem => ?_, h⟩
      rcases List.mem_cons.1 hmem with rfl | hmem
      · exact hlt
      · exact String.lt_trans hlt (below entry hmem)
    · split
      · next heq => exact List.pairwise_cons.2 ⟨fun entry hmem => heq ▸ below entry hmem, tail⟩
      · next hlt hne =>
        refine List.pairwise_cons.2 ⟨fun entry hmem => ?_, ih tail⟩
        rcases mem_insert hmem with rfl | hmem
        · exact Std.not_le.1 fun hle => hne (String.le_antisymm (String.not_lt.1 hlt) hle)
        · exact below entry hmem

theorem find?_eq_none_of_lt {name : String} {entries : List (String × α)}
    (h : ∀ entry ∈ entries, name < entry.1) : find? name entries = none := by
  induction entries with
  | nil => rfl
  | cons first rest ih =>
    have hne : first.1 ≠ name := fun he =>
      String.lt_irrefl name (by simpa [he] using h first List.mem_cons_self)
    simp [find?, hne, ih fun entry hmem => h entry (List.mem_cons_of_mem _ hmem)]

theorem find?_eq_some_iff {name : String} {value : α} {entries : List (String × α)}
    (h : Sorted entries) : find? name entries = some value ↔ (name, value) ∈ entries := by
  induction entries with
  | nil => simp [find?]
  | cons first rest ih =>
    obtain ⟨key, old⟩ := first
    obtain ⟨below, tail⟩ := List.pairwise_cons.1 h
    simp only [find?]
    split
    · next heq =>
      subst heq
      have hnot : (key, value) ∉ rest := fun hmem => String.lt_irrefl key (below _ hmem)
      simp [hnot, eq_comm]
    · next hne =>
      have : (name, value) ≠ (key, old) := fun he => hne (congrArg Prod.fst he).symm
      simp [ih tail, this]

theorem eq_of_find?_eq {first second : List (String × α)} (h₁ : Sorted first) (h₂ : Sorted second)
    (h : ∀ name, find? name first = find? name second) : first = second := by
  induction first generalizing second with
  | nil =>
    cases second with
    | nil => rfl
    | cons entry rest => simpa [find?] using h entry.1
  | cons entry rest ih =>
    cases second with
    | nil => simpa [find?] using h entry.1
    | cons other tail =>
      have hmem : ∀ e, e ∈ entry :: rest ↔ e ∈ other :: tail := fun ⟨key, value⟩ => by
        rw [← find?_eq_some_iff h₁, h, find?_eq_some_iff h₂]
      have hhead : entry = other := by
        rcases List.mem_cons.1 ((hmem entry).1 List.mem_cons_self) with he | he
        · exact he
        · rcases List.mem_cons.1 ((hmem other).2 List.mem_cons_self) with ho | ho
          · exact ho.symm
          · exact absurd (String.lt_trans ((List.pairwise_cons.1 h₁).1 _ ho)
              ((List.pairwise_cons.1 h₂).1 _ he)) (String.lt_irrefl _)
      subst hhead
      refine congrArg _ (ih (List.pairwise_cons.1 h₁).2 (List.pairwise_cons.1 h₂).2 fun name => ?_)
      by_cases hn : entry.1 = name
      · subst hn
        rw [find?_eq_none_of_lt (List.pairwise_cons.1 h₁).1,
          find?_eq_none_of_lt (List.pairwise_cons.1 h₂).1]
      · simpa [find?, hn] using h name

end Entries

/-- A finite map from names, listed in increasing order of the names. -/
structure NameMap (α : Type) where
  entries : List (String × α)
  sorted : Entries.Sorted entries
  deriving DecidableEq

namespace NameMap

variable {α β : Type}

def empty : NameMap α := ⟨[], List.Pairwise.nil⟩

instance : EmptyCollection (NameMap α) := ⟨empty⟩

instance : Inhabited (NameMap α) := ⟨empty⟩

def insert (map : NameMap α) (name : String) (value : α) : NameMap α :=
  ⟨Entries.insert name value map.entries, map.sorted.insert name value⟩

def find? (map : NameMap α) (name : String) : Option α := Entries.find? name map.entries

def contains (map : NameMap α) (name : String) : Bool := (map.find? name).isSome

def filter (map : NameMap α) (keep : String → Bool) : NameMap α :=
  ⟨map.entries.filter fun entry => keep entry.1, map.sorted.filter _⟩

/-- The map with the given entries, a later one replacing an earlier one of its name. -/
def ofList (entries : List (String × α)) : NameMap α :=
  entries.foldl (fun map (name, value) => map.insert name value) empty

def names (map : NameMap α) : List String := map.entries.map Prod.fst

def values (map : NameMap α) : List α := map.entries.map Prod.snd

@[simp] theorem find?_empty (name : String) : (empty : NameMap α).find? name = none := rfl

@[simp] theorem find?_insert (map : NameMap α) (name other : String) (value : α) :
    (map.insert name value).find? other = if name = other then some value else map.find? other :=
  Entries.find?_insert ..

theorem contains_insert (map : NameMap α) (name other : String) (value : α) :
    (map.insert name value).contains other = (decide (name = other) || map.contains other) := by
  by_cases h : name = other <;> simp [contains, h]

theorem mem_entries_iff {map : NameMap α} {name : String} {value : α} :
    (name, value) ∈ map.entries ↔ map.find? name = some value :=
  (Entries.find?_eq_some_iff map.sorted).symm

theorem mem_names_iff {map : NameMap α} {name : String} :
    name ∈ map.names ↔ map.contains name = true := by
  rw [names, List.mem_map, contains, Option.isSome_iff_exists]
  constructor
  · rintro ⟨⟨_, value⟩, hmem, rfl⟩
    exact ⟨value, mem_entries_iff.1 hmem⟩
  · rintro ⟨value, h⟩
    exact ⟨(name, value), mem_entries_iff.2 h, rfl⟩

theorem find?_filter_eq_some {map : NameMap α} {keep : String → Bool} {name : String} {value : α} :
    (map.filter keep).find? name = some value ↔ keep name = true ∧ map.find? name = some value := by
  rw [← mem_entries_iff, ← mem_entries_iff, filter, List.mem_filter, and_comm]

theorem ext_find? {first second : NameMap α} (h : ∀ name, first.find? name = second.find? name) :
    first = second := by
  obtain ⟨entries, sorted⟩ := first
  obtain ⟨others, sorted'⟩ := second
  have : entries = others := Entries.eq_of_find?_eq sorted sorted' h
  subst this
  rfl

end NameMap

/-- A finite set of names, listed in increasing order. -/
abbrev NameSet := NameMap Unit

namespace NameSet

def add (set : NameSet) (name : String) : NameSet := set.insert name ()

def ofList (names : List String) : NameSet := names.foldl add ∅

@[simp] theorem contains_add (set : NameSet) (name other : String) :
    (set.add name).contains other = (decide (name = other) || set.contains other) :=
  NameMap.contains_insert ..

theorem contains_foldl_add (names : List String) (set : NameSet) (name : String) :
    (names.foldl add set).contains name = true ↔ name ∈ names ∨ set.contains name = true := by
  induction names generalizing set with
  | nil => simp
  | cons first names ih =>
    rw [List.foldl_cons, ih, contains_add, Bool.or_eq_true, decide_eq_true_eq, List.mem_cons]
    grind

theorem contains_ofList {names : List String} {name : String} :
    (ofList names).contains name = true ↔ name ∈ names := by
  rw [ofList, contains_foldl_add]
  exact or_iff_left Bool.false_ne_true

end NameSet

end Supergraph
