import Mathlib.Data.List.Pairwise
import Supergraph.Proofs.Outcome

/-!
Claims that must not collide. A state says for each key which value holds it; a step enters claims of one
value, and fails if another value holds one of the keys.

1. `Enters` is that specification of a step, and `Enters.bind` composes two steps of one value.
2. `foldlM_isOk_iff`: steps of several values all succeed if and only if no key is held by another value
   at the start and no two of the steps claim one key for different values. The second is a condition on
   pairs, so that the order of the steps does not matter (`foldlM_isOk_perm`).
3. `foldlM_adds`: where they succeed, the keys are held by the values that claim them.
4. `Refuses` says what a step that fails blames, and `foldlM_refuses` which two of several steps collide
   when they do not all succeed.
5. `Assigns` is a step that may take keys over from another value. Then the last value that claims a key
   holds it (`foldlM_assigns`).
-/

namespace Supergraph

section Claims

variable {σ κ ν ε α : Type} {holder : σ → κ → Option ν}

/-- A step claims keys for a value. It succeeds if no other value holds one of them; then the value holds
them, and every other key is held as before. -/
structure Enters (holder : σ → κ → Option ν) (value : ν) (claims : κ → Prop) (step : σ → Except ε σ) :
    Prop where
  accepts : ∀ state, (∃ next, step state = .ok next) ↔
    ∀ key, claims key → ∀ first, holder state key = some first → first = value
  adds : ∀ {state next}, step state = .ok next → ∀ key other,
    holder next key = some other ↔ holder state key = some other ∨ claims key ∧ value = other

/-- The keys of a part of a state: `embed` gives the key of the state for one of the part, and `put` puts
another part in its place. -/
structure Part {τ ι : Type} (holder : σ → κ → Option ν) (inner : τ → ι → Option ν) (part : σ → τ)
    (put : σ → τ → σ) (embed : ι → κ) : Prop where
  injective : embed.Injective
  get : ∀ state key, holder state (embed key) = inner (part state) key
  set : ∀ state next key, holder (put state next) (embed key) = inner next key
  other : ∀ state next key, (∀ index, key ≠ embed index) → holder (put state next) key = holder state key

namespace Enters

variable {value : ν} {claims others : κ → Prop} {first second : σ → Except ε σ}

theorem congr (h : Enters holder value claims first) (hiff : ∀ key, claims key ↔ others key) :
    Enters holder value others first := by
  have hclaims : claims = others := funext fun key => propext (hiff key)
  rwa [← hclaims]

theorem of_unchanged {change : σ → σ} (h : ∀ state key, holder (change state) key = holder state key) :
    Enters holder value (fun _ => False) (fun state => (.ok (change state) : Except ε σ)) where
  accepts state := by simp
  adds := by
    intro state next hnext key other
    cases hnext
    simp [h]

theorem bind (h₁ : Enters holder value claims first) (h₂ : Enters holder value others second) :
    Enters holder value (fun key => claims key ∨ others key) (fun state => first state >>= second) where
  accepts state := by
    constructor
    · rintro ⟨last, hlast⟩ key hclaims holds hholds
      obtain ⟨next, hnext, hlast⟩ := Outcome.bind_eq_ok.mp hlast
      rcases hclaims with hclaims | hothers
      · exact (h₁.accepts state).mp ⟨next, hnext⟩ key hclaims holds hholds
      · exact (h₂.accepts next).mp ⟨last, hlast⟩ key hothers holds
          ((h₁.adds hnext key holds).mpr (.inl hholds))
    · intro h
      obtain ⟨next, hnext⟩ := (h₁.accepts state).mpr fun key hclaims => h key (.inl hclaims)
      have hsecond : ∃ last, second next = .ok last := by
        apply (h₂.accepts next).mpr
        intro key hothers holds hholds
        -- A key that the first step claimed is held by the same value.
        rcases (h₁.adds hnext key holds).mp hholds with hbefore | ⟨_, hsame⟩
        · exact h key (.inr hothers) holds hbefore
        · exact hsame.symm
      obtain ⟨last, hlast⟩ := hsecond
      exact ⟨last, Outcome.bind_eq_ok.mpr ⟨next, hnext, hlast⟩⟩
  adds := by
    intro state last hlast key other
    obtain ⟨next, hnext, hlast⟩ := Outcome.bind_eq_ok.mp hlast
    rw [h₂.adds hlast, h₁.adds hnext]
    tauto

theorem within {τ ι : Type} {inner : τ → ι → Option ν} {part : σ → τ} {put : σ → τ → σ}
    {embed : ι → κ} {claims : ι → Prop} {step : τ → Except ε τ}
    (hpart : Part holder inner part put embed) (h : Enters inner value claims step) :
    Enters holder value (fun key => ∃ index, claims index ∧ key = embed index)
      (fun state => do return put state (← step (part state))) where
  accepts state := by
    simp only [Outcome.bind_eq_ok, Outcome.pure_eq_ok]
    constructor
    · rintro ⟨_, next, hnext, _⟩ key ⟨index, hclaims, rfl⟩ first hfirst
      rw [hpart.get] at hfirst
      exact (h.accepts _).mp ⟨next, hnext⟩ index hclaims first hfirst
    · intro hall
      obtain ⟨next, hnext⟩ := (h.accepts (part state)).mpr fun index hclaims first hfirst =>
        hall (embed index) ⟨index, hclaims, rfl⟩ first (by rw [hpart.get, hfirst])
      exact ⟨_, next, hnext, rfl⟩
  adds := by
    intro state last hlast key other
    obtain ⟨next, hnext, hlast⟩ := Outcome.bind_eq_ok.mp hlast
    rw [Outcome.pure_eq_ok] at hlast
    rw [← hlast]
    by_cases hkey : ∃ index, key = embed index
    · obtain ⟨index, rfl⟩ := hkey
      rw [hpart.set, hpart.get, h.adds hnext]
      simp only [hpart.injective.eq_iff, exists_eq_right']
    · rw [not_exists] at hkey
      rw [hpart.other state next key hkey]
      simp [hkey]

end Enters

/-! ## Steps of several values -/

variable {value : α → ν} {claims : α → κ → Prop} {step : σ → α → Except ε σ}

/-- Two items do not claim a key for different values. -/
def Concordant (value : α → ν) (claims : α → κ → Prop) (item other : α) : Prop :=
  ∀ key, claims item key → claims other key → value item = value other

theorem Concordant.symm {item other : α} (h : Concordant value claims item other) :
    Concordant value claims other item :=
  fun key hother hitem => (h key hitem hother).symm

theorem pairwise_concordant_iff {items : List α} :
    items.Pairwise (Concordant value claims) ↔
      ∀ item ∈ items, ∀ other ∈ items, Concordant value claims item other := by
  refine ⟨?_, ?_⟩
  · intro hpairwise item hitem other hother
    have hsymm : Std.Symm (Concordant value claims) := ⟨fun _ _ => Concordant.symm⟩
    exact hpairwise.forall_of_forall (fun _ _ _ _ _ => rfl) hitem hother
  · intro hall
    exact List.pairwise_of_forall_mem_list hall

/-- Where every item enters its claims, a fold succeeds if and only if each item could have been entered
first, and no two items collide. -/
theorem foldlM_isOk_iff (h : ∀ item, Enters holder (value item) (claims item) (step · item)) :
    ∀ (items : List α) (state : σ), (∃ last, items.foldlM step state = .ok last) ↔
      (∀ item ∈ items, ∃ next, step state item = .ok next) ∧ items.Pairwise (Concordant value claims)
  | [], state => by simp
  | item :: items, state => by
    simp only [List.foldlM_cons, Outcome.bind_eq_ok, List.forall_mem_cons, List.pairwise_cons]
    constructor
    · rintro ⟨last, next, hnext, hlast⟩
      obtain ⟨haccepts, hpairwise⟩ := (foldlM_isOk_iff h items next).mp ⟨last, hlast⟩
      refine ⟨⟨⟨next, hnext⟩, ?_⟩, ?_, hpairwise⟩
      · intro other hmem
        rw [(h other).accepts]
        intro key hclaims holds hholds
        exact ((h other).accepts next).mp (haccepts other hmem) key hclaims holds
          (((h item).adds hnext key holds).mpr (.inl hholds))
      · intro other hmem key hitem hother
        exact ((h other).accepts next).mp (haccepts other hmem) key hother (value item)
          (((h item).adds hnext key _).mpr (.inr ⟨hitem, rfl⟩))
    · rintro ⟨⟨⟨next, hnext⟩, haccepts⟩, hagree, hpairwise⟩
      have hrest : ∀ other ∈ items, ∃ last, step next other = .ok last := by
        intro other hmem
        rw [(h other).accepts]
        intro key hclaims holds hholds
        rcases ((h item).adds hnext key holds).mp hholds with hbefore | ⟨hitem, rfl⟩
        · exact ((h other).accepts state).mp (haccepts other hmem) key hclaims holds hbefore
        · exact hagree other hmem key hitem hclaims
      obtain ⟨last, hlast⟩ := (foldlM_isOk_iff h items next).mpr ⟨hrest, hpairwise⟩
      exact ⟨last, next, hnext, hlast⟩

theorem foldlM_isOk_perm (h : ∀ item, Enters holder (value item) (claims item) (step · item))
    {items others : List α} (hperm : items.Perm others) (state : σ) :
    (∃ last, items.foldlM step state = .ok last) ↔ ∃ last, others.foldlM step state = .ok last := by
  have hpairwise : items.Pairwise (Concordant value claims) ↔ others.Pairwise (Concordant value claims) :=
    hperm.pairwise_iff Concordant.symm
  have haccepts : (∀ item ∈ items, ∃ next, step state item = .ok next) ↔
      ∀ item ∈ others, ∃ next, step state item = .ok next := by
    simp only [hperm.mem_iff]
  rw [foldlM_isOk_iff h, foldlM_isOk_iff h, haccepts, hpairwise]

/-- What a fold adds is what its items claim. -/
theorem foldlM_adds (h : ∀ item, Enters holder (value item) (claims item) (step · item))
    {items : List α} {state last : σ} (hlast : items.foldlM step state = .ok last) (key : κ) (other : ν) :
    holder last key = some other ↔
      holder state key = some other ∨ ∃ item ∈ items, claims item key ∧ value item = other :=
  Outcome.foldlM_accumulates (fun state => holder state key = some other)
    (fun _ item _ hnext => (h item).adds hnext key other) items hlast

theorem Enters.foldlM {one : ν} (h : ∀ item, Enters holder one (claims item) (step · item))
    (items : List α) :
    Enters holder one (fun key => ∃ item ∈ items, claims item key) (fun state => items.foldlM step state)
    where
  accepts state := by
    have hpairwise : items.Pairwise (Concordant (fun _ => one) claims) :=
      List.pairwise_of_forall fun _ _ _ _ _ => rfl
    rw [foldlM_isOk_iff h, and_iff_left hpairwise]
    constructor
    · rintro haccepts key ⟨item, hmem, hclaims⟩
      exact ((h item).accepts state).mp (haccepts item hmem) key hclaims
    · intro hall item hmem
      exact ((h item).accepts state).mpr fun key hclaims => hall key ⟨item, hmem, hclaims⟩
  adds := by
    intro state last hlast key other
    rw [foldlM_adds h hlast]
    simp only [← exists_and_right, and_assoc]

/-! ## Steps that fail -/

/-- A step that fails says why: it claims a key that another value holds. -/
def Refuses (holder : σ → κ → Option ν) (value : ν) (claims : κ → Prop) (conflict : κ → ν → ν → ε)
    (step : σ → Except ε σ) : Prop :=
  ∀ ⦃state error⦄, step state = .error error → ∃ key first, claims key ∧
    holder state key = some first ∧ first ≠ value ∧ error = conflict key first value

namespace Refuses

variable {value : ν} {claims others : κ → Prop} {conflict : κ → ν → ν → ε} {first second : σ → Except ε σ}

theorem congr (h : Refuses holder value claims conflict first) (hiff : ∀ key, claims key ↔ others key) :
    Refuses holder value others conflict first := by
  have hclaims : claims = others := funext fun key => propext (hiff key)
  rwa [← hclaims]

theorem of_change (change : σ → σ) :
    Refuses holder value (fun _ => False) conflict (fun state => .ok (change state)) := by
  intro state error h
  cases h

theorem bind (henters : Enters holder value claims first) (h₁ : Refuses holder value claims conflict first)
    (h₂ : Refuses holder value others conflict second) :
    Refuses holder value (fun key => claims key ∨ others key) conflict
      (fun state => first state >>= second) := by
  intro state error h
  rcases Outcome.bind_eq_error.mp h with h | ⟨next, hnext, h⟩
  · obtain ⟨key, holds, hclaims, hblamed⟩ := h₁ h
    exact ⟨key, holds, .inl hclaims, hblamed⟩
  · obtain ⟨key, holds, hothers, hholds, hne, herror⟩ := h₂ h
    -- What another value holds now, it held before the first step.
    rcases (henters.adds hnext key holds).mp hholds with hbefore | ⟨_, hsame⟩
    · exact ⟨key, holds, .inr hothers, hbefore, hne, herror⟩
    · exact absurd hsame.symm hne

theorem within (conflict : κ → ν → ν → ε) {τ ι : Type} {inner : τ → ι → Option ν} {part : σ → τ} {put : σ → τ → σ}
    {embed : ι → κ} {claims : ι → Prop} {step : τ → Except ε τ}
    (hpart : Part holder inner part put embed)
    (h : Refuses inner value claims (fun index => conflict (embed index)) step) :
    Refuses holder value (fun key => ∃ index, claims index ∧ key = embed index) conflict
      (fun state => do return put state (← step (part state))) := by
  intro state error herror
  rcases Outcome.bind_eq_error.mp herror with herror | ⟨next, _, hnext⟩
  · obtain ⟨index, first, hclaims, hholds, hblamed⟩ := h herror
    exact ⟨embed index, first, ⟨index, hclaims, rfl⟩, (hpart.get state index).trans hholds, hblamed⟩
  · cases hnext

end Refuses

/-- Of steps of several values that do not all succeed, one claims a key that another value holds at the
start, or claims in an earlier step. -/
theorem foldlM_refuses {conflict : κ → ν → ν → ε}
    (henters : ∀ item, Enters holder (value item) (claims item) (step · item))
    (h : ∀ item, Refuses holder (value item) (claims item) conflict (step · item)) :
    ∀ {items : List α} {state : σ} {error : ε}, items.foldlM step state = .error error →
      ∃ before item after, items = before ++ item :: after ∧ ∃ key first, claims item key ∧
        (holder state key = some first ∨ ∃ other ∈ before, claims other key ∧ value other = first) ∧
        first ≠ value item ∧ error = conflict key first (value item)
  | [], state, error, herror => by cases herror
  | item :: items, state, error, herror => by
    rw [List.foldlM_cons] at herror
    rcases Outcome.bind_eq_error.mp herror with hfirst | ⟨next, hnext, hrest⟩
    · obtain ⟨key, first, hclaims, hholds, hblamed⟩ := h item hfirst
      exact ⟨[], item, items, rfl, key, first, hclaims, .inl hholds, hblamed⟩
    · obtain ⟨before, other, after, rfl, key, first, hclaims, hearlier, hblamed⟩ :=
        foldlM_refuses henters h hrest
      refine ⟨item :: before, other, after, rfl, key, first, hclaims, ?_, hblamed⟩
      rcases hearlier with hholds | ⟨earlier, hmem, hearlier⟩
      · rcases ((henters item).adds hnext key first).mp hholds with hbefore | hitem
        · exact .inl hbefore
        · exact .inr ⟨item, List.mem_cons_self, hitem⟩
      · exact .inr ⟨earlier, List.mem_cons_of_mem _ hmem, hearlier⟩

/-- Steps of one value do not get into each other's way. -/
theorem Refuses.foldlM {one : ν} {conflict : κ → ν → ν → ε}
    (henters : ∀ item, Enters holder one (claims item) (step · item))
    (h : ∀ item, Refuses holder one (claims item) conflict (step · item)) (items : List α) :
    Refuses holder one (fun key => ∃ item ∈ items, claims item key) conflict
      (fun state => items.foldlM step state) := by
  intro state error herror
  obtain ⟨before, item, after, rfl, key, first, hclaims, hearlier, hne, herror⟩ :=
    foldlM_refuses henters h herror
  rcases hearlier with hholds | ⟨_, _, _, hsame⟩
  · exact ⟨key, first, ⟨item, by simp, hclaims⟩, hholds, hne, herror⟩
  · exact absurd hsame.symm hne

/-! ## Steps that take over what others hold -/

/-- Where a step succeeds, the keys that it claims are held by its value, whoever held them before, and
every other key is held as before. -/
def Assigns (holder : σ → κ → Option ν) (value : ν) (claims : κ → Prop) (step : σ → Except ε σ) : Prop :=
  ∀ ⦃state next⦄, step state = .ok next → ∀ key, claims key ∧ holder next key = some value ∨
    ¬ claims key ∧ holder next key = holder state key

namespace Assigns

variable {value : ν} {claims others : κ → Prop} {first second : σ → Except ε σ}

theorem congr (h : Assigns holder value claims first) (hiff : ∀ key, claims key ↔ others key) :
    Assigns holder value others first := by
  have hclaims : claims = others := funext fun key => propext (hiff key)
  rwa [← hclaims]

theorem of_unchanged {change : σ → σ} (h : ∀ state key, holder (change state) key = holder state key) :
    Assigns holder value (fun _ => False) (fun state => (.ok (change state) : Except ε σ)) := by
  intro state next hnext key
  cases hnext
  exact .inr ⟨id, h state key⟩

theorem bind (h₁ : Assigns holder value claims first) (h₂ : Assigns holder value others second) :
    Assigns holder value (fun key => claims key ∨ others key) (fun state => first state >>= second) := by
  intro state last hlast key
  obtain ⟨next, hnext, hlast⟩ := Outcome.bind_eq_ok.mp hlast
  rcases h₂ hlast key with ⟨hothers, hholds⟩ | ⟨hothers, hholds⟩
  · exact .inl ⟨.inr hothers, hholds⟩
  · -- The second step leaves the key as the first one has it.
    rw [hholds]
    rcases h₁ hnext key with ⟨hclaims, hholds⟩ | ⟨hclaims, hholds⟩
    · exact .inl ⟨.inl hclaims, hholds⟩
    · exact .inr ⟨not_or.mpr ⟨hclaims, hothers⟩, hholds⟩

theorem within {τ ι : Type} {inner : τ → ι → Option ν} {part : σ → τ} {put : σ → τ → σ}
    {embed : ι → κ} {claims : ι → Prop} {step : τ → Except ε τ}
    (hpart : Part holder inner part put embed) (h : Assigns inner value claims step) :
    Assigns holder value (fun key => ∃ index, claims index ∧ key = embed index)
      (fun state => do return put state (← step (part state))) := by
  intro state last hlast key
  obtain ⟨next, hnext, hlast⟩ := Outcome.bind_eq_ok.mp hlast
  rw [Outcome.pure_eq_ok] at hlast
  rw [← hlast]
  by_cases hkey : ∃ index, key = embed index
  · obtain ⟨index, rfl⟩ := hkey
    rw [hpart.set, hpart.get]
    simpa only [hpart.injective.eq_iff, exists_eq_right'] using h hnext index
  · rw [not_exists] at hkey
    exact .inr ⟨by simp [hkey], hpart.other state next key hkey⟩

end Assigns

variable {value : α → ν} {claims : α → κ → Prop} {step : σ → α → Except ε σ}

/-- Of the items that claim a key the last one holds it in the end. -/
theorem foldlM_assigns (h : ∀ item, Assigns holder (value item) (claims item) (step · item)) (key : κ) :
    ∀ (items : List α) {state last : σ}, items.foldlM step state = .ok last →
      (∃ before item after, items = before ++ item :: after ∧ claims item key ∧
        (∀ other ∈ after, ¬ claims other key) ∧ holder last key = some (value item)) ∨
      (∀ item ∈ items, ¬ claims item key) ∧ holder last key = holder state key
  | [], state, last, hlast => by
    rw [List.foldlM_nil, Outcome.pure_eq_ok] at hlast
    simp [hlast]
  | item :: items, state, last, hlast => by
    rw [List.foldlM_cons] at hlast
    obtain ⟨next, hnext, hlast⟩ := Outcome.bind_eq_ok.mp hlast
    rcases foldlM_assigns h key items hlast with ⟨before, other, after, rfl, hlater⟩ | ⟨hnone, hholds⟩
    · exact .inl ⟨item :: before, other, after, rfl, hlater⟩
    · rw [hholds]
      rcases h item hnext key with ⟨hclaims, hfirst⟩ | ⟨hclaims, hfirst⟩
      · exact .inl ⟨[], item, items, rfl, hclaims, hnone, hfirst⟩
      · exact .inr ⟨List.forall_mem_cons.mpr ⟨hclaims, hnone⟩, hfirst⟩

theorem Assigns.foldlM {one : ν} (h : ∀ item, Assigns holder one (claims item) (step · item))
    (items : List α) :
    Assigns holder one (fun key => ∃ item ∈ items, claims item key)
      (fun state => items.foldlM step state) := by
  intro state last hlast key
  rcases foldlM_assigns h key items hlast with
    ⟨before, item, after, rfl, hclaims, _, hholds⟩ | ⟨hnone, hholds⟩
  · exact .inl ⟨⟨item, by simp, hclaims⟩, hholds⟩
  · exact .inr ⟨by simpa using hnone, hholds⟩

end Claims

end Supergraph
