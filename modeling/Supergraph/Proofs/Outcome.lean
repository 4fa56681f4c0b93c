import Mathlib.Data.List.Forall2

/-!
Computations that may fail: what is known of the parts of one that succeeded.
-/

namespace Supergraph

namespace Outcome

variable {ε α β : Type}

theorem bind_eq_ok {first : Except ε α} {next : α → Except ε β} {result : β} :
    (first >>= next) = .ok result ↔ ∃ value, first = .ok value ∧ next value = .ok result := by
  cases first with
  | error error => simp [bind, Except.bind]
  | ok value => simp [bind, Except.bind]

theorem bind_eq_error {first : Except ε α} {next : α → Except ε β} {error : ε} :
    (first >>= next) = .error error ↔
      first = .error error ∨ ∃ value, first = .ok value ∧ next value = .error error := by
  cases first with
  | error error => simp [bind, Except.bind]
  | ok value => simp [bind, Except.bind]

@[simp] theorem pure_eq_ok {value result : α} :
    (pure value : Except ε α) = .ok result ↔ value = result := by
  simp [pure, Except.pure]

theorem exists_of_isOk {result : Except ε α} (h : result.isOk = true) : ∃ value, result = .ok value := by
  cases result with
  | error error => cases h
  | ok value => exact ⟨value, rfl⟩

/-- A fold that succeeds keeps what each of its steps keeps. -/
theorem foldlM_induction {step : β → α → Except ε β} (kept : β → Prop)
    (hstep : ∀ state item next, kept state → step state item = .ok next → kept next) :
    ∀ (items : List α) (state last : β), kept state → items.foldlM step state = .ok last → kept last
  | [], state, last, hstate, h => by
    rw [List.foldlM_nil, pure_eq_ok] at h
    rwa [← h]
  | item :: items, state, last, hstate, h => by
    rw [List.foldlM_cons, bind_eq_ok] at h
    obtain ⟨next, hnext, hrest⟩ := h
    exact foldlM_induction kept hstep items next last (hstep state item next hstate hnext) hrest

/-- Where every step of a fold adds to what holds of a state, the whole fold adds what one of its items
adds. -/
theorem foldlM_accumulates {step : β → α → Except ε β} (holds : β → Prop) {adds : α → Prop}
    (hstep : ∀ state item next, step state item = .ok next → (holds next ↔ holds state ∨ adds item)) :
    ∀ (items : List α) {state last : β}, items.foldlM step state = .ok last →
      (holds last ↔ holds state ∨ ∃ item ∈ items, adds item)
  | [], state, last, h => by
    rw [List.foldlM_nil, pure_eq_ok] at h
    rw [← h]
    simp
  | item :: items, state, last, h => by
    rw [List.foldlM_cons, bind_eq_ok] at h
    obtain ⟨next, hnext, hrest⟩ := h
    rw [foldlM_accumulates holds hstep items hrest, hstep state item next hnext, List.exists_mem_cons_iff,
      or_assoc]

theorem foldlM_isOk {step : β → α → Except ε β} (hstep : ∀ state item, ∃ next, step state item = .ok next) :
    ∀ (items : List α) (state : β), ∃ last, items.foldlM step state = .ok last
  | [], state => ⟨state, rfl⟩
  | item :: items, state => by
    obtain ⟨next, hnext⟩ := hstep state item
    obtain ⟨last, hlast⟩ := foldlM_isOk hstep items next
    exact ⟨last, bind_eq_ok.mpr ⟨next, hnext, hlast⟩⟩

/-- Where a step that succeeds comes to what another step comes to, so does a fold. -/
theorem foldlM_eq_ok_of_imp {strict lax : β → α → Except ε β}
    (hstep : ∀ state item next, strict state item = .ok next → lax state item = .ok next) :
    ∀ (items : List α) {state last : β}, items.foldlM strict state = .ok last →
      items.foldlM lax state = .ok last
  | [], _, _, h => h
  | item :: items, state, last, h => by
    rw [List.foldlM_cons, bind_eq_ok] at h ⊢
    obtain ⟨next, hnext, hlast⟩ := h
    exact ⟨next, hstep state item next hnext, foldlM_eq_ok_of_imp hstep items hlast⟩

theorem mapM_eq_ok {f : α → Except ε β} :
    ∀ {items : List α} {results : List β}, items.mapM f = .ok results →
      List.Forall₂ (fun item result => f item = .ok result) items results
  | [], results, h => by
    rw [List.mapM_nil, pure_eq_ok] at h
    rw [← h]
    exact .nil
  | item :: items, results, h => by
    rw [List.mapM_cons, bind_eq_ok] at h
    obtain ⟨first, hfirst, h⟩ := h
    rw [bind_eq_ok] at h
    obtain ⟨rest, hrest, h⟩ := h
    rw [pure_eq_ok] at h
    rw [← h]
    exact .cons hfirst (mapM_eq_ok hrest)

theorem exists_of_mapM_error {f : α → Except ε β} {error : ε} :
    ∀ {items : List α}, items.mapM f = .error error → ∃ item ∈ items, f item = .error error
  | [], h => by cases h
  | item :: items, h => by
    rw [List.mapM_cons, bind_eq_error] at h
    rcases h with h | ⟨result, _, h⟩
    · exact ⟨item, List.mem_cons_self, h⟩
    · rcases bind_eq_error.mp h with h | ⟨results, _, h⟩
      · obtain ⟨other, hmem, hother⟩ := exists_of_mapM_error h
        exact ⟨other, List.mem_cons_of_mem _ hmem, hother⟩
      · cases h

theorem mapM_congr {f g : α → Except ε β} :
    ∀ {items : List α}, (∀ item ∈ items, f item = g item) → items.mapM f = items.mapM g
  | [], _ => rfl
  | item :: items, h => by
    obtain ⟨hitem, hitems⟩ := List.forall_mem_cons.mp h
    rw [List.mapM_cons, List.mapM_cons, hitem, mapM_congr hitems]

end Outcome

end Supergraph
