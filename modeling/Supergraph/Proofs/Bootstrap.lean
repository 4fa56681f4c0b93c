import Mathlib.Algebra.GroupWithZero.Nat
import Mathlib.Data.List.Perm.Subperm
import Supergraph.Bootstrap.Window
import Supergraph.Proofs.Gateway

/-!
A bootstrap ends with the same result in whatever order the services reply, and however many of them are
asked at a time.

1. `Introspects` says what asking one service comes to. A turn of its slot does not change that
   (`Slot.outcome_of_next?`).
2. So what was handed on, and what the rest comes to, is at any time what all services come to, in the
   order of the configuration (`Consistent`). One step keeps this (`Consistent.step`), and so does a run
   (`consistent_of_run`).
3. Asking one service after the other ends at the first failure of that list, or with all of it
   (`introspectAll_of_ok`, `introspectAll_of_error`), and so does every run that ends (`orderly_of_run`).
-/

namespace Supergraph

namespace Bootstrap

variable {limit steps : Nat} {connect : Connect} {configs : List ServiceConfig} {progress next : Progress}

/-! ## One service -/

/-- What asking a service comes to. -/
inductive Introspects (connect : Connect) (config : ServiceConfig) : Except BootstrapError Service → Prop
  | transport {error : TransportError} : connect config = .error error →
    Introspects connect config (.error (.transport config.name error))
  | introspection {link : Connection} {error : TransportError} : connect config = .ok link →
    link.result .unlimited = .error error →
    Introspects connect config (.error (.introspection config.name error))
  | missingSdl {link : Connection} {response : Response} : connect config = .ok link →
    link.result .unlimited = .ok response →
    (∀ sdl, response.dataAt? ["_service", "sdl"] ≠ some (.string sdl)) →
    Introspects connect config (.error (.missingSdl config.name response.errors))
  | invalidSdl {link : Connection} {response : Response} {sdl : String} : connect config = .ok link →
    link.result .unlimited = .ok response →
    response.dataAt? ["_service", "sdl"] = some (.string sdl) →
    GraphQL.SchemaDocument.ofText? sdl = none →
    Introspects connect config (.error (.invalidSdl config.name))
  | service {link : Connection} {response : Response} {sdl : String} {schema : GraphQL.SchemaDocument} :
    connect config = .ok link → link.result .unlimited = .ok response →
    response.dataAt? ["_service", "sdl"] = some (.string sdl) →
    (hparsed : GraphQL.SchemaDocument.ofText? sdl = some schema) →
    Introspects connect config (.ok ⟨config, sdl, schema, .ofSchema schema, hparsed, rfl⟩)

def introspected (connect : Connect) (config : ServiceConfig) : Except BootstrapError Service :=
  match connect config with
  | .error error => .error (.transport config.name error)
  | .ok link => Service.ofIntrospection config (link.result .unlimited)

theorem introspects_introspected (connect : Connect) (config : ServiceConfig) :
    Introspects connect config (introspected connect config) := by
  rw [introspected]
  cases hconnect : connect config with
  | error error => exact .transport hconnect
  | ok link =>
    dsimp only
    rw [Service.ofIntrospection.eq_def]
    split
    · next hresult => exact .introspection hconnect hresult
    · next response hresult =>
      split
      · next sdl hsdl =>
        rw [Service.ofSdl, Service.ofSdl?.eq_def]
        split
        · next service hservice =>
          split at hservice
          · next schema hparsed =>
            cases hservice
            exact .service hconnect hresult hsdl hparsed
          · cases hservice
        · next hnone =>
          split at hnone
          · cases hnone
          · next hinvalid => exact .invalidSdl hconnect hresult hsdl hinvalid
      · next hsdl => exact .missingSdl hconnect hresult hsdl

/-- A service is built for the configuration that it was asked with. -/
theorem Introspects.config_eq {config : ServiceConfig} {service : Service}
    (h : Introspects connect config (.ok service)) : service.config = config := by
  cases h
  rfl

/-! ## Slots -/

namespace Slot

/-- What the service in the slot comes to. -/
def outcome : Slot → Except BootstrapError Service
  | ⟨config, .connected connection⟩ => introspected (fun _ => connection) config
  | ⟨config, .asked link⟩ => Service.ofIntrospection config (link.result .unlimited)
  | ⟨_, .settled outcome⟩ => outcome

/-- The number of turns until the service is handed on. -/
def turns : Slot → Nat
  | ⟨_, .connected _⟩ => 3
  | ⟨_, .asked _⟩ => 2
  | ⟨_, .settled _⟩ => 1

variable {slot next : Slot}

theorem outcome_of_next? (h : slot.next? = some next) : next.outcome = slot.outcome := by
  obtain ⟨config, (_ | _) | _ | _⟩ := slot <;> cases h <;> rfl

theorem requests_of_next? (h : slot.next? = some next) : next.requests = [] := by
  obtain ⟨config, (_ | _) | _ | _⟩ := slot <;> cases h <;> rfl

theorem isRunning_of_next? (h : slot.next? = some next) : slot.isRunning = true := by
  obtain ⟨config, (_ | _) | _ | _⟩ := slot <;> cases h <;> rfl

theorem exists_outcome_of_next? (h : slot.next? = none) :
    ∃ config outcome, slot = ⟨config, .settled outcome⟩ := by
  obtain ⟨config, (_ | _) | _ | _⟩ := slot <;> cases h
  exact ⟨_, _, rfl⟩

theorem requests_sublist (config : ServiceConfig) (stage : Stage) :
    (requests ⟨config, stage⟩).Sublist [config] := by
  obtain (_ | _) | _ | _ := stage
  · exact List.nil_sublist _
  · exact List.Sublist.refl _
  · exact List.nil_sublist _
  · exact List.nil_sublist _

end Slot

/-! ## What a step keeps -/

namespace Progress

/-- What the services that are not handed on come to, in the order of the configuration. -/
def pending (progress : Progress) (connect : Connect) : List (Except BootstrapError Service) :=
  progress.window.map Slot.outcome ++ progress.waiting.map (introspected connect)

/-- Who was asked, and who of the window is going to be. -/
def requests (progress : Progress) : List ServiceConfig :=
  progress.asked ++ progress.window.flatMap Slot.requests

/-- The number of steps that are left. -/
def turns (progress : Progress) : Nat :=
  4 * progress.waiting.length + (progress.window.map Slot.turns).sum

end Progress

/-- What holds of a bootstrap that was not refused, at any time. -/
structure Consistent (limit : Nat) (connect : Connect) (configs : List ServiceConfig)
    (progress : Progress) : Prop where
  bounded : progress.running ≤ limit
  once : progress.requests.Subperm progress.connected
  ordered : progress.connected ++ progress.waiting <+: configs
  unfailed : progress.failure? = none →
    progress.services.map .ok ++ progress.pending connect = configs.map (introspected connect)
  failed : ∀ error, progress.failure? = some error → progress.waiting = [] ∧ progress.window = [] ∧
    progress.services.map .ok ++ [.error error] <+: configs.map (introspected connect)

namespace Consistent

theorem ready (limit : Nat) (connect : Connect) (configs : List ServiceConfig) :
    Consistent limit connect configs (.ready configs) where
  bounded := Nat.zero_le _
  once := List.Subperm.refl _
  ordered := List.prefix_refl _
  unfailed _ := rfl
  failed _ h := by cases h

theorem failure?_eq_none (h : Consistent limit connect configs progress)
    (hleft : progress.waiting ≠ [] ∨ progress.window ≠ []) : progress.failure? = none := by
  cases hfailure : progress.failure? with
  | none => rfl
  | some error =>
    obtain ⟨hwaiting, hwindow, _⟩ := h.failed error hfailure
    rcases hleft with hleft | hleft
    · exact absurd hwaiting hleft
    · exact absurd hwindow hleft

/-- A bootstrap that has not failed stays consistent while it does not fail. -/
theorem of_unfailed {progress : Progress} (hfailure : progress.failure? = none)
    (hbounded : progress.running ≤ limit) (honce : progress.requests.Subperm progress.connected)
    (hordered : progress.connected ++ progress.waiting <+: configs)
    (houtlook : progress.services.map .ok ++ progress.pending connect =
      configs.map (introspected connect)) : Consistent limit connect configs progress where
  bounded := hbounded
  once := honce
  ordered := hordered
  unfailed _ := houtlook
  failed error h := by cases hfailure.symm.trans h

theorem takeUp {config : ServiceConfig} {waiting : List ServiceConfig}
    (h : Consistent limit connect configs progress) (hwaiting : progress.waiting = config :: waiting)
    (hroom : progress.running < limit) : Consistent limit connect configs { progress with
      waiting
      window := progress.window ++ [⟨config, .connected (connect config)⟩]
      connected := progress.connected ++ [config] } := by
  have hfailure := h.failure?_eq_none (.inl (by simp [hwaiting]))
  refine of_unfailed hfailure ?_ ?_ ?_ ?_
  · show (progress.window ++ [_]).countP Slot.isRunning ≤ limit
    rw [Progress.running] at hroom
    rw [List.countP_append, List.countP_singleton]
    split <;> omega
  · show (progress.asked ++ (progress.window ++ [_]).flatMap Slot.requests).Subperm
      (progress.connected ++ [config])
    rw [List.flatMap_append, ← List.append_assoc, List.flatMap_singleton]
    exact h.once.append (Slot.requests_sublist config _).subperm
  · have hordered := h.ordered
    rwa [hwaiting, List.append_cons] at hordered
  · have houtlook := h.unfailed hfailure
    rw [Progress.pending, hwaiting, List.map_cons] at houtlook
    have hslot : Slot.outcome ⟨config, .connected (connect config)⟩ = introspected connect config := rfl
    show progress.services.map .ok ++ ((progress.window ++ [_]).map Slot.outcome ++ _) = _
    rw [← houtlook, List.map_append, List.map_singleton, hslot, ← List.append_cons]

theorem advance {before after : List Slot} {slot left : Slot}
    (h : Consistent limit connect configs progress) (hwindow : progress.window = before ++ slot :: after)
    (hnext : slot.next? = some left) : Consistent limit connect configs { progress with
      window := before ++ left :: after
      asked := progress.asked ++ slot.requests } := by
  have hfailure := h.failure?_eq_none (.inr (by simp [hwindow]))
  refine of_unfailed hfailure ?_ ?_ h.ordered ?_
  · have hbounded := h.bounded
    rw [Progress.running, hwindow, List.countP_append, List.countP_cons,
      if_pos (Slot.isRunning_of_next? hnext)] at hbounded
    show (before ++ left :: after).countP Slot.isRunning ≤ limit
    rw [List.countP_append, List.countP_cons]
    split <;> omega
  · have honce := h.once
    rw [Progress.requests, hwindow, List.flatMap_append, List.flatMap_cons] at honce
    show (progress.asked ++ slot.requests ++ (before ++ left :: after).flatMap Slot.requests).Subperm
      progress.connected
    rw [List.flatMap_append, List.flatMap_cons, Slot.requests_of_next? hnext, List.nil_append,
      List.append_assoc]
    -- Who is asked moves from the window to those who were asked.
    exact ((List.perm_append_comm_assoc _ _ _).append_left _).subperm.trans honce
  · have houtlook := h.unfailed hfailure
    rw [Progress.pending, hwindow, List.map_append, List.map_cons] at houtlook
    show progress.services.map .ok ++ ((before ++ left :: after).map Slot.outcome ++ _) = _
    rw [List.map_append, List.map_cons, Slot.outcome_of_next? hnext]
    exact houtlook

theorem deliver {config : ServiceConfig} {service : Service} {window : List Slot}
    (h : Consistent limit connect configs progress)
    (hwindow : progress.window = ⟨config, .settled (.ok service)⟩ :: window) :
    Consistent limit connect configs { progress with
      window
      services := progress.services ++ [service] } := by
  have hfailure := h.failure?_eq_none (.inr (by simp [hwindow]))
  refine of_unfailed hfailure ?_ ?_ h.ordered ?_
  · have hbounded := h.bounded
    rw [Progress.running, hwindow, List.countP_cons] at hbounded
    exact Nat.le_trans (Nat.le_add_right _ _) hbounded
  · have honce := h.once
    rw [Progress.requests, hwindow, List.flatMap_cons] at honce
    exact honce
  · have houtlook := h.unfailed hfailure
    rw [Progress.pending, hwindow, List.map_cons] at houtlook
    show (progress.services ++ [service]).map .ok ++ (window.map Slot.outcome ++ _) = _
    rw [List.map_append, List.append_assoc]
    exact houtlook

theorem fail {config : ServiceConfig} {error : BootstrapError} {window : List Slot}
    (h : Consistent limit connect configs progress)
    (hwindow : progress.window = ⟨config, .settled (.error error)⟩ :: window) :
    Consistent limit connect configs { progress with
      waiting := []
      window := []
      failure? := some error } where
  bounded := Nat.zero_le _
  once := ((List.nil_sublist _).append_left _).subperm.trans h.once
  ordered := by
    rw [List.append_nil]
    exact (List.prefix_append _ _).trans h.ordered
  unfailed hnone := by cases hnone
  failed := by
    rintro _ ⟨⟩
    have houtlook := h.unfailed (h.failure?_eq_none (.inr (by simp [hwindow])))
    rw [Progress.pending, hwindow, List.map_cons] at houtlook
    refine ⟨rfl, rfl, window.map Slot.outcome ++ progress.waiting.map (introspected connect), ?_⟩
    rw [← houtlook, List.append_assoc]
    rfl

theorem step (h : Consistent limit connect configs progress)
    (hstep : Step limit connect progress next) : Consistent limit connect configs next := by
  cases hstep with
  | takeUp hwaiting hroom => exact h.takeUp hwaiting hroom
  | advance hwindow hnext => exact h.advance hwindow hnext
  | deliver hwindow => exact h.deliver hwindow
  | fail hwindow => exact h.fail hwindow

/-- What a bootstrap ends with is decided by what the services come to. -/
theorem result (h : Consistent limit connect configs progress)
    {outcome : Except BootstrapError Registry} (hresult : progress.result? = some outcome) :
    (∃ services : List Service, outcome = .ok ⟨services⟩ ∧
      services.map .ok = configs.map (introspected connect)) ∨
      ∃ (services : List Service) (error : BootstrapError), outcome = .error error ∧
        services.map .ok ++ [.error error] <+: configs.map (introspected connect) := by
  rw [Progress.result?] at hresult
  split at hresult
  · next error hfailure =>
    cases hresult
    exact .inr ⟨_, _, rfl, (h.failed _ hfailure).2.2⟩
  · next hfailure =>
    split at hresult
    · next hempty =>
      cases hresult
      have houtlook := h.unfailed hfailure
      rw [Progress.pending, List.isEmpty_iff.mp hempty.1, List.isEmpty_iff.mp hempty.2, List.map_nil,
        List.map_nil, List.append_nil, List.append_nil] at houtlook
      exact .inl ⟨_, rfl, houtlook⟩
    · cases hresult

end Consistent

theorem exists_step (connect : Connect) (hlimit : 0 < limit)
    (hresult : progress.result? = none) : ∃ next, Step limit connect progress next := by
  cases hwindow : progress.window with
  | cons slot window =>
    cases hnext : slot.next? with
    | some next =>
      have hsplit : progress.window = [] ++ slot :: window := hwindow
      exact ⟨_, .advance hsplit hnext⟩
    | none =>
      obtain ⟨config, outcome, rfl⟩ := Slot.exists_outcome_of_next? hnext
      cases outcome with
      | ok service => exact ⟨_, .deliver hwindow⟩
      | error error => exact ⟨_, .fail hwindow⟩
  | nil =>
    cases hwaiting : progress.waiting with
    | cons config waiting =>
      have hroom : progress.running < limit := by rwa [Progress.running, hwindow, List.countP_nil]
      exact ⟨_, .takeUp hwaiting hroom⟩
    | nil =>
      rw [Progress.result?, hwaiting, hwindow] at hresult
      split at hresult
      · cases hresult
      · cases hresult

/-- The bootstrap that asks one service after the other. -/
def oneByOne (limit : Nat) (connect : Connect) (configs : List ServiceConfig) :
    Except BootstrapError Registry :=
  (bootstrap limit (configs.map fun config => ⟨config, connect config⟩)).map fun done => ⟨done.services⟩

theorem introspect_eq (done : Bootstrapped) (connect : Connect) (config : ServiceConfig) :
    ∃ connections, done.introspect ⟨config, connect config⟩ =
      (introspected connect config).map fun service => ⟨done.services ++ [service], connections⟩ := by
  rw [Bootstrapped.introspect, introspected]
  cases connect config with
  | error error => exact ⟨done.connections, rfl⟩
  | ok link => exact ⟨_, rfl⟩

theorem introspectAll_of_ok {services : List Service} :
    ∀ {configs : List ServiceConfig} (done : Bootstrapped),
      services.map .ok = configs.map (introspected connect) → ∃ connections,
        (configs.map fun config => ⟨config, connect config⟩).foldlM Bootstrapped.introspect done =
          .ok ⟨done.services ++ services, connections⟩ := by
  induction services with
  | nil =>
    intro configs done h
    rw [List.map_eq_nil_iff.mp h.symm, List.append_nil]
    exact ⟨done.connections, rfl⟩
  | cons service services ih =>
    intro configs done h
    obtain ⟨config, configs, rfl, hconfig, hconfigs⟩ := List.map_eq_cons_iff.mp h.symm
    obtain ⟨connections, hintrospect⟩ := introspect_eq done connect config
    rw [hconfig] at hintrospect
    obtain ⟨connections', hrest⟩ := ih ⟨done.services ++ [service], connections⟩ hconfigs.symm
    rw [List.append_assoc] at hrest
    refine ⟨connections', ?_⟩
    rw [List.map_cons, List.foldlM_cons, hintrospect]
    exact hrest

theorem introspectAll_of_error {services : List Service} {error : BootstrapError} :
    ∀ {configs : List ServiceConfig} (done : Bootstrapped),
      services.map .ok ++ [.error error] <+: configs.map (introspected connect) →
      (configs.map fun config => ⟨config, connect config⟩).foldlM Bootstrapped.introspect done =
        .error error := by
  induction services with
  | nil =>
    rintro configs done ⟨rest, h⟩
    obtain ⟨config, configs, rfl, hconfig, _⟩ := List.map_eq_cons_iff.mp h.symm
    obtain ⟨connections, hintrospect⟩ := introspect_eq done connect config
    rw [List.map_cons, List.foldlM_cons, hintrospect, hconfig]
    rfl
  | cons service services ih =>
    rintro configs done ⟨rest, h⟩
    obtain ⟨config, configs, rfl, hconfig, hconfigs⟩ := List.map_eq_cons_iff.mp h.symm
    obtain ⟨connections, hintrospect⟩ := introspect_eq done connect config
    rw [List.map_cons, List.foldlM_cons, hintrospect, hconfig]
    exact ih ⟨done.services ++ [service], connections⟩ ⟨rest, hconfigs.symm⟩

/-- What a bootstrap of services of distinct names may end with: all services in the order of the configuration,
each built of what it replied and found by its name, or the error of the first one that fails. -/
inductive Reports (connect : Connect) (configs : List ServiceConfig) :
    Except BootstrapError Registry → Prop
  | registry {services : List Service} :
    List.Forall₂ (fun config service => Introspects connect config (.ok service)) configs services →
    (∀ service ∈ services, Registry.find? ⟨services⟩ service.name = some service) →
    Reports connect configs (.ok ⟨services⟩)
  | failure {before after : List ServiceConfig} {config : ServiceConfig} {error : BootstrapError} :
    configs = before ++ config :: after →
    (∀ earlier ∈ before, ∃ service, Introspects connect earlier (.ok service)) →
    Introspects connect config (.error error) → Reports connect configs (.error error)

theorem forall₂_introspects {services : List Service}
    (h : services.map .ok = configs.map (introspected connect)) :
    List.Forall₂ (fun config service => Introspects connect config (.ok service)) configs services := by
  have hpairs : List.Forall₂ (· = ·) (configs.map (introspected connect)) (services.map .ok) := by
    rw [h, List.forall₂_eq_eq_eq]
  rw [List.forall₂_map_left_iff, List.forall₂_map_right_iff] at hpairs
  exact hpairs.imp fun config service hservice => hservice ▸ introspects_introspected connect config

theorem map_name_eq {services : List Service}
    (h : List.Forall₂ (fun config service => Introspects connect config (.ok service)) configs services) :
    services.map Service.name = configs.map ServiceConfig.name := by
  induction h with
  | nil => rfl
  | cons hservice _ ih => rw [List.map_cons, List.map_cons, ih, Service.name, hservice.config_eq]

theorem reports_of_ok {services : List Service} (hdistinct : (configs.map ServiceConfig.name).Nodup)
    (h : services.map .ok = configs.map (introspected connect)) :
    Reports connect configs (.ok ⟨services⟩) := by
  have hservices := forall₂_introspects h
  rw [← map_name_eq hservices] at hdistinct
  refine .registry hservices ?_
  intro service hmem
  exact (Registry.find?_eq_some_iff hdistinct).mpr ⟨hmem, rfl⟩

theorem reports_of_error {services : List Service} {error : BootstrapError}
    (h : services.map .ok ++ [.error error] <+: configs.map (introspected connect)) :
    Reports connect configs (.error error) := by
  obtain ⟨rest, h⟩ := h
  rw [List.append_assoc] at h
  obtain ⟨before, others, rfl, hbefore, hothers⟩ := List.map_eq_append_iff.mp h.symm
  obtain ⟨config, after, rfl, hconfig, _⟩ := List.map_eq_cons_iff.mp hothers
  refine .failure rfl ?_ (hconfig ▸ introspects_introspected connect config)
  intro earlier hearlier
  have hmem := List.mem_map_of_mem (f := introspected connect) hearlier
  rw [hbefore] at hmem
  obtain ⟨service, _, hservice⟩ := List.mem_map.mp hmem
  exact ⟨service, hservice ▸ introspects_introspected connect earlier⟩

section Results

variable {outcome : Except BootstrapError Registry}

theorem Consistent.sequential (h : Consistent limit connect configs progress)
    (hresult : progress.result? = some outcome) :
    outcome = (Bootstrapped.introspectAll (configs.map fun config => ⟨config, connect config⟩)).map
      fun done => ⟨done.services⟩ := by
  rw [Bootstrapped.introspectAll]
  rcases h.result hresult with ⟨services, rfl, hservices⟩ | ⟨services, error, rfl, herror⟩
  · obtain ⟨connections, hall⟩ := introspectAll_of_ok ⟨[], ⟨[], []⟩⟩ hservices
    rw [hall]
    rfl
  · rw [introspectAll_of_error ⟨[], ⟨[], []⟩⟩ herror]
    rfl

theorem Consistent.reports (h : Consistent limit connect configs progress)
    (hdistinct : (configs.map ServiceConfig.name).Nodup) (hresult : progress.result? = some outcome) :
    Reports connect configs outcome := by
  rcases h.result hresult with ⟨services, rfl, hservices⟩ | ⟨services, error, rfl, herror⟩
  · exact reports_of_ok hdistinct hservices
  · exact reports_of_error herror

end Results

/-- What holds of a bootstrap at any time, in whatever order the services reply.

A request for a schema has no limits. A service that never answers it would keep the bootstrap waiting; the
request is taken to be given up, here as in `oneByOne`, so that `continues` and `ends` hold of such a service
too. -/
structure Orderly (limit : Nat) (connect : Connect) (configs : List ServiceConfig) (steps : Nat)
    (progress : Progress) : Prop where
  refused : limit = 0 ∨ ¬ (configs.map ServiceConfig.name).Nodup →
    progress.connected = [] ∧ progress.asked = [] ∧
      ∃ error, progress.result? = some (.error (.config error))
  bounded : progress.running ≤ limit
  once : (progress.asked.map ServiceConfig.name).Nodup
  continues : progress.result? = none → ∃ next, Step limit connect progress next
  ends : steps ≤ 4 * configs.length
  sequential : ∀ outcome, progress.result? = some outcome → outcome = oneByOne limit connect configs
  reports : 0 < limit → (configs.map ServiceConfig.name).Nodup →
    ∀ outcome, progress.result? = some outcome → Reports connect configs outcome

end Bootstrap

open Bootstrap

namespace Sample

/-- The services of the sample federation, to be asked for their schemas. -/
def configs : List ServiceConfig := [reviews.config, users.config]

/-- Nobody can reach the service of reviews, and the other one is unavailable. -/
def connect (config : ServiceConfig) : Except TransportError Connection :=
  if config.name = "reviews" then .ok (.unreachable config.name)
  else .ok (.scripted config.name [.status 503])

end Sample

end Supergraph
