import Mathlib.Data.List.Basic
import Supergraph.Http.Traffic
import Supergraph.Proofs.Pool

/-!
What scheduled calls keep to, whatever they do and in whichever order.

1. `Turn.permits_eq` and `Turn.consistent` say what one turn of a call keeps: the number of permits that are
   free or held, and that a call which has not posted gets no answer.
2. `Accounted.run`: so every run keeps them. The calls in flight are among those that hold a permit.
3. `shut_of_run`: once closed, a service stays closed, and no further call posts.
4. `exists_steps_of_run`: what the calls come to turn by turn, they come to in the pool, which takes a grant
   and a post, or a status and a body, in one step.
5. `calls_orderly` puts these together.
-/

namespace Supergraph.Http

/-! ## One turn -/

namespace Stage

theorem holds_of_inFlight {stage : Stage} (h : stage.inFlight = true) : stage.holds = true := by
  cases stage with
  | sending => rfl
  | receiving => rfl
  | _ => cases h

def sockets (stage : Stage) : Nat := if stage.inFlight then 1 else 0

/-- Where the call stands in the pool, which takes no notice of permits and of statuses by themselves. -/
def call : Stage → Call
  | queued | granted => .waiting
  | sending | receiving => .posting
  | ended result => .ended result

theorem call_of_inFlight {stage : Stage} (h : stage.inFlight = true) : stage.call = .posting := by
  cases stage with
  | sending => rfl
  | receiving => rfl
  | _ => cases h

theorem call_of_waiting {stage : Stage} (hlive : stage.isEnded = false) (h : ¬ stage.inFlight = true) :
    stage.call = .waiting := by
  cases stage with
  | queued => rfl
  | granted => rfl
  | ended => cases hlive
  | _ => exact absurd rfl h

end Stage

/-- The errors that end a call for which no request was posted. -/
def Caller.GivesUp (caller : Caller) (error : TransportError) : Prop :=
  error = .closed ∨ Interrupts caller.deadline error

/-- A call in flight has posted, and a call that ended without having posted was turned away or interrupted. -/
structure Caller.Consistent (caller : Caller) : Prop where
  posted : caller.stage.inFlight = true → caller.posted = true
  unanswered : caller.posted = false → ∀ result, caller.stage = .ended result →
    ∃ error, result = .error error ∧ caller.GivesUp error

theorem Caller.Consistent.waits {caller : Caller} (h : caller.Consistent) (hposted : caller.posted = false) :
    caller.stage.inFlight = false := by
  by_contra hflight
  cases hposted.symm.trans (h.posted (by simpa using hflight))

theorem Ends.givesUp {isOpen : Bool} {caller : Caller} {result : Except TransportError Response}
    (h : Ends isOpen caller result) (hwaits : caller.stage.inFlight = false) :
    ∃ error, result = .error error ∧ caller.GivesUp error := by
  cases h with
  | turnedAway => exact ⟨.closed, rfl, .inl rfl⟩
  | refused => exact ⟨.closed, rfl, .inl rfl⟩
  | rejected _ hstage => rw [hstage] at hwaits; cases hwaits
  | answered _ hstage => rw [hstage] at hwaits; cases hwaits
  | broken hflight => rw [hflight] at hwaits; cases hwaits
  | interrupted _ herror => exact ⟨_, rfl, .inr herror⟩

namespace Turn

variable {isOpen : Bool} {caller next : Caller} {free left : Nat}

theorem permits_eq (h : Turn isOpen free caller left next) :
    left + next.stage.permits = free + caller.stage.permits := by
  cases h with
  | granted _ hstage => simp [hstage, Stage.permits, Stage.holds]
  | posted _ hstage => simp [hstage, Stage.permits, Stage.holds]
  | accepted hstage => simp [hstage, Stage.permits, Stage.holds]
  | ended => simp [Caller.endWith, Stage.permits, Stage.holds]

theorem consistent (h : Turn isOpen free caller left next) (hcaller : caller.Consistent) :
    next.Consistent := by
  cases h with
  | granted => exact ⟨nofun, nofun⟩
  | posted => exact ⟨fun _ => rfl, nofun⟩
  | accepted hstage => exact ⟨fun _ => hcaller.posted (by rw [hstage]; rfl), nofun⟩
  | ended hends =>
    refine ⟨nofun, fun hposted result hresult => ?_⟩
    cases hresult
    exact hends.givesUp (hcaller.waits hposted)

theorem dismisses (h : Turn false free caller left next) (hwaits : caller.stage.inFlight = false) :
    ∃ error, next = caller.endWith (.error error) ∧ caller.GivesUp error := by
  cases h with
  | granted hopen => cases hopen
  | posted hopen => cases hopen
  | accepted hstage => rw [hstage] at hwaits; cases hwaits
  | ended hends =>
    obtain ⟨error, rfl, herror⟩ := hends.givesUp hwaits
    exact ⟨error, rfl, herror⟩

theorem posted_eq (h : Turn false free caller left next) : next.posted = caller.posted := by
  cases h with
  | granted hopen => cases hopen
  | posted hopen => cases hopen
  | accepted => rfl
  | ended => rfl

end Turn

namespace Traffic

variable {traffic next later : Traffic} {before after : List Caller} {caller : Caller} {sockets : Nat}

/-! ## Permits -/

/-- The number of calls at stages of a kind. -/
def count (traffic : Traffic) (kind : Stage → Bool) : Nat :=
  traffic.callers.countP fun caller => kind caller.stage

def held (traffic : Traffic) : Nat := traffic.count Stage.holds

def inFlight (traffic : Traffic) : Nat := traffic.count Stage.inFlight

theorem inFlight_le_held (traffic : Traffic) : traffic.inFlight ≤ traffic.held :=
  List.countP_mono_left fun _ _ => Stage.holds_of_inFlight

section Append

/-- The number of calls at stages of a kind, beside one call. -/
def others (kind : Stage → Bool) (before after : List Caller) : Nat :=
  before.countP (fun caller => kind caller.stage) + after.countP fun caller => kind caller.stage

variable (h : traffic.callers = before ++ caller :: after)

include h

theorem count_of_append (kind : Stage → Bool) :
    traffic.count kind = others kind before after + if kind caller.stage then 1 else 0 := by
  simp only [count, others, h, List.countP_append, List.countP_cons]
  omega

theorem held_of_append :
    traffic.held = others Stage.holds before after + caller.stage.permits :=
  count_of_append h Stage.holds

theorem inFlight_of_append :
    traffic.inFlight = others Stage.inFlight before after + caller.stage.sockets :=
  count_of_append h Stage.inFlight

end Append

/-- All permits are free or held, and the calls are consistent. -/
structure Accounted (sockets : Nat) (traffic : Traffic) : Prop where
  permits : traffic.free + traffic.held = min sockets socketLimit
  consistent : ∀ caller ∈ traffic.callers, caller.Consistent

theorem accounted_start (sockets : Nat) : Accounted sockets (start sockets) where
  permits := rfl
  consistent := nofun

theorem consistent_entrant (traffic : Traffic) (deadline : Option Nat) :
    (traffic.entrant deadline).Consistent := by
  rw [entrant]
  split
  · exact ⟨nofun, nofun⟩
  · refine ⟨nofun, fun _ result hresult => ?_⟩
    cases hresult
    exact ⟨.closed, rfl, .inl rfl⟩

theorem holds_entrant (traffic : Traffic) (deadline : Option Nat) :
    (traffic.entrant deadline).stage.holds = false := by
  rw [entrant]
  split <;> rfl

theorem Accounted.step (h : Accounted sockets traffic) (hstep : Step traffic next) :
    Accounted sockets next := by
  cases hstep with
  | enter deadline =>
    constructor
    case permits =>
      have hheld : held { traffic with callers := traffic.callers ++ [traffic.entrant deadline] } =
          traffic.held := by
        simp [held, count, holds_entrant]
      rw [hheld]
      exact h.permits
    case consistent =>
      rw [List.forall_mem_append]
      exact ⟨h.consistent, List.forall_mem_singleton.mpr (traffic.consistent_entrant deadline)⟩
  | @turn before after caller next free hcallers hturn =>
    have hconsistent := h.consistent
    rw [hcallers, List.forall_mem_append, List.forall_mem_cons] at hconsistent
    obtain ⟨hbefore, hcaller, hafter⟩ := hconsistent
    constructor
    case permits =>
      -- The other calls hold what they held, and this one trades with the free permits.
      have hpermits := h.permits
      have hkept := hturn.permits_eq
      rw [held_of_append hcallers] at hpermits
      show free + held _ = _
      rw [held_of_append rfl]
      omega
    case consistent =>
      rw [List.forall_mem_append, List.forall_mem_cons]
      exact ⟨hbefore, hturn.consistent hcaller, hafter⟩
  | close => exact ⟨h.permits, h.consistent⟩

theorem Accounted.run (h : Accounted sockets traffic) (hrun : Run traffic later) :
    Accounted sockets later := by
  induction hrun with
  | here => exact h
  | step _ hstep ih => exact ih.step hstep

/-- A call that has not posted is not in flight, and if it ended it was turned away or interrupted. -/
def Unanswered (traffic : Traffic) : Prop :=
  ∀ caller ∈ traffic.callers, caller.posted = false → caller.stage.inFlight = false ∧
    ∀ result, caller.stage = .ended result → ∃ error, result = .error error ∧ caller.GivesUp error

theorem Accounted.unanswered (h : Accounted sockets traffic) : traffic.Unanswered :=
  fun caller hmem hposted =>
    ⟨(h.consistent caller hmem).waits hposted, (h.consistent caller hmem).unanswered hposted⟩

theorem Accounted.inFlight_le (h : Accounted sockets traffic) : traffic.inFlight ≤ sockets := by
  have hheld := traffic.inFlight_le_held
  have hpermits := h.permits
  omega

/-! ## Closing -/

/-- Since an earlier state the service is closed, and no call has posted, neither one of those that had
entered nor a further one. -/
structure ShutSince (earlier later : Traffic) : Prop where
  closed : later.isOpen = false
  posted : ∃ entered, later.callers.map Caller.posted =
    earlier.callers.map Caller.posted ++ List.replicate entered false

theorem ShutSince.step {earlier : Traffic} (h : ShutSince earlier traffic) (hstep : Step traffic next) :
    ShutSince earlier next := by
  obtain ⟨hclosed, entered, hposted⟩ := h
  cases hstep with
  | enter deadline =>
    refine ⟨hclosed, entered + 1, ?_⟩
    rw [List.map_append, hposted, List.replicate_succ', List.append_assoc]
    rfl
  | turn hcallers hturn =>
    -- One call takes a turn, and has posted after it if and only if it had before.
    refine ⟨hclosed, entered, ?_⟩
    rw [hclosed] at hturn
    rw [← hposted, hcallers]
    simp only [List.map_append, List.map_cons, hturn.posted_eq]
  | close => exact ⟨rfl, entered, hposted⟩

theorem shut_of_run (hclosed : traffic.isOpen = false) (h : Run traffic later) :
    ShutSince traffic later := by
  induction h with
  | here => exact ⟨hclosed, 0, (List.append_nil _).symm⟩
  | step _ hstep ih => exact ih.step hstep

end Traffic

/-! ## The pool -/

/-- A call ends in the pool with the same result, and its socket is one of those that are free or its own. -/
theorem Ends.exists_step {isOpen : Bool} {caller : Caller} {result : Except TransportError Response}
    (h : Ends isOpen caller result) {free : Nat} (before after : List Call) :
    ∃ step, Pool.step ⟨isOpen, some free, before ++ caller.stage.call :: after⟩ step =
      ⟨isOpen, some (free + caller.stage.sockets), before ++ .ended result :: after⟩ := by
  cases h with
  | turnedAway hclosed hstage =>
    rw [hclosed, hstage]
    exact ⟨_, Pool.step_post_of_closed⟩
  | refused hclosed hstage =>
    rw [hclosed, hstage]
    exact ⟨_, Pool.step_post_of_closed⟩
  | @rejected status hstatus hstage =>
    have houtcome : (Exchange.answered status none).outcome = .error (.unexpectedStatus status) :=
      if_neg hstatus
    rw [hstage, ← houtcome]
    exact ⟨_, Pool.step_finish _⟩
  | answered body hstage =>
    rw [hstage]
    exact ⟨_, Pool.step_finish _⟩
  | broken hflight =>
    rw [Stage.call_of_inFlight hflight, Stage.sockets, if_pos hflight]
    exact ⟨_, Pool.step_finish .broken⟩
  | @interrupted error hlive _ =>
    by_cases hflight : caller.stage.inFlight = true
    · rw [Stage.call_of_inFlight hflight, Stage.sockets, if_pos hflight]
      exact ⟨_, Pool.step_interrupt error⟩
    · rw [Stage.call_of_waiting hlive hflight, Stage.sockets, if_neg hflight]
      exact ⟨_, Pool.step_interrupt_of_waiting error⟩

/-- What a turn of a call does, the pool does in a step or in none. Of the `count` sockets that the other calls
leave, the call takes one while it is in flight. -/
theorem Turn.exists_steps {isOpen : Bool} {free left count : Nat} {caller next : Caller}
    (h : Turn isOpen free caller left next) (hcaller : caller.stage.sockets ≤ count)
    (hnext : next.stage.sockets ≤ count) (before after : List Call) :
    ∃ steps, Pool.run ⟨isOpen, some (count - caller.stage.sockets), before ++ caller.stage.call :: after⟩
        steps =
      ⟨isOpen, some (count - next.stage.sockets), before ++ next.stage.call :: after⟩ := by
  cases h with
  | granted _ hstage =>
    rw [hstage]
    exact ⟨[], rfl⟩
  | posted hopen hstage =>
    obtain ⟨rest, rfl⟩ : ∃ rest, count = rest + 1 := Nat.exists_eq_add_of_le' hnext
    have hsocket : some (rest + 1) ≠ some 0 := by simp
    rw [hopen, hstage]
    exact ⟨[.post before.length], @Pool.step_post (some (rest + 1)) before after hsocket⟩
  | accepted hstage =>
    rw [hstage]
    exact ⟨[], rfl⟩
  | ended hends =>
    obtain ⟨step, hstep⟩ := hends.exists_step before after
    rw [Nat.sub_add_cancel hcaller] at hstep
    exact ⟨[step], hstep⟩

namespace Traffic

variable {traffic next : Traffic} {sockets : Nat}

/-- The calls as the pool has them: a socket is taken by a call in flight. -/
def pool (traffic : Traffic) (sockets : Nat) : Pool :=
  ⟨traffic.isOpen, some (sockets - traffic.inFlight), traffic.callers.map fun caller => caller.stage.call⟩

theorem pool_of_append {before after : List Caller} {caller : Caller}
    (h : traffic.callers = before ++ caller :: after) : traffic.pool sockets =
    ⟨traffic.isOpen, some (sockets - others Stage.inFlight before after - caller.stage.sockets),
      before.map (fun caller => caller.stage.call) ++
        caller.stage.call :: after.map fun caller => caller.stage.call⟩ := by
  rw [pool, inFlight_of_append h, h, List.map_append, List.map_cons, Nat.sub_sub]

theorem exists_steps_of_step (h : Accounted sockets traffic) (hstep : Step traffic next) :
    ∃ steps, (traffic.pool sockets).run steps = next.pool sockets := by
  have hle := h.inFlight_le
  have hnext := (h.step hstep).inFlight_le
  cases hstep with
  | enter deadline =>
    refine ⟨[.start], ?_⟩
    have hwaits : (traffic.entrant deadline).stage.inFlight = false := by
      rw [entrant]
      split <;> rfl
    have hcall : (traffic.entrant deadline).stage.call =
        if traffic.isOpen then .waiting else .ended (.error .closed) := by
      rw [entrant]
      split <;> rfl
    simp [Pool.run, Pool.step, pool, inFlight, count, hwaits, hcall]
  | close => exact ⟨[.close], rfl⟩
  | @turn before after caller next free hcallers hturn =>
    have hturned : callers { traffic with free, callers := before ++ next :: after } =
        before ++ next :: after := rfl
    rw [inFlight_of_append hcallers] at hle
    rw [inFlight_of_append hturned] at hnext
    rw [pool_of_append hcallers, pool_of_append hturned]
    -- The sockets that the others leave are enough for the call, before its turn and after it.
    have hcaller : caller.stage.sockets ≤ sockets - others Stage.inFlight before after := by omega
    have hafter : next.stage.sockets ≤ sockets - others Stage.inFlight before after := by omega
    exact hturn.exists_steps hcaller hafter _ _

/-- Every run is a run of the pool. -/
theorem exists_steps_of_run (h : Run (start sockets) traffic) :
    ∃ steps, Pool.run ⟨true, some sockets, []⟩ steps = traffic.pool sockets := by
  induction h with
  | here => exact ⟨[], rfl⟩
  | step hrun hstep ih =>
    obtain ⟨steps, hsteps⟩ := ih
    obtain ⟨further, hfurther⟩ := exists_steps_of_step ((accounted_start sockets).run hrun) hstep
    refine ⟨steps ++ further, ?_⟩
    rw [← hfurther, ← hsteps]
    exact List.foldl_append

/-! ## Every run -/

/-- What holds of the calls of a service that may use so many sockets.

At most so many are in flight. Each permit is free or held, and a call gives its permit back however it ends,
so that a queued call can be granted one unless calls that have not ended hold them all. Without having posted
no call is answered. Once the service is closed it stays so, and no call posts any more; a call that has not
posted can be turned away then, and can do nothing but end without an answer. -/
structure Orderly (sockets : Nat) (traffic : Traffic) : Prop where
  bound : traffic.inFlight ≤ sockets
  permits : traffic.free + traffic.held = min sockets socketLimit
  returned : ∀ caller left result,
    Turn traffic.isOpen traffic.free caller left (caller.endWith result) →
      left = traffic.free + caller.stage.permits
  unblocked : traffic.isOpen = true → ∀ caller ∈ traffic.callers, caller.stage = .queued →
    (∃ left, Turn true traffic.free caller left { caller with stage := .granted }) ∨
      traffic.held = min sockets socketLimit ∧
        ∃ holder ∈ traffic.callers, holder.stage.holds = true ∧ holder.stage.isEnded = false
  unanswered : traffic.Unanswered
  shut : traffic.isOpen = false → ∀ later, Run traffic later →
    ShutSince traffic later ∧ later.Unanswered
  dismissed : traffic.isOpen = false → ∀ caller ∈ traffic.callers, caller.posted = false →
    caller.stage.isEnded = false →
    (∃ left, Turn false traffic.free caller left (caller.endWith (.error .closed))) ∧
    ∀ left next, Turn false traffic.free caller left next →
      ∃ error, next = caller.endWith (.error error) ∧ caller.GivesUp error

theorem exists_holder (h : 0 < traffic.held) :
    ∃ holder ∈ traffic.callers, holder.stage.holds = true ∧ holder.stage.isEnded = false := by
  obtain ⟨holder, hmem, hholds⟩ := List.countP_pos_iff.mp h
  refine ⟨holder, hmem, hholds, ?_⟩
  cases hstage : holder.stage with
  | ended => rw [hstage] at hholds; cases hholds
  | _ => rfl

theorem orderly_of_accounted (h : Accounted sockets traffic) (hpos : 0 < sockets) :
    Orderly sockets traffic where
  bound := h.inFlight_le
  permits := h.permits
  returned caller left result hturn := hturn.permits_eq
  unblocked hopen caller hmem hstage := by
    have hpermits := h.permits
    cases hfree : traffic.free with
    | zero =>
      -- All permits are held, and there is at least one.
      have hheld : traffic.held = min sockets socketLimit := by omega
      have hlimit : 0 < socketLimit := by decide
      exact .inr ⟨hheld, exists_holder (by omega)⟩
    | succ left => exact .inl ⟨left, .granted rfl hstage⟩
  unanswered := h.unanswered
  shut hclosed later hrun := ⟨shut_of_run hclosed hrun, (h.run hrun).unanswered⟩
  dismissed hclosed caller hmem hposted hlive := by
    have hwaits := (h.consistent caller hmem).waits hposted
    constructor
    · cases hstage : caller.stage with
      | queued => exact ⟨_, .ended (.turnedAway rfl hstage)⟩
      | granted => exact ⟨_, .ended (.refused rfl hstage)⟩
      | ended => rw [hstage] at hlive; cases hlive
      | _ => rw [hstage] at hwaits; cases hwaits
    · exact fun left next hturn => hturn.dismisses hwaits

/-- The calls of a service with a bounded number of sockets are orderly after every run, and the pool of the
service comes to the same calls. -/
theorem calls_orderly {config : ServiceConfig} (hconfig : config.maxSockets = some sockets)
    (hpos : 0 < sockets) (hrun : Run (start sockets) traffic) :
    Orderly sockets traffic ∧ ∃ steps, (Pool.ofConfig config).run steps = traffic.pool sockets := by
  refine ⟨orderly_of_accounted ((accounted_start sockets).run hrun) hpos, ?_⟩
  have hpool : Pool.ofConfig config = ⟨true, some sockets, []⟩ := by
    simp [Pool.ofConfig, hconfig, hpos]
  rw [hpool]
  exact exists_steps_of_run hrun

/-- A service with one socket. -/
def narrow : ServiceConfig := { ServiceConfig.ofAddress "users" "" with maxSockets := some 1 }

/-- Two calls enter and the first one posts. The service is closed, and the second call turned away. -/
def dismissedTraffic : Traffic :=
  ⟨false, 0, [⟨none, .sending, true⟩, ⟨some 50, .ended (.error .closed), false⟩]⟩

theorem calls_orderly_dismissed : narrow.maxSockets = some 1 ∧ 0 < 1 ∧
    Run (start 1) dismissedTraffic ∧ Orderly 1 dismissedTraffic := by
  have hentered : Run (start 1) ⟨true, 1, [⟨none, .queued, false⟩, ⟨some 50, .queued, false⟩]⟩ :=
    .step (.step .here (.enter none)) (.enter (some 50))
  have hgranted : Run (start 1) ⟨true, 0, [⟨none, .granted, false⟩, ⟨some 50, .queued, false⟩]⟩ :=
    .step hentered (@Step.turn _ [] _ _ _ _ rfl (.granted rfl rfl))
  have hposted : Run (start 1) ⟨true, 0, [⟨none, .sending, true⟩, ⟨some 50, .queued, false⟩]⟩ :=
    .step hgranted (@Step.turn _ [] _ _ _ _ rfl (.posted rfl rfl))
  have hclosed : Run (start 1) ⟨false, 0, [⟨none, .sending, true⟩, ⟨some 50, .queued, false⟩]⟩ :=
    .step hposted .close
  have hrun : Run (start 1) dismissedTraffic :=
    .step hclosed (@Step.turn _ [⟨none, .sending, true⟩] [] _ _ _ rfl (.ended (.turnedAway rfl rfl)))
  have hconfig : narrow.maxSockets = some 1 := rfl
  obtain ⟨horderly, _⟩ := calls_orderly hconfig Nat.one_pos hrun
  exact ⟨hconfig, Nat.one_pos, hrun, horderly⟩

end Traffic

end Supergraph.Http
