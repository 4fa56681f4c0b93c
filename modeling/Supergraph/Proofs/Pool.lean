import Supergraph.Http.Pool

/-!
A socket pool that takes one call at a time is a connection.

Each step changes one call among others, and the number of free sockets (`step_post`, `step_finish`,
`step_interrupt`). A call that is alone takes its steps one after the other.

`Serves` relates a pool with a free socket to the connection that stands for it in a session. A call of the
pool ends with the result of that connection (`Serves.executeAll_eq`), its request is posted if and only if
the connection passes it (`Serves.posts_iff`), and both stay related through calls and closing.
-/

namespace Supergraph.Http

/-- What an exchange is to a connection. One that never ends is silence. -/
def replyOf : Option Exchange → Reply
  | none => .silence
  | some .broken => .failure .network
  | some (.answered status body) => if status = 200 then .response body else .status status

theorem outcome?_replyOf (exchange : Option Exchange) :
    (replyOf exchange).outcome? = exchange.map Exchange.outcome := by
  cases exchange with
  | none => rfl
  | some exchange =>
    cases exchange with
    | broken => rfl
    | answered status body =>
      by_cases hstatus : status = 200
      · rw [replyOf, if_pos hstatus, Option.map_some, Exchange.outcome, if_pos hstatus, Reply.outcome?]
        cases body.bind Response.ofRaw? <;> rfl
      · rw [replyOf, if_neg hstatus, Option.map_some, Exchange.outcome, if_neg hstatus, Reply.outcome?]

namespace Pool

variable {pool : Pool}

/-! ## The steps of a call -/

section Steps

variable {isOpen : Bool} {free : Option Nat} {before after : List Call}

theorem step_post (hsocket : free ≠ some 0) :
    step ⟨true, free, before ++ .waiting :: after⟩ (.post before.length) =
      ⟨true, free.map (· - 1), before ++ .posting :: after⟩ := by
  simp [step, hsocket]

theorem step_post_of_closed :
    step ⟨false, free, before ++ .waiting :: after⟩ (.post before.length) =
      ⟨false, free, before ++ .ended (.error .closed) :: after⟩ := by
  simp [step, finishWith]

theorem step_finish (exchange : Exchange) :
    step ⟨isOpen, free, before ++ .posting :: after⟩ (.finish before.length exchange) =
      ⟨isOpen, free.map (· + 1), before ++ .ended exchange.outcome :: after⟩ := by
  simp [step, finishWith, release]

theorem step_interrupt (error : TransportError) :
    step ⟨isOpen, free, before ++ .posting :: after⟩ (.interrupt before.length error) =
      ⟨isOpen, free.map (· + 1), before ++ .ended (.error error) :: after⟩ := by
  simp [step, finishWith, release]

theorem step_interrupt_of_waiting (error : TransportError) :
    step ⟨isOpen, free, before ++ .waiting :: after⟩ (.interrupt before.length error) =
      ⟨isOpen, free, before ++ .ended (.error error) :: after⟩ := by
  simp [step, finishWith]

end Steps

/-! ## A call that is alone -/

theorem step_start (pool : Pool) : pool.step .start =
    { pool with calls := pool.calls ++ [if pool.isOpen then .waiting else .ended (.error .closed)] } := rfl

theorem step_post_last (hopen : pool.isOpen = true) (hsocket : pool.free ≠ some 0) :
    step { pool with calls := pool.calls ++ [.waiting] } (.post pool.calls.length) =
      { pool with free := pool.free.map (· - 1), calls := pool.calls ++ [.posting] } := by
  rw [hopen]
  exact step_post hsocket

/-- The call ends within its limits, and gives its socket back. -/
theorem step_conclusion (hsocket : pool.free ≠ some 0) (exchange : Option Exchange)
    (context : RequestContext) :
    step { pool with free := pool.free.map (· - 1), calls := pool.calls ++ [.posting] }
        (conclusion pool.calls.length exchange context) =
      { pool with calls := pool.calls ++ [.ended (context.guard (exchange.map Exchange.outcome))] } := by
  have hfree : (pool.free.map (· - 1)).map (· + 1) = pool.free := by
    cases hfree : pool.free with
    | none => rfl
    | some count =>
      have hpositive : count ≠ 0 := fun hzero => hsocket (hzero ▸ hfree)
      simp only [Option.map_some, Option.some.injEq]
      omega
  unfold conclusion
  rw [RequestContext.guard]
  by_cases hcancelled : context.cancellation = some 0
  · rw [if_pos hcancelled, if_pos hcancelled, step_interrupt, hfree]
  · rw [if_neg hcancelled, if_neg hcancelled]
    cases exchange with
    | none => exact (step_interrupt context.expiry).trans (by rw [hfree]; rfl)
    | some exchange => exact (step_finish exchange).trans (by rw [hfree]; rfl)

theorem step_post_of_ended (pool : Pool) (result : Except TransportError Response) :
    step { pool with calls := pool.calls ++ [.ended result] } (.post pool.calls.length) =
      { pool with calls := pool.calls ++ [.ended result] } := by
  simp [step]

theorem step_conclusion_of_ended (pool : Pool) (result : Except TransportError Response)
    (exchange : Option Exchange) (context : RequestContext) :
    step { pool with calls := pool.calls ++ [.ended result] }
        (conclusion pool.calls.length exchange context) =
      { pool with calls := pool.calls ++ [.ended result] } := by
  unfold conclusion
  split
  · simp [step]
  · split <;> simp [step]

/-! ## Pools as connections -/

/-- The pool has a free socket, and the connection stands for it. -/
structure Serves (pool : Pool) (link : Connection) : Prop where
  isOpen : link.isOpen = pool.isOpen
  reachable : link.reachable = true
  socket : pool.free ≠ some 0

theorem serves_ofConfig (config : ServiceConfig) (replies : List Reply) :
    (ofConfig config).Serves (.scripted config.name replies) where
  isOpen := rfl
  reachable := rfl
  socket := by simp [ofConfig]

namespace Serves

variable {link : Connection}

theorem passes_eq (h : pool.Serves link) : link.passes = pool.isOpen := by
  rw [Connection.passes, h.isOpen, h.reachable, Bool.and_true]

/-- A call by itself ends like a request on the connection, and leaves nothing else behind. -/
theorem executeAll_eq (h : pool.Serves link) {exchange : Option Exchange}
    (hreply : link.nextReply = replyOf exchange) (context : RequestContext) :
    pool.executeAll [exchange] context =
      { pool with calls := pool.calls ++ [.ended (link.result context)] } := by
  have hrun : pool.executeAll [exchange] context = ((pool.step .start).step (.post pool.calls.length)).step
      (conclusion pool.calls.length exchange context) := rfl
  rw [hrun, step_start, Connection.result, h.isOpen, hreply, outcome?_replyOf]
  by_cases hopen : pool.isOpen = true
  · rw [if_pos hopen, if_pos hopen, step_post_last hopen h.socket, step_conclusion h.socket]
  · rw [if_neg hopen, if_neg hopen, step_post_of_ended, step_conclusion_of_ended]

/-- The request of such a call is posted if and only if the connection passes it. -/
theorem posts_iff (h : pool.Serves link) :
    ((pool.step .start).step (.post pool.calls.length)).calls[pool.calls.length]? = some .posting ↔
      link.passes = true := by
  rw [h.passes_eq, step_start]
  by_cases hopen : pool.isOpen = true
  · rw [if_pos hopen, step_post_last hopen h.socket]
    simp [hopen]
  · simp [step, hopen]

theorem executeAll (h : pool.Serves link) {exchange : Option Exchange}
    (hreply : link.nextReply = replyOf exchange) (context : RequestContext) :
    (pool.executeAll [exchange] context).Serves link.advance := by
  rw [h.executeAll_eq hreply, Connection.advance]
  split <;> exact ⟨h.isOpen, h.reachable, h.socket⟩

theorem close (h : pool.Serves link) : (pool.step .close).Serves link.close :=
  ⟨rfl, h.reachable, h.socket⟩

end Serves

end Pool

end Supergraph.Http
