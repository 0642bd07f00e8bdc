import Cprogramming.EventServer.Delivery

/-!
# The lifetime of a connection

The callbacks of `main.c` for one connection, with its three event objects and its
request. An event fires only while it is added; the timer is added once. There is no
result where a callback uses an object that is `NULL` or freed.

The timer callback deletes `req->read`, which the read callback has freed and set to
`NULL` when the request is done.
-/

namespace Cprogramming.EventServer.Lifetime

open Delivery
open Library.Runs

set_option autoImplicit false

/-! ## Event objects -/

/-- An event object: whether the pointer in the request is set, whether the object is
allocated and whether libevent has it. -/
structure Event where
  set : Bool
  alive : Bool
  added : Bool
deriving DecidableEq

def Event.null : Event := ⟨false, false, false⟩

def Event.new : Event := ⟨true, true, true⟩

def Event.del (event : Event) : Option Event :=
  if event.set ∧ event.alive then some { event with added := false } else none

def Event.free (event : Event) : Option Event :=
  if event.set = false then some event
  else if event.alive then some { event with alive := false }
  else none

def Event.drop (event : Event) : Option Event := do
  let deleted ← event.del
  let freed ← deleted.free
  return { freed with set := false }

def Event.dropSet (event : Event) : Option Event :=
  if event.set then event.drop else some event

def Event.release (event : Event) : Option Event :=
  if event.set then event.del.bind Event.free else some event

/-! ## The connection -/

/-- `struct req`, with the number of times that it has been freed. -/
structure Connection where
  read : Event
  write : Event
  time : Event
  done : Bool
  response : Response
  frees : Nat

def accepted : Connection := ⟨.new, .null, .new, false, newResponse [] [], 0⟩

inductive Owner where
  | time
  | write
deriving DecidableEq

/-- The timer is dropped unless it is the event that the request is freed with. -/
def freeReq (connection : Connection) : Owner → Option Connection
  | .time => do
    let time ← connection.time.release
    return { connection with time := time, frees := connection.frees + 1 }
  | .write => do
    let time ← connection.time.dropSet
    let write ← connection.write.release
    return { connection with time := time, write := write, frees := connection.frees + 1 }

def eventFree (connection : Connection) : Option Connection := do
  let read ← connection.read.drop
  freeReq { connection with read := read } .time

def eventWrite (connection : Connection) (result : SendResult) : Option Connection := do
  let time ← connection.time.dropSet
  let response := Delivery.eventWrite connection.response result
  if response.freed then freeReq { connection with time := time, response := response } .write
  else return { connection with time := time, response := response }

/-- The request is not complete, or it is done and this is the response. -/
inductive ReadOutcome where
  | again
  | finished (header body : List UInt8)

def eventRead (connection : Connection) : ReadOutcome → Option Connection
  | .again => some connection
  | .finished header body => do
    let read ← connection.read.drop
    return { connection with
      read := read
      write := .new
      done := true
      response := newResponse header body }

inductive Fires where
  | read (outcome : ReadOutcome)
  | write (result : SendResult)
  | timer

def used (connection : Connection) (callback : Option Connection) : Option Connection :=
  if connection.frees = 0 then callback else none

def fire (connection : Connection) : Fires → Option Connection
  | .read outcome =>
    if connection.read.added then used connection (eventRead connection outcome)
    else some connection
  | .write result =>
    if connection.write.added then used connection (eventWrite connection result)
    else some connection
  | .timer =>
    if connection.time.added then
      used connection
        (eventFree { connection with time := { connection.time with added := false } })
    else some connection

def step (connection : Option Connection) (event : Fires) : Option Connection :=
  connection.bind fun connection => fire connection event

/-! ## Safety -/

variable {connection : Connection}

structure Released (connection : Connection) : Prop where
  once : connection.frees ≤ 1
  deleted : connection.frees ≠ 0 → connection.read.added = false ∧
    connection.write.added = false ∧ connection.time.added = false

def Safe : Option Connection → Prop
  | none => False
  | some connection => Released connection

def InTime (connection : Option Connection) : Fires → Prop
  | .timer => ∀ request ∈ connection, request.time.added = true → request.done = false
  | .read _ | .write _ => True

inductive Stage (connection : Connection) : Prop
  | reading (read : connection.read = .new) (write : connection.write = .null)
      (time : connection.time = .new) (done : connection.done = false)
      (frees : connection.frees = 0)
  | answering (read : connection.read = .null) (write : connection.write = .new)
      (time : connection.time = .new) (done : connection.done = true)
      (frees : connection.frees = 0)
  | writing (read : connection.read = .null) (write : connection.write = .new)
      (time : connection.time = .null) (done : connection.done = true)
      (frees : connection.frees = 0)
  | closed (read : connection.read.added = false) (write : connection.write.added = false)
      (time : connection.time.added = false) (frees : connection.frees = 1)

theorem stage_safe (stage : Stage connection) : Released connection := by
  cases stage with
  | reading _ _ _ _ frees | answering _ _ _ _ frees | writing _ _ _ _ frees =>
    exact ⟨by omega, fun impossible => absurd frees impossible⟩
  | closed read write time frees => exact ⟨by omega, fun _ => ⟨read, write, time⟩⟩

theorem new_drop : Event.new.drop = some .null := rfl

theorem stage_read (outcome : ReadOutcome) (stage : Stage connection) :
    ∃ next, fire connection (.read outcome) = some next ∧ Stage next := by
  have idle : connection.read.added = false →
      fire connection (.read outcome) = some connection := by
    intro off
    rw [fire, off]
    rfl
  cases stage with
  | reading read write time done frees =>
    have added : connection.read.added = true := by rw [read]; rfl
    simp only [fire, added, if_true, used, frees]
    cases outcome with
    | again => exact ⟨connection, rfl, .reading read write time done frees⟩
    | finished header body =>
      simp only [eventRead, read, new_drop]
      exact ⟨_, rfl, .answering rfl rfl time rfl frees⟩
  | answering read write time done frees =>
    exact ⟨connection, idle (by rw [read]; rfl), .answering read write time done frees⟩
  | writing read write time done frees =>
    exact ⟨connection, idle (by rw [read]; rfl), .writing read write time done frees⟩
  | closed read write time frees =>
    exact ⟨connection, idle read, .closed read write time frees⟩

/-- The first call drops the timer; the last one frees the request. -/
theorem write_stage (result : SendResult) (read : connection.read = .null)
    (write : connection.write = .new) (time : connection.time = .new ∨ connection.time = .null)
    (done : connection.done = true) (frees : connection.frees = 0) :
    ∃ next, eventWrite connection result = some next ∧ Stage next := by
  have dropped : connection.time.dropSet = some .null := by
    rcases time with time | time <;> rw [time] <;> rfl
  have nothing : Event.null.dropSet = some .null := rfl
  have released : Event.new.release = some ⟨true, false, false⟩ := rfl
  simp only [eventWrite, dropped, Option.bind_eq_bind, Option.bind_some]
  split
  · simp only [freeReq, write, nothing, released, Option.bind_eq_bind, Option.bind_some]
    refine ⟨_, rfl, .closed ?_ rfl rfl ?_⟩
    · rw [read]
      rfl
    · rw [frees]
  · exact ⟨_, rfl, .writing read write rfl done frees⟩

theorem stage_write (result : SendResult) (stage : Stage connection) :
    ∃ next, fire connection (.write result) = some next ∧ Stage next := by
  have idle : connection.write.added = false →
      fire connection (.write result) = some connection := by
    intro off
    rw [fire, off]
    rfl
  have runs : connection.write = .new → connection.frees = 0 →
      fire connection (.write result) = eventWrite connection result := by
    intro on frees
    have added : connection.write.added = true := by
      rw [on]
      rfl
    rw [fire, if_pos added, used, if_pos frees]
  cases stage with
  | reading read write time done frees =>
    exact ⟨connection, idle (by rw [write]; rfl), .reading read write time done frees⟩
  | answering read write time done frees =>
    rw [runs write frees]
    exact write_stage result read write (Or.inl time) done frees
  | writing read write time done frees =>
    rw [runs write frees]
    exact write_stage result read write (Or.inr time) done frees
  | closed read write time frees =>
    exact ⟨connection, idle write, .closed read write time frees⟩

theorem stage_timer (stage : Stage connection)
    (inTime : connection.time.added = true → connection.done = false) :
    ∃ next, fire connection .timer = some next ∧ Stage next := by
  have idle : connection.time.added = false → fire connection .timer = some connection := by
    intro off
    rw [fire, off]
    rfl
  cases stage with
  | reading read write time done frees =>
    have added : connection.time.added = true := by
      rw [time]
      rfl
    have released : ({ Event.new with added := false }).release = some ⟨true, false, false⟩ := rfl
    rw [fire, if_pos added, used, if_pos frees]
    simp only [eventFree, read, new_drop, freeReq, time, released, Option.bind_eq_bind,
      Option.bind_some]
    refine ⟨_, rfl, .closed rfl ?_ rfl (by rw [frees])⟩
    rw [write]
    rfl
  | answering read write time done frees =>
    have early := inTime (by rw [time]; rfl)
    rw [done] at early
    cases early
  | writing read write time done frees =>
    exact ⟨connection, idle (by rw [time]; rfl), .writing read write time done frees⟩
  | closed read write time frees =>
    exact ⟨connection, idle time, .closed read write time frees⟩

/-- The timer callback of a request that is done uses `req->read`, which is `NULL`. -/
theorem late_timer_faults (stage : Stage connection) (added : connection.time.added = true)
    (done : connection.done = true) : fire connection .timer = none := by
  cases stage with
  | reading _ _ _ undone _ =>
    rw [undone] at done
    cases done
  | answering read write time _ frees =>
    simp only [fire, added, if_true, used, frees, eventFree, read]
    rfl
  | writing _ _ time _ _ =>
    rw [time] at added
    cases added
  | closed _ _ time _ =>
    rw [time] at added
    cases added

/-! ## Whole runs -/

/-- In whatever order its events fire, a connection is safe in every state of a run
exactly when the timer never fires on a request that is done. -/
theorem connection_safe_iff (events : List Fires) :
    Throughout step Safe (some accepted) events ↔ EachStep step InTime (some accepted) events := by
  refine throughout_iff_of_good_steps step
    (fun state => ∃ connection, state = some connection ∧ Stage connection) Safe InTime ?_ ?_ ?_ _ ?_
    events
  · rintro state ⟨connection, rfl, stage⟩
    exact stage_safe stage
  · rintro state event ⟨connection, rfl, stage⟩ inTime
    cases event with
    | read outcome => exact stage_read outcome stage
    | write result => exact stage_write result stage
    | timer => exact stage_timer stage (inTime connection rfl)
  · rintro state event ⟨connection, rfl, stage⟩ late
    cases event with
    | read outcome => exact absurd trivial late
    | write result => exact absurd trivial late
    | timer =>
      simp only [InTime, Option.mem_def, Option.some.injEq, forall_eq', Classical.not_imp,
        Bool.not_eq_false] at late
      have faults : step (some connection) .timer = none :=
        late_timer_faults stage late.1 late.2
      rw [faults]
      exact id
  · exact ⟨accepted, rfl, .reading rfl rfl rfl rfl rfl⟩

/-- The request is done, and the thirty seconds end before its answer is written. -/
theorem timer_after_last_read :
    run step (some accepted) [.read (.finished [72] []), .timer] = none ∧
      ¬ Throughout step Safe (some accepted) [.read (.finished [72] []), .timer] := by
  have faults : run step (some accepted) [.read (.finished [72] []), .timer] = none := rfl
  refine ⟨faults, fun safe => ?_⟩
  have last := throughout_run step Safe _ _ safe
  exact last

end Cprogramming.EventServer.Lifetime
