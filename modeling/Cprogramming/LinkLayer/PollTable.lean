import Mathlib.Tactic.Common
import Cprogramming.Library.CStrings
import Cprogramming.Library.Runs

/-!
# The poll table

The main loop of `RTUp.h`: `poll` on the slots of the table, then one visit to
each slot. Slots are added for accepted connections and for those that a line of
the input opens, and none is used again. Every index into `pfds` and `clients`
and every call of `poll` is kept in the state.
-/

namespace Cprogramming.LinkLayer.PollTable

open Library.CStrings Library.Runs

set_option autoImplicit false

def rtcpMaxPoll : Nat := 1024

def stdinFileno : Int := 0

def stdoutFileno : Int := 1

/-- `fds` are the descriptors in `pfds`, `ubox` and `tbox` those of the two
sockets; `pollout` is the flag of the slot that is visited. -/
structure Table where
  npoll : Nat
  cpoll : Int
  ipoll : Nat
  fds : Nat → Int
  ubox : Int
  tbox : Int
  pollout : Bool
  exited : Bool
  used : List Nat
  polled : List (Nat × Nat)

def Table.use (table : Table) (index : Nat) : Table := { table with used := index :: table.used }

def Table.setFd (table : Table) (index : Nat) (fd : Int) : Table :=
  { table.use index with fds := fun other => if other = index then fd else table.fds other }

def Table.addSlot (table : Table) (fd : Int) : Table :=
  { table.setFd table.npoll fd with npoll := table.npoll + 1 }

/-- `memset` of the slot and the descriptor -1. -/
def Table.clearSlot (table : Table) (index : Nat) : Table :=
  { table.setFd index (-1) with pollout := false }

def Table.exit (table : Table) : Table := { table with exited := true }

/-- `rTup_std_setup`: the descriptors of the sockets of the sides that are on. -/
def rTupStdSetup (localFd globalFd : Option Int) : Table where
  npoll := 3
  cpoll := 0
  ipoll := 3
  fds := fun index =>
    if index = 0 then (if localFd.isSome && globalFd.isSome then -1 else stdinFileno)
    else if index = 1 then localFd.getD (-1)
    else if index = 2 then globalFd.getD (-1)
    else 0
  ubox := localFd.getD 0
  tbox := globalFd.getD 0
  pollout := false
  exited := false
  used := [2, 1, 0]
  polled := []

/-! ## One visit -/

/-- What the system calls of a visit return: the flags that `poll` set, the line
of `fgets`, whether the connection could be made and greeted and its descriptor,
the result of `accept` and whether the peer has a name, the bytes received and
whether they are a LOCATION_SEND, the bytes written. -/
structure Visit where
  pollin : Bool
  pollout : Bool
  line : Option (List UInt8)
  connected : Bool
  established : Bool
  socket : Int
  accepted : Int
  peerNamed : Bool
  received : Int
  located : Bool
  written : Int

/-- `"connect "`. -/
def connectCommand : List UInt8 := [99, 111, 110, 110, 101, 99, 116, 32]

def rTcpCheckStdin (line : List UInt8) : Int :=
  if line.take connectCommand.length = connectCommand then
    ((strtoll (line.drop connectCommand.length)).map Prod.fst).getD (-1)
  else -1

def readStdin (table : Table) (visit : Visit) : Table :=
  match visit.line with
  | none => table.setFd 0 (-1)
  | some line =>
    if 0 < rTcpCheckStdin line then
      let asked := table.use table.npoll
      if visit.connected && visit.established then (asked.setFd 0 (-1)).addSlot visit.socket
      else asked.use 0
    else table.use 0

/-- The result of `accept` is only compared with zero. -/
def acceptTcp (table : Table) (visit : Visit) : Table :=
  let asked := table.use table.npoll
  if visit.peerNamed then asked.addSlot visit.accepted else asked.exit

def readTcp (table : Table) (visit : Visit) : Table :=
  if visit.received ≤ 0 then table.clearSlot table.ipoll
  else if visit.located then table.setFd 0 stdinFileno
  else table

def countDown (table : Table) : Table := { table with cpoll := table.cpoll - 1 }

def rTupHandlePollRead (table : Table) (visit : Visit) : Table :=
  let fd := table.fds table.ipoll
  let table := table.use table.ipoll
  countDown <|
    if fd = stdinFileno then readStdin table visit
    else if fd = table.ubox then table
    else if fd = table.tbox then
      if visit.accepted ≠ 0 then acceptTcp table visit
      else readTcp (table.use table.npoll) visit
    else readTcp table visit

def rTupHandlePollWrite (table : Table) (visit : Visit) : Table :=
  let fd := table.fds table.ipoll
  let table := table.use table.ipoll
  countDown <|
    if fd = table.ubox then table
    else if fd = stdoutFileno then table.setFd table.ipoll stdinFileno
    else if visit.written < 0 then table.clearSlot table.ipoll
    else table

def visitRead (table : Table) (visit : Visit) : Table :=
  let seen := { table.use table.ipoll with pollout := visit.pollout }
  if visit.pollin then rTupHandlePollRead seen visit else seen

def visitWrite (table : Table) (visit : Visit) : Table :=
  if table.pollout && !table.exited then rTupHandlePollWrite table visit else table

def visitSlot (table : Table) (visit : Visit) : Table :=
  let visited := visitWrite (visitRead table visit) visit
  { visited with ipoll := visited.ipoll + 1 }

/-! ## Runs -/

inductive Turn where
  | poll (ret : Int)
  | visit (visit : Visit)

def Table.running (table : Table) : Bool :=
  decide (table.ipoll < table.npoll) && decide (0 ≤ table.cpoll)

def pollCall (table : Table) (ret : Int) : Table :=
  { table with
    cpoll := ret
    ipoll := 0
    polled := (table.npoll % rtcpMaxPoll, table.npoll) :: table.polled }

/-- The loop decides whether the next turn is a call of `poll` or a visit. -/
def step (table : Table) (turn : Turn) : Table :=
  if table.exited then table
  else
    match turn with
    | .poll ret => if table.running then table else pollCall table ret
    | .visit visit => if table.running then visitSlot table visit else table

/-- The count and every index stay within the table, and `poll` was called on all
slots. -/
structure Bounded (table : Table) : Prop where
  count : table.npoll ≤ rtcpMaxPoll
  indices : ∀ index ∈ table.used, index < rtcpMaxPoll
  whole : ∀ call ∈ table.polled, call.1 = call.2

/-- A visit that asks for a new slot: a line that names a port, or a connection
on the listening socket. -/
def Opens (table : Table) (visit : Visit) : Prop :=
  visit.pollin = true ∧
    (table.fds table.ipoll = stdinFileno ∧ (visit.line.any fun line => 0 < rTcpCheckStdin line) ∨
      table.fds table.ipoll ≠ stdinFileno ∧ table.fds table.ipoll ≠ table.ubox ∧
        table.fds table.ipoll = table.tbox)

/-- `poll` is called, and a slot is asked for, only while there is a free one. -/
def HasRoom (table : Table) : Turn → Prop
  | .poll _ => table.exited = false → table.running = false → table.npoll < rtcpMaxPoll
  | .visit visit => table.exited = false → table.running = true → Opens table visit →
      table.npoll < rtcpMaxPoll

/-! ## What a visit uses -/

variable {table : Table}

@[simp] theorem use_npoll (table : Table) (index : Nat) :
    (table.use index).npoll = table.npoll := by
  rfl

@[simp] theorem set_fd_npoll (table : Table) (index : Nat) (fd : Int) :
    (table.setFd index fd).npoll = table.npoll := by
  rfl

@[simp] theorem bounded_use (table : Table) (index : Nat) :
    Bounded (table.use index) ↔ Bounded table ∧ index < rtcpMaxPoll := by
  constructor
  · rintro ⟨count, indices, whole⟩
    exact ⟨⟨count, fun other member => indices other (List.mem_cons_of_mem index member), whole⟩,
      indices index List.mem_cons_self⟩
  · rintro ⟨⟨count, indices, whole⟩, inside⟩
    refine ⟨count, ?_, whole⟩
    intro other member
    rcases List.mem_cons.mp member with rfl | old
    · exact inside
    · exact indices other old

@[simp] theorem bounded_set_fd (table : Table) (index : Nat) (fd : Int) :
    Bounded (table.setFd index fd) ↔ Bounded table ∧ index < rtcpMaxPoll := by
  rw [← bounded_use table index]
  exact ⟨fun bounded => ⟨bounded.count, bounded.indices, bounded.whole⟩,
    fun bounded => ⟨bounded.count, bounded.indices, bounded.whole⟩⟩

@[simp] theorem bounded_add_slot (table : Table) (fd : Int) :
    Bounded (table.addSlot fd) ↔ Bounded table ∧ table.npoll < rtcpMaxPoll := by
  rw [← bounded_set_fd table table.npoll fd]
  refine ⟨fun bounded => ⟨?_, bounded.indices, bounded.whole⟩,
    fun bounded => ⟨?_, bounded.indices, bounded.whole⟩⟩
  · exact Nat.le_of_succ_le bounded.count
  · exact bounded.indices table.npoll List.mem_cons_self

@[simp] theorem bounded_clear_slot (table : Table) (index : Nat) :
    Bounded (table.clearSlot index) ↔ Bounded table ∧ index < rtcpMaxPoll := by
  rw [← bounded_set_fd table index (-1)]
  exact ⟨fun bounded => ⟨bounded.count, bounded.indices, bounded.whole⟩,
    fun bounded => ⟨bounded.count, bounded.indices, bounded.whole⟩⟩

@[simp] theorem bounded_exit (table : Table) : Bounded table.exit ↔ Bounded table := by
  exact ⟨fun bounded => ⟨bounded.count, bounded.indices, bounded.whole⟩,
    fun bounded => ⟨bounded.count, bounded.indices, bounded.whole⟩⟩

@[simp] theorem bounded_count_down (table : Table) : Bounded (countDown table) ↔ Bounded table := by
  exact ⟨fun bounded => ⟨bounded.count, bounded.indices, bounded.whole⟩,
    fun bounded => ⟨bounded.count, bounded.indices, bounded.whole⟩⟩

theorem read_tcp_bounded_iff (table : Table) (visit : Visit) (inside : table.ipoll < rtcpMaxPoll) :
    Bounded (readTcp table visit) ↔ Bounded table := by
  unfold readTcp
  split_ifs
  · simp [inside]
  · simp [rtcpMaxPoll]
  · exact Iff.rfl

theorem accept_tcp_bounded_iff (visit : Visit) (bounded : Bounded table) :
    Bounded (acceptTcp table visit) ↔ table.npoll < rtcpMaxPoll := by
  simp only [acceptTcp]
  split_ifs
  · simp [bounded]
  · simp [bounded]

theorem read_stdin_bounded_iff (visit : Visit) (bounded : Bounded table) :
    Bounded (readStdin table visit) ↔
      ((visit.line.any fun line => 0 < rTcpCheckStdin line) = true → table.npoll < rtcpMaxPoll) := by
  have first : 0 < rtcpMaxPoll := by decide
  unfold readStdin
  cases visit.line with
  | none => simp [bounded, first]
  | some line =>
    by_cases port : 0 < rTcpCheckStdin line
    · simp only [port, if_true, Option.any_some, decide_true, forall_const]
      split_ifs
      · simp [bounded, first]
      · simp [bounded, first]
    · simp [port, bounded, first]

theorem read_bounded_iff {visit : Visit} (bounded : Bounded table)
    (inside : table.ipoll < rtcpMaxPoll) (ready : visit.pollin = true) :
    Bounded (rTupHandlePollRead table visit) ↔ (Opens table visit → table.npoll < rtcpMaxPoll) := by
  have seen : Bounded (table.use table.ipoll) :=
    (bounded_use table table.ipoll).mpr ⟨bounded, inside⟩
  have asked := bounded_use (table.use table.ipoll) table.npoll
  have ubox : (table.use table.ipoll).ubox = table.ubox := rfl
  have tbox : (table.use table.ipoll).tbox = table.tbox := rfl
  simp only [rTupHandlePollRead, bounded_count_down, Opens, ready, true_and, ubox, tbox]
  split_ifs with stdin local_socket listening accepted
  · rw [read_stdin_bounded_iff visit seen]
    simp [stdin]
  · refine ⟨fun _ opens => ?_, fun _ => seen⟩
    rcases opens with ⟨input, _⟩ | ⟨_, apart, _⟩
    · exact absurd input stdin
    · exact absurd local_socket apart
  · have room := accept_tcp_bounded_iff visit seen
    exact room.trans
      ⟨fun free _ => free, fun asks => asks (Or.inr ⟨stdin, local_socket, listening⟩)⟩
  · have room := read_tcp_bounded_iff ((table.use table.ipoll).use table.npoll) visit inside
    exact (room.trans asked).trans ⟨fun both _ => both.2,
      fun asks => ⟨seen, asks (Or.inr ⟨stdin, local_socket, listening⟩)⟩⟩
  · have kept := read_tcp_bounded_iff (table.use table.ipoll) visit inside
    refine kept.trans ⟨fun _ opens => ?_, fun _ => seen⟩
    rcases opens with ⟨input, _⟩ | ⟨_, _, listens⟩
    · exact absurd input stdin
    · exact absurd listens listening

theorem read_stdin_ipoll (table : Table) (visit : Visit) :
    (readStdin table visit).ipoll = table.ipoll := by
  simp only [readStdin]
  split
  · rfl
  · split_ifs <;> rfl

theorem accept_tcp_ipoll (table : Table) (visit : Visit) :
    (acceptTcp table visit).ipoll = table.ipoll := by
  simp only [acceptTcp]
  split_ifs <;> rfl

theorem read_tcp_ipoll (table : Table) (visit : Visit) :
    (readTcp table visit).ipoll = table.ipoll := by
  simp only [readTcp]
  split_ifs <;> rfl

theorem read_ipoll (table : Table) (visit : Visit) :
    (rTupHandlePollRead table visit).ipoll = table.ipoll := by
  simp only [rTupHandlePollRead, countDown]
  split_ifs
  · exact read_stdin_ipoll _ visit
  · rfl
  · exact accept_tcp_ipoll _ visit
  · exact read_tcp_ipoll _ visit
  · exact read_tcp_ipoll _ visit

theorem visit_read_ipoll (table : Table) (visit : Visit) :
    (visitRead table visit).ipoll = table.ipoll := by
  simp only [visitRead]
  split_ifs
  · exact read_ipoll _ visit
  · rfl

theorem visit_read_bounded_iff (table : Table) (visit : Visit) (bounded : Bounded table)
    (inside : table.ipoll < rtcpMaxPoll) :
    Bounded (visitRead table visit) ↔ (Opens table visit → table.npoll < rtcpMaxPoll) := by
  obtain ⟨count, indices, whole⟩ := (bounded_use table table.ipoll).mpr ⟨bounded, inside⟩
  have seen : Bounded { table.use table.ipoll with pollout := visit.pollout } :=
    ⟨count, indices, whole⟩
  simp only [visitRead]
  by_cases ready : visit.pollin = true
  · rw [if_pos ready, read_bounded_iff seen inside ready]
    rfl
  · rw [if_neg ready]
    exact ⟨fun _ opens => absurd opens.1 ready, fun _ => seen⟩

theorem visit_write_bounded_iff (table : Table) (visit : Visit)
    (inside : table.ipoll < rtcpMaxPoll) :
    Bounded (visitWrite table visit) ↔ Bounded table := by
  have seen : Bounded (table.use table.ipoll) ↔ Bounded table :=
    (bounded_use table table.ipoll).trans (and_iff_left inside)
  have set := bounded_set_fd (table.use table.ipoll) table.ipoll stdinFileno
  have clear := bounded_clear_slot (table.use table.ipoll) table.ipoll
  simp only [visitWrite, rTupHandlePollWrite]
  split_ifs
  · rw [bounded_count_down]
    exact seen
  · rw [bounded_count_down]
    exact (set.trans (and_iff_left inside)).trans seen
  · rw [bounded_count_down]
    exact (clear.trans (and_iff_left inside)).trans seen
  · rw [bounded_count_down]
    exact seen
  · exact Iff.rfl

theorem visit_slot_bounded_iff (visit : Visit) (bounded : Bounded table)
    (inside : table.ipoll < rtcpMaxPoll) :
    Bounded (visitSlot table visit) ↔ (Opens table visit → table.npoll < rtcpMaxPoll) := by
  have read := visit_read_bounded_iff table visit bounded inside
  have write := visit_write_bounded_iff (visitRead table visit) visit
    (by rw [visit_read_ipoll]; exact inside)
  rw [← read, ← write]
  exact ⟨fun next => ⟨next.count, next.indices, next.whole⟩,
    fun next => ⟨next.count, next.indices, next.whole⟩⟩

theorem poll_call_bounded_iff (ret : Int) (bounded : Bounded table) :
    Bounded (pollCall table ret) ↔ table.npoll < rtcpMaxPoll := by
  have positive : 0 < rtcpMaxPoll := by decide
  constructor
  · intro next
    have all : table.npoll % rtcpMaxPoll = table.npoll := next.whole _ List.mem_cons_self
    rw [← all]
    exact Nat.mod_lt _ positive
  · intro room
    refine ⟨bounded.count, bounded.indices, ?_⟩
    intro call member
    rcases List.mem_cons.mp member with rfl | old
    · exact Nat.mod_eq_of_lt room
    · exact bounded.whole call old

theorem step_bounded_iff (table : Table) (turn : Turn) (bounded : Bounded table) :
    Bounded (step table turn) ↔ HasRoom table turn := by
  unfold step
  cases exited : table.exited with
  | true => cases turn <;> simp [HasRoom, exited, bounded]
  | false =>
    cases turn with
    | poll ret =>
      cases running : table.running with
      | true => simp [HasRoom, running, bounded]
      | false => simpa [HasRoom, running, exited] using poll_call_bounded_iff ret bounded
    | visit visit =>
      cases running : table.running with
      | false => simp [HasRoom, running, bounded]
      | true =>
        have inside : table.ipoll < rtcpMaxPoll := by
          have condition := running
          simp only [Table.running, Bool.and_eq_true, decide_eq_true_eq] at condition
          exact Nat.lt_of_lt_of_le condition.1 bounded.count
        simpa [HasRoom, running, exited] using visit_slot_bounded_iff visit bounded inside

/-- Along every run of the main loop the table is bounded exactly when `poll` is
called, and slots are asked for, only while there is a free one. -/
theorem table_bounded_throughout_iff (localFd globalFd : Option Int) (turns : List Turn) :
    Throughout step Bounded (rTupStdSetup localFd globalFd) turns ↔
      EachStep step HasRoom (rTupStdSetup localFd globalFd) turns := by
  refine throughout_iff step Bounded HasRoom step_bounded_iff _ ?_ turns
  refine ⟨show 3 ≤ 1024 by decide, ?_, ?_⟩
  · intro index member
    simp only [rTupStdSetup, List.mem_cons, List.not_mem_nil, or_false] at member
    simp only [rtcpMaxPoll]
    omega
  · intro call member
    cases member

/-! ## A full table -/

variable {cpoll : Int}

def idle : Visit := ⟨false, false, none, false, false, 0, 0, false, 0, false, 0⟩

def connection : Visit := ⟨true, false, none, false, false, 0, 7, true, 0, false, 0⟩

/-- One round of the main loop on `count + 3` slots in which a client connects. -/
def round (count : Nat) : List Turn :=
  [.poll 1, .visit idle, .visit idle, .visit connection] ++ List.replicate (count + 1) (.visit idle)

def rounds : Nat → List Turn
  | 0 => []
  | count + 1 => rounds count ++ round count

/-- The loop stands at slot `ipoll` of `npoll`, the listening socket is in its
slot. -/
structure Stands (table : Table) (npoll ipoll : Nat) (cpoll : Int) : Prop where
  opened : table.exited = false
  slot : table.fds 2 = 3
  tbox : table.tbox = 3
  ubox : table.ubox = 0
  count : table.npoll = npoll
  here : table.ipoll = ipoll
  ready : table.cpoll = cpoll

theorem step_poll_stands {npoll : Nat} (ret : Int) (stands : Stands table npoll npoll cpoll) :
    Stands (step table (.poll ret)) npoll 0 ret := by
  obtain ⟨opened, slot, tbox, ubox, count, here, _⟩ := stands
  have called : step table (.poll ret) = pollCall table ret := by
    simp [step, opened, Table.running, here, count]
  rw [called]
  exact ⟨opened, slot, tbox, ubox, count, rfl, rfl⟩

theorem step_idle_stands (table : Table) (npoll ipoll : Nat) (cpoll : Int)
    (stands : Stands table npoll ipoll cpoll) (inside : ipoll < npoll) (counted : 0 ≤ cpoll) :
    Stands (step table (.visit idle)) npoll (ipoll + 1) cpoll := by
  obtain ⟨opened, slot, tbox, ubox, rfl, rfl, rfl⟩ := stands
  have visited : step table (.visit idle) = visitSlot table idle := by
    simp [step, opened, Table.running, inside, counted]
  rw [visited]
  exact ⟨opened, slot, tbox, ubox, rfl, rfl, rfl⟩

theorem read_listening (table : Table) (visit : Visit)
    (slot : table.fds table.ipoll = table.tbox) (input : table.tbox ≠ stdinFileno)
    (apart : table.tbox ≠ table.ubox) (accepted : visit.accepted ≠ 0) :
    rTupHandlePollRead table visit = countDown (acceptTcp (table.use table.ipoll) visit) := by
  have ubox : (table.use table.ipoll).ubox = table.ubox := rfl
  have tbox : (table.use table.ipoll).tbox = table.tbox := rfl
  simp only [rTupHandlePollRead]
  rw [slot, ubox, tbox, if_neg input, if_neg apart, if_pos rfl, if_pos accepted]

theorem step_connection_stands {npoll : Nat} (stands : Stands table npoll 2 cpoll)
    (inside : 2 < npoll) (counted : 0 ≤ cpoll) :
    Stands (step table (.visit connection)) (npoll + 1) 3 (cpoll - 1) := by
  obtain ⟨opened, slot, tbox, ubox, rfl, here, rfl⟩ := stands
  have other : 2 ≠ table.npoll := by omega
  have visited : step table (.visit connection) = visitSlot table connection := by
    simp [step, opened, Table.running, here, inside, counted]
  have read : visitRead table connection = countDown (acceptTcp
      (Table.use { table.use table.ipoll with pollout := false } table.ipoll) connection) := by
    rw [visitRead, if_pos (show connection.pollin = true from rfl)]
    refine read_listening { table.use table.ipoll with pollout := false } connection ?_ ?_ ?_
      (by decide)
    · change table.fds table.ipoll = table.tbox
      rw [here, slot, tbox]
    · change table.tbox ≠ stdinFileno
      rw [tbox]
      decide
    · change table.tbox ≠ table.ubox
      rw [tbox, ubox]
      decide
  have accepts (found : Table) : acceptTcp found connection =
      (found.use found.npoll).addSlot connection.accepted := by
    rw [acceptTcp]
    exact if_pos rfl
  -- the visit saw no room for writing
  have silent (quiet : Table) (off : quiet.pollout = false) :
      visitWrite quiet connection = quiet := by
    rw [visitWrite, off]
    exact if_neg (by simp)
  rw [visited, visitSlot, read, accepts, silent _ rfl]
  simp only [countDown, Table.addSlot, Table.setFd, Table.use]
  refine ⟨opened, ?_, tbox, ubox, rfl, congrArg (· + 1) here, rfl⟩
  exact (if_neg other).trans slot

theorem run_idle_stands (count : Nat) (table : Table) (npoll ipoll : Nat) (cpoll : Int)
    (stands : Stands table npoll ipoll cpoll) (left : ipoll + count = npoll) (counted : 0 ≤ cpoll) :
    Stands (run step table (List.replicate count (.visit idle))) npoll npoll cpoll := by
  induction count generalizing table ipoll with
  | zero =>
    rw [Nat.add_zero] at left
    rwa [left] at stands
  | succ count ih =>
    rw [List.replicate_succ, run_cons]
    exact ih _ (ipoll + 1) (step_idle_stands table npoll ipoll cpoll stands (by omega) counted)
      (by omega)

theorem run_round_stands {count : Nat} (stands : Stands table (count + 3) (count + 3) cpoll) :
    Stands (run step table (round count)) (count + 4) (count + 4) 0 := by
  have polled := step_poll_stands 1 stands
  have first := step_idle_stands _ (count + 3) 0 1 polled (by omega) (by decide)
  have second := step_idle_stands _ (count + 3) 1 1 first (by omega) (by decide)
  have third := step_connection_stands second (by omega) (by decide)
  rw [round, run_append]
  exact run_idle_stands (count + 1) _ (count + 4) 3 0 third (by omega) (by decide)

theorem run_rounds_stands (count : Nat) :
    ∃ cpoll, Stands (run step (rTupStdSetup none (some 3)) (rounds count)) (count + 3) (count + 3)
      cpoll := by
  induction count with
  | zero => exact ⟨0, rfl, rfl, rfl, rfl, rfl, rfl, rfl⟩
  | succ count ih =>
    obtain ⟨cpoll, stands⟩ := ih
    rw [rounds, run_append]
    exact ⟨0, run_round_stands stands⟩

theorem full_table {count : Nat} (full : count + 3 = rtcpMaxPoll) :
    ¬ Throughout step Bounded (rTupStdSetup none (some 3)) (rounds count ++ [.poll 1]) := by
  intro held
  have bounded := throughout_run step Bounded _ _ held
  obtain ⟨cpoll, stands⟩ := run_rounds_stands count
  rw [run_append] at bounded
  generalize run step (rTupStdSetup none (some 3)) (rounds count) = table at bounded stands
  have called : step table (.poll 1) = pollCall table 1 := by
    simp [step, stands.opened, Table.running, stands.here, stands.count]
  rw [run_cons, called] at bounded
  have whole : table.npoll % rtcpMaxPoll = table.npoll := bounded.whole _ List.mem_cons_self
  rw [stands.count, full] at whole
  exact absurd whole (by decide)

/-- After 1021 connections `poll` is called on no slot at all. -/
theorem full_table_polls_nothing :
    ¬ Throughout step Bounded (rTupStdSetup none (some 3)) (rounds 1021 ++ [.poll 1]) := by
  exact full_table rfl

end Cprogramming.LinkLayer.PollTable
