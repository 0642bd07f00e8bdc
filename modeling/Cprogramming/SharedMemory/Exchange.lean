import Cprogramming.Library.CStrings
import Cprogramming.Library.Runs
import Mathlib.Logic.Function.Basic

/-!
# Texts handed over in a shared block

Processes that run `create` write their argument into a shared block, and `read` prints
what it finds there. A step takes a process through an access to a semaphore and up to
the next one; `create` also stops before each byte that it stores.
-/

namespace Cprogramming.SharedMemory.Exchange

open Library.ByteMemory Library.CStrings Library.Runs

set_option autoImplicit false

-- BLOCK_SIZE, and argv[1] of each process that runs create
variable {writers : Nat} (size : Nat) (argv : Fin writers → CString)

def quitText : CString := CString.ofString "quit"

inductive CreatePhase where
  | waiting
  | copying (count : Nat)
  | closed

structure Create where
  i : Nat
  quit : Bool
  phase : CreatePhase

inductive ReadPhase where
  | waiting
  | posting
  | closed
  /-- `strlen` has left the block -/
  | outside

/-- `written` has the texts of the lines `Writing`, `printed` those of the lines `Read`. -/
structure System (writers : Nat) where
  prod : Nat
  cons : Nat
  block : Memory
  creates : Fin writers → Create
  reader : ReadPhase
  written : List CString
  printed : List CString

inductive Process (writers : Nat) where
  | create (index : Fin writers)
  | read

/-- `read` has made the semaphores, and the block may hold anything. -/
def start (block : Memory) : System writers :=
  ⟨0, 1, block, fun _ => ⟨0, false, .waiting⟩, .waiting, [], []⟩

def create (system : System writers) (index : Fin writers) : System writers :=
  let self := system.creates index
  let place := Function.update system.creates index
  match self.phase with
  | .waiting =>
    if system.cons = 0 then system
    else
      let quit := self.quit || strcmp (argv index).bytes quitText.bytes == 0
      { system with
        cons := system.cons - 1
        written := system.written ++ [argv index]
        creates := place { self with quit := quit, phase := .copying 0 } }
  | .copying count =>
    -- strncpy stores zeros behind the text, and no end of a text that fills the block
    if count < size then
      { system with
        block := store system.block count [(argv index).bytes.getD count 0]
        creates := place { self with phase := .copying (count + 1) } }
    else
      let phase := if self.i + 1 < 10 && !self.quit then .waiting else .closed
      { system with
        prod := system.prod + 1
        creates := place { self with i := self.i + 1, phase := phase } }
  | .closed => system

def read (system : System writers) : System writers :=
  match system.reader with
  | .waiting =>
    let text := readString system.block 0 size
    if system.prod = 0 then system
    else if text.bytes.length = size then
      { system with prod := system.prod - 1, reader := .outside }
    else if text.bytes = [] then { system with prod := system.prod - 1, reader := .posting }
    else
      { system with
        prod := system.prod - 1
        printed := system.printed ++ [text]
        reader := if strcmp text.bytes quitText.bytes = 0 then .closed else .posting }
  | .posting => { system with cons := system.cons + 1, reader := .waiting }
  | .closed | .outside => system

def step (system : System writers) : Process writers → System writers
  | .create index => create size argv system index
  | .read => read size system

/-! ## Where the token is -/

inductive Place (writers : Nat) where
  | cons
  | prod
  | process (holder : Process writers)

/-- The texts that `read` prints: it passes over empty ones. -/
def shown (texts : List CString) : List CString := texts.filter fun text => text.bytes != []

def Behind (system : System writers) (pending : List CString) : Prop :=
  ∃ earlier, system.written = earlier ++ pending ∧ system.printed = shown earlier

/-- The last text is not printed yet, and its first `count` bytes are in the block. -/
structure Offered (system : System writers) (text : CString) (count : Nat) : Prop where
  behind : Behind system [text]
  copied : ∀ index : Nat, index < count → system.block index = text.bytes.getD index 0

def Data (system : System writers) : Place writers → Prop
  | .cons => Behind system []
  | .prod => ∃ index, Offered system (argv index) size
  | .process (.create index) => ∃ count, (system.creates index).phase = .copying count ∧
      Offered system (argv index) count
  | .process .read => Behind system [] ∧ (system.reader = .posting ∨ system.reader = .closed)

structure At (system : System writers) (token : Place writers) : Prop where
  cons : system.cons = if token matches .cons then 1 else 0
  prod : system.prod = if token matches .prod then 1 else 0
  creates : ∀ index count, (system.creates index).phase = .copying count →
    token = .process (.create index)
  reader : system.reader ≠ .waiting → token = .process .read
  data : Data size argv system token

variable {size : Nat} {argv : Fin writers → CString} {system : System writers}
  {token next : Place writers} {index : Fin writers}

theorem offered_text {text : CString} (fits : text.size ≤ size)
    (offered : Offered system text size) : readString system.block 0 size = text := by
  have room : text.bytes.length < size := fits
  apply read_string_of_terminated _ 0 _ _ room
  · intro index bound
    rw [Int.zero_add]
    exact offered.copied index (by omega)
  · rw [Int.zero_add, offered.copied _ room, List.getD_eq_default _ _ le_rfl]

/-! ## The token moves -/

variable (found : At size argv system token)

include found

/-- With the token free or its own, a step of `create` leaves no other inside. -/
theorem placed {after : Create} (free : token = .cons ∨ token = .process (.create index))
    (inside : ∀ count, after.phase = .copying count → next = .process (.create index))
    (place : Fin writers) (count : Nat)
    (copying : (Function.update system.creates index after place).phase = .copying count) :
    next = .process (.create place) := by
  by_cases same : place = index
  · subst same
    rw [Function.update_self] at copying
    exact inside count copying
  · rw [Function.update_of_ne same] at copying
    have holder := found.creates place count copying
    rcases free with rfl | rfl
    · cases holder
    · cases holder
      exact absurd rfl same

theorem create_at (index : Fin writers) :
    ∃ next, At size argv (create size argv system index) next := by
  rw [create]
  cases phase : (system.creates index).phase with
  | waiting =>
    cases token with
    | cons =>
      obtain ⟨earlier, written, printed⟩ := found.data
      simp only [found.cons]
      refine ⟨.process (.create index), ⟨rfl, found.prod,
        placed found (Or.inl rfl) fun _ _ => rfl, fun reading => (by cases found.reader reading),
        0, ?_, ⟨earlier, ?_, printed⟩, by simp⟩⟩ <;> simp [written]
    | prod | process => exact ⟨_, by simpa [found.cons] using found⟩
  | copying count =>
    cases found.creates index count phase
    obtain ⟨reached, copying, offered⟩ := found.data
    cases phase.symm.trans copying
    simp only
    split
    next more =>
      refine ⟨.process (.create index), ⟨found.cons, found.prod,
        placed found (Or.inr rfl) fun _ _ => rfl, fun reading => (by cases found.reader reading),
        count + 1, ?_, offered.behind, ?_⟩⟩
      · simp
      · intro position within
        by_cases last : position = count
        · rw [last]
          exact store_single _ _ _
        · apply (store_outside _ _ _ _ (by simp; omega)).trans
          exact offered.copied position (by omega)
    next all =>
      refine ⟨.prod, ⟨found.cons, by simp [found.prod], placed found (Or.inr rfl) ?_,
        fun reading => (by cases found.reader reading), index, offered.behind, ?_⟩⟩
      · simp only
        split <;> simp
      · exact fun position within => offered.copied position (by omega)
  | closed => exact ⟨token, found⟩

theorem read_at (short : ∀ index, (argv index).size ≤ size) :
    ∃ next, At size argv (read size system) next := by
  rw [read]
  cases phase : system.reader with
  | waiting =>
    cases token with
    | prod =>
      obtain ⟨index, offered⟩ := found.data
      obtain ⟨earlier, written, printed⟩ := offered.behind
      have room : (argv index).bytes.length < size := short index
      have full : ¬ system.prod = 0 := by simp [found.prod]
      have outside : ∀ place count, (system.creates place).phase ≠ .copying count :=
        fun place count copying => nomatch found.creates place count copying
      simp only [offered_text (short index) offered, if_neg room.ne, if_neg full]
      refine ⟨.process .read, ?_⟩
      split
      next empty =>
        refine ⟨found.cons, by simp [found.prod], by simp [outside], fun _ => rfl,
          ⟨_, by simpa using written, ?_⟩, Or.inl rfl⟩
        simp [printed, shown, empty]
      next shows =>
        refine ⟨found.cons, by simp [found.prod], by simp [outside], fun _ => rfl,
          ⟨_, by simpa using written, ?_⟩, ?_⟩
        · simp [printed, shown, shows]
        · simp only
          split <;> simp
    | cons | process => exact ⟨_, by simpa [found.prod] using found⟩
  | posting =>
    cases found.reader (by simp [phase])
    exact ⟨.cons, ⟨by simp [found.cons], found.prod,
      fun place count copying => (nomatch found.creates place count copying),
      fun active => absurd rfl active, found.data.1⟩⟩
  | closed | outside => exact ⟨token, found⟩

theorem at_behind : ∃ pending, Behind system pending ∧ pending.length ≤ 1 := by
  have data := found.data
  cases token with
  | cons => exact ⟨[], data, by simp⟩
  | prod => exact data.elim fun _ offered => ⟨_, offered.behind, le_rfl⟩
  | process holder =>
    cases holder with
    | create index => exact data.elim fun _ writing => ⟨_, writing.2.behind, le_rfl⟩
    | read => exact ⟨[], data.1, by simp⟩

omit found

variable (short : ∀ index, (argv index).size ≤ size) (block : Memory)
  (schedule : List (Process writers))

include short

theorem run_at :
    ∃ token, At size argv (run (step size argv) (start block) schedule) token := by
  apply run_invariant (step size argv) (fun system => ∃ token, At size argv system token)
  · intro system process located
    obtain ⟨token, found⟩ := located
    cases process with
    | create index => exact create_at found index
    | read => exact read_at found short
  · exact ⟨.cons, ⟨rfl, rfl, nofun, fun active => absurd rfl active, [], rfl, rfl⟩⟩

/-- While a process copies, `read` waits and no other process copies. What `read` prints
are the written texts in their order, each once, up to one that is not printed yet. -/
theorem texts_exchanged :
    let system : System writers := run (step size argv) (start block) schedule
    (∀ index count, (system.creates index).phase = .copying count → system.reader = .waiting ∧
      ∀ other more, (system.creates other).phase = .copying more → other = index) ∧
    system.reader ≠ .outside ∧ ∃ pending, Behind system pending ∧ pending.length ≤ 1 := by
  intro system
  obtain ⟨token, found⟩ := run_at short block schedule
  refine ⟨?_, ?_, at_behind found⟩
  · intro index count copying
    cases found.creates index count copying
    refine ⟨?_, ?_⟩
    · by_contra reading
      cases found.reader reading
    · intro other more copies
      cases found.creates other more copies
      rfl
  · intro left
    cases found.reader (by simp [system, left])
    have data := found.data.2
    simp [system, left] at data

omit short

def letterAndQuit (index : Fin 2) : CString := if index = 0 then CString.ofString "a" else quitText

/-- The second process tries to write while the first one does, and later writes. -/
def bothWrite : List (Process 2) :=
  [.create 0, .create 1] ++ List.replicate 6 (.create 0) ++ [.read, .read] ++
    List.replicate 7 (.create 1) ++ [.read]

theorem both_texts_exchanged :
    let system : System 2 := run (step 5 letterAndQuit) (start zeroed) bothWrite
    (system.written = [letterAndQuit 0, letterAndQuit 1] ∧
      system.printed = [letterAndQuit 0, letterAndQuit 1]) ∧
    (∀ index count, (system.creates index).phase = .copying count → system.reader = .waiting ∧
      ∀ other more, (system.creates other).phase = .copying more → other = index) ∧
    system.reader ≠ .outside ∧ ∃ pending, Behind system pending ∧ pending.length ≤ 1 :=
  ⟨⟨by decide +kernel, by decide +kernel⟩, texts_exchanged (by decide) zeroed bothWrite⟩

end Cprogramming.SharedMemory.Exchange
