import Cprogramming.Pfexec.EnvironmentArea

/-!
# Where the copy loops write

Both loops limit a copy by the area less twice the bytes used. Before the middle
of the area that limit keeps the copy inside; past the middle it has wrapped and
limits nothing, so a string stays inside only if it happens to end there. The
conditions below speak of the sizes of the strings alone, in the order in which
the loops see them.
-/

namespace Cprogramming.Pfexec.AreaBounds

open Library.ByteMemory Library.CStrings Library.MachineWords Library.PackedLayout
open Protocol FillMbuf EnvironmentArea

set_option autoImplicit false

def AllInside (stores : List Store) : Prop := ∀ write ∈ stores, Store.Inside argMax write

/-- Running totals that start below `room` never jump over it. -/
def LandsOn (room : Nat) (lengths : List Nat) : Prop :=
  ∀ index size, lengths[index]? = some size → offsetAt lengths index < room →
    offsetAt lengths index + size ≤ room

/-- The condition on the sizes seen by a copy loop of `fill_mbuf` that has used
`len` bytes. Without a cut the strings must land on the end of the area. After a
cut at offset `o` the loop goes on at `argMax - o`, so the strings behind the cut
must land on `o`; at offset zero the area is full, and at the exact middle
nothing is ever copied again. -/
def StaysInside (len : Nat) (lengths : List Nat) : Prop :=
  ((∀ index size, lengths[index]? = some size → ¬ Cut (len + offsetAt lengths index) size) →
    LandsOn (argMax - len) lengths) ∧
  ∀ index size, lengths[index]? = some size → Cut (len + offsetAt lengths index) size →
    len + offsetAt lengths index = 0 ∨ 2 * (len + offsetAt lengths index) = argMax ∨
      LandsOn (len + offsetAt lengths index) (lengths.drop (index + 1))

theorem lands_on_nil (room : Nat) : LandsOn room [] := by
  intro index size entry
  simp at entry

theorem stays_inside_nil (len : Nat) : StaysInside len [] := by
  constructor
  · intro _
    exact lands_on_nil _
  · intro index size entry
    simp at entry

theorem sizes_in_reach (string : CString) (rest : List CString) {argc : Nat}
    (counted : argc < refMax) : (sizes (string :: rest)).take (refMax - argc) =
      string.size :: (sizes rest).take (refMax - (argc + 1)) := by
  rw [show refMax - argc = (refMax - (argc + 1)) + 1 by omega]
  rfl

theorem lands_on_cons (room size : Nat) (lengths : List Nat) (fits : size ≤ room) :
    LandsOn room (size :: lengths) ↔ LandsOn (room - size) lengths := by
  constructor
  · intro lands index other entry below
    have next := lands (index + 1) other (by simpa using entry)
    rw [offset_cons_succ] at next
    have landed := next (by omega)
    omega
  · intro lands index other entry below
    cases index with
    | zero =>
      obtain rfl : size = other := by simpa using entry
      rw [offset_zero]
      omega
    | succ index =>
      rw [offset_cons_succ] at below ⊢
      have landed := lands index other (by simpa using entry) (by omega)
      omega

theorem stays_inside_past_middle {len : Nat} (lengths : List Nat) (past : argMax < 2 * len) :
    StaysInside len lengths ↔ LandsOn (argMax - len) lengths := by
  have never : ∀ index size, lengths[index]? = some size →
      ¬ Cut (len + offsetAt lengths index) size := by
    intro index size entry cut
    have before := cut.1
    omega
  constructor
  · intro stays
    exact stays.1 never
  · intro lands
    exact ⟨fun _ => lands, fun index size entry cut => absurd cut (never index size entry)⟩

theorem stays_inside_whole (len size : Nat) (lengths : List Nat) (fits : 2 * len + size ≤ argMax) :
    StaysInside len (size :: lengths) ↔ StaysInside (len + size) lengths := by
  have notCut : ¬ Cut len size := by
    intro cut
    have exceeds := cut.2
    omega
  have room : argMax - len - size = argMax - (len + size) := by omega
  constructor
  · rintro ⟨uncut, cuts⟩
    constructor
    · intro none
      rw [← room]
      apply (lands_on_cons (argMax - len) size lengths (by omega)).mp
      apply uncut
      intro index other entry
      cases index with
      | zero =>
        obtain rfl : size = other := by simpa using entry
        simpa [offset_zero] using notCut
      | succ index =>
        rw [offset_cons_succ, ← Nat.add_assoc]
        exact none index other (by simpa using entry)
    · intro index other entry cut
      have next := cuts (index + 1) other (by simpa using entry)
      rw [offset_cons_succ, ← Nat.add_assoc] at next
      exact next cut
  · rintro ⟨uncut, cuts⟩
    constructor
    · intro none
      apply (lands_on_cons (argMax - len) size lengths (by omega)).mpr
      rw [room]
      apply uncut
      intro index other entry
      have next := none (index + 1) other (by simpa using entry)
      rwa [offset_cons_succ, ← Nat.add_assoc] at next
    · intro index other entry cut
      cases index with
      | zero =>
        obtain rfl : size = other := by simpa using entry
        exact absurd (by simpa [offset_zero] using cut) notCut
      | succ index =>
        rw [offset_cons_succ, ← Nat.add_assoc] at cut ⊢
        exact cuts index other (by simpa using entry) cut

/-- Only one string can be cut: the next one starts past the middle. -/
theorem stays_inside_cut {len size : Nat} (lengths : List Nat) (cut : Cut len size) :
    StaysInside len (size :: lengths) ↔ len = 0 ∨ 2 * len = argMax ∨ LandsOn len lengths := by
  constructor
  · intro stays
    have here := stays.2 0 size (by simp)
    simp only [offset_zero, Nat.add_zero] at here
    simpa using here cut
  · intro choice
    constructor
    · intro none
      have here := none 0 size (by simp)
      simp only [offset_zero, Nat.add_zero] at here
      exact absurd cut here
    · intro index other entry again
      cases index with
      | zero => simpa [offset_zero] using choice
      | succ index =>
        rw [offset_cons_succ] at again
        have first := cut.2
        have second := again.1
        omega

/-! ## The loop of `fill_mbuf` -/

variable (strings : List CString)

variable {state : AreaFill}

theorem fill_loop_keeps_stores (state : AreaFill) (write : Store) (member : write ∈ state.stores) :
    write ∈ (fillLoop strings state).stores := by
  induction strings generalizing state with
  | nil => exact member
  | cons string rest ih =>
    simp only [fillLoop]
    split_ifs with running
    · apply ih
      simp [fillOne, member]
    · exact member

theorem fill_loop_stopped (stopped : ¬(state.argc < refMax ∧ 0 < state.max)) :
    fillLoop strings state = state := by
  cases strings with
  | nil => rfl
  | cons string rest => simp only [fillLoop, if_neg stopped]

theorem all_inside_append {stores : List Store} {start : Nat} {bytes : List UInt8}
    (inside : AllInside stores) (fits : start + bytes.length ≤ argMax) :
    AllInside (stores ++ [⟨start, bytes⟩]) := by
  intro write member
  rcases List.mem_append.mp member with old | new
  · exact inside write old
  · obtain rfl := List.mem_singleton.mp new
    intro index bound
    dsimp only at bound ⊢
    omega

theorem fill_loop_at_middle (balanced : Balanced state) (middle : 2 * state.len = argMax)
    (inside : AllInside state.stores) : AllInside (fillLoop strings state).stores := by
  induction strings generalizing state with
  | nil => exact inside
  | cons string rest ih =>
    simp only [fillLoop]
    split_ifs with running
    · have positive := size_positive string
      have step := fill_one_cut state string balanced ⟨by omega, by omega⟩
      apply ih
      · rw [step]
        exact ⟨by dsimp only; omega, by dsimp only; omega⟩
      · rw [step]
        dsimp only
        omega
      · rw [step]
        apply all_inside_append inside
        simp only [List.length_take]
        omega
    · exact inside

/-- Past the middle the wrapped limit lets a string through the end of the area. -/
theorem past_middle_overrun {string : CString} (balanced : Balanced state)
    (past : argMax < 2 * state.len) (exceeds : argMax < state.len + string.size) :
    ¬ Store.Inside argMax ⟨state.len, (copyinstr string (sizeSub state.max state.len)).stored⟩ := by
  intro inside
  have small := arg_max_small
  have within := balanced.1
  have length : (copyinstr string (sizeSub state.max state.len)).stored.length =
      min (sizeSub state.max state.len) string.size := copyinstr_stored_length string _
  have long : argMax - state.len < min (sizeSub state.max state.len) string.size := by
    rw [limit_past_middle state balanced past]
    exact Nat.lt_min.mpr ⟨by omega, by omega⟩
  have beyond := (inside (argMax - state.len) (by rw [length]; exact long)).2
  dsimp only at beyond
  omega

theorem fill_loop_past_middle (state : AreaFill) (balanced : Balanced state)
    (past : argMax < 2 * state.len) (inside : AllInside state.stores) :
    AllInside (fillLoop strings state).stores ↔
      LandsOn (argMax - state.len) ((sizes strings).take (refMax - state.argc)) := by
  induction strings generalizing state with
  | nil =>
    simp only [fillLoop, sizes, List.map_nil, List.take_nil]
    exact ⟨fun _ => lands_on_nil _, fun _ => inside⟩
  | cons string rest ih =>
    by_cases counted : state.argc < refMax
    · rw [sizes_in_reach string rest counted]
      by_cases full : state.max = 0
      · rw [fill_loop_stopped _ (by omega)]
        have noRoom : argMax - state.len = 0 := by rw [← balanced.2, full]
        constructor
        · intro _ index size entry below
          omega
        · intro _
          exact inside
      · have running : state.argc < refMax ∧ 0 < state.max := ⟨counted, by omega⟩
        have room := balanced.2
        simp only [fillLoop, if_pos running]
        by_cases fits : state.len + string.size ≤ argMax
        · have step := fill_one_whole state string balanced (Or.inr ⟨past, fits⟩)
          rw [lands_on_cons _ _ _ (by omega), Nat.sub_sub, ih (fillOne state string)]
          · rw [step]
          · rw [step]
            exact ⟨fits, rfl⟩
          · rw [step]
            dsimp only
            omega
          · rw [step]
            apply all_inside_append inside
            rw [terminated_length]
            exact fits
        · constructor
          · intro allInside
            have member : (⟨state.len, (copyinstr string
                (sizeSub state.max state.len)).stored⟩ : Store) ∈
                  (fillLoop rest (fillOne state string)).stores := by
              apply fill_loop_keeps_stores
              simp [fillOne]
            exact absurd (allInside _ member) (past_middle_overrun balanced past (by omega))
          · intro lands
            have first := lands 0 string.size (by simp)
            rw [offset_zero] at first
            have landed := first (by omega)
            omega
    · rw [fill_loop_stopped _ (fun running => counted running.1)]
      rw [show refMax - state.argc = 0 by omega, List.take_zero]
      exact ⟨fun _ => lands_on_nil _, fun _ => inside⟩

theorem fill_loop_inside_iff (state : AreaFill) (balanced : Balanced state)
    (before : 2 * state.len ≤ argMax) (inside : AllInside state.stores) :
    AllInside (fillLoop strings state).stores ↔
      StaysInside state.len ((sizes strings).take (refMax - state.argc)) := by
  induction strings generalizing state with
  | nil =>
    simp only [fillLoop, sizes, List.map_nil, List.take_nil]
    exact ⟨fun _ => stays_inside_nil _, fun _ => inside⟩
  | cons string rest ih =>
    have positive := arg_max_positive
    by_cases counted : state.argc < refMax
    · have running : state.argc < refMax ∧ 0 < state.max := by
        rw [balanced.2]
        omega
      rw [sizes_in_reach string rest counted]
      simp only [fillLoop, if_pos running]
      by_cases fits : 2 * state.len + string.size ≤ argMax
      · have step := fill_one_whole state string balanced (Or.inl fits)
        have stepBalanced : Balanced (fillOne state string) := by
          rw [step]
          exact ⟨by dsimp only; omega, rfl⟩
        have stepInside : AllInside (fillOne state string).stores := by
          rw [step]
          apply all_inside_append inside
          rw [terminated_length]
          omega
        rw [stays_inside_whole _ _ _ fits]
        by_cases next : 2 * (state.len + string.size) ≤ argMax
        · rw [ih (fillOne state string) stepBalanced (by rw [step]; exact next) stepInside, step]
        · rw [fill_loop_past_middle rest (fillOne state string) stepBalanced
            (by rw [step]; dsimp only; omega) stepInside, step,
            stays_inside_past_middle _ (by omega)]
      · have cut : Cut state.len string.size := ⟨before, by omega⟩
        have step := fill_one_cut state string balanced cut
        have stepBalanced : Balanced (fillOne state string) := by
          rw [step]
          exact ⟨by dsimp only; omega, by dsimp only; omega⟩
        have stepInside : AllInside (fillOne state string).stores := by
          rw [step]
          apply all_inside_append inside
          simp only [List.length_take]
          omega
        rw [stays_inside_cut _ cut]
        by_cases empty : state.len = 0
        · rw [fill_loop_stopped _ (by rw [step]; dsimp only; omega)]
          exact ⟨fun _ => Or.inl empty, fun _ => stepInside⟩
        · by_cases middle : 2 * state.len = argMax
          · have all := fill_loop_at_middle rest stepBalanced
              (by rw [step]; dsimp only; omega) stepInside
            exact ⟨fun _ => Or.inr (Or.inl middle), fun _ => all⟩
          · rw [fill_loop_past_middle rest (fillOne state string) stepBalanced
              (by rw [step]; dsimp only; omega) stepInside, step]
            have room : argMax - (argMax - state.len) = state.len := by omega
            dsimp only
            rw [room]
            simp only [empty, middle, false_or]
    · rw [fill_loop_stopped _ (fun running => counted running.1)]
      rw [show refMax - state.argc = 0 by omega, List.take_zero]
      exact ⟨fun _ => stays_inside_nil _, fun _ => inside⟩

theorem fill_area_inside_iff :
    AllInside (fillArea strings).stores ↔ StaysInside 0 ((sizes strings).take refMax) := by
  have start := fill_loop_inside_iff strings AreaFill.start
    ⟨Nat.zero_le _, rfl⟩ (Nat.zero_le _) (by intro write member; simp [AreaFill.start] at member)
  simpa [AreaFill.start, fillArea] using start

/-! ## The loop of `envarea_destroy_revert` -/

theorem running_range {total : Nat} (running : Running total) :
    (argMax : Int) - 2 ^ 31 < int32 total ∧ int32 total < argMax := by
  have small := arg_max_small
  unfold Running int32 at running
  unfold int32
  omega

theorem revert_limit_of_used (total : Nat) :
    revertLimit total = sizeOfInt (int32 (argMax - 2 * int32 total)) := by
  apply congrArg sizeOfInt
  unfold int32
  omega

theorem revert_store_inside_iff {total : Nat} (string : CString) (running : Running total) :
    Store.Inside argMax ⟨int32 total, strlcpyStored string (revertLimit total)⟩ ↔
      0 ≤ int32 total ∧ (argMax < 2 * int32 total → int32 total + string.size ≤ argMax) := by
  have small := arg_max_small
  have positive := size_positive string
  have range := running_range running
  have length := strlcpy_stored_length string (revertLimit total)
  rw [revert_limit_of_used] at length ⊢
  generalize int32 total = used at range length ⊢
  by_cases negative : used < 0
  · -- The limit is positive here, so at least the NUL lands before the area.
    have limit : sizeOfInt (int32 (argMax - 2 * used)) ≠ 0 := by
      unfold sizeOfInt int32
      omega
    constructor
    · intro inside
      have first := (inside 0 (by dsimp only; rw [length]; omega)).1
      dsimp only at first
      omega
    · intro ends
      omega
  · by_cases past : argMax < 2 * used
    · have limit : (sizeOfInt (int32 (argMax - 2 * used)) : Int) = 2 ^ 64 + (argMax - 2 * used) := by
        rw [int32_exact _ (by omega) (by omega), size_of_negative _ (by omega) (by omega)]
      have nonempty : strlcpyStored string (sizeOfInt (int32 (argMax - 2 * used))) ≠ [] := by
        intro empty
        rw [empty, List.length_nil] at length
        omega
      rw [inside_iff_ends _ _ _ nonempty, length]
      constructor
      · intro ends
        exact ⟨ends.1, fun _ => by omega⟩
      · intro ends
        have fits := ends.2 past
        exact ⟨ends.1, by omega⟩
    · have limit : sizeOfInt (int32 (argMax - 2 * used)) = (argMax - 2 * used).toNat := by
        rw [int32_exact _ (by omega) (by omega), size_of_nonnegative _ (by omega) (by omega)]
      constructor
      · intro _
        exact ⟨by omega, fun exceeds => absurd exceeds past⟩
      · intro _ index bound
        dsimp only at bound ⊢
        rw [length, limit] at bound
        omega

/-- The condition on the sizes seen by the daemon's loop: every string that the
loop reaches starts inside, and ends inside if it starts past the middle. The
running totals are `int` values. -/
def RevertStaysInside (lengths : List Nat) : Prop :=
  ∀ index size : Nat, lengths[index]? = some size → index < refMax →
    (∀ earlier, earlier ≤ index → Running (offsetAt lengths earlier)) →
    0 ≤ int32 (offsetAt lengths index) ∧
      (argMax < 2 * int32 (offsetAt lengths index) → int32 (offsetAt lengths index) + size ≤ argMax)

theorem revert_area_inside_iff :
    AllInside (revertArea strings).stores ↔ RevertStaysInside (sizes strings) := by
  have reached := revert_loop_stores_iff strings AreaRevert.start 0 tracks_start
  simp only [AreaRevert.start, List.not_mem_nil, false_or, Nat.zero_add] at reached
  constructor
  · intro inside index size entry bound guards
    obtain ⟨string, stringEntry, rfl⟩ : ∃ string, strings[index]? = some string ∧
        string.size = size := by simpa [sizes] using entry
    have running := guards index (Nat.le_refl _)
    apply (revert_store_inside_iff string running).mp
    apply inside
    exact (reached _).mpr ⟨index, string, stringEntry, bound, guards, rfl⟩
  · intro stays write member
    obtain ⟨index, string, entry, bound, guards, rfl⟩ := (reached write).mp member
    apply (revert_store_inside_iff string (guards index (Nat.le_refl _))).mpr
    exact stays index string.size (size_entry strings index string entry) bound guards

/-- The copy loops of both ends write inside their areas exactly when the sizes
of the strings meet the conditions above. -/
theorem copy_loops_inside_iff (argv envp environment : List CString) :
    (AllInside (fillArea argv).stores ∧ AllInside (fillArea envp).stores ∧
        AllInside (revertArea environment).stores) ↔
      StaysInside 0 ((sizes argv).take refMax) ∧ StaysInside 0 ((sizes envp).take refMax) ∧
        RevertStaysInside (sizes environment) := by
  rw [fill_area_inside_iff, fill_area_inside_iff, revert_area_inside_iff]

/-- Two strings of 300000 letters overrun the area of the kernel and of the daemon. -/
theorem copy_loops_overrun :
    ¬ AllInside (fillArea [letters 300000, letters 300000]).stores ∧
      ¬ AllInside (revertArea [letters 300000, letters 300000]).stores := by
  have lengths : sizes [letters 300000, letters 300000] = [300001, 300001] := by
    simp [sizes, letters_size]
  have first : offsetAt [300001, 300001] 1 = 300001 := by simp [offsetAt]
  constructor
  · rw [fill_area_inside_iff, lengths]
    intro stays
    have lands := stays.1 (by
      intro index size entry cut
      rcases index with _ | _ | index
      · obtain rfl : 300001 = size := by simpa [refMax] using entry
        exact absurd cut (by simp [Cut, offset_zero, argMax])
      · obtain rfl : 300001 = size := by simpa [refMax] using entry
        exact absurd cut (by simp [Cut, offsetAt, refMax, argMax])
      · simp [refMax] at entry)
    have second := lands 1 300001 (by simp [refMax]) (by simp [offsetAt, refMax, argMax])
    simp [offsetAt, refMax, argMax] at second
  · rw [revert_area_inside_iff, lengths]
    intro stays
    have second := (stays 1 300001 rfl (by decide) (by
      intro earlier bound
      rcases earlier with _ | _ | earlier
      · simp [Running, offset_zero, int32, argMax]
      · simp [Running, first, int32, argMax]
      · omega)).2
    rw [first] at second
    simp [int32, argMax] at second

end Cprogramming.Pfexec.AreaBounds
