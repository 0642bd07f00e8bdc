import Cprogramming.Library.ByteMemory

/-!
# C strings

NUL-free byte strings, the terminated bytes a C program keeps for them, and the
string routines of the C library and of the kernel: `strcmp`, `strncmp`,
`strlcpy` and `copyinstr`. The copy routines return the bytes they store, so a
caller decides where these land.
-/

namespace Cprogramming.Library.CStrings

open ByteMemory

set_option autoImplicit false

/-- The value of a C string: no byte of it is the terminator. -/
structure CString where
  bytes : List UInt8
  nulFree : (0 : UInt8) ∉ bytes
deriving DecidableEq

/-- The string that a character array holds: its bytes before the first NUL. -/
def CString.ofBytes (bytes : List UInt8) : CString where
  bytes := bytes.takeWhile (· != 0)
  nulFree := by
    intro member
    have nonzero := List.mem_takeWhile_imp member
    simp at nonzero

def CString.ofString (text : String) : CString :=
  CString.ofBytes (text.toList.map fun character => UInt8.ofNat character.toNat)

def bytesOf (text : String) : List UInt8 := (CString.ofString text).bytes

/-- The bytes the string occupies, its terminator included. -/
def CString.size (string : CString) : Nat := string.bytes.length + 1

def CString.terminated (string : CString) : List UInt8 := string.bytes ++ [0]

variable (memory : Memory) (start : Int) (fuel : Nat) (bytes : List UInt8) (string : CString)
  (stop : UInt8) (left right : CString)

theorem cstring_ext (same : left.bytes = right.bytes) : left = right := by
  cases left
  cases right
  simp only [CString.mk.injEq]
  exact same

theorem terminated_length : string.terminated.length = string.size := by
  simp [CString.terminated, CString.size]

theorem size_positive : 0 < string.size := by
  simp [CString.size]

def letters (count : Nat) : CString where
  bytes := List.replicate count 97
  nulFree := by
    intro member
    exact absurd (List.eq_of_mem_replicate member) (by decide)

theorem letters_size (count : Nat) : (letters count).size = count + 1 := by
  simp [letters, CString.size]

/-! ## Reading a string out of memory -/

/-- Scan at most `fuel` bytes for the terminator, as `strlen` does inside an
array of that many bytes. -/
def scan (memory : Memory) (start : Int) : Nat → List UInt8
  | 0 => []
  | fuel + 1 =>
    if memory start = 0 then []
    else memory start :: scan memory (start + 1) fuel

theorem scan_nul_free : (0 : UInt8) ∉ scan memory start fuel := by
  induction fuel generalizing start with
  | zero => simp [scan]
  | succ fuel ih =>
    simp only [scan]
    split_ifs with stop
    · simp
    · simp only [List.mem_cons, not_or]
      exact ⟨fun zero => stop zero.symm, ih (start + 1)⟩

def readString (memory : Memory) (start : Int) (fuel : Nat) : CString where
  bytes := scan memory start fuel
  nulFree := scan_nul_free memory start fuel

theorem scan_of_terminated (nulFree : (0 : UInt8) ∉ bytes) (room : bytes.length < fuel)
    (holds : ∀ index, index < bytes.length → memory (start + index) = bytes.getD index 0)
    (stop : memory (start + bytes.length) = 0) : scan memory start fuel = bytes := by
  induction bytes generalizing start fuel with
  | nil =>
    cases fuel with
    | zero => simp at room
    | succ fuel =>
      have here : memory start = 0 := by simpa using stop
      simp [scan, here]
  | cons byte rest ih =>
    cases fuel with
    | zero => simp at room
    | succ fuel =>
      have here : memory start = byte := by simpa using holds 0 (by simp)
      have nonzero : ¬ byte = 0 := by
        intro zero
        exact nulFree (by simp [zero])
      have tail := ih (start + 1) fuel (fun member => nulFree (by simp [member]))
        (by simp only [List.length_cons] at room; omega)
        (by
          intro index bound
          have next := holds (index + 1) (by simp only [List.length_cons]; omega)
          rw [show start + 1 + (index : Int) = start + ((index + 1 : Nat) : Int) by omega]
          simpa using next)
        (by
          rw [show start + 1 + (rest.length : Int) =
            start + ((byte :: rest).length : Int) by simp only [List.length_cons]; omega]
          exact stop)
      simp only [scan, here, if_neg nonzero, tail]

theorem read_string_of_terminated (room : string.bytes.length < fuel)
    (holds : ∀ index, index < string.bytes.length →
      memory (start + index) = string.bytes.getD index 0)
    (stop : memory (start + string.bytes.length) = 0) : readString memory start fuel = string := by
  apply cstring_ext
  exact scan_of_terminated memory start fuel string.bytes string.nulFree room holds stop

/-! ## Comparison -/

def strcmp : List UInt8 → List UInt8 → Int
  | [], [] => 0
  | [], byte :: _ => 0 - byte.toNat
  | byte :: _, [] => byte.toNat
  | byte :: rest, other :: others =>
    if byte = other then strcmp rest others else (byte.toNat : Int) - other.toNat

theorem strcmp_self : strcmp bytes bytes = 0 := by
  induction bytes with
  | nil => rfl
  | cons byte rest ih => simpa [strcmp] using ih

theorem strcmp_swap (left right : List UInt8) : strcmp left right = -strcmp right left := by
  induction left generalizing right with
  | nil => cases right <;> simp [strcmp]
  | cons byte rest ih =>
    cases right with
    | nil => simp [strcmp]
    | cons other others =>
      by_cases same : byte = other
      · simpa [strcmp, same] using ih others
      · simp [strcmp, same, Ne.symm same]

theorem strcmp_eq_zero_iff : strcmp left.bytes right.bytes = 0 ↔ left = right := by
  constructor
  · intro equal
    apply cstring_ext
    obtain ⟨leftBytes, leftFree⟩ := left
    obtain ⟨rightBytes, rightFree⟩ := right
    dsimp only at equal ⊢
    induction leftBytes generalizing rightBytes with
    | nil =>
      cases rightBytes with
      | nil => rfl
      | cons byte rest =>
        have zero : byte = 0 := by
          apply UInt8.toNat_inj.mp
          simp only [strcmp] at equal
          simp only [UInt8.toNat_zero]
          omega
        exact absurd (by simp [zero]) rightFree
    | cons byte rest ih =>
      cases rightBytes with
      | nil =>
        have zero : byte = 0 := by
          apply UInt8.toNat_inj.mp
          simp only [strcmp] at equal
          simp only [UInt8.toNat_zero]
          omega
        exact absurd (by simp [zero]) leftFree
      | cons other others =>
        simp only [strcmp] at equal
        split_ifs at equal with same
        · rw [same, ih (fun member => leftFree (by simp [member])) others
            (fun member => rightFree (by simp [member])) equal]
        · have values : byte.toNat = other.toNat := by omega
          exact absurd (UInt8.toNat_inj.mp values) same
  · intro same
    rw [same]
    exact strcmp_self right.bytes

theorem strcmp_neg_iff : strcmp left.bytes right.bytes < 0 ↔
      left.bytes.map UInt8.toNat < right.bytes.map UInt8.toNat := by
  obtain ⟨leftBytes, leftFree⟩ := left
  obtain ⟨rightBytes, rightFree⟩ := right
  dsimp only
  induction leftBytes generalizing rightBytes with
  | nil =>
    cases rightBytes with
    | nil => simp [strcmp]
    | cons byte rest =>
      have nonzero : byte.toNat ≠ 0 := by
        intro zero
        have same : byte = 0 := UInt8.toNat_inj.mp zero
        exact rightFree (by simp [same])
      simp only [strcmp, List.map_nil, List.map_cons, List.nil_lt_cons, iff_true]
      omega
  | cons byte rest ih =>
    cases rightBytes with
    | nil =>
      simp only [strcmp, List.map_cons, List.map_nil, List.not_lt_nil, iff_false]
      omega
    | cons other others =>
      rw [strcmp, List.map_cons, List.map_cons, List.cons_lt_cons_iff]
      split_ifs with same
      · rw [ih (fun member => leftFree (by simp [member])) others
          (fun member => rightFree (by simp [member])), same]
        simp
      · have differ : byte.toNat ≠ other.toNat := by
          intro values
          exact same (UInt8.toNat_inj.mp values)
        simp only [differ, false_and, or_false]
        omega

/-- `strncmp` of a string with the bytes at an address of memory. -/
def strncmp (memory : Memory) : List UInt8 → Int → Nat → Int
  | _, _, 0 => 0
  | [], address, _ + 1 => 0 - (memory address).toNat
  | byte :: rest, address, count + 1 =>
    if byte = memory address then strncmp memory rest (address + 1) count
    else (byte.toNat : Int) - (memory address).toNat

/-- With the recorded length of the second operand as its bound, `strncmp`
accepts every string that this operand is a prefix of. -/
theorem strncmp_eq_zero_iff_prefix (address : Int) (held : List UInt8)
    (heldFree : (0 : UInt8) ∉ held)
    (holds : ∀ index, index < held.length → memory (address + index) = held.getD index 0) :
    strncmp memory bytes address held.length = 0 ↔ held <+: bytes := by
  induction held generalizing bytes address with
  | nil => simp [strncmp]
  | cons head tail ih =>
    have here : memory address = head := by simpa using holds 0 (by simp)
    cases bytes with
    | nil =>
      simp only [List.length_cons, strncmp, here, List.prefix_nil, reduceCtorEq, iff_false]
      intro zero
      have headZero : head = 0 := by
        apply UInt8.toNat_inj.mp
        simp only [UInt8.toNat_zero]
        omega
      exact heldFree (by simp [headZero])
    | cons byte rest =>
      simp only [List.length_cons, strncmp, here, List.cons_prefix_cons]
      by_cases same : byte = head
      · rw [if_pos same]
        have tails := ih rest (address + 1) (fun member => heldFree (by simp [member])) (by
          intro index bound
          have next := holds (index + 1) (by simp only [List.length_cons]; omega)
          rw [show address + 1 + (index : Int) = address + ((index + 1 : Nat) : Int) by omega]
          simpa using next)
        rw [tails]
        exact ⟨fun rest => ⟨same.symm, rest⟩, fun both => both.2⟩
      · rw [if_neg same]
        constructor
        · intro zero
          have values : byte.toNat = head.toNat := by omega
          exact absurd (UInt8.toNat_inj.mp values) same
        · intro both
          exact absurd both.1.symm same

theorem strncmp_at_nul (address : Int) (count : Nat) (positive : 0 < count)
    (stop : memory address = 0) :
    strncmp memory string.bytes address count = 0 ↔ string.bytes = [] := by
  obtain ⟨bytes, nulFree⟩ := string
  obtain ⟨count, rfl⟩ : ∃ previous, count = previous + 1 := ⟨count - 1, by omega⟩
  cases bytes with
  | nil => simp [strncmp, stop]
  | cons byte rest =>
    have nonzero : ¬ byte = 0 := by
      intro zero
      exact nulFree (by simp [zero])
    simp only [strncmp, stop, if_neg nonzero, reduceCtorEq, iff_false]
    intro zero
    have byteZero : byte = 0 := by
      apply UInt8.toNat_inj.mp
      simp only [UInt8.toNat_zero] at zero ⊢
      omega
    exact nonzero byteZero

/-! ## Parts of a string -/

/-- The part of a string before the first `stop` byte, or all of it. -/
def CString.before (string : CString) (stop : UInt8) : CString where
  bytes := string.bytes.takeWhile (· != stop)
  nulFree := by
    intro member
    exact string.nulFree ((List.takeWhile_sublist _).mem member)

/-- The string one past the `stop` byte that `strchr` finds. -/
def CString.after (string : CString) (stop : UInt8) : Option CString :=
  if stop ∈ string.bytes then
    some ⟨string.bytes.drop ((string.before stop).bytes.length + 1), by
      intro member
      exact string.nulFree (List.mem_of_mem_drop member)⟩
  else none

def CString.tail (string : CString) : CString where
  bytes := string.bytes.tail
  nulFree := by
    intro member
    exact string.nulFree (List.mem_of_mem_tail member)

theorem before_free : stop ∉ (string.before stop).bytes := by
  intro member
  have differs := List.mem_takeWhile_imp member
  simp at differs

theorem before_of_free (absent : stop ∉ string.bytes) : string.before stop = string := by
  apply cstring_ext
  apply List.takeWhile_eq_self_iff.mpr
  intro byte member
  have differs : byte ≠ stop := fun same => absent (same ▸ member)
  simpa using differs

theorem before_of_split (front : CString) (stop : UInt8) (back : List UInt8)
    (split : string.bytes = front.bytes ++ stop :: back) (absent : stop ∉ front.bytes) :
    string.before stop = front := by
  apply cstring_ext
  change string.bytes.takeWhile (· != stop) = front.bytes
  rw [split, List.takeWhile_append_of_pos]
  · simp
  · intro byte member
    have differs : byte ≠ stop := fun same => absent (same ▸ member)
    simpa using differs

theorem after_of_split (front back : CString) (stop : UInt8)
    (split : string.bytes = front.bytes ++ stop :: back.bytes) (absent : stop ∉ front.bytes) :
    string.after stop = some back := by
  have member : stop ∈ string.bytes := by
    rw [split]
    simp
  rw [CString.after, if_pos member]
  apply congrArg some
  apply cstring_ext
  dsimp only
  rw [before_of_split string front stop back.bytes split absent, split, ← List.drop_drop,
    List.drop_left, List.drop_succ_cons, List.drop_zero]

theorem split_at_byte (member : stop ∈ string.bytes) :
    ∃ back : CString, string.bytes = (string.before stop).bytes ++ stop :: back.bytes := by
  obtain ⟨front, back, split, absent⟩ := List.eq_append_cons_of_mem member
  have free := string.nulFree
  rw [split, List.mem_append, List.mem_cons, not_or, not_or] at free
  refine ⟨⟨back, free.2.2⟩, ?_⟩
  rw [before_of_split string ⟨front, free.1⟩ stop back split absent]
  exact split

/-- The string a truncating copy of at most `count` characters leaves. -/
def CString.take (string : CString) (count : Nat) : CString where
  bytes := string.bytes.take count
  nulFree := by
    intro member
    exact string.nulFree (List.mem_of_mem_take member)

def CString.append (left right : CString) : CString where
  bytes := left.bytes ++ right.bytes
  nulFree := by
    intro member
    rcases List.mem_append.mp member with first | second
    · exact left.nulFree first
    · exact right.nulFree second

/-! ## Numbers -/

def isSpace (byte : UInt8) : Bool := byte == 32 || (decide (9 ≤ byte) && decide (byte ≤ 13))

def isDigit (byte : UInt8) : Bool := decide (48 ≤ byte) && decide (byte ≤ 57)

def decimal (digits : List UInt8) : Nat :=
  digits.foldl (fun value digit => 10 * value + (digit.toNat - 48)) 0

/-- `strtoll` in base ten with the bytes it leaves; `none` is a number without
digits. The value is not clamped: every caller here bounds it further. -/
def strtoll (bytes : List UInt8) : Option (Int × List UInt8) :=
  let text := bytes.dropWhile isSpace
  let signed := text.head? = some 45
  let digits := if signed ∨ text.head? = some 43 then text.tail else text
  let value : Int := decimal (digits.takeWhile isDigit)
  if digits.takeWhile isDigit = [] then none
  else some (if signed then -value else value, digits.dropWhile isDigit)

/-- `strtonum`: `none` is a call that sets its error string and returns zero. -/
def strtonum (string : CString) (minval maxval : Int) : Option Int :=
  match strtoll string.bytes with
  | some (value, []) => if minval ≤ value ∧ value ≤ maxval then some value else none
  | _ => none

/-! ## Copying -/

def enametoolong : Int := 63

/-- What a `copyinstr` call stores at its destination, the count it reports and
its result. -/
structure Copyinstr where
  stored : List UInt8
  done : Nat
  error : Int

/-- `copyinstr` stores at most `limit` bytes and reports how many, the NUL
included; a string that does not end within the limit is cut without a NUL. -/
def copyinstr (string : CString) (limit : Nat) : Copyinstr where
  stored := string.terminated.take limit
  done := min limit string.size
  error := if string.size ≤ limit then 0 else enametoolong

theorem copyinstr_stored_length (limit : Nat) :
    (copyinstr string limit).stored.length = (copyinstr string limit).done := by
  simp [copyinstr, terminated_length]

theorem copyinstr_whole (limit : Nat) (fits : string.size ≤ limit) :
    copyinstr string limit = ⟨string.terminated, string.size, 0⟩ := by
  have whole : string.terminated.take limit = string.terminated :=
    List.take_of_length_le (by rw [terminated_length]; exact fits)
  simp only [copyinstr, whole, Nat.min_eq_right fits, if_pos fits]

/-- The bytes `strlcpy` stores for a destination of `size` bytes. Its result is
the length of the source whatever the size is. -/
def strlcpyStored (string : CString) (size : Nat) : List UInt8 :=
  if size = 0 then [] else string.bytes.take (size - 1) ++ [0]

def strlcpyResult (string : CString) : Nat := string.bytes.length

theorem strlcpy_whole (size : Nat) (fits : string.size ≤ size) :
    strlcpyStored string size = string.terminated := by
  have positive := size_positive string
  have notZero : ¬ size = 0 := by omega
  have whole : string.bytes.take (size - 1) = string.bytes :=
    List.take_of_length_le (by simp only [CString.size] at fits; omega)
  simp only [strlcpyStored, if_neg notZero, whole, CString.terminated]

theorem strlcpy_stored_length (size : Nat) :
    (strlcpyStored string size).length = min size string.size := by
  unfold strlcpyStored
  split_ifs with empty
  · simp [empty]
  · simp only [List.length_append, List.length_take, List.length_cons, List.length_nil,
      CString.size]
    omega

end Cprogramming.Library.CStrings
