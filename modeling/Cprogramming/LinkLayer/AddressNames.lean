import Cprogramming.Library.ByteMemory
import Cprogramming.LinkLayer.Addresses

/-!
# The names of addresses in their arrays

`rIpop_op_to_str` and `rIpop_str_to_op` on the array of `IP_MAX_NAME` bytes that
holds a name: the stores of the printer, the loop of the reader, and the test
that is made on a name before it is read.
-/

namespace Cprogramming.LinkLayer.AddressNames

open Addresses
open Library.ByteMemory Library.CStrings Library.Decimals Library.Fields

set_option autoImplicit false

/-! ## Reading -/

/-- The loop of `rIpop_str_to_op`: the octets it stores with their indices. The
NUL that is put over a dot ends the text that `atoi` reads, `piece`. -/
def strToOpLoop (piece : List UInt8) (x : Nat) : List UInt8 → List (Nat × UInt8)
  | [] => []
  | byte :: rest =>
    if byte = dot then (x, UInt8.ofInt (atoi piece)) :: strToOpLoop [] (x + 1) rest
    else if byte = 0 then [(x, UInt8.ofInt (atoi piece))]
    else strToOpLoop (piece ++ [byte]) x rest

/-- `ip_cur[x] = ip_box[x] = octet`. There is no result for an index outside of the
two arrays. -/
def storeOctet (op : RIPop) (octet : Nat × UInt8) : Option RIPop :=
  match octet with
  | (0, value) => some { op with
      ipBox := { op.ipBox with fst := value }, ipCur := { op.ipCur with fst := value } }
  | (1, value) => some { op with
      ipBox := { op.ipBox with snd := value }, ipCur := { op.ipCur with snd := value } }
  | (2, value) => some { op with
      ipBox := { op.ipBox with thd := value }, ipCur := { op.ipCur with thd := value } }
  | (3, value) => some { op with
      ipBox := { op.ipBox with frt := value }, ipCur := { op.ipCur with frt := value } }
  | _ => none

/-- `rIpop_str_to_op` on the bytes of the array `name`. -/
def rIpopStrToOpArray (op : RIPop) (name : List UInt8) : Option RIPop :=
  (strToOpLoop [] 0 (name.take ipMaxName)).foldlM storeOctet op

theorem str_to_op_loop_pieces {name : List UInt8} (after piece : List UInt8) (x : Nat)
    (nulFree : (0 : UInt8) ∉ name) : strToOpLoop piece x (name ++ 0 :: after) =
      (((name.splitOn dot).modifyHead (piece ++ ·)).zipIdx x).map
        fun numbered => (numbered.2, UInt8.ofInt (atoi numbered.1)) := by
  induction name generalizing piece x with
  | nil => simp [strToOpLoop, dot]
  | cons byte rest ih =>
    have restFree : (0 : UInt8) ∉ rest := fun member => nulFree (List.mem_cons_of_mem _ member)
    have nonzero : byte ≠ 0 := fun zero => nulFree (by rw [zero]; exact List.mem_cons_self)
    obtain ⟨first, others, shape⟩ := List.exists_cons_of_ne_nil (List.splitOn_ne_nil dot rest)
    rw [List.cons_append, strToOpLoop, List.splitOn_cons_eq_if_modifyHead]
    by_cases here : byte = dot
    · rw [if_pos here, ih [] (x + 1) restFree, shape]
      simp [here]
    · rw [if_neg here, if_neg nonzero, ih (piece ++ [byte]) x restFree, shape]
      simp [here]

theorem four_pieces (name : List UInt8) (dots : name.count dot = 3) :
    ∃ one two three four, name.splitOn dot = [one, two, three, four] := by
  have count := split_length dot name
  rw [dots] at count
  match shape : name.splitOn dot, count with
  | [one, two, three, four], _ => exact ⟨one, two, three, four, rfl⟩

theorem str_to_op_three_dots (op : RIPop) (name after : List UInt8) (nulFree : (0 : UInt8) ∉ name)
    (short : name.length < ipMaxName) (dots : name.count dot = 3) :
    rIpopStrToOpArray op (name ++ 0 :: after) =
      some { op with ipBox := rIpopStrToOp name, ipCur := rIpopStrToOp name } := by
  obtain ⟨room, roomIs⟩ : ∃ room, ipMaxName - name.length = room + 1 :=
    ⟨ipMaxName - name.length - 1, by omega⟩
  obtain ⟨one, two, three, four, pieces⟩ := four_pieces name dots
  rw [rIpopStrToOpArray, List.take_append, List.take_of_length_le (Nat.le_of_lt short), roomIs,
    List.take_succ_cons, str_to_op_loop_pieces _ [] 0 nulFree, rIpopStrToOp]
  simp only [octetAt, pieces]
  rfl

/-! ## Printing -/

variable (ip : RIPsingle) (memory : Memory) (octet : UInt8) (rest : List UInt8)

def ipBoxSz : Nat := 4

/-- The text of `"%u."`. -/
def octetText (octet : UInt8) : List UInt8 := printDecimal octet.toNat ++ [dot]

/-- The stores of the loop of `rIpop_op_to_str`: `snprintf` into `IP_BOX_SZ + 1`
bytes for each octet, and the NUL over the dot behind the last. -/
def opToStrLoop (place : Nat) : List UInt8 → List Store
  | [] => [⟨(place : Int) - 1, [0]⟩]
  | octet :: rest =>
    ⟨place, (octetText octet).take ipBoxSz ++ [0]⟩ ::
      opToStrLoop (place + (octetText octet).length) rest

def opToStrStores (ip : RIPsingle) : List Store :=
  opToStrLoop 0 [ip.fst, ip.snd, ip.thd, ip.frt]

def arrayOf (memory : Memory) (size : Nat) : List UInt8 :=
  (List.range size).map fun index : Nat => memory index

theorem octet_length :
    1 ≤ (printDecimal octet.toNat).length ∧ (printDecimal octet.toNat).length ≤ 3 ∧
      ((printDecimal octet.toNat).length ≤ 2 ↔ octet < 100) := by
  have bound := octet.toNat_lt
  have least := List.length_pos_iff.mpr (print_decimal_nonempty octet.toNat)
  have two := Nat.length_toDigits_le_iff (b := 10) (n := octet.toNat) (k := 2) (by decide) (by decide)
  have three := print_decimal_length octet.toNat 3 (by decide) (by omega)
  refine ⟨least, three, ?_⟩
  rw [UInt8.lt_iff_toNat_lt, printDecimal, List.length_map]
  exact two

theorem octet_text_length : (octetText octet).length = (printDecimal octet.toNat).length + 1 := by
  exact List.length_append

theorem octet_text_fits : (octetText octet).take ipBoxSz = octetText octet := by
  have length := octet_length octet
  apply List.take_of_length_le
  rw [octet_text_length, ipBoxSz]
  omega

def dotted (octets : List UInt8) : List UInt8 := octets.flatMap octetText

theorem dotted_nonempty : dotted (octet :: rest) ≠ [] := by
  simp [dotted, octetText]

theorem dotted_single : dotted [octet] = octetText octet := by
  exact List.flatMap_singleton _ _

theorem dotted_cons : dotted (octet :: rest) = octetText octet ++ dotted rest := by
  exact List.flatMap_cons

theorem replay_cons (start : Int) (bytes : List UInt8) (rest : List Store) :
    replay memory (⟨start, bytes⟩ :: rest) = replay (store memory start bytes) rest := by
  rfl

theorem op_to_str_loop_before (place : Nat) (octets : List UInt8) (nonempty : octets ≠ [])
    (address : Int) (before : address < place) :
    replay memory (opToStrLoop place octets) address = memory address := by
  induction octets generalizing memory place with
  | nil => exact absurd rfl nonempty
  | cons octet rest ih =>
    have length := octet_text_length octet
    have first := store_outside memory place ((octetText octet).take ipBoxSz ++ [0]) address
      (Or.inl before)
    rw [opToStrLoop, replay_cons]
    cases rest with
    | nil =>
      rw [opToStrLoop, replay_singleton, store_outside _ _ _ _ (Or.inl (by omega)), first]
    | cons second others =>
      rw [ih _ _ (List.cons_ne_nil _ _) (by omega), first]

theorem op_to_str_loop_spec (place : Nat) (octets : List UInt8) (nonempty : octets ≠ [])
    (index : Nat) (inside : index < (dotted octets).length) :
    replay memory (opToStrLoop place octets) (place + index) =
      (dotted octets).dropLast.getD index 0 := by
  induction octets generalizing memory place index with
  | nil => exact absurd rfl nonempty
  | cons octet rest ih =>
    have length := octet_text_length octet
    have text : index < (octetText octet).length →
        store memory place ((octetText octet).take ipBoxSz ++ [0]) (place + index) =
          (octetText octet).getD index 0 := by
      intro here
      rw [octet_text_fits, store_at _ _ _ _ (by rw [List.length_append]; omega),
        List.getD_append _ _ _ _ here]
    rw [opToStrLoop, replay_cons]
    cases rest with
    | nil =>
      rw [dotted_single] at inside ⊢
      rw [opToStrLoop, replay_singleton]
      by_cases last : index + 1 = (octetText octet).length
      · have address : (place : Int) + index =
            ((place + (octetText octet).length : Nat) : Int) - 1 + (0 : Nat) := by omega
        rw [address, store_at _ _ _ _ (by decide), octetText, List.dropLast_concat]
        exact (List.getD_eq_default _ _ (by omega)).symm
      · rw [store_outside _ _ _ _ (Or.inl (by omega)), text inside, octetText,
          List.dropLast_concat, List.getD_append _ _ _ _ (by omega)]
    | cons second others =>
      rw [dotted_cons, List.length_append] at inside
      rw [dotted_cons, List.dropLast_append_of_ne_nil (dotted_nonempty second others)]
      by_cases here : index < (octetText octet).length
      · rw [op_to_str_loop_before _ _ _ (List.cons_ne_nil _ _) _ (by omega), text here,
          List.getD_append _ _ _ _ here]
      · have address : (place : Int) + index =
            ((place + (octetText octet).length : Nat) : Int) +
              (index - (octetText octet).length : Nat) := by omega
        rw [address, ih _ _ (List.cons_ne_nil _ _) _ (by omega),
          List.getD_append_right _ _ _ _ (by omega)]

theorem op_to_str_loop_inside (bound place : Nat) {octets : List UInt8} (nonempty : octets ≠ []) :
    (∀ write ∈ opToStrLoop place octets, write.Inside bound) ↔
      place + (dotted octets).length + 1 ≤ bound := by
  induction octets generalizing place with
  | nil => exact absurd rfl nonempty
  | cons octet rest ih =>
    have length := octet_text_length octet
    have ends : Store.Inside bound ⟨place, (octetText octet).take ipBoxSz ++ [0]⟩ ↔
        place + (octetText octet).length + 1 ≤ bound := by
      rw [octet_text_fits, inside_iff_ends _ _ _ (by simp), List.length_append,
        List.length_singleton]
      omega
    rw [opToStrLoop, List.forall_mem_cons, ends]
    cases rest with
    | nil =>
      have last : Store.Inside bound ⟨((place + (octetText octet).length : Nat) : Int) - 1, [0]⟩ ↔
          place + (octetText octet).length ≤ bound := by
        rw [inside_iff_ends _ _ _ (by simp), List.length_singleton]
        omega
      rw [opToStrLoop, List.forall_mem_singleton, last, dotted_single]
      omega
    | cons second others =>
      rw [ih _ (List.cons_ne_nil _ _), dotted_cons octet, List.length_append]
      omega

/-! ## Printing and reading -/

theorem dotted_address : (dotted [ip.fst, ip.snd, ip.thd, ip.frt]).dropLast = rIpopOpToStr ip := by
  have split : dotted [ip.fst, ip.snd, ip.thd, ip.frt] = rIpopOpToStr ip ++ [dot] := by
    simp [dotted, octetText, rIpopOpToStr]
  rw [split, List.dropLast_concat]

theorem array_terminated {size : Nat} {name : List UInt8} (room : name.length < size)
    (holds : ∀ index, index ≤ name.length → memory index = name.getD index 0) :
    ∃ after, arrayOf memory size = name ++ 0 :: after := by
  refine ⟨(arrayOf memory size).drop (name.length + 1), ?_⟩
  have front : (arrayOf memory size).take (name.length + 1) = name ++ [0] := by
    apply List.ext_getElem
    · simp [arrayOf]
      omega
    · intro index left right
      have within : index ≤ name.length := by
        rw [List.length_append, List.length_singleton] at right
        omega
      simp only [arrayOf, List.getElem_take, List.getElem_map, List.getElem_range]
      rw [holds index within]
      by_cases here : index < name.length
      · rw [List.getElem_append_left here, List.getD_eq_getElem _ _ here]
      · rw [List.getElem_append_right (by omega), List.getD_eq_default _ _ (by omega),
          List.getElem_singleton]
  rw [← List.singleton_append, ← List.append_assoc, ← front, List.take_append_drop]

theorem op_to_str_length :
    (dotted [ip.fst, ip.snd, ip.thd, ip.frt]).length = (rIpopOpToStr ip).length + 1 ∧
      (rIpopOpToStr ip).length < ipMaxName ∧
      ((rIpopOpToStr ip).length + 1 < ipMaxName ↔
        ip.fst < 100 ∨ ip.snd < 100 ∨ ip.thd < 100 ∨ ip.frt < 100) := by
  have first := octet_length ip.fst
  have second := octet_length ip.snd
  have third := octet_length ip.thd
  have fourth := octet_length ip.frt
  have total : (dotted [ip.fst, ip.snd, ip.thd, ip.frt]).length = (rIpopOpToStr ip).length + 1 := by
    rw [← dotted_address, List.length_dropLast]
    have positive := List.length_pos_iff.mpr (dotted_nonempty ip.fst [ip.snd, ip.thd, ip.frt])
    omega
  refine ⟨total, ?_⟩
  rw [dotted_cons, dotted_cons, dotted_cons, dotted_single] at total
  simp only [List.length_append, octet_text_length] at total
  rw [← first.2.2, ← second.2.2, ← third.2.2, ← fourth.2.2, ipMaxName]
  omega

theorem op_to_str_nul_free : (0 : UInt8) ∉ rIpopOpToStr ip := by
  intro member
  rw [← dotted_address] at member
  obtain ⟨octet, _, inText⟩ := List.mem_flatMap.mp (List.dropLast_subset _ member)
  rcases List.mem_append.mp inText with digit | last
  · exact absurd (print_decimal_digits octet.toNat 0 digit) (by decide)
  · exact absurd (List.mem_singleton.mp last) (by decide)

theorem printed_array :
    ∃ after, arrayOf (replay memory (opToStrStores ip)) ipMaxName = rIpopOpToStr ip ++ 0 :: after := by
  have length := op_to_str_length ip
  apply array_terminated _ length.2.1
  intro index within
  have spec := op_to_str_loop_spec memory 0 [ip.fst, ip.snd, ip.thd, ip.frt] (List.cons_ne_nil _ _)
    index (by omega)
  rw [dotted_address, Nat.cast_zero, Int.zero_add] at spec
  exact spec

theorem printed_array_read_back (op : RIPop) :
    rIpopStrToOpArray op (arrayOf (replay memory (opToStrStores ip)) ipMaxName) =
      some { op with ipBox := ip, ipCur := ip } := by
  obtain ⟨after, array⟩ := printed_array ip memory
  have dots : (rIpopOpToStr ip).count dot = 3 := by
    have count := split_length dot (rIpopOpToStr ip)
    rw [op_to_str_pieces] at count
    exact (Nat.succ.inj count).symm
  rw [array, str_to_op_three_dots op _ after (op_to_str_nul_free ip) (op_to_str_length ip).2.1 dots,
    str_to_op_of_op_to_str]

/-- Every store of the printer is within the array, and the reader gets the address
back out of it. -/
def PrintsSafely (ip : RIPsingle) : Prop :=
  (∀ write ∈ opToStrStores ip, write.Inside ipMaxName) ∧
    ∀ memory op, rIpopStrToOpArray op (arrayOf (replay memory (opToStrStores ip)) ipMaxName) =
      some { op with ipBox := ip, ipCur := ip }

theorem op_to_str_inside_iff : (∀ write ∈ opToStrStores ip, write.Inside ipMaxName) ↔
      ip.fst < 100 ∨ ip.snd < 100 ∨ ip.thd < 100 ∨ ip.frt < 100 := by
  have length := op_to_str_length ip
  rw [opToStrStores, op_to_str_loop_inside _ _ (List.cons_ne_nil _ _), ← length.2.2]
  omega

theorem prints_safely_iff_short_octet (ip : RIPsingle) :
    PrintsSafely ip ↔ ip.fst < 100 ∨ ip.snd < 100 ∨ ip.thd < 100 ∨ ip.frt < 100 := by
  rw [PrintsSafely, op_to_str_inside_iff]
  exact and_iff_left (printed_array_read_back ip)

/-- The NUL of the last `snprintf` is stored behind the array. -/
theorem longest_name_stores_behind_array : ¬ PrintsSafely ⟨192, 168, 100, 200⟩ := by
  intro safe
  have short := (op_to_str_inside_iff ⟨192, 168, 100, 200⟩).mp safe.1
  exact absurd short (by decide)

/-! ## The test of a name -/

variable {piece : List UInt8}

def isOctet (piece : List UInt8) : Bool :=
  decide (1 ≤ piece.length) && decide (piece.length ≤ 3) && piece.all isDigit &&
    decide (decimal piece ≤ 255)

def dottedQuad (name : List UInt8) : Bool :=
  (name.splitOn dot).length == 4 && (name.splitOn dot).all isOctet

def quadNumber (name : List UInt8) (index : Nat) : UInt8 :=
  UInt8.ofNat (decimal ((name.splitOn dot).getD index []))

def quadNumbers (name : List UInt8) : RIPsingle :=
  ⟨quadNumber name 0, quadNumber name 1, quadNumber name 2, quadNumber name 3⟩

/-- The test accepts the name exactly when it is a dotted quad, and the numbers of
an accepted name are stored. -/
def Validates (name : CString) : Prop :=
  (rIpopStrValidateGood name.bytes = true ↔ dottedQuad name.bytes = true) ∧
    (rIpopStrValidateGood name.bytes = true → ∀ op after,
      rIpopStrToOpArray op (name.bytes ++ 0 :: after) =
        some { op with ipBox := quadNumbers name.bytes, ipCur := quadNumbers name.bytes })

def adjacentDots (name : List UInt8) : Bool :=
  (name.zip name.tail).any fun pair => pair.1 == dot && pair.2 == dot

def spacedDots (name : List UInt8) : Bool :=
  name.all (fun byte => byte == dot || isDigit byte) && name.count dot == 3 && !adjacentDots name

/-- No dot at either end, and numbers of at most three digits and at most 255. -/
def smallNumbers (name : List UInt8) : Bool :=
  name.head? != some dot && name.getLast? != some dot &&
    (name.splitOn dot).all fun piece => decide (piece.length ≤ 3) && decide (decimal piece ≤ 255)

/-- No quad of more than twelve characters, and among the shorter names with three
dots that are apart none with an empty or a large number. -/
def plainName (name : List UInt8) : Bool :=
  (decide (name.length ≤ 12) || !dottedQuad name) &&
    (!(decide (name.length ≤ 12) && spacedDots name) || smallNumbers name)

theorem adjacent_dots_append {front : List UInt8} (rest : List UInt8) (free : dot ∉ front) :
    adjacentDots (front ++ dot :: rest) = (rest.head? == some dot || adjacentDots rest) := by
  induction front with
  | nil => cases rest <;> simp [adjacentDots]
  | cons byte others ih =>
    have first : (byte == dot) = false := by
      rw [beq_eq_false_iff_ne]
      intro same
      exact free (by rw [same]; exact List.mem_cons_self)
    rw [← ih (fun member => free (List.mem_cons_of_mem _ member))]
    cases others <;> simp [adjacentDots, first]

theorem adjacent_dots_free {name : List UInt8} (free : dot ∉ name) : adjacentDots name = false := by
  rw [adjacentDots, List.any_eq_false]
  intro pair member
  have present := (List.of_mem_zip member).1
  have other : pair.1 ≠ dot := fun same => free (same ▸ present)
  simp [other]

theorem head_dot_iff (free : dot ∉ piece) :
    (piece ++ dot :: rest).head? = some dot ↔ piece = [] := by
  cases piece with
  | nil => simp
  | cons byte others =>
    have other : byte ≠ dot := fun same => free (by rw [same]; exact List.mem_cons_self)
    simp [other]

theorem last_dot_iff (front : List UInt8) (free : dot ∉ piece) :
    (front ++ dot :: piece).getLast? = some dot ↔ piece = [] := by
  induction piece using List.reverseRecOn with
  | nil => simp
  | append_singleton others byte _ =>
    have other : byte ≠ dot := fun same => free (by simp [same])
    rw [← List.cons_append, ← List.append_assoc, List.getLast?_concat]
    simp [other]

theorem digits_of_dot_free (free : dot ∉ piece) :
    piece.all (fun byte => byte == dot || isDigit byte) = piece.all isDigit := by
  rw [Bool.eq_iff_iff, List.all_eq_true, List.all_eq_true]
  have plain : ∀ byte ∈ piece, (byte == dot || isDigit byte) = isDigit byte := by
    intro byte member
    have other : byte ≠ dot := fun same => free (same ▸ member)
    simp [other]
  constructor
  · intro each byte member
    rw [← plain byte member]
    exact each byte member
  · intro each byte member
    rw [plain byte member]
    exact each byte member

theorem atoi_digits (nonempty : piece ≠ []) (digits : piece.all isDigit = true) :
    UInt8.ofInt (atoi piece) = UInt8.ofNat (decimal piece) := by
  have read := strtoll_numeral ⟨[], [], piece, by simp, Or.inl rfl, nonempty, List.all_eq_true.mp digits⟩
    [] (by simp)
  simp only [Numeral.text, Numeral.value, List.nil_append, List.append_nil] at read
  have kept : ((decimal piece : Int) % 2 ^ 8).toNat = decimal piece % UInt8.size := by
    simp only [UInt8.size]
    omega
  rw [if_neg (by simp)] at read
  simp only [atoi, read, Option.map_some, Option.getD_some, UInt8.ofInt, kept]
  exact UInt8.ofNat_mod_size

section

variable (name one two three four : List UInt8)
  (pieces : name.splitOn dot = [one, two, three, four])

include pieces

theorem name_of_pieces : name = one ++ dot :: (two ++ dot :: (three ++ dot :: four)) := by
  have joined : [dot].intercalate (name.splitOn dot) = name := List.intercalate_splitOn dot
  rw [← joined, pieces]
  simp

theorem pieces_free : dot ∉ one ∧ dot ∉ two ∧ dot ∉ three ∧ dot ∉ four := by
  have free := separator_not_mem_split dot name
  rw [pieces] at free
  exact ⟨free one (by simp), free two (by simp), free three (by simp), free four (by simp)⟩

theorem spaced_dots_iff :
    spacedDots name = true ↔ (one.all isDigit = true ∧ two.all isDigit = true ∧
      three.all isDigit = true ∧ four.all isDigit = true) ∧ two ≠ [] ∧ three ≠ [] := by
  obtain ⟨freeOne, freeTwo, freeThree, freeFour⟩ := pieces_free name one two three four pieces
  have count : name.count dot = 3 := by
    have length := split_length dot name
    rw [pieces] at length
    exact (Nat.succ.inj length).symm
  have adjacent : adjacentDots name = false ↔ two ≠ [] ∧ three ≠ [] := by
    rw [name_of_pieces name one two three four pieces, adjacent_dots_append _ freeOne,
      adjacent_dots_append _ freeTwo, adjacent_dots_append _ freeThree, adjacent_dots_free freeFour]
    have lastHead : four.head? ≠ some dot := fun first => freeFour (List.mem_of_mem_head? first)
    simp only [Bool.or_eq_false_iff, beq_eq_false_iff_ne, ne_eq, head_dot_iff _ freeTwo,
      head_dot_iff _ freeThree, lastHead, not_false_eq_true, and_true]
  rw [spacedDots, count, Bool.and_eq_true, Bool.not_eq_true', adjacent,
    name_of_pieces name one two three four pieces]
  simp only [List.all_append, List.all_cons, beq_self_eq_true, Bool.true_or, Bool.true_and,
    Bool.and_true, digits_of_dot_free freeOne, digits_of_dot_free freeTwo,
    digits_of_dot_free freeThree, digits_of_dot_free freeFour, Bool.and_eq_true]

theorem small_numbers_iff :
    smallNumbers name = true ↔ (one ≠ [] ∧ four ≠ []) ∧
      ∀ piece ∈ [one, two, three, four], piece.length ≤ 3 ∧ decimal piece ≤ 255 := by
  obtain ⟨freeOne, _, _, freeFour⟩ := pieces_free name one two three four pieces
  have ends := name_of_pieces name one two three four pieces
  have first : name.head? = some dot ↔ one = [] := by
    rw [ends]
    exact head_dot_iff _ freeOne
  have last : name.getLast? = some dot ↔ four = [] := by
    rw [ends, ← List.cons_append, ← List.append_assoc, ← List.cons_append, ← List.append_assoc]
    exact last_dot_iff _ freeFour
  simp only [smallNumbers, Bool.and_eq_true, bne_iff_ne, ne_eq, first, last, pieces,
    List.all_eq_true, decide_eq_true_eq]

theorem dotted_quad_iff :
    dottedQuad name = true ↔ spacedDots name = true ∧ smallNumbers name = true := by
  rw [spaced_dots_iff name one two three four pieces, small_numbers_iff name one two three four pieces]
  simp only [dottedQuad, pieces, isOctet, List.length_cons, List.length_nil, List.all_cons,
    List.all_nil, Bool.and_eq_true, decide_eq_true_eq, List.forall_mem_cons, Nat.one_le_iff_ne_zero,
    ne_eq, List.length_eq_zero_iff]
  tauto

theorem spaced_length (spaced : spacedDots name = true) : 4 ≤ name.length := by
  obtain ⟨_, second, third⟩ := (spaced_dots_iff name one two three four pieces).mp spaced
  have two := List.length_pos_iff.mpr second
  have three := List.length_pos_iff.mpr third
  rw [name_of_pieces name one _ _ four pieces]
  simp only [List.length_append, List.length_cons]
  omega

theorem quad_stored (quad : dottedQuad name = true) : rIpopStrToOp name = quadNumbers name := by
  simp only [dottedQuad, pieces, isOctet, List.all_cons, List.all_nil, Bool.and_eq_true,
    decide_eq_true_eq, Nat.one_le_iff_ne_zero, ne_eq, List.length_eq_zero_iff] at quad
  obtain ⟨_, first, second, third, fourth, _⟩ := quad
  simp only [rIpopStrToOp, quadNumbers, octetAt, quadNumber, pieces, List.getD_cons_zero,
    List.getD_cons_succ]
  rw [atoi_digits first.1.1.1 first.1.2, atoi_digits second.1.1.1 second.1.2,
    atoi_digits third.1.1.1 third.1.2, atoi_digits fourth.1.1.1 fourth.1.2]

end

theorem validate_good_iff {name : List UInt8} (short : name.length ≤ 15) :
    rIpopStrValidateGood name = true ↔
      spacedDots name = true ∧ 4 ≤ name.length ∧ name.length ≤ 12 := by
  have whole : name.take ipMaxName = name := List.take_of_length_le (short.trans (by decide))
  have plain : name.any (fun byte => byte != dot && !isDigit byte) =
      !name.all fun byte => byte == dot || isDigit byte := by
    rw [List.not_all_eq_any_not]
    congr
    funext byte
    rw [Bool.not_or]
    rfl
  simp only [rIpopStrValidateGood, whole, plain, spacedDots, adjacentDots, Bool.and_eq_true,
    Bool.not_or, Bool.not_not, decide_eq_true_eq]
  tauto

theorem spaced_count (name : List UInt8) (spaced : spacedDots name = true) :
    name.count dot = 3 := by
  simp only [spacedDots, Bool.and_eq_true, beq_iff_eq] at spaced
  exact spaced.1.2

theorem quad_count (name : List UInt8) (quad : dottedQuad name = true) : name.count dot = 3 := by
  have length := split_length dot name
  simp only [dottedQuad, Bool.and_eq_true, beq_iff_eq] at quad
  omega

theorem quad_iff_spaced_small (name : List UInt8) :
    dottedQuad name = true ↔ spacedDots name = true ∧ smallNumbers name = true := by
  by_cases dots : name.count dot = 3
  · obtain ⟨one, two, three, four, pieces⟩ := four_pieces name dots
    exact dotted_quad_iff name one two three four pieces
  · exact ⟨fun quad => absurd (quad_count name quad) dots,
      fun both => absurd (spaced_count name both.1) dots⟩

/-- The count of the digits only bounds the length of the name. -/
theorem good_iff_spaced_short {name : List UInt8} (short : name.length ≤ 15) :
    rIpopStrValidateGood name = true ↔ spacedDots name = true ∧ name.length ≤ 12 := by
  rw [validate_good_iff short]
  constructor
  · intro good
    exact ⟨good.1, good.2.2⟩
  · intro both
    obtain ⟨one, two, three, four, pieces⟩ := four_pieces name (spaced_count name both.1)
    exact ⟨both.1, spaced_length name one two three four pieces both.1, both.2⟩

theorem judged_iff_plain {name : List UInt8} (short : name.length ≤ 15) :
    (rIpopStrValidateGood name = true ↔ dottedQuad name = true) ↔ plainName name = true := by
  have quad := quad_iff_spaced_small name
  simp only [plainName, Bool.and_eq_true, Bool.or_eq_true, Bool.not_eq_true',
    decide_eq_true_eq, ← Bool.not_eq_true]
  rw [good_iff_spaced_short short, quad]
  tauto

theorem quad_read {name : CString} (short : name.bytes.length ≤ 15)
    (quad : dottedQuad name.bytes = true) (op : RIPop) (after : List UInt8) :
    rIpopStrToOpArray op (name.bytes ++ 0 :: after) =
      some { op with ipBox := quadNumbers name.bytes, ipCur := quadNumbers name.bytes } := by
  have dots := quad_count name.bytes quad
  obtain ⟨one, two, three, four, pieces⟩ := four_pieces name.bytes dots
  rw [str_to_op_three_dots op name.bytes after name.nulFree (Nat.lt_succ_of_le short) dots,
    quad_stored name.bytes one two three four pieces quad]

/-- When a name is accepted exactly as a dotted quad. -/
theorem validates_iff_plain_name (name : CString) (short : name.bytes.length ≤ 15) :
    Validates name ↔ plainName name.bytes = true := by
  rw [← judged_iff_plain short]
  constructor
  · intro validates
    exact validates.1
  · intro judged
    exact ⟨judged, fun good => quad_read short (judged.mp good)⟩

theorem default_address_validates :
    (CString.ofString "192.168.0.1").bytes.length ≤ 15 ∧
      Validates (CString.ofString "192.168.0.1") := by
  have short : (CString.ofString "192.168.0.1").bytes.length ≤ 15 := by decide
  exact ⟨short, (validates_iff_plain_name _ short).mpr (by decide)⟩

/-- The test counts the dots among the digits, of which it admits twelve. -/
theorem quad_of_thirteen_characters_refused : ¬ Validates (CString.ofString "192.168.100.1") := by
  intro validates
  have accepted := validates.1.mpr (by decide)
  exact absurd accepted (by decide)

end Cprogramming.LinkLayer.AddressNames
