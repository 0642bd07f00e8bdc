import Mathlib.Data.List.Basic
import Cprogramming.Library.CStrings

/-!
# Decimal numerals

The digits that `printf` writes for a number, and what `strtoll` reads: a numeral
with whatever stands behind it, and what is left of a numeral that is cut.
-/

namespace Cprogramming.Library.Decimals

open CStrings

set_option autoImplicit false

/-- `%u`, or `%d` of a number that is not negative. -/
def printDecimal (number : Nat) : List UInt8 :=
  (Nat.toDigits 10 number).map fun digit => UInt8.ofNat digit.toNat

theorem digit_byte_value {digit : Char} (isDecimal : digit.isDigit = true) :
    (UInt8.ofNat digit.toNat).toNat = digit.toNat := by
  have bounds := Char.isDigit_iff_toNat.mp isDecimal
  have nine : '9'.toNat = 57 := rfl
  rw [UInt8.toNat_ofNat_of_lt' (by simp only [UInt8.size]; omega)]

variable (digits : List UInt8) (number : Nat) (byte : UInt8)

theorem print_decimal_digits (member : byte ∈ printDecimal number) : isDigit byte = true := by
  obtain ⟨digit, present, rfl⟩ := List.mem_map.mp member
  have isDecimal := Nat.isDigit_of_mem_toDigits (by decide) (by decide) present
  have bounds := Char.isDigit_iff_toNat.mp isDecimal
  have value := digit_byte_value isDecimal
  simp only [isDigit, Bool.and_eq_true, decide_eq_true_eq, UInt8.le_iff_toNat_le, value]
  exact ⟨bounds.1, bounds.2⟩

theorem print_decimal_nonempty : printDecimal number ≠ [] := by
  simp [printDecimal, Nat.toDigits_ne_nil]

theorem print_decimal_length (count : Nat) (positive : 0 < count) (bound : number < 10 ^ count) :
    (printDecimal number).length ≤ count := by
  rw [printDecimal, List.length_map]
  exact (Nat.length_toDigits_le_iff (by decide) positive).mpr bound

theorem decimal_map_digits {digits : List Char} (start : Nat)
    (decimals : ∀ digit ∈ digits, digit.isDigit = true) :
    (digits.map fun digit => UInt8.ofNat digit.toNat).foldl
        (fun value digit => 10 * value + (digit.toNat - 48)) start =
      Nat.ofDigitChars 10 digits start := by
  induction digits generalizing start with
  | nil => rfl
  | cons digit rest ih =>
    have value := digit_byte_value (decimals digit (by simp))
    rw [List.map_cons, List.foldl_cons, value, Nat.ofDigitChars_cons]
    exact ih _ (fun other member => decimals other (by simp [member]))

theorem decimal_print_decimal : decimal (printDecimal number) = number := by
  rw [decimal, printDecimal, decimal_map_digits 0
    (fun _ member => Nat.isDigit_of_mem_toDigits (by decide) (by decide) member)]
  exact Nat.ofDigitChars_toDigits (by decide) (by decide)

theorem digit_value (digit : isDigit byte = true) : 48 ≤ byte.toNat ∧ byte.toNat ≤ 57 := by
  simpa [isDigit, UInt8.le_iff_toNat_le] using digit

theorem decimal_fold_lt {digits : List UInt8} (start : Nat)
    (decimals : ∀ digit ∈ digits, isDigit digit = true) :
    digits.foldl (fun value digit => 10 * value + (digit.toNat - 48)) start <
      (start + 1) * 10 ^ digits.length := by
  induction digits generalizing start with
  | nil => simp
  | cons digit rest ih =>
    have nine := (digit_value digit (decimals digit (by simp))).2
    have later := ih (10 * start + (digit.toNat - 48))
      (fun other member => decimals other (by simp [member]))
    have raised : (10 * start + (digit.toNat - 48) + 1) * 10 ^ rest.length ≤
        ((start + 1) * 10) * 10 ^ rest.length := Nat.mul_le_mul_right _ (by omega)
    rw [List.foldl_cons, List.length_cons, Nat.pow_succ']
    rw [Nat.mul_assoc] at raised
    omega

theorem decimal_lt (decimals : ∀ digit ∈ digits, isDigit digit = true) :
    decimal digits < 10 ^ digits.length := by
  simpa [decimal] using decimal_fold_lt 0 decimals

theorem take_while_append {Item : Type} (holds : Item → Bool) (front rest : List Item)
    (inside : ∀ item ∈ front, holds item = true)
    (ends : ∀ item, rest.head? = some item → holds item = false) :
    (front ++ rest).takeWhile holds = front ∧ (front ++ rest).dropWhile holds = rest := by
  rw [List.takeWhile_append_of_pos inside, List.dropWhile_append_of_pos inside]
  cases rest with
  | nil => simp
  | cons item others => simp [ends item rfl]

/-! ## Numerals -/

/-- What `strtoll` reads as a number: blanks, at most one sign and digits. -/
structure Numeral where
  spaces : List UInt8
  sign : List UInt8
  digits : List UInt8
  blank : ∀ byte ∈ spaces, isSpace byte = true
  signed : sign = [] ∨ sign = [45] ∨ sign = [43]
  nonempty : digits ≠ []
  decimals : ∀ digit ∈ digits, isDigit digit = true

def Numeral.text (numeral : Numeral) : List UInt8 :=
  numeral.spaces ++ (numeral.sign ++ numeral.digits)

def Numeral.value (numeral : Numeral) : Int :=
  if numeral.sign = [45] then -(decimal numeral.digits : Int) else decimal numeral.digits

theorem digit_bounds (digit : isDigit byte = true) :
    isSpace byte = false ∧ byte ≠ 45 ∧ byte ≠ 43 := by
  refine ⟨?_, ?_, ?_⟩
  · simp only [isDigit, isSpace, Bool.and_eq_true, decide_eq_true_eq, UInt8.le_iff_toNat_le,
      Bool.or_eq_false_iff, Bool.and_eq_false_iff, decide_eq_false_iff_not, beq_eq_false_iff_ne,
      ne_eq, ← UInt8.toNat_inj] at digit ⊢
    simp only [UInt8.toNat_ofNat] at digit ⊢
    omega
  · rintro rfl
    exact absurd digit (by decide)
  · rintro rfl
    exact absurd digit (by decide)

theorem strtoll_blank (spaces rest : List UInt8) (blank : ∀ byte ∈ spaces, isSpace byte = true) :
    strtoll (spaces ++ rest) = strtoll rest := by
  simp only [strtoll, List.dropWhile_append_of_pos blank]

theorem strtoll_numeral (numeral : Numeral) (rest : List UInt8)
    (ends : ∀ byte, rest.head? = some byte → isDigit byte = false) :
    strtoll (numeral.text ++ rest) = some (numeral.value, rest) := by
  obtain ⟨taken, dropped⟩ := take_while_append isDigit numeral.digits rest numeral.decimals ends
  obtain ⟨first, others, shape⟩ := List.exists_cons_of_ne_nil numeral.nonempty
  obtain ⟨unspaced, unsigned⟩ :=
    digit_bounds first (numeral.decimals first (by simp [shape]))
  have start : (numeral.digits ++ rest).head? = some first := by simp [shape]
  rw [Numeral.text, List.append_assoc, strtoll_blank _ _ numeral.blank, List.append_assoc]
  rcases numeral.signed with plain | minus | plus
  · have kept : (numeral.digits ++ rest).dropWhile isSpace = numeral.digits ++ rest := by
      rw [shape, List.cons_append, List.dropWhile_cons_of_neg (by simp [unspaced])]
    simp [strtoll, plain, kept, start, unsigned, taken, dropped, numeral.nonempty, Numeral.value]
  · have minusSpace : isSpace 45 = false := by decide
    simp [strtoll, minus, minusSpace, taken, dropped, numeral.nonempty, Numeral.value]
  · have plusSpace : isSpace 43 = false := by decide
    simp [strtoll, plus, plusSpace, taken, dropped, numeral.nonempty, Numeral.value]

theorem drop_while_ends {Item : Type} (holds : Item → Bool) (items : List Item) (item : Item)
    (first : (items.dropWhile holds).head? = some item) : holds item = false := by
  have ends := List.head?_dropWhile_not holds items
  rw [first] at ends
  exact ends

/-- The numeral of the digits that follow a sign. -/
def numeralOf (text sign body : List UInt8) (signed : sign = [] ∨ sign = [45] ∨ sign = [43])
    (nonempty : body.takeWhile isDigit ≠ []) : Numeral where
  spaces := text.takeWhile isSpace
  sign := sign
  digits := body.takeWhile isDigit
  blank := fun _ member => List.mem_takeWhile_imp member
  signed := signed
  nonempty := nonempty
  decimals := fun _ member => List.mem_takeWhile_imp member

theorem numeral_of_text {text sign body : List UInt8}
    (signed : sign = [] ∨ sign = [45] ∨ sign = [43]) (nonempty : body.takeWhile isDigit ≠ [])
    (shape : text.dropWhile isSpace = sign ++ body) :
    text = (numeralOf text sign body signed nonempty).text ++ body.dropWhile isDigit := by
  rw [Numeral.text, numeralOf, List.append_assoc, List.append_assoc,
    List.takeWhile_append_dropWhile, ← shape, List.takeWhile_append_dropWhile]

theorem strtoll_shape (text rest : List UInt8) (value : Int)
    (read : strtoll text = some (value, rest)) :
    ∃ numeral : Numeral, text = numeral.text ++ rest ∧ value = numeral.value ∧
      ∀ byte, rest.head? = some byte → isDigit byte = false := by
  simp only [strtoll] at read
  by_cases minus : (text.dropWhile isSpace).head? = some 45
  · obtain ⟨body, shape⟩ := List.head?_eq_some_iff.mp minus
    simp only [shape, List.head?_cons, List.tail_cons, true_or, if_true] at read
    split_ifs at read with empty
    cases read
    exact ⟨numeralOf text [45] body (by simp) empty,
      numeral_of_text (by simp) empty shape, rfl, drop_while_ends isDigit body⟩
  · by_cases plus : (text.dropWhile isSpace).head? = some 43
    · obtain ⟨body, shape⟩ := List.head?_eq_some_iff.mp plus
      simp only [shape, List.head?_cons, List.tail_cons, or_true, if_true] at read
      split_ifs at read with empty
      · contradiction
      · cases read
        exact ⟨numeralOf text [43] body (by simp) empty,
          numeral_of_text (by simp) empty shape, rfl, drop_while_ends isDigit body⟩
    · simp only [minus, plus, or_self, if_false] at read
      split_ifs at read with empty
      cases read
      exact ⟨numeralOf text [] _ (by simp) empty, numeral_of_text (by simp) empty rfl,
        rfl, drop_while_ends isDigit _⟩

theorem strtoll_unfinished {spaces sign : List UInt8}
    (blank : ∀ byte ∈ spaces, isSpace byte = true)
    (signed : sign = [] ∨ sign = [45] ∨ sign = [43]) : strtoll (spaces ++ sign) = none := by
  rw [strtoll_blank spaces sign blank]
  rcases signed with rfl | rfl | rfl <;> rfl

theorem strtoll_take (numeral : Numeral) (room : Nat) (short : room < numeral.text.length) :
    strtoll (numeral.text.take room) = none ∨
      ∃ fewer : Numeral, numeral.text.take room = fewer.text ∧ fewer.sign = numeral.sign ∧
        ∃ lost, lost ≠ [] ∧ numeral.digits = fewer.digits ++ lost := by
  by_cases inSpaces : room ≤ numeral.spaces.length
  · have cut : numeral.text.take room = numeral.spaces.take room ++ [] := by
      rw [Numeral.text, List.take_append_of_le_length inSpaces, List.append_nil]
    rw [cut]
    exact Or.inl (strtoll_unfinished (fun byte member =>
      numeral.blank byte (List.mem_of_mem_take member)) (Or.inl rfl))
  · have lengths : numeral.text.length =
        numeral.spaces.length + (numeral.sign.length + numeral.digits.length) := by
      simp [Numeral.text]
    obtain ⟨behind, rfl⟩ := Nat.exists_eq_add_of_lt (Nat.lt_of_not_le inSpaces)
    have cut : numeral.text.take (numeral.spaces.length + behind + 1) =
        numeral.spaces ++ (numeral.sign ++ numeral.digits).take (behind + 1) := by
      rw [Numeral.text, Nat.add_assoc, List.take_length_add_append]
    rw [cut]
    by_cases inSign : behind + 1 ≤ numeral.sign.length
    · refine Or.inl ?_
      rw [List.take_append_of_le_length inSign]
      refine strtoll_unfinished numeral.blank ?_
      rcases numeral.signed with plain | minus | plus
      · simp [plain] at inSign
      · simp [minus]
      · simp [plus]
    · obtain ⟨kept, same⟩ := Nat.exists_eq_add_of_lt (Nat.lt_of_not_le inSign)
      rw [same, Nat.add_assoc, List.take_length_add_append]
      refine Or.inr ⟨{ numeral with
        digits := numeral.digits.take (kept + 1)
        nonempty := by simp [numeral.nonempty]
        decimals := fun digit member => numeral.decimals digit (List.mem_of_mem_take member) },
        rfl, rfl, numeral.digits.drop (kept + 1), ?_, (List.take_append_drop _ _).symm⟩
      rw [ne_eq, List.drop_eq_nil_iff]
      omega

theorem decimal_fold_ge (start : Nat) : start * 10 ^ digits.length ≤
      digits.foldl (fun value digit => 10 * value + (digit.toNat - 48)) start := by
  induction digits generalizing start with
  | nil => simp
  | cons digit rest ih =>
    have later := ih (10 * start + (digit.toNat - 48))
    have raised : 10 * start * 10 ^ rest.length ≤
        (10 * start + (digit.toNat - 48)) * 10 ^ rest.length :=
      Nat.mul_le_mul_right _ (Nat.le_add_right _ _)
    rw [List.foldl_cons, List.length_cons, Nat.pow_succ', ← Nat.mul_assoc, Nat.mul_comm start]
    exact Nat.le_trans raised later

theorem decimal_shorter (lost : List UInt8) (nonempty : lost ≠ [])
    (positive : 0 < decimal (digits ++ lost)) : decimal digits < decimal (digits ++ lost) := by
  have more : 10 ^ 1 ≤ 10 ^ lost.length :=
    Nat.pow_le_pow_right (by decide) (List.length_pos_of_ne_nil nonempty)
  have grown : decimal digits * 10 ^ lost.length ≤ decimal (digits ++ lost) := by
    rw [decimal, decimal, List.foldl_append]
    exact decimal_fold_ge lost _
  have times : decimal digits * 10 ^ 1 ≤ decimal digits * 10 ^ lost.length :=
    Nat.mul_le_mul_left _ more
  omega

theorem strtoll_print_decimal (rest : List UInt8)
    (ends : ∀ byte, rest.head? = some byte → isDigit byte = false) :
    strtoll (printDecimal number ++ rest) = some ((number : Int), rest) := by
  have read := strtoll_numeral
    ⟨[], [], printDecimal number, by simp, Or.inl rfl, print_decimal_nonempty number,
      print_decimal_digits number⟩ rest ends
  simpa [Numeral.text, Numeral.value, decimal_print_decimal] using read

/-- `%d` and `%lld`. -/
def printSigned (number : Int) : List UInt8 :=
  if number < 0 then 45 :: printDecimal number.natAbs else printDecimal number.natAbs

theorem print_signed_bytes (number : Int) (byte : UInt8) (member : byte ∈ printSigned number) :
    byte = 45 ∨ isDigit byte = true := by
  unfold printSigned at member
  split_ifs at member with negative
  · rcases List.mem_cons.mp member with sign | digit
    · exact Or.inl sign
    · exact Or.inr (print_decimal_digits _ byte digit)
  · exact Or.inr (print_decimal_digits _ byte member)

theorem strtoll_print_signed (number : Int) (rest : List UInt8)
    (ends : ∀ byte, rest.head? = some byte → isDigit byte = false) :
    strtoll (printSigned number ++ rest) = some (number, rest) := by
  unfold printSigned
  split_ifs with negative
  · have read := strtoll_numeral
      ⟨[], [45], printDecimal number.natAbs, by simp, Or.inr (Or.inl rfl),
        print_decimal_nonempty _, print_decimal_digits _⟩ rest ends
    simp only [Numeral.text, Numeral.value, decimal_print_decimal, if_true, List.nil_append,
      List.singleton_append] at read
    rw [read, show -(number.natAbs : Int) = number by omega]
  · rw [strtoll_print_decimal _ rest ends, show (number.natAbs : Int) = number by omega]

/-! ## The first byte of a number -/

theorem strtoll_first (rest : List UInt8) (read : (strtoll (byte :: rest)).isSome) :
    isSpace byte = true ∨ byte = 45 ∨ byte = 43 ∨ isDigit byte = true := by
  by_contra other
  simp only [not_or, Bool.not_eq_true] at other
  obtain ⟨unspaced, unsigned, positive, undigit⟩ := other
  simp [strtoll, unspaced, unsigned, positive, undigit] at read

theorem leading_value (start : isSpace byte = true ∨ byte = 45 ∨ byte = 43 ∨ isDigit byte = true)
    (other : isDigit byte = false) : byte.toNat ≤ 45 := by
  rcases start with blank | rfl | rfl | digit
  · simp only [isSpace, Bool.or_eq_true, beq_iff_eq, Bool.and_eq_true, decide_eq_true_eq,
      UInt8.le_iff_toNat_le] at blank
    rcases blank with rfl | ⟨_, upper⟩
    · decide
    · exact Nat.le_trans upper (by decide)
  · decide
  · decide
  · rw [digit] at other
    cases other

theorem strtoll_digits (rest : List UInt8) (digit : isDigit byte = true) : strtoll (byte :: rest) =
      some ((decimal ((byte :: rest).takeWhile isDigit) : Int),
        (byte :: rest).dropWhile isDigit) := by
  obtain ⟨solid, minus, plus⟩ := digit_bounds byte digit
  simp [strtoll, solid, minus, plus, digit]

end Cprogramming.Library.Decimals
