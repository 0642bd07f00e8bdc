import Mathlib.Data.List.SplitBy
import Cprogramming.Library.Decimals
import Cprogramming.Library.Fields

/-!
# Addresses

`RIPop.h`: addresses of four octets, their dotted names, and the allocator that
hands out the addresses of a block one after the other. `inet_ntoa` prints an
address as `rIpop_op_to_str` does.
-/

namespace Cprogramming.LinkLayer.Addresses

open Library.CStrings Library.Decimals Library.Fields

set_option autoImplicit false

structure RIPsingle where
  fst : UInt8
  snd : UInt8
  thd : UInt8
  frt : UInt8
deriving DecidableEq

/-- `ipBox` is the base address, `ipCur` the last address handed out. -/
structure RIPop where
  ipBox : RIPsingle
  ipCur : RIPsingle
  ipMax : RIPsingle
  space : Nat
deriving DecidableEq

def ipMaxSpace : Nat := 32

def ipMaxName : Nat := 16

/-- The address as a number, its first octet the highest. -/
def RIPsingle.number (ip : RIPsingle) : Nat :=
  ((ip.fst.toNat * 256 + ip.snd.toNat) * 256 + ip.thd.toNat) * 256 + ip.frt.toNat

/-! ## Names -/

def dot : UInt8 := 46

def rIpopOpToStr (ip : RIPsingle) : List UInt8 :=
  [dot].intercalate
    [printDecimal ip.fst.toNat, printDecimal ip.snd.toNat, printDecimal ip.thd.toNat,
      printDecimal ip.frt.toNat]

def atoi (bytes : List UInt8) : Int := ((strtoll bytes).map Prod.fst).getD 0

def octetAt (name : List UInt8) (index : Nat) : UInt8 :=
  UInt8.ofInt (atoi ((name.splitOn dot).getD index []))

/-- `rIpop_str_to_op` for a name with three dots. -/
def rIpopStrToOp (name : List UInt8) : RIPsingle :=
  ⟨octetAt name 0, octetAt name 1, octetAt name 2, octetAt name 3⟩

/-- `rIpop_str_validate_good`. The counter `digits` counts every character,
because its test is a disjunction that always holds. -/
def rIpopStrValidateGood (name : List UInt8) : Bool :=
  let seen := name.take ipMaxName
  let bad := seen.any (fun byte => byte != dot && !isDigit byte) ||
    (seen.zip seen.tail).any (fun pair => pair.1 == dot && pair.2 == dot)
  seen.count dot == 3 && decide (4 ≤ seen.length) && decide (seen.length ≤ 12) && !bad

/-! ## The allocator -/

/-- The address after `cur`. The two carries into the upper octets leave the
lowest octets at 255. -/
def following (cur : RIPsingle) : RIPsingle :=
  if cur.frt < 255 then { cur with frt := cur.frt + 1 }
  else if cur.thd < 255 then { cur with frt := 0, thd := cur.thd + 1 }
  else if cur.snd < 255 then { cur with thd := 0, snd := cur.snd + 1 }
  else if cur.fst < 255 then { cur with snd := 0, fst := cur.fst + 1 }
  else cur

def inRange (ip limit : RIPsingle) : Bool :=
  decide (ip.frt ≤ limit.frt) && decide (ip.snd ≤ limit.snd) && decide (ip.thd ≤ limit.thd) &&
    decide (ip.fst ≤ limit.fst)

/-- `rIpop_assign_ip`: its result, the address it stores and the allocator. -/
def rIpopAssignIp (op : RIPop) (increment : Bool) : Bool × RIPsingle × RIPop :=
  let ip := following op.ipCur
  if increment then
    if inRange ip op.ipMax then (true, ip, { op with ipCur := ip })
    else (false, ⟨0, 0, 0, 0⟩, op)
  else (true, ip, op)

def raiseBit (limit : RIPsingle) (index : Nat) : RIPsingle :=
  if index < 8 then { limit with frt := limit.frt ||| UInt8.ofNat (1 <<< index) }
  else if index < 16 then { limit with thd := limit.thd ||| UInt8.ofNat (1 <<< (index - 8)) }
  else if index < 24 then { limit with snd := limit.snd ||| UInt8.ofNat (1 <<< (index - 16)) }
  else { limit with fst := limit.fst ||| UInt8.ofNat (1 <<< (index - 24)) }

def orCur (limit cur : UInt8) : UInt8 := if limit = 0 then cur else limit

def rIpopJustify (op : RIPop) (subnet : Nat) : RIPop :=
  let space := ipMaxSpace - subnet
  let limit := (List.range (min ipMaxSpace space)).foldl raiseBit op.ipMax
  { op with
    ipMax := ⟨orCur limit.fst op.ipCur.fst, orCur limit.snd op.ipCur.snd,
      orCur limit.thd op.ipCur.thd, orCur limit.frt op.ipCur.frt⟩
    space := space }

/-- The allocator that `rSvrUdp_init` and `rSvrTcp_init` set up for a name and a
prefix length. -/
def allocator (name : List UInt8) (subnet : Nat) : RIPop :=
  rIpopJustify ⟨rIpopStrToOp name, rIpopStrToOp name, ⟨0, 0, 0, 0⟩, 0⟩ subnet

/-- The two addresses agree in their first `subnet` bits. -/
def sameBlock (subnet : Nat) (left right : RIPsingle) : Bool :=
  left.number / 2 ^ (ipMaxSpace - subnet) == right.number / 2 ^ (ipMaxSpace - subnet)

/-! ## Names are one to one -/

variable (name : List UInt8) (subnet : Nat) (ip : RIPsingle) (octet : UInt8)

theorem print_decimal_dot_free (number : Nat) : dot ∉ printDecimal number := by
  intro member
  exact absurd (print_decimal_digits number dot member) (by decide)

theorem atoi_print_octet : UInt8.ofInt (atoi (printDecimal octet.toNat)) = octet := by
  have read := strtoll_print_decimal octet.toNat [] (by simp)
  rw [List.append_nil] at read
  have small := octet.toNat_lt
  have kept : ((octet.toNat : Int) % 2 ^ 8).toNat = octet.toNat := by omega
  simp only [atoi, read, Option.map_some, Option.getD_some, UInt8.ofInt, kept]
  exact UInt8.ofNat_toNat

theorem op_to_str_pieces : (rIpopOpToStr ip).splitOn dot =
    [printDecimal ip.fst.toNat, printDecimal ip.snd.toNat, printDecimal ip.thd.toNat,
      printDecimal ip.frt.toNat] := by
  apply List.splitOn_intercalate dot
  · simp [print_decimal_dot_free]
  · simp

theorem str_to_op_of_op_to_str : rIpopStrToOp (rIpopOpToStr ip) = ip := by
  simp [rIpopStrToOp, octetAt, op_to_str_pieces, atoi_print_octet]

theorem op_to_str_injective : Function.Injective rIpopOpToStr := by
  intro left right same
  rw [← str_to_op_of_op_to_str left, same, str_to_op_of_op_to_str]

/-! ## The allocator walks upwards -/

theorem octet_bounds :
    ip.fst.toNat < 256 ∧ ip.snd.toNat < 256 ∧ ip.thd.toNat < 256 ∧ ip.frt.toNat < 256 := by
  exact ⟨ip.fst.toNat_lt, ip.snd.toNat_lt, ip.thd.toNat_lt, ip.frt.toNat_lt⟩

theorem octet_succ (below : octet < 255) : (octet + 1).toNat = octet.toNat + 1 := by
  have bound : octet.toNat < 255 := UInt8.lt_iff_toNat_lt.mp below
  rw [UInt8.toNat_add, UInt8.toNat_one]
  omega

def lastAddress : RIPsingle := ⟨255, 255, 255, 255⟩

theorem octet_full (full : ¬ octet < 255) : octet = 255 := by
  rw [UInt8.lt_iff_toNat_lt] at full
  apply UInt8.toNat_inj.mp
  have bound := octet.toNat_lt
  simp only [UInt8.toNat_ofNat] at full ⊢
  omega

/-- Text that starts with neither a space nor a sign is read as its leading
digits, so that two bytes stay below a hundred. -/
theorem atoi_short {bytes : List UInt8} (plain : ∀ byte ∈ bytes, byte = dot ∨ isDigit byte = true)
    (short : bytes.length ≤ 2) : 0 ≤ atoi bytes ∧ atoi bytes < 100 := by
  have unspaced : bytes.dropWhile isSpace = bytes := by
    cases bytes with
    | nil => rfl
    | cons byte rest =>
      refine List.dropWhile_cons_of_neg ?_
      rcases plain byte (by simp) with rfl | digit
      · decide
      · simp only [isDigit, isSpace, Bool.and_eq_true, decide_eq_true_eq, UInt8.le_iff_toNat_le,
          Bool.or_eq_true, beq_iff_eq, ← UInt8.toNat_inj] at digit ⊢
        simp only [UInt8.toNat_ofNat] at digit ⊢
        omega
  have unsigned : ∀ sign : UInt8, sign ≠ dot → isDigit sign = false → bytes.head? ≠ some sign := by
    intro sign other word first
    rcases plain sign (List.mem_of_mem_head? first) with same | digit
    · exact other same
    · rw [word] at digit
      cases digit
  have minus := unsigned 45 (by decide) (by decide)
  have plus := unsigned 43 (by decide) (by decide)
  have value : decimal (bytes.takeWhile isDigit) < 10 ^ (bytes.takeWhile isDigit).length :=
    decimal_lt _ (fun digit member => List.mem_takeWhile_imp member)
  have power : 10 ^ (bytes.takeWhile isDigit).length ≤ 10 ^ 2 :=
    Nat.pow_le_pow_right (by decide) ((List.takeWhile_sublist isDigit).length_le.trans short)
  simp only [atoi, strtoll, unspaced, minus, plus, or_self, if_false]
  split_ifs
  · simp
  · simp only [Option.map_some, Option.getD_some]
    omega

theorem following_above (cur : RIPsingle) (more : cur ≠ lastAddress) :
    cur.number < (following cur).number := by
  have bounds := octet_bounds cur
  unfold following
  split_ifs with low third second first
  · simp only [RIPsingle.number, octet_succ _ low]
    omega
  · simp only [RIPsingle.number, octet_succ _ third, UInt8.toNat_zero]
    omega
  · simp only [RIPsingle.number, octet_succ _ second, UInt8.toNat_zero]
    omega
  · simp only [RIPsingle.number, octet_succ _ first, UInt8.toNat_zero]
    omega
  · exfalso
    apply more
    cases cur
    simp only [lastAddress, RIPsingle.mk.injEq]
    exact ⟨octet_full _ first, octet_full _ second, octet_full _ third, octet_full _ low⟩

theorem following_last : following lastAddress = lastAddress := by
  decide

theorem following_not_below (cur : RIPsingle) : cur.number ≤ (following cur).number := by
  by_cases last : cur = lastAddress
  · rw [last, following_last]
  · exact Nat.le_of_lt (following_above cur last)

theorem octet_full_long {name : List UInt8} {index : Nat}
    (plain : ∀ byte ∈ name, byte = dot ∨ isDigit byte = true) (full : octetAt name index = 255) :
    2 < ((name.splitOn dot).getD index []).length := by
  by_contra short
  have inside : ∀ byte ∈ (name.splitOn dot).getD index [], byte ∈ name := by
    intro byte member
    rw [List.getD_eq_getElem?_getD] at member
    cases found : (name.splitOn dot)[index]? with
    | none => simp [found] at member
    | some piece =>
      rw [found] at member
      exact mem_of_mem_split dot name piece byte (List.mem_of_getElem? found) member
  have small := atoi_short (fun byte member => plain byte (inside byte member)) (by omega)
  rw [octetAt] at full
  generalize atoi ((name.splitOn dot).getD index []) = value at small full
  have read := congrArg UInt8.toNat full
  rw [UInt8.ofInt, UInt8.toNat_ofNat'] at read
  simp only [UInt8.toNat_ofNat] at read
  omega

/-- A name that is accepted has at most twelve characters, too few for the last
address. -/
theorem accepted_not_last (good : rIpopStrValidateGood name = true) :
    rIpopStrToOp name ≠ lastAddress := by
  intro last
  simp only [rIpopStrToOp, lastAddress, RIPsingle.mk.injEq] at last
  simp only [rIpopStrValidateGood, Bool.and_eq_true, decide_eq_true_eq, List.length_take,
    Bool.not_eq_true', Bool.or_eq_false_iff, ipMaxName] at good
  obtain ⟨⟨_, bound⟩, only, _⟩ := good
  have length : name.length ≤ 12 := by omega
  rw [List.take_of_length_le (by omega), List.any_eq_false] at only
  have plain : ∀ byte ∈ name, byte = dot ∨ isDigit byte = true := by
    intro byte member
    have each := only byte member
    simp only [Bool.and_eq_true, bne_iff_ne, Bool.not_eq_true'] at each
    by_contra neither
    rw [not_or] at neither
    exact each ⟨neither.1, by simpa using neither.2⟩
  have first := octet_full_long plain last.1
  have second := octet_full_long plain last.2.1
  have third := octet_full_long plain last.2.2.1
  have fourth := octet_full_long plain last.2.2.2
  have joined : [dot].intercalate (name.splitOn dot) = name := List.intercalate_splitOn dot
  -- four pieces of three characters and three dots are longer than the name
  match pieces : name.splitOn dot with
  | [] => simp [pieces] at first
  | [_] => simp [pieces] at second
  | [_, _] => simp [pieces] at third
  | [_, _, _] => simp [pieces] at fourth
  | one :: two :: three :: four :: rest =>
    rw [pieces] at joined first second third fourth
    have whole := congrArg List.length joined
    rw [List.intercalate_cons_cons, List.intercalate_cons_cons, List.intercalate_cons_cons] at whole
    simp only [List.length_append, List.length_singleton] at whole
    simp only [List.getD_cons_zero, List.getD_cons_succ] at first second third fourth
    cases rest with
    | nil =>
      rw [List.intercalate_singleton] at whole
      omega
    | cons five others =>
      rw [List.intercalate_cons_cons, List.length_append, List.length_append] at whole
      omega

/-! ## The allocator stays in its block -/

def ones (count : Nat) : UInt8 := UInt8.ofNat (2 ^ min count 8 - 1)

theorem raised_limit {space : Nat} (bound : space ≤ 32) :
    (List.range space).foldl raiseBit ⟨0, 0, 0, 0⟩ =
      ⟨ones (space - 24), ones (space - 16), ones (space - 8), ones space⟩ := by
  revert space
  decide

theorem ones_value (count : Nat) : (ones count).toNat = 2 ^ min count 8 - 1 := by
  have bits : 2 ^ min count 8 ≤ 2 ^ 8 := Nat.pow_le_pow_right (by decide) (Nat.min_le_right count 8)
  rw [ones, UInt8.toNat_ofNat']
  omega

theorem limit_fixed (cur : UInt8) : orCur (ones 0) cur = cur := by
  simp [orCur, ones]

theorem limit_host (count : Nat) (cur : UInt8) (positive : 0 < count) :
    (orCur (ones count) cur).toNat + 1 = 2 ^ min count 8 := by
  have value := ones_value count
  have two : 2 ^ 1 ≤ 2 ^ min count 8 := Nat.pow_le_pow_right (by decide) (by omega)
  have nonzero : ones count ≠ 0 := by
    intro zero
    rw [zero, UInt8.toNat_zero] at value
    omega
  rw [orCur, if_neg nonzero, value]
  omega

theorem quotient_of_low {low width space : Nat} (high : Nat) (fits : space ≤ width)
    (small : low < 2 ^ space) :
    (high * 2 ^ width + low) / 2 ^ space = high * 2 ^ (width - space) := by
  have positive : 0 < 2 ^ space := Nat.two_pow_pos space
  rw [← Nat.sub_add_cancel fits, Nat.pow_add, ← Nat.mul_assoc, Nat.add_comm,
    Nat.add_mul_div_right _ _ positive, Nat.div_eq_of_lt small, Nat.sub_add_cancel fits, Nat.zero_add]

theorem same_quotient (left right high low other width space : Nat)
    (leftIs : left = high * 2 ^ width + low) (rightIs : right = high * 2 ^ width + other)
    (fits : space ≤ width) (small : low < 2 ^ space) (smallOther : other < 2 ^ space) :
    left / 2 ^ space = right / 2 ^ space := by
  rw [leftIs, rightIs, quotient_of_low high fits small, quotient_of_low high fits smallOther]

/-- An address above the base that passes the octet-wise test lies in the block.
The octets above the host bits cannot grow, so they are those of the base. -/
theorem block_of_range (base ip : RIPsingle) (space : Nat) (bound : space ≤ 32)
    (ranged : inRange ip ⟨orCur (ones (space - 24)) base.fst, orCur (ones (space - 16)) base.snd,
      orCur (ones (space - 8)) base.thd, orCur (ones space) base.frt⟩ = true)
    (above : base.number ≤ ip.number) : ip.number / 2 ^ space = base.number / 2 ^ space := by
  have lower := octet_bounds base
  have upper := octet_bounds ip
  simp only [inRange, Bool.and_eq_true, decide_eq_true_eq, UInt8.le_iff_toNat_le] at ranged
  obtain ⟨⟨⟨frt, snd⟩, thd⟩, fst⟩ := ranged
  simp only [RIPsingle.number] at above
  by_cases first : 24 < space
  · have power : 2 ^ space = 2 ^ (space - 24) * 2 ^ 24 := by rw [← Nat.pow_add]; congr 1; omega
    have limit := limit_host (space - 24) base.fst (by omega)
    rw [Nat.min_eq_left (by omega)] at limit
    exact same_quotient _ _ 0 ip.number base.number 32 space (by omega) (by omega) bound
      (by simp only [RIPsingle.number]; omega) (by simp only [RIPsingle.number]; omega)
  rw [show space - 24 = 0 by omega, limit_fixed] at fst
  by_cases second : 16 < space
  · have power : 2 ^ space = 2 ^ (space - 16) * 2 ^ 16 := by rw [← Nat.pow_add]; congr 1; omega
    have limit := limit_host (space - 16) base.snd (by omega)
    rw [Nat.min_eq_left (by omega)] at limit
    exact same_quotient _ _ base.fst.toNat ((ip.snd.toNat * 256 + ip.thd.toNat) * 256 + ip.frt.toNat)
      ((base.snd.toNat * 256 + base.thd.toNat) * 256 + base.frt.toNat) 24 space
      (by simp only [RIPsingle.number]; omega) (by simp only [RIPsingle.number]; omega) (by omega)
      (by omega) (by omega)
  rw [show space - 16 = 0 by omega, limit_fixed] at snd
  by_cases third : 8 < space
  · have power : 2 ^ space = 2 ^ (space - 8) * 2 ^ 8 := by rw [← Nat.pow_add]; congr 1; omega
    have limit := limit_host (space - 8) base.thd (by omega)
    rw [Nat.min_eq_left (by omega)] at limit
    exact same_quotient _ _ (base.fst.toNat * 256 + base.snd.toNat)
      (ip.thd.toNat * 256 + ip.frt.toNat) (base.thd.toNat * 256 + base.frt.toNat) 16 space
      (by simp only [RIPsingle.number]; omega) (by simp only [RIPsingle.number]; omega) (by omega)
      (by omega) (by omega)
  rw [show space - 8 = 0 by omega, limit_fixed] at thd
  have limit : ip.frt.toNat < 2 ^ space ∧ base.frt.toNat < 2 ^ space ∨
      ip.frt.toNat = base.frt.toNat ∧ space = 0 := by
    rcases Nat.eq_zero_or_pos space with rfl | host
    · rw [limit_fixed] at frt
      omega
    · have last := limit_host space base.frt host
      rw [Nat.min_eq_left (by omega)] at last
      omega
  rcases limit with ⟨small, smallBase⟩ | ⟨same, rfl⟩
  · exact same_quotient _ _ ((base.fst.toNat * 256 + base.snd.toNat) * 256 + base.thd.toNat)
      ip.frt.toNat base.frt.toNat 8 space (by simp only [RIPsingle.number]; omega)
      (by simp only [RIPsingle.number]; omega) (by omega) small smallBase
  · have whole : ip.number = base.number := by
      simp only [RIPsingle.number]
      omega
    rw [whole]

/-- The host bits of the limit are set, and the network bits of an octet that
holds host bits are not. -/
def blockLimit (base : RIPsingle) (space : Nat) : RIPsingle :=
  ⟨orCur (ones (space - 24)) base.fst, orCur (ones (space - 16)) base.snd,
    orCur (ones (space - 8)) base.thd, orCur (ones space) base.frt⟩

theorem allocator_limit :
    (allocator name subnet).ipMax = blockLimit (rIpopStrToOp name) (ipMaxSpace - subnet) := by
  have bound : ipMaxSpace - subnet ≤ ipMaxSpace := Nat.sub_le ipMaxSpace subnet
  simp only [allocator, rIpopJustify]
  rw [Nat.min_eq_right bound, raised_limit bound]
  rfl

theorem allocator_cur : (allocator name subnet).ipCur = rIpopStrToOp name := by
  rfl

theorem allocated_in_block (ranged : inRange ip (allocator name subnet).ipMax = true)
    (above : (rIpopStrToOp name).number ≤ ip.number) :
    sameBlock subnet ip (rIpopStrToOp name) = true := by
  rw [allocator_limit] at ranged
  exact beq_iff_eq.mpr
    (block_of_range (rIpopStrToOp name) ip _ (Nat.sub_le ipMaxSpace subnet) ranged above)

end Cprogramming.LinkLayer.Addresses
