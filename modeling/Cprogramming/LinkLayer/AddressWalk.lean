import Cprogramming.LinkLayer.Addresses

/-!
# The walk of the allocator

Repeated calls of `rIpop_assign_ip` with increment. They are compared with the
walk over the block of the base address: the addresses above the base, one after
the other, up to the last address of the block.
-/

namespace Cprogramming.LinkLayer.AddressWalk

open Addresses

set_option autoImplicit false

def assigned (op : RIPop) : RIPop := (rIpopAssignIp op true).2.2

/-- The call with increment that follows on `before` others. -/
def assignCall (op : RIPop) (before : Nat) : Bool × RIPsingle × RIPop :=
  rIpopAssignIp (assigned^[before] op) true

/-- The addresses that share the first `subnet` bits. -/
def blockSize (subnet : Nat) : Nat := 2 ^ (ipMaxSpace - subnet)

def InBlock (base : RIPsingle) (subnet number : Nat) : Prop :=
  number / blockSize subnet = base.number / blockSize subnet

instance (base : RIPsingle) (subnet number : Nat) : Decidable (InBlock base subnet number) :=
  inferInstanceAs (Decidable (_ = _))

def blockEnd (base : RIPsingle) (subnet : Nat) : Nat :=
  (base.number / blockSize subnet + 1) * blockSize subnet - 1

/-- Every call hands out the next address while that lies in the block, and from
then on fails and keeps the current address. -/
def WalksBlock (base : RIPsingle) (subnet : Nat) (op : RIPop) : Prop :=
  ∀ before, if InBlock base subnet (base.number + (before + 1)) then
      (assignCall op before).1 = true ∧
        (assignCall op before).2.1.number = base.number + (before + 1)
    else (assignCall op before).1 = false ∧
      (assignCall op before).2.2.ipCur = (assigned^[before] op).ipCur

def dividedOctetClear (base : RIPsingle) (subnet : Nat) : Bool :=
  base.number / blockSize subnet % 2 ^ (subnet % 8) == 0

/-- The walk starts at the last address or the limit admits the block, it makes no
carry out of the third octet, and it does not end at the last address of all with
a limit that admits it. -/
def walkable (base : RIPsingle) (subnet : Nat) : Bool :=
  (base.number == blockEnd base subnet || dividedOctetClear base subnet) &&
    base.number / 65536 == blockEnd base subnet / 65536 &&
    (blockEnd base subnet != 2 ^ 32 - 1 || subnet % 8 != 0)

/-! ## One call -/

theorem assigned_eq (op : RIPop) :
    assigned op = if inRange (following op.ipCur) op.ipMax then
      { op with ipCur := following op.ipCur } else op := by
  simp only [assigned, rIpopAssignIp, if_true]
  split_ifs <;> rfl

theorem assigned_limit (op : RIPop) (before : Nat) : (assigned^[before] op).ipMax = op.ipMax := by
  induction before with
  | zero => rfl
  | succ before ih =>
    rw [Function.iterate_succ_apply', assigned_eq]
    split_ifs
    · exact ih
    · exact ih

theorem assign_call_eq (op : RIPop) (before : Nat) :
    assignCall op before =
      if inRange (following (assigned^[before] op).ipCur) op.ipMax then
        (true, following (assigned^[before] op).ipCur, assigned^[before + 1] op)
      else (false, ⟨0, 0, 0, 0⟩, assigned^[before] op) := by
  rw [Function.iterate_succ_apply', assigned_eq, assigned_limit]
  simp only [assignCall, rIpopAssignIp, if_true, assigned_limit]
  split_ifs <;> rfl

/-! ## The base stays below -/

theorem assigned_above (op : RIPop) (before : Nat) :
    op.ipCur.number ≤ (assigned^[before] op).ipCur.number := by
  induction before with
  | zero => exact Nat.le_refl _
  | succ before ih =>
    rw [Function.iterate_succ_apply', assigned_eq]
    split_ifs
    · exact ih.trans (following_not_below _)
    · exact ih

/-- However often the allocator is called, the addresses it hands out have the
first bits of the base. -/
theorem assigned_addresses_share_prefix_bits (base : RIPsingle) (subnet : Fin 33) (before : Nat)
    (handed : (assignCall (allocator (rIpopOpToStr base) subnet) before).1 = true) :
    sameBlock subnet (assignCall (allocator (rIpopOpToStr base) subnet) before).2.1 base = true := by
  have above := assigned_above (allocator (rIpopOpToStr base) subnet) before
  rw [allocator_cur] at above
  rw [assign_call_eq] at handed ⊢
  split_ifs at handed ⊢ with ranged
  have within := allocated_in_block (rIpopOpToStr base) subnet _ ranged
    (above.trans (following_not_below _))
  rw [str_to_op_of_op_to_str] at within
  exact within

theorem first_assigned_address_shares_prefix_bits :
    (assignCall (allocator (rIpopOpToStr ⟨192, 168, 0, 1⟩) 24) 0).1 = true ∧
      sameBlock 24 (assignCall (allocator (rIpopOpToStr ⟨192, 168, 0, 1⟩) 24) 0).2.1
        ⟨192, 168, 0, 1⟩ = true := by
  have handed : (assignCall (allocator (rIpopOpToStr ⟨192, 168, 0, 1⟩) 24) 0).1 = true := by
    rw [assign_call_eq, Function.iterate_zero_apply, allocator_cur, allocator_limit,
      str_to_op_of_op_to_str, if_pos (by decide)]
  exact ⟨handed, assigned_addresses_share_prefix_bits ⟨192, 168, 0, 1⟩ 24 0 handed⟩

/-! ## The limit on the addresses of the block -/

/-- One octet of an address in the block against the limit. Only the octet that
the prefix divides can fail the test. -/
theorem octet_in_limit (ip base : UInt8) (number origin shift space : Nat)
    (ipIs : ip.toNat = number / 2 ^ shift % 256) (baseIs : base.toNat = origin / 2 ^ shift % 256)
    (same : number / 2 ^ space = origin / 2 ^ space) :
    ip ≤ orCur (ones (space - shift)) base ↔
      (shift < space → space < shift + 8 → origin / 2 ^ space % 2 ^ (shift + 8 - space) = 0) := by
  rw [UInt8.le_iff_toNat_le]
  by_cases host : shift < space
  · have limit := limit_host (space - shift) base (by omega)
    by_cases divided : space < shift + 8
    · rw [Nat.min_eq_left (by omega)] at limit
      have width : 256 = 2 ^ (space - shift) * 2 ^ (shift + 8 - space) := by
        rw [← Nat.pow_add, show space - shift + (shift + 8 - space) = 8 by omega]
      have network : ip.toNat / 2 ^ (space - shift) = origin / 2 ^ space % 2 ^ (shift + 8 - space) := by
        rw [ipIs, width, Nat.mod_mul_right_div_self, Nat.div_div_eq_div_mul, ← Nat.pow_add,
          Nat.add_sub_cancel' (Nat.le_of_lt host), same]
      rw [← network, Nat.div_eq_zero_iff]
      constructor
      · intro low _ _
        omega
      · intro clear
        have low := clear host divided
        omega
    · rw [Nat.min_eq_right (by omega)] at limit
      constructor
      · intro _ _ small
        exact absurd small divided
      · intro _
        omega
  · rw [Nat.sub_eq_zero_of_le (Nat.le_of_not_lt host), limit_fixed]
    have equal : ip.toNat = base.toNat := by
      have shifted : number / 2 ^ shift = origin / 2 ^ shift := by
        rw [← Nat.add_sub_cancel' (Nat.le_of_not_lt host), Nat.pow_add, ← Nat.div_div_eq_div_mul,
          ← Nat.div_div_eq_div_mul, same]
      rw [ipIs, baseIs, shifted]
    constructor
    · intro _ above
      exact absurd above host
    · intro _
      exact Nat.le_of_eq equal

theorem divided_width (subnet shift : Nat) (bound : subnet ≤ 32) (place : shift % 8 = 0)
    (host : shift < 32 - subnet) (divided : 32 - subnet < shift + 8) :
    shift + 8 - (32 - subnet) = subnet % 8 := by
  omega

theorem in_range_iff_clear {base ip : RIPsingle} {subnet : Nat} (bound : subnet ≤ 32)
    (same : InBlock base subnet ip.number) :
    inRange ip (blockLimit base (ipMaxSpace - subnet)) = true ↔
      dividedOctetClear base subnet = true := by
  have lower := octet_bounds base
  have upper := octet_bounds ip
  have fst := octet_in_limit ip.fst base.fst ip.number base.number 24 (ipMaxSpace - subnet)
    (by simp only [RIPsingle.number]; omega) (by simp only [RIPsingle.number]; omega) same
  have snd := octet_in_limit ip.snd base.snd ip.number base.number 16 (ipMaxSpace - subnet)
    (by simp only [RIPsingle.number]; omega) (by simp only [RIPsingle.number]; omega) same
  have thd := octet_in_limit ip.thd base.thd ip.number base.number 8 (ipMaxSpace - subnet)
    (by simp only [RIPsingle.number]; omega) (by simp only [RIPsingle.number]; omega) same
  have frt := octet_in_limit ip.frt base.frt ip.number base.number 0 (ipMaxSpace - subnet)
    (by simp only [RIPsingle.number]; omega) (by simp only [RIPsingle.number]; omega) same
  rw [Nat.sub_zero] at frt
  simp only [inRange, blockLimit, Bool.and_eq_true, decide_eq_true_eq, fst, snd, thd, frt,
    dividedOctetClear, blockSize, beq_iff_eq]
  generalize base.number / 2 ^ (ipMaxSpace - subnet) = network
  simp only [ipMaxSpace]
  constructor
  · intro clear
    obtain ⟨⟨⟨last, second⟩, third⟩, first⟩ := clear
    by_cases whole : subnet % 8 = 0
    · rw [whole, Nat.pow_zero, Nat.mod_one]
    · have place : subnet / 8 = 0 ∨ subnet / 8 = 1 ∨ subnet / 8 = 2 ∨ subnet / 8 = 3 := by omega
      rcases place with place | place | place | place
      · rw [← divided_width subnet 24 bound rfl (by omega) (by omega)]
        exact first (by omega) (by omega)
      · rw [← divided_width subnet 16 bound rfl (by omega) (by omega)]
        exact second (by omega) (by omega)
      · rw [← divided_width subnet 8 bound rfl (by omega) (by omega)]
        exact third (by omega) (by omega)
      · rw [← divided_width subnet 0 bound rfl (by omega) (by omega)]
        exact last (by omega) (by omega)
  · intro clear
    have each (shift : Nat) (place : shift % 8 = 0) (host : shift < 32 - subnet)
        (divided : 32 - subnet < shift + 8) : network % 2 ^ (shift + 8 - (32 - subnet)) = 0 := by
      rw [divided_width subnet shift bound place host divided]
      exact clear
    exact ⟨⟨⟨each 0 rfl, each 16 rfl⟩, each 8 rfl⟩, each 24 rfl⟩

/-! ## The successor -/

theorem following_number (cur : RIPsingle) (inner : cur.number % 65536 ≠ 65535) :
    (following cur).number = cur.number + 1 := by
  unfold following
  split_ifs with low third
  · simp only [RIPsingle.number, octet_succ _ low]
    omega
  · have full := congrArg UInt8.toNat (octet_full _ low)
    simp only [UInt8.toNat_ofNat] at full
    simp only [RIPsingle.number, octet_succ _ third, UInt8.toNat_zero]
    omega
  all_goals
    exfalso
    have full := congrArg UInt8.toNat (octet_full _ low)
    have fullThird := congrArg UInt8.toNat (octet_full _ third)
    simp only [UInt8.toNat_ofNat] at full fullThird
    simp only [RIPsingle.number] at inner
    omega

/-- A carry out of the third octet leaves the lowest octet at 255. -/
theorem following_carry (cur : RIPsingle) (full : cur.number % 65536 = 65535) :
    (following cur).number ≠ cur.number + 1 := by
  have bounds := octet_bounds cur
  have last : ¬ cur.frt < 255 := by
    rw [UInt8.lt_iff_toNat_lt]
    simp only [RIPsingle.number] at full
    simp only [UInt8.toNat_ofNat]
    omega
  have third : ¬ cur.thd < 255 := by
    rw [UInt8.lt_iff_toNat_lt]
    simp only [RIPsingle.number] at full
    simp only [UInt8.toNat_ofNat]
    omega
  have kept : (following cur).frt = cur.frt := by
    simp only [following, if_neg last, if_neg third]
    split_ifs <;> rfl
  intro next
  have lowest := congrArg UInt8.toNat kept
  simp only [RIPsingle.number] at next full
  omega

/-! ## The ends of a block -/

theorem block_size_positive (subnet : Nat) : 0 < blockSize subnet := by
  exact Nat.two_pow_pos _

theorem in_block_iff (base : RIPsingle) (subnet number : Nat) (above : base.number ≤ number) :
    InBlock base subnet number ↔ number ≤ blockEnd base subnet := by
  have positive := block_size_positive subnet
  have quotients := Nat.div_le_div_right (c := blockSize subnet) above
  have below : number / blockSize subnet < base.number / blockSize subnet + 1 ↔
      number < (base.number / blockSize subnet + 1) * blockSize subnet :=
    Nat.div_lt_iff_lt_mul positive
  have room : 0 < (base.number / blockSize subnet + 1) * blockSize subnet :=
    Nat.mul_pos (Nat.succ_pos _) positive
  unfold InBlock blockEnd
  constructor
  · intro same
    have inside := below.mp (by omega)
    omega
  · intro within
    have inside := below.mpr (by omega)
    omega

theorem base_in_block (base : RIPsingle) (subnet : Nat) : base.number ≤ blockEnd base subnet := by
  exact (in_block_iff base subnet base.number (Nat.le_refl _)).mp rfl

theorem number_last_iff (ip : RIPsingle) : ip.number = 2 ^ 32 - 1 ↔ ip = lastAddress := by
  have bounds := octet_bounds ip
  constructor
  · intro last
    simp only [RIPsingle.number] at last
    cases ip
    simp only [lastAddress, RIPsingle.mk.injEq, ← UInt8.toNat_inj, UInt8.toNat_ofNat] at last bounds ⊢
    omega
  · intro last
    rw [last]
    decide

theorem clear_last_block {base : RIPsingle} {subnet : Nat} (bound : subnet ≤ 32)
    (last : blockEnd base subnet = 2 ^ 32 - 1) :
    dividedOctetClear base subnet = true ↔ subnet % 8 = 0 := by
  have whole : 2 ^ subnet * blockSize subnet = 2 ^ 32 := by
    rw [blockSize, ← Nat.pow_add, ipMaxSpace, Nat.add_sub_cancel' bound]
  have ones : base.number / blockSize subnet + 1 = 2 ^ subnet := by
    have positive := block_size_positive subnet
    have room : 0 < (base.number / blockSize subnet + 1) * blockSize subnet :=
      Nat.mul_pos (Nat.succ_pos _) positive
    apply Nat.eq_of_mul_eq_mul_right positive
    rw [whole]
    unfold blockEnd at last
    omega
  have split : 2 ^ subnet = 2 ^ (subnet % 8) * 2 ^ (subnet - subnet % 8) := by
    rw [← Nat.pow_add, Nat.add_sub_cancel' (Nat.mod_le subnet 8)]
  have low : base.number / blockSize subnet % 2 ^ (subnet % 8) = 2 ^ (subnet % 8) - 1 := by
    have power : 0 < 2 ^ (subnet % 8) := Nat.two_pow_pos _
    have quotient : base.number / blockSize subnet =
        2 ^ (subnet % 8) * (2 ^ (subnet - subnet % 8) - 1) + (2 ^ (subnet % 8) - 1) := by
      rw [Nat.mul_sub, Nat.mul_one, ← split]
      have larger : 2 ^ (subnet % 8) ≤ 2 ^ subnet :=
        Nat.pow_le_pow_right (by decide) (Nat.mod_le subnet 8)
      omega
    rw [quotient, Nat.mul_add_mod]
    exact Nat.mod_eq_of_lt (by omega)
  rw [dividedOctetClear, beq_iff_eq, low]
  constructor
  · intro zero
    by_contra cut
    have two : 2 ^ 1 ≤ 2 ^ (subnet % 8) := Nat.pow_le_pow_right (by decide) (by omega)
    omega
  · intro zero
    rw [zero, Nat.pow_zero]

/-! ## Steps inside the block and at its end -/

section

variable (base : RIPsingle) (subnet : Nat) (bound : subnet ≤ 32)

include bound

theorem range_inside (cur : RIPsingle) (above : base.number ≤ cur.number)
    (inside : cur.number < blockEnd base subnet)
    (next : (following cur).number = cur.number + 1) :
    inRange (following cur) (blockLimit base (ipMaxSpace - subnet)) = true ↔
      dividedOctetClear base subnet = true := by
  apply in_range_iff_clear bound
  rw [in_block_iff base subnet _ (by omega), next]
  exact inside

/-- At the end of the block the successor lies outside, but the last address of all
is its own successor. -/
theorem range_at_end (cur : RIPsingle) (atEnd : cur.number = blockEnd base subnet) :
    inRange (following cur) (blockLimit base (ipMaxSpace - subnet)) = true ↔
      blockEnd base subnet = 2 ^ 32 - 1 ∧ subnet % 8 = 0 := by
  have start := base_in_block base subnet
  by_cases last : cur = lastAddress
  · have full : blockEnd base subnet = 2 ^ 32 - 1 := by
      rw [← atEnd]
      exact (number_last_iff cur).mpr last
    have stays : following cur = cur := by rw [last, following_last]
    have same : InBlock base subnet (following cur).number := by
      rw [stays, in_block_iff base subnet _ (by omega), atEnd]
    rw [in_range_iff_clear bound same, clear_last_block bound full]
    exact (and_iff_right full).symm
  · have climbs := following_above cur last
    constructor
    · intro ranged
      have block := block_of_range base (following cur) (ipMaxSpace - subnet)
        (Nat.sub_le ipMaxSpace subnet) ranged (by omega)
      have within := (in_block_iff base subnet (following cur).number (by omega)).mp block
      omega
    · intro full
      exact absurd ((number_last_iff cur).mp (by rw [atEnd, full.1])) last

theorem walkable_step (walk : walkable base subnet = true) (cur : RIPsingle)
    (above : base.number ≤ cur.number) :
    (cur.number < blockEnd base subnet →
        inRange (following cur) (blockLimit base (ipMaxSpace - subnet)) = true ∧
          (following cur).number = cur.number + 1) ∧ (cur.number = blockEnd base subnet →
        inRange (following cur) (blockLimit base (ipMaxSpace - subnet)) = false) := by
  simp only [walkable, Bool.and_eq_true, Bool.or_eq_true, beq_iff_eq, bne_iff_ne] at walk
  obtain ⟨⟨clear, carry⟩, ending⟩ := walk
  constructor
  · intro inside
    have next : (following cur).number = cur.number + 1 := following_number cur (by omega)
    have ranged := range_inside base subnet bound cur above inside next
    exact ⟨ranged.mpr (clear.resolve_left (by omega)), next⟩
  · intro atEnd
    rw [Bool.eq_false_iff]
    intro ranged
    have full := (range_at_end base subnet bound cur atEnd).mp ranged
    omega

/-! ## Whole walks -/

variable (op : RIPop) (starts : op.ipCur = base)
  (limited : op.ipMax = blockLimit base (ipMaxSpace - subnet))

include starts limited

theorem walkable_run (walk : walkable base subnet = true) (before : Nat) :
    (assigned^[before] op).ipCur.number = min (base.number + before) (blockEnd base subnet) := by
  have start := base_in_block base subnet
  induction before with
  | zero =>
    rw [Function.iterate_zero_apply, starts]
    omega
  | succ before ih =>
    have step := walkable_step base subnet bound walk (assigned^[before] op).ipCur (by omega)
    rw [Function.iterate_succ_apply', assigned_eq, assigned_limit, limited]
    by_cases inside : base.number + before < blockEnd base subnet
    · have next := step.1 (by omega)
      rw [if_pos next.1]
      change (following (assigned^[before] op).ipCur).number = _
      omega
    · have refused := step.2 (by omega)
      rw [if_neg (Bool.eq_false_iff.mp refused)]
      omega

theorem walks_of_walkable (walk : walkable base subnet = true) : WalksBlock base subnet op := by
  intro before
  have start := base_in_block base subnet
  have run := walkable_run base subnet bound op starts limited walk before
  have step := walkable_step base subnet bound walk (assigned^[before] op).ipCur (by omega)
  have place := in_block_iff base subnet (base.number + (before + 1)) (by omega)
  rw [assign_call_eq, limited]
  by_cases inside : base.number + (before + 1) ≤ blockEnd base subnet
  · have next := step.1 (by omega)
    rw [if_pos (place.mpr inside), if_pos next.1]
    exact ⟨rfl, by change (following _).number = _; omega⟩
  · have refused := step.2 (by omega)
    rw [if_neg (fun within => inside (place.mp within)), if_neg (Bool.eq_false_iff.mp refused)]
    exact ⟨rfl, rfl⟩

omit bound starts limited in
theorem walks_call (walks : WalksBlock base subnet op) (before : Nat)
    (inside : base.number + (before + 1) ≤ blockEnd base subnet) :
    inRange (following (assigned^[before] op).ipCur) op.ipMax = true ∧
      (following (assigned^[before] op).ipCur).number = base.number + (before + 1) := by
  have call := walks before
  rw [if_pos ((in_block_iff base subnet _ (by omega)).mpr inside), assign_call_eq] at call
  split_ifs at call with ranged
  · exact ⟨ranged, call.2⟩
  · exact absurd call.1 (by decide)

omit bound limited in
theorem walks_run (walks : WalksBlock base subnet op) (before : Nat)
    (within : base.number + before ≤ blockEnd base subnet) :
    (assigned^[before] op).ipCur.number = base.number + before := by
  cases before with
  | zero =>
    rw [Function.iterate_zero_apply, starts, Nat.add_zero]
  | succ before =>
    have call := walks_call base subnet op walks before within
    rw [Function.iterate_succ_apply', assigned_eq, assigned_limit, if_pos call.1]
    exact call.2

theorem walkable_of_walks (walks : WalksBlock base subnet op) : walkable base subnet = true := by
  have start := base_in_block base subnet
  simp only [walkable, Bool.and_eq_true, Bool.or_eq_true, beq_iff_eq, bne_iff_ne]
  refine ⟨⟨?_, ?_⟩, ?_⟩
  · by_contra neither
    rw [not_or] at neither
    have call := walks_call base subnet op walks 0 (by omega)
    rw [limited, Function.iterate_zero_apply, starts] at call
    exact neither.2 ((range_inside base subnet bound base (Nat.le_refl _) (by omega) call.2).mp call.1)
  · by_contra crosses
    -- the walk reaches the end of the lower two octets inside the block
    have quotient : base.number / 65536 ≤ blockEnd base subnet / 65536 := Nat.div_le_div_right start
    obtain ⟨before, reached⟩ : ∃ before, base.number + before = base.number / 65536 * 65536 + 65535 :=
      ⟨65535 - base.number % 65536, by omega⟩
    have call := walks_call base subnet op walks before (by omega)
    have run := walks_run base subnet op starts walks before (by omega)
    exact following_carry (assigned^[before] op).ipCur (by omega) (by omega)
  · by_contra neither
    simp only [not_or, not_not] at neither
    obtain ⟨before, reached⟩ : ∃ before, base.number + before = blockEnd base subnet :=
      ⟨blockEnd base subnet - base.number, by omega⟩
    have run := walks_run base subnet op starts walks before (by omega)
    have ranged := (range_at_end base subnet bound (assigned^[before] op).ipCur (by omega)).mpr neither
    have call := walks before
    have outside : ¬ InBlock base subnet (base.number + (before + 1)) := by
      rw [in_block_iff base subnet _ (by omega)]
      omega
    rw [if_neg outside, assign_call_eq, limited, if_pos ranged] at call
    cases call.1

end

/-- When the calls of the allocator walk the block of the base address. -/
theorem walks_block_iff_walkable (base : RIPsingle) (subnet : Fin 33) :
    WalksBlock base subnet (allocator (rIpopOpToStr base) subnet) ↔
      walkable base subnet = true := by
  have bound : subnet.val ≤ 32 := Nat.le_of_lt_succ subnet.isLt
  have starts : (allocator (rIpopOpToStr base) subnet).ipCur = base := by
    rw [allocator_cur, str_to_op_of_op_to_str]
  have limited : (allocator (rIpopOpToStr base) subnet).ipMax =
      blockLimit base (ipMaxSpace - subnet) := by
    rw [allocator_limit, str_to_op_of_op_to_str]
  constructor
  · exact walkable_of_walks base subnet bound _ starts limited
  · exact walks_of_walkable base subnet bound _ starts limited

/-- The network bit of the last octet keeps the limit below the whole block. -/
theorem block_in_upper_half_of_octet_refused :
    ¬ WalksBlock ⟨192, 168, 0, 17⟩ 28 (allocator (rIpopOpToStr ⟨192, 168, 0, 17⟩) 28) := by
  intro walks
  have first := walks 0
  rw [if_pos (by decide), assign_call_eq, Function.iterate_zero_apply, allocator_cur,
    allocator_limit, str_to_op_of_op_to_str, if_neg (by decide)] at first
  exact absurd first.1 (by decide)

end Cprogramming.LinkLayer.AddressWalk
