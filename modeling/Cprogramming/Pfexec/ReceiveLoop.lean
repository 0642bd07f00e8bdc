import Cprogramming.Pfexec.Protocol
import Mathlib.Algebra.Order.Ring.Int

/-!
# Receiving the response

The loop of `rcv_sock` in `kern_pfexec.c`. Each `soreceive` gives a chain of its own,
and the loop keeps the last one. What it subtracts from the remaining length after a call is
all that was delivered so far, so the length goes down by the first delivery again with
every later one. A call that copies more than the chain holds panics.
-/

namespace Cprogramming.Pfexec.ReceiveLoop

open Protocol

set_option autoImplicit false

/-- `sizeof(struct pfexec_resp)`: five words, the groups, the root directory, the
environment count, references and area. -/
def sizeofPfexecResp : Nat := 4 * 5 + 4 * ngroupsMax + pathMax + 4 + 8 * refMax + argMax

/-- A call of `soreceive`: its result and the chain it leaves, with the bytes it took
off `uio_resid`. -/
structure Soreceive where
  ret : Int
  m : Option (List UInt8)
deriving DecidableEq

inductive LoopResult where
  | waiting
  | failed (ret : Int)
  | left (m : List UInt8) (unread : List Soreceive)
deriving DecidableEq

/-- The loop with the values of `len` and `uio_resid` before a call. -/
def rcvLoop : Int → Nat → List Soreceive → LoopResult
  | _, _, [] => .waiting
  | len, resid, call :: rest =>
    match call.m with
    | none => .failed epipe
    | some m =>
      if call.ret ≠ 0 then .failed call.ret
      else
        let resid := resid - m.length
        let len := len - (sizeofPfexecResp - resid : Int)
        if 0 < len then rcvLoop len resid rest else .left m rest

/-- `m_copydata` from the start of a chain; `none` is the panic of a short chain. -/
def mCopydata (m : List UInt8) (count : Nat) : Option (List UInt8) :=
  if count ≤ m.length then some (m.take count) else none

inductive Received where
  | waiting
  | failed (ret : Int)
  | panicked
  | copied (resp : List UInt8)
deriving DecidableEq

/-- `rcv_sock`; its `malloc` may sleep and does not fail. -/
def rcvSock (calls : List Soreceive) : Received :=
  match rcvLoop sizeofPfexecResp sizeofPfexecResp calls with
  | .waiting => .waiting
  | .failed ret => .failed ret
  | .left m _ =>
    match mCopydata m sizeofPfexecResp with
    | none => .panicked
    | some resp => .copied resp

/-! ## Deliveries -/

/-- The chains delivered before a call fails. -/
def deliveries : List Soreceive → List (List UInt8)
  | [] => []
  | call :: rest =>
    match call.m with
    | none => []
    | some m => if call.ret ≠ 0 then [] else m :: deliveries rest

def delivery (m : List UInt8) : Soreceive := ⟨0, some m⟩

/-- `soreceive` gives no empty chain and no more than it was asked for. -/
structure Deliverable (chunks : List (List UInt8)) : Prop where
  nonempty : ∀ chunk ∈ chunks, chunk ≠ []
  fits : chunks.flatten.length ≤ sizeofPfexecResp

/-- The sum of what was delivered up to each call, on top of `before` bytes. -/
def cumulated : Nat → List (List UInt8) → Nat
  | _, [] => 0
  | before, chunk :: rest => before + chunk.length + cumulated (before + chunk.length) rest

def ReceivedWhole (calls : List Soreceive) : Prop :=
  ∀ m unread, rcvLoop sizeofPfexecResp sizeofPfexecResp calls = .left m unread →
    ∃ chunks : List (List UInt8), calls = chunks.map delivery ++ unread ∧
      chunks.flatten.length = sizeofPfexecResp ∧ mCopydata m sizeofPfexecResp = some chunks.flatten

theorem deliveries_fail {call : Soreceive} (rest : List Soreceive)
    (failed : ∀ m, call ≠ delivery m) : deliveries (call :: rest) = [] := by
  obtain ⟨ret, m⟩ := call
  cases m with
  | none => rfl
  | some m =>
    have nonzero : ret ≠ 0 := fun zero => failed m (by rw [zero, delivery])
    simp only [deliveries, if_pos nonzero]

theorem loop_fails (len : Int) (resid : Nat) {call : Soreceive} (rest : List Soreceive)
    (failed : ∀ m, call ≠ delivery m) : ∃ ret, rcvLoop len resid (call :: rest) = .failed ret := by
  obtain ⟨ret, m⟩ := call
  cases m with
  | none => exact ⟨epipe, rfl⟩
  | some m =>
    have nonzero : ret ≠ 0 := fun zero => failed m (by rw [zero, delivery])
    exact ⟨ret, by simp only [rcvLoop, if_pos nonzero]⟩

theorem deliveries_cons (m : List UInt8) (rest : List Soreceive) :
    deliveries (delivery m :: rest) = m :: deliveries rest := by
  rfl

theorem loop_delivery (len : Int) (before : Nat) (m : List UInt8) (rest : List Soreceive)
    (fits : before + m.length ≤ sizeofPfexecResp) :
    rcvLoop len (sizeofPfexecResp - before) (delivery m :: rest) =
      if 0 < len - (before + m.length : Nat) then
        rcvLoop (len - (before + m.length : Nat)) (sizeofPfexecResp - (before + m.length)) rest
      else .left m rest := by
  have resid : sizeofPfexecResp - before - m.length = sizeofPfexecResp - (before + m.length) := by
    omega
  have cumulative : ((sizeofPfexecResp : Int) -
      ((sizeofPfexecResp - (before + m.length) : Nat) : Int)) = (before + m.length : Nat) := by
    omega
  simp only [rcvLoop, delivery, resid, cumulative, ne_eq, not_true_eq_false, if_false]

theorem loop_leaves_iff (calls : List Soreceive) (len : Int) (before : Nat) (positive : 0 < len)
    (fits : before + (deliveries calls).flatten.length ≤ sizeofPfexecResp) :
    (∃ m unread, rcvLoop len (sizeofPfexecResp - before) calls = .left m unread) ↔
      len ≤ cumulated before (deliveries calls) := by
  induction calls generalizing len before with
  | nil =>
    simp only [rcvLoop, deliveries, cumulated, reduceCtorEq, exists_const, false_iff]
    omega
  | cons call rest ih =>
    by_cases delivers : ∃ m, call = delivery m
    · obtain ⟨m, rfl⟩ := delivers
      rw [deliveries_cons, List.flatten_cons, List.length_append] at fits
      rw [loop_delivery len before m rest (by omega), deliveries_cons, cumulated]
      split_ifs with more
      · rw [ih _ (before + m.length) more (by omega)]
        push_cast
        omega
      · constructor
        · intro _
          push_cast at more ⊢
          omega
        · intro _
          exact ⟨m, rest, rfl⟩
    · have failed : ∀ m, call ≠ delivery m := fun m same => delivers ⟨m, same⟩
      obtain ⟨ret, fails⟩ := loop_fails len (sizeofPfexecResp - before) rest failed
      rw [deliveries_fail rest failed, cumulated, fails]
      simp only [reduceCtorEq, exists_const, false_iff]
      omega

theorem loop_left (calls unread : List Soreceive) (len : Int) (resid : Nat) (m : List UInt8)
    (leaves : rcvLoop len resid calls = .left m unread) :
    ∃ chunks : List (List UInt8), calls = (chunks ++ [m]).map delivery ++ unread := by
  induction calls generalizing len resid with
  | nil => cases leaves
  | cons call rest ih =>
    by_cases delivers : ∃ chunk, call = delivery chunk
    · obtain ⟨chunk, rfl⟩ := delivers
      simp only [rcvLoop, delivery, ne_eq, not_true_eq_false, if_false] at leaves
      split_ifs at leaves with more
      · obtain ⟨chunks, split⟩ := ih _ _ leaves
        exact ⟨chunk :: chunks, by rw [split]; rfl⟩
      · cases leaves
        exact ⟨[], rfl⟩
    · have failed : ∀ chunk, call ≠ delivery chunk := fun chunk same => delivers ⟨chunk, same⟩
      obtain ⟨ret, fails⟩ := loop_fails len resid rest failed
      rw [fails] at leaves
      cases leaves

theorem deliveries_append (chunks : List (List UInt8)) (rest : List Soreceive) :
    deliveries (chunks.map delivery ++ rest) = chunks ++ deliveries rest := by
  induction chunks with
  | nil => rfl
  | cons chunk chunks ih => rw [List.map_cons, List.cons_append, deliveries_cons, ih, List.cons_append]

theorem delivery_injective : Function.Injective delivery := by
  intro left right same
  exact Option.some.inj (congrArg Soreceive.m same)

/-- Only the last chain is copied, so a copy of the whole response was delivered at
once. -/
theorem whole_copy_first {calls unread : List Soreceive} {earlier : List (List UInt8)}
    {m : List UInt8} (deliverable : Deliverable (deliveries calls))
    (split : calls = (earlier ++ [m]).map delivery ++ unread)
    (total : (earlier ++ [m]).flatten.length = sizeofPfexecResp)
    (long : sizeofPfexecResp ≤ m.length) :
    (deliveries calls).head? = some m ∧ m.length = sizeofPfexecResp := by
  have parts := deliveries_append (earlier ++ [m]) unread
  rw [← split] at parts
  rw [List.flatten_append, List.length_append, List.flatten_singleton] at total
  cases earlier with
  | nil =>
    rw [List.flatten_nil, List.length_nil, Nat.zero_add] at total
    rw [parts]
    exact ⟨rfl, total⟩
  | cons first others =>
    have positive := List.length_pos_iff.mpr (deliverable.nonempty first (by rw [parts]; simp))
    rw [List.flatten_cons, List.length_append] at total
    omega

theorem received_first (calls unread : List Soreceive) (m : List UInt8)
    (left : rcvLoop sizeofPfexecResp sizeofPfexecResp calls = .left m unread)
    (whole : ReceivedWhole calls) (deliverable : Deliverable (deliveries calls)) :
    ∃ chunk, (deliveries calls).head? = some chunk ∧ chunk.length = sizeofPfexecResp := by
  obtain ⟨chunks, received, total, copied⟩ := whole m unread left
  obtain ⟨earlier, split⟩ := loop_left calls unread _ _ m left
  -- what was delivered ends in the chain that is copied
  obtain rfl : chunks = earlier ++ [m] := by
    apply List.map_injective_iff.mpr delivery_injective
    exact List.append_cancel_right (received.symm.trans split)
  have long : sizeofPfexecResp ≤ m.length := by
    by_contra short
    rw [mCopydata, if_neg short] at copied
    exact absurd copied.symm (Option.some_ne_none _)
  exact ⟨m, whole_copy_first deliverable split total long⟩

theorem first_delivery_whole (calls : List Soreceive) (chunk : List UInt8)
    (first : (deliveries calls).head? = some chunk) (whole : chunk.length = sizeofPfexecResp) :
    ReceivedWhole calls := by
  intro m unread left
  cases calls with
  | nil => cases left
  | cons call rest =>
    by_cases delivers : ∃ other, call = delivery other
    · obtain ⟨other, rfl⟩ := delivers
      rw [deliveries_cons, List.head?_cons] at first
      obtain rfl := Option.some.inj first
      have done := loop_delivery sizeofPfexecResp 0 other rest (by omega)
      rw [Nat.sub_zero, Nat.zero_add, whole, if_neg (by omega), left] at done
      obtain ⟨rfl, rfl⟩ := LoopResult.left.inj done
      refine ⟨[m], rfl, ?_, ?_⟩
      · rw [List.flatten_singleton, whole]
      · rw [mCopydata, if_pos (by omega), ← whole, List.take_length, List.flatten_singleton]
    · have failed : ∀ other, call ≠ delivery other := fun other same => delivers ⟨other, same⟩
      rw [deliveries_fail rest failed] at first
      cases first

theorem received_whole_iff (calls : List Soreceive) (deliverable : Deliverable (deliveries calls)) :
    ReceivedWhole calls ↔
      (∃ chunk, (deliveries calls).head? = some chunk ∧ chunk.length = sizeofPfexecResp) ∨
        cumulated 0 (deliveries calls) < sizeofPfexecResp := by
  have size : 0 < sizeofPfexecResp := by decide
  have leaves := loop_leaves_iff calls sizeofPfexecResp 0 (by exact_mod_cast size)
    (by rw [Nat.zero_add]; exact deliverable.fits)
  rw [Nat.sub_zero] at leaves
  constructor
  · intro whole
    by_cases early : cumulated 0 (deliveries calls) < sizeofPfexecResp
    · exact Or.inr early
    · obtain ⟨m, unread, left⟩ := leaves.mpr (by exact_mod_cast Nat.not_lt.mp early)
      exact Or.inl (received_first calls unread m left whole deliverable)
  · intro condition
    rcases condition with ⟨chunk, first, whole⟩ | early
    · exact first_delivery_whole calls chunk first whole
    · intro m unread left
      have reached := leaves.mp ⟨m, unread, left⟩
      exact absurd (by exact_mod_cast reached) (Nat.not_le.mpr early)

def zeros (count : Nat) : List UInt8 := List.replicate count 0

theorem zeros_length (count : Nat) : (zeros count).length = count := by
  exact List.length_replicate

theorem one_delivery_received : ReceivedWhole [delivery (zeros sizeofPfexecResp)] := by
  have deliverable : Deliverable (deliveries [delivery (zeros sizeofPfexecResp)]) := by
    rw [deliveries_cons, deliveries]
    constructor
    · intro chunk member
      rw [List.mem_singleton.mp member]
      apply List.ne_nil_of_length_pos
      rw [zeros_length]
      decide
    · rw [List.flatten_singleton, zeros_length]
  apply (received_whole_iff _ deliverable).mpr
  exact Or.inl ⟨zeros sizeofPfexecResp, rfl, zeros_length _⟩

theorem two_deliveries_panic (first second : List UInt8)
    (fits : first.length + second.length ≤ sizeofPfexecResp)
    (started : first.length < sizeofPfexecResp) (nonempty : 0 < first.length)
    (leaves : sizeofPfexecResp ≤ 2 * first.length + second.length) :
    rcvSock [delivery first, delivery second] = .panicked ∧
      ¬ ReceivedWhole [delivery first, delivery second] := by
  have one := loop_delivery sizeofPfexecResp 0 first [delivery second] (by omega)
  have two := loop_delivery (sizeofPfexecResp - first.length) first.length second [] fits
  rw [Nat.sub_zero, Nat.zero_add, if_pos (by omega)] at one
  rw [if_neg (by omega)] at two
  have left : rcvLoop sizeofPfexecResp sizeofPfexecResp [delivery first, delivery second] =
      .left second [] := by
    rw [one, two]
  have short : mCopydata second sizeofPfexecResp = none := by
    rw [mCopydata, if_neg (by omega)]
  constructor
  · simp only [rcvSock, left, short]
  · intro whole
    obtain ⟨chunks, _, _, copied⟩ := whole _ _ left
    rw [short] at copied
    exact absurd copied.symm (Option.some_ne_none _)

/-- The loop leaves after 300100 of the 533592 bytes, with a chain of 100. -/
theorem second_delivery_panics :
    rcvSock [delivery (zeros 300000), delivery (zeros 100)] = .panicked ∧
      ¬ ReceivedWhole [delivery (zeros 300000), delivery (zeros 100)] := by
  have size : sizeofPfexecResp = 533592 := by decide
  apply two_deliveries_panic
  · rw [zeros_length, zeros_length, size]
    decide
  · rw [zeros_length, size]
    decide
  · rw [zeros_length]
    decide
  · rw [zeros_length, zeros_length, size]
    decide

end Cprogramming.Pfexec.ReceiveLoop
