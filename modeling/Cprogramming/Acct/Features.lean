import Cprogramming.Acct.Effects
import Cprogramming.Library.LastMatch

/-!
# The enabled events

`ACCT_IOC_ENABLE` adds its mask to the enabled events. `ACCT_IOC_DISABLE` keeps
the events of `!mask`, the logical negation: nothing for a nonempty mask, and the
fork event alone for an empty one.
-/

namespace Cprogramming.Acct.Features

open Library.CStrings Library.LastMatch Library.Runs
open Records Device Effects

set_option autoImplicit false

structure MaskRequest where
  enables : Bool
  namei : CString → Option Vnode
  ctl : AcctCtl

def MaskRequest.mask (request : MaskRequest) : BitVec 32 := request.ctl.acctEna

def MaskRequest.serve (driver : Driver) (request : MaskRequest) : IoctlResult :=
  acctioctl request.namei driver (if request.enables then .enable else .disable) request.ctl

def MaskRequest.next (driver : Driver) (request : MaskRequest) : Driver :=
  (request.serve driver).driver

def Mentions (bit : Nat) (request : MaskRequest) : Bool := request.mask.getLsbD bit

/-- The enabled events follow the last request that mentions each of them, and
every request reports the events enabled after it. -/
structure FollowsRequests (requests : List MaskRequest) : Prop where
  bits : ∀ bit, (run MaskRequest.next acctattach requests).acctEna.getLsbD bit = true ↔
    ∃ last, IsLast (Mentions bit) requests last ∧ last.enables = true
  reports : ∀ before request after, requests = before ++ request :: after →
    (request.serve (run MaskRequest.next acctattach before)).ctl.acctEna =
      (run MaskRequest.next acctattach (before ++ [request])).acctEna

/-- A request that a bit survives if it does not mention it. -/
def Harmless (bit : Nat) (request : MaskRequest) : Prop :=
  request.enables = false → request.mask = 0 ∧ bit = 0

theorem logical_not_bit (mask : BitVec 32) (bit : Nat) :
    (logicalNot mask).getLsbD bit = true ↔ mask = 0 ∧ bit = 0 := by
  unfold logicalNot
  split_ifs with empty
  · simp [empty, BitVec.getLsbD_one]
  · constructor
    · intro set
      simp at set
    · intro both
      exact absurd both.1 empty

theorem next_bit (driver : Driver) (request : MaskRequest) (bit : Nat) :
    (request.next driver).acctEna.getLsbD bit = true ↔
      (driver.acctEna.getLsbD bit = true ∧ Harmless bit request) ∨
        (request.enables = true ∧ Mentions bit request = true) := by
  unfold MaskRequest.next MaskRequest.serve Harmless Mentions MaskRequest.mask
  cases enables : request.enables with
  | true =>
    have added : (acctioctl request.namei driver .enable request.ctl).driver.acctEna =
        driver.acctEna ||| request.ctl.acctEna := rfl
    simp only [if_true, added, BitVec.getLsbD_or, Bool.or_eq_true, Bool.true_eq_false,
      false_implies, and_true, true_and]
  | false =>
    simp only [Bool.false_eq_true, if_false, disable_eq, BitVec.getLsbD_and, Bool.and_eq_true,
      logical_not_bit, true_implies, false_and, or_false]

theorem run_bit (driver : Driver) (requests : List MaskRequest) (bit : Nat) :
    (run MaskRequest.next driver requests).acctEna.getLsbD bit = true ↔
      (driver.acctEna.getLsbD bit = true ∧ ∀ request ∈ requests, Harmless bit request) ∨
        ∃ before request after, requests = before ++ request :: after ∧
          request.enables = true ∧ Mentions bit request = true ∧
          ∀ later ∈ after, Harmless bit later := by
  induction requests generalizing driver with
  | nil => simp [run]
  | cons head rest ih =>
    rw [run_cons, ih, next_bit]
    constructor
    · rintro (⟨⟨set, harmless⟩ | ⟨enables, mentions⟩, others⟩ |
        ⟨before, request, after, rfl, found⟩)
      · exact Or.inl ⟨set, List.forall_mem_cons.mpr ⟨harmless, others⟩⟩
      · exact Or.inr ⟨[], head, rest, rfl, enables, mentions, others⟩
      · exact Or.inr ⟨head :: before, request, after, rfl, found⟩
    · rintro (⟨set, harmless⟩ | ⟨before, request, after, split, enables, mentions, others⟩)
      · obtain ⟨first, others⟩ := List.forall_mem_cons.mp harmless
        exact Or.inl ⟨Or.inl ⟨set, first⟩, others⟩
      · cases before with
        | nil =>
          obtain ⟨rfl, rfl⟩ := List.cons.inj split
          exact Or.inl ⟨Or.inr ⟨enables, mentions⟩, others⟩
        | cons first before =>
          obtain ⟨rfl, rfl⟩ := List.cons.inj split
          exact Or.inr ⟨before, request, after, rfl, enables, mentions, others⟩

theorem harmless_mention_enables {bit : Nat} {request : MaskRequest}
    (harmless : Harmless bit request) (mentions : Mentions bit request = true) :
    request.enables = true := by
  cases enables : request.enables with
  | true => rfl
  | false =>
    obtain ⟨empty, _⟩ := harmless enables
    unfold Mentions at mentions
    rw [empty] at mentions
    simp at mentions

theorem after_last_mention (bit : Nat) (before after earlier later : List MaskRequest)
    (last request : MaskRequest)
    (split : before ++ last :: after = earlier ++ request :: later)
    (quiet : ∀ other ∈ after, Mentions bit other = false)
    (mentions : Mentions bit request = true) : ∀ other ∈ after, other ∈ later := by
  intro other member
  rcases List.append_eq_append_iff.mp split with ⟨gap, _, tail⟩ | ⟨gap, _, tail⟩
  · cases gap with
    | nil =>
      obtain ⟨_, rfl⟩ := List.cons.inj tail
      exact member
    | cons first gap =>
      obtain ⟨_, rfl⟩ := List.cons.inj tail
      have silent := quiet request (by simp)
      rw [mentions] at silent
      cases silent
  · cases gap with
    | nil =>
      obtain ⟨_, rfl⟩ := List.cons.inj tail
      exact member
    | cons first gap =>
      obtain ⟨_, rfl⟩ := List.cons.inj tail
      simp [member]

/-- The driver follows its requests exactly when no event whose last mention
enabled it is hit by a later `ACCT_IOC_DISABLE` that does not mention it; only the
fork event survives one, with an empty mask. -/
theorem follows_requests_iff (requests : List MaskRequest) :
    FollowsRequests requests ↔
      ∀ bit before request after, requests = before ++ request :: after →
        request.enables = true → Mentions bit request = true →
        (∀ later ∈ after, Mentions bit later = false) → ∀ later ∈ after, Harmless bit later := by
  have clear : ∀ bit, ¬ acctattach.acctEna.getLsbD bit = true := by
    intro bit
    simp [acctattach]
  constructor
  · intro follows bit before request after split enables mentions quiet
    have set := (follows.bits bit).mpr ⟨request, ⟨before, after, split, mentions, quiet⟩, enables⟩
    rcases (run_bit acctattach requests bit).mp set with ⟨initial, _⟩ |
      ⟨earlier, other, rest, split', _, mentions', harmless⟩
    · exact absurd initial (clear bit)
    · intro later member
      exact harmless later (after_last_mention bit before after earlier rest request other
        (split.symm.trans split') quiet mentions' later member)
  · intro spared
    constructor
    · intro bit
      rw [run_bit]
      constructor
      · rintro (⟨initial, _⟩ | ⟨before, request, after, split, enables, mentions, harmless⟩)
        · exact absurd initial (clear bit)
        · rcases none_or_last (Mentions bit) after with quiet |
            ⟨last, middle, rest, inner, mentions', quiet⟩
          · exact ⟨request, ⟨before, after, split, mentions, quiet⟩, enables⟩
          · have member : last ∈ after := by
              rw [inner]
              simp
            refine ⟨last, ⟨before ++ request :: middle, rest, ?_, mentions', quiet⟩,
              harmless_mention_enables (harmless last member) mentions'⟩
            rw [split, inner, List.append_assoc, List.cons_append]
      · rintro ⟨last, ⟨before, after, split, mentions, quiet⟩, enables⟩
        exact Or.inr ⟨before, last, after, split, enables, mentions,
          spared bit before last after split enables mentions quiet⟩
    · intro before request after _
      rw [run_append]
      simp only [run, List.foldl_cons, List.foldl_nil]
      unfold MaskRequest.next MaskRequest.serve
      cases request.enables with
      | true => rfl
      | false => rfl

def maskRequest (enables : Bool) (mask : BitVec 32) : MaskRequest :=
  ⟨enables, fun _ => none, ⟨mask, 0, 0, CString.ofString ""⟩⟩

/-- Disabling the open event disables the close event as well. -/
theorem disabling_one_disables_all :
    (run MaskRequest.next acctattach [maskRequest true (acctEnaOpen ||| acctEnaClose),
      maskRequest false acctEnaOpen]).acctEna = 0 := by
  decide

end Cprogramming.Acct.Features
