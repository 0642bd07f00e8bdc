import Cprogramming.ReliableUdp.Process

/-!
# Replayed packets

UDP may deliver a packet twice. A second copy of a packet finds the connection
as the first copy left it and should leave it so. It does for every packet but
an accepted negative acknowledgement: this one is not tested against `seq`, and
each copy of it advances `seq` once more.
-/

namespace Cprogramming.ReliableUdp.Replay

open Library.CStrings Header Process

set_option autoImplicit false

/-- The second copy of a packet changes nothing, so whatever comes next is
treated as it would have been. -/
structure ReplayHarmless (files : FileSystem) (state : RState) (hdr : RHdr) : Prop where
  ack : (processed files (processed files state hdr) hdr).ack = (processed files state hdr).ack
  seq : (processed files (processed files state hdr) hdr).seq = (processed files state hdr).seq
  mys : (processed files (processed files state hdr) hdr).mys = (processed files state hdr).mys
  curr : (processed files (processed files state hdr) hdr).curr = (processed files state hdr).curr
  next : ∀ later fresh,
    rprocessRequest later (processed files (processed files state hdr) hdr) fresh =
      rprocessRequest later (processed files state hdr) fresh

/-- A negative acknowledgement for the entry sent last that passes the tests
before it. -/
structure AcceptedNak (state : RState) (hdr : RHdr) : Prop where
  sent : state.mys ≠ []
  confirmed : flagConfirm hdr = true
  admits : admitted state hdr = true
  nak : flagValidate hdr NAK = true
  current : state.ack = hdr.ackn

/-! ## What the tests look at -/

variable {hdr : RHdr}

theorem tests_congr {left right : RState} (hdr : RHdr) (same : left.chksum = right.chksum) :
    demands left hdr = demands right hdr ∧ strip left hdr = strip right hdr ∧
      admitted left hdr = admitted right hdr := by
  have demanded : demands left hdr = demands right hdr := by
    simp only [demands, same]
  refine ⟨demanded, ?_, ?_⟩
  · rw [strip, strip, demanded]
  · rw [admitted, admitted, demanded]

theorem exact_not_nak {flag : UInt16} (exact : flagCheck hdr flag = true)
    (other : (flag ||| rVersion) &&& (NAK ||| rVersion) ≠ NAK ||| rVersion) :
    flagValidate hdr NAK = false := by
  rw [flag_check_iff] at exact
  simp only [flagValidate, exact, beq_eq_false_iff_ne]
  exact other

/-! ## Packets that change nothing -/

variable (files : FileSystem)

variable {state : RState} {entry : RHdr} {older : List RHdr}

theorem sendable_twice (chksum : Bool) (entry : RHdr) :
    sendable chksum (sendable chksum entry) = sendable chksum entry := by
  unfold sendable
  split_ifs with missing again
  · exact mark_chk_twice entry
  · rfl
  · rfl

theorem mark_curr_twice (state : RState) : markCurr (markCurr state) = markCurr state := by
  cases sent : state.mys with
  | nil => simp [markCurr, sent]
  | cons entry older =>
    rw [mark_curr_open state entry older sent,
      mark_curr_open { state with mys := sendable state.chksum entry :: older } _ older rfl]
    simp only [sendable_twice]

theorem stale_ignored (sent : state.mys = entry :: older) (plain : flagValidate hdr NAK = false)
    (stale : hdr.seqn ≠ state.seq) : processed files state hdr = state := by
  simp only [processed, process_next files state hdr entry older sent,
    answer_next files state (strip state hdr) entry older sent, strip_nak, strip_seqn, plain, stale,
    false_and, if_false, Bool.false_eq_true]
  split_ifs <;> rfl

theorem get_ignored (sent : state.mys = entry :: older)
    (get : flagCheck (strip state hdr) GET = true) : processed files state hdr = state := by
  have plain : flagValidate hdr NAK = false := by
    rw [← strip_nak state hdr]
    exact exact_not_nak get (by decide)
  have flags := (flag_check_iff _ _).mp get
  have data : flagCheck (strip state hdr) (ACK ||| DAT) = false := by
    simp only [flagCheck, flags]
    decide
  have last : flagCheck (strip state hdr) (ACK ||| FIN) = false := by
    simp only [flagCheck, flags]
    decide
  simp only [processed, process_next files state hdr entry older sent,
    answer_next files state (strip state hdr) entry older sent, strip_nak, plain, data, last,
    Bool.false_and, if_false, Bool.false_eq_true]
  split_ifs <;> rfl

/-! ## The second copy -/

theorem settled_of_unchanged (state : RState) (hdr : RHdr)
    (unchanged : processed files state hdr = state) :
    processed files (processed files state hdr) hdr = processed files state hdr := by
  rw [unchanged, unchanged]

def noting (state : RState) (hdr : RHdr) : RState := { state with chksum := demands state hdr }

theorem demands_noting (state : RState) (hdr : RHdr) :
    demands (noting state hdr) hdr = demands state hdr := by
  simp [demands, noting]

theorem strip_noting (state : RState) (hdr : RHdr) :
    strip (noting state hdr) hdr = strip state hdr := by
  rw [strip, strip, demands_noting]

theorem noting_twice (state : RState) (hdr : RHdr) :
    noting (noting state hdr) hdr = noting state hdr := by
  rw [noting, demands_noting]
  rfl

theorem first_confirmed (state : RState) (hdr : RHdr) (empty : state.mys = [])
    (confirmed : flagConfirm hdr = true) : processed files state hdr =
      if demands state hdr && !validChksum hdr then noting state hdr
      else (answer files (noting state hdr) (strip state hdr)).2 := by
  rw [processed, process_first files state hdr empty, if_neg (by simp [confirmed])]
  split_ifs with invalid
  · rw [noting, (Bool.and_eq_true_iff.mp invalid).1]
  · rfl

theorem process_noting (empty : state.mys = []) (confirmed : flagConfirm hdr = true) :
    processed files (noting state hdr) hdr = processed files state hdr := by
  rw [first_confirmed files state hdr empty confirmed,
    first_confirmed files (noting state hdr) hdr empty confirmed, demands_noting, strip_noting,
    noting_twice]

theorem first_outcome (empty : state.mys = []) (confirmed : flagConfirm hdr = true) :
    processed files state hdr = noting state hdr ∨
      flagCheck (strip state hdr) GET = true ∧
        (processed files state hdr).chksum = demands state hdr ∧
        ∃ entry, (processed files state hdr).mys = [entry] := by
  rw [first_confirmed files state hdr empty confirmed]
  split_ifs with invalid
  · exact Or.inl rfl
  · rw [answer_first files (noting state hdr) (strip state hdr) empty]
    split_ifs with opening get
    · cases resource : openResource files (strip state hdr).msg with
      | none =>
        left
        simp [answerGet, resource]
      | some bytes =>
        right
        refine ⟨get, ?_⟩
        simp only [answerGet, resource]
        rw [snd_pkt_open _ _ _ rfl, mark_curr_open _ _ _ rfl]
        simp only [appendEntry, noting, empty]
        exact ⟨trivial, _, rfl⟩
    · exact Or.inl rfl
    · exact Or.inl rfl

theorem first_settled (hdr : RHdr) (empty : state.mys = []) :
    processed files (processed files state hdr) hdr = processed files state hdr := by
  cases confirmed : flagConfirm hdr with
  | false =>
    apply settled_of_unchanged
    simp [processed, process_first files state hdr empty, confirmed]
  | true =>
    rcases first_outcome files empty confirmed with noted | ⟨get, chksum, entry, opened⟩
    · rw [noted, process_noting files empty confirmed, noted]
    · apply get_ignored files opened
      have same : strip (processed files state hdr) hdr = strip (noting state hdr) hdr :=
        (tests_congr hdr chksum).2.1
      rw [same, strip_noting]
      exact get

theorem accepted_nak_advances (accepted : AcceptedNak state hdr) :
    processed files state hdr = { state with seq := state.seq + 1 } := by
  obtain ⟨entry, older, sent⟩ := List.exists_cons_of_ne_nil accepted.sent
  rw [processed, process_next files state hdr entry older sent,
    if_neg (by simp [accepted.confirmed]), if_pos accepted.admits,
    answer_next files state _ entry older sent, strip_nak, strip_ackn, if_pos accepted.nak,
    if_pos accepted.current]

/-- A packet that appends an entry also advances `seq`, so its second copy is
out of date. -/
theorem appended_settled {next : RState} (sent : next.mys = entry :: older)
    (plain : flagValidate hdr NAK = false) (current : hdr.seqn = state.seq)
    (advanced : next.seq = state.seq + 1) : processed files next hdr = next := by
  apply stale_ignored files sent plain
  rw [current, advanced]
  simp

theorem next_settled (sent : state.mys = entry :: older) (other : ¬ AcceptedNak state hdr) :
    processed files (processed files state hdr) hdr = processed files state hdr := by
  have markedSent : (markCurr state).mys = sendable state.chksum entry :: older := by
    rw [mark_curr_open state entry older sent]
  have markedChksum : (markCurr state).chksum = state.chksum := by
    rw [mark_curr_open state entry older sent]
  have markedAck : (markCurr state).ack = state.ack := by
    rw [mark_curr_open state entry older sent]
  -- a refused negative acknowledgement marks the current entry, once and for all
  have marks : flagValidate hdr NAK = true →
      processed files state hdr = markCurr state →
      (flagConfirm hdr = false ∨ admitted state hdr = true ∧ state.ack ≠ hdr.ackn) →
      processed files (processed files state hdr) hdr = processed files state hdr := by
    intro nak once refused
    rw [once, processed, process_next files (markCurr state) hdr _ older markedSent]
    rcases refused with foreign | ⟨admits, behind⟩
    · rw [if_pos foreign, if_pos nak, mark_curr_twice]
    · obtain ⟨_, _, same⟩ := tests_congr hdr markedChksum
      rw [same, admits, answer_next files (markCurr state) _ _ older markedSent, strip_nak,
        strip_ackn, markedAck, if_pos nak, if_neg behind, mark_curr_twice]
      split_ifs with foreign <;> simp_all
  have result := process_next files state hdr entry older sent
  rw [answer_next files state (strip state hdr) entry older sent, strip_nak, strip_seqn,
    strip_ackn] at result
  split_ifs at result with foreign nak admits nak current fresh data last
  · exact marks nak (congrArg Prod.snd result) (Or.inl foreign)
  · exact settled_of_unchanged files state hdr (congrArg Prod.snd result)
  · exact absurd ⟨by simp [sent], by simpa using foreign, admits, nak, current⟩ other
  · exact marks nak (congrArg Prod.snd result) (Or.inr ⟨admits, current⟩)
  · cases resource : state.request.bind (openResource files) with
    | none =>
      apply settled_of_unchanged
      rw [processed, result, answerAck, resource]
    | some bytes =>
      have once : processed files state hdr = markCurr (appendEntry state
          (fileEntry state.mys bytes (state.ack.toNat * msgSiz))) := by
        rw [processed, result, answerAck, resource]
        exact congrArg Prod.snd (snd_pkt_open _ _ state.mys rfl)
      rw [once, mark_curr_open _ _ state.mys rfl]
      exact appended_settled files rfl (by simpa using nak) fresh.1 rfl
  · have once : processed files state hdr = (answerFin state).2 := congrArg Prod.snd result
    rw [once]
    exact appended_settled files rfl (by simpa using nak) fresh.1 rfl
  · exact settled_of_unchanged files state hdr (congrArg Prod.snd result)
  · exact settled_of_unchanged files state hdr (congrArg Prod.snd result)
  · exact settled_of_unchanged files state hdr (congrArg Prod.snd result)

/-- Every packet but an accepted negative acknowledgement may be replayed. -/
theorem replay_harmless_iff (files : FileSystem) (state : RState) (hdr : RHdr) :
    ReplayHarmless files state hdr ↔ ¬ AcceptedNak state hdr := by
  constructor
  · intro harmless accepted
    have once := accepted_nak_advances files accepted
    have stillAccepted : AcceptedNak (processed files state hdr) hdr := by
      rw [once]
      exact ⟨accepted.sent, accepted.confirmed, accepted.admits, accepted.nak, accepted.current⟩
    have twice := accepted_nak_advances files stillAccepted
    have same := harmless.seq
    rw [twice] at same
    simp at same
  · intro other
    have settled : processed files (processed files state hdr) hdr =
        processed files state hdr := by
      cases sent : state.mys with
      | nil => exact first_settled files hdr sent
      | cons entry older => exact next_settled files sent other
    exact ⟨by rw [settled], by rw [settled], by rw [settled], by rw [settled],
      fun later fresh => by rw [settled]⟩

def oneByte : FileSystem := ⟨fun _ => true, fun _ => some [104]⟩

def getFile : RHdr := { rhdrInit with seqn := 1, flgv := GET ||| rVersion, msg := Msg.ofBytes [97] }

def nakFirst : RHdr := { rhdrInit with seqn := 2, ackn := 1, flgv := NAK ||| rVersion }

def ackFirst : RHdr := { rhdrInit with seqn := 3, ackn := 1, flgv := ACK ||| DAT ||| rVersion }

/-- A client that asks for a file, refuses the first entry and then takes it is
answered with the next entry, but no longer if its refusal arrives twice. -/
theorem replayed_nak_blocks :
    ¬ ReplayHarmless oneByte (processed oneByte rstateFresh getFile) nakFirst ∧
      (processed oneByte (processed oneByte (processed oneByte rstateFresh getFile) nakFirst)
        ackFirst).mys.length = 2 ∧
      (processed oneByte (processed oneByte (processed oneByte (processed oneByte rstateFresh
        getFile) nakFirst) nakFirst) ackFirst).mys.length = 1 := by
  refine ⟨?_, by decide +kernel, by decide +kernel⟩
  intro harmless
  have seqs : (processed oneByte (processed oneByte (processed oneByte rstateFresh getFile)
      nakFirst) nakFirst).seq = 4 ∧
      (processed oneByte (processed oneByte rstateFresh getFile) nakFirst).seq = 3 := by
    decide +kernel
  have same := harmless.seq
  rw [seqs.1, seqs.2] at same
  exact absurd same (by decide)

end Cprogramming.ReliableUdp.Replay
