import Cprogramming.Library.CStrings
import Cprogramming.ReliableUdp.Header

/-!
# The client

The loop of `RClient.c`: it writes its current packet, reads one packet and
decides what to write next. The options that are commented out in the source
(`-e` and `-x`) are always off. Beside the variables of the loop the state
records the payloads of the `DAT` packets taken so far and whether a `FIN` was
taken.
-/

namespace Cprogramming.ReliableUdp.Client

open Library.CStrings Header

set_option autoImplicit false

structure Options where
  resource : CString
  chksum : Bool
  misbehave : Bool

structure ClientState where
  mys : RHdr
  trackSeqn : UInt16
  misbehaved : Bool
  accepted : List Msg
  finAccepted : Bool
  done : Bool

/-- The payload of the request: the name, cut at `msgSiz` bytes. -/
def requestMsg (options : Options) : Msg := Msg.ofBytes options.resource.bytes

def outgoing (options : Options) (hdr : RHdr) : RHdr :=
  if options.chksum then markChk hdr else hdr

def clientStart (options : Options) : ClientState where
  mys := outgoing options
    { flagSet { rhdrInit with seqn := 1 } GET with msg := requestMsg options }
  trackSeqn := 1
  misbehaved := false
  accepted := []
  finAccepted := false
  done := false

def reply (options : Options) (client : ClientState) (flags : UInt16) : RHdr :=
  outgoing options
    { flagSet { rhdrInit with seqn := client.mys.seqn + 1 } flags with ackn := client.trackSeqn }

/-- `INVALID_NAK`: `track_seqn` is decremented here and incremented again at the
end of the loop. -/
def refuse (options : Options) (client : ClientState) : ClientState :=
  { client with mys := reply options client (if client.misbehaved then DAT ||| NAK else NAK) }

/-- One packet is read; `random` is the outcome of `rand() % 2 == 1`. -/
def clientReceive (options : Options) (random : Bool) (client : ClientState) (received : RHdr) :
    ClientState :=
  if client.done then client
  else if options.chksum && !validChksum received then refuse options client
  else
    let his := flagUnset received CHK
    if !flagValidate his FIN && options.misbehave && decide (1 < client.trackSeqn) && random then
      refuse options { client with misbehaved := true }
    else if flagCheck his (FIN ||| ACK) && his.ackn == client.mys.seqn then
      { client with done := true }
    else if flagCheck his FIN && his.seqn == client.trackSeqn then
      { client with
        mys := reply options client (ACK ||| FIN)
        trackSeqn := client.trackSeqn + 1
        finAccepted := true }
    else if flagCheck his DAT && his.seqn == client.trackSeqn then
      { client with
        mys := reply options client (ACK ||| DAT)
        trackSeqn := client.trackSeqn + 1
        accepted := client.accepted ++ [his.msg] }
    else refuse options client

/-! ## What a packet does -/

inductive ReceiveEnds (options : Options) (client : ClientState) (received : RHdr) :
    ClientState → Prop
  | ended (stopped : client.done = true) : ReceiveEnds options client received client
  | refused (misbehaved : Bool) :
      ReceiveEnds options client received (refuse options { client with misbehaved := misbehaved })
  | done (flags : plainFlags received = FIN ||| ACK ||| rVersion) :
      ReceiveEnds options client received { client with done := true }
  | fin (running : client.done = false) (flags : plainFlags received = FIN ||| rVersion)
      (number : received.seqn = client.trackSeqn) :
      ReceiveEnds options client received
        { client with
          mys := reply options client (ACK ||| FIN)
          trackSeqn := client.trackSeqn + 1
          finAccepted := true }
  | data (running : client.done = false) (flags : plainFlags received = DAT ||| rVersion)
      (number : received.seqn = client.trackSeqn) :
      ReceiveEnds options client received
        { client with
          mys := reply options client (ACK ||| DAT)
          trackSeqn := client.trackSeqn + 1
          accepted := client.accepted ++ [received.msg] }

theorem client_receive_ends (options : Options) (random : Bool) (client : ClientState)
    (received : RHdr) :
    ReceiveEnds options client received (clientReceive options random client received) := by
  have exact (flag : UInt16) (check : flagCheck (flagUnset received CHK) flag = true) :
      plainFlags received = flag ||| rVersion := (flag_check_iff _ _).mp check
  unfold clientReceive
  dsimp only
  split_ifs with stopped invalid misbehaves last fin data
  · exact .ended stopped
  · exact .refused client.misbehaved
  · exact .refused true
  · exact .done (exact (FIN ||| ACK) (Bool.and_eq_true_iff.mp last).1)
  · obtain ⟨flags, number⟩ := Bool.and_eq_true_iff.mp fin
    exact .fin (by simpa using stopped) (exact FIN flags) (eq_of_beq number)
  · obtain ⟨flags, number⟩ := Bool.and_eq_true_iff.mp data
    exact .data (by simpa using stopped) (exact DAT flags) (eq_of_beq number)
  · exact .refused client.misbehaved

theorem plain_flags_outgoing (options : Options) (hdr : RHdr) :
    plainFlags (outgoing options hdr) = plainFlags hdr := by
  unfold outgoing
  split_ifs
  · exact plain_flags_mark hdr
  · rfl

theorem plain_flags_reply (options : Options) (client : ClientState) (flags : UInt16) :
    plainFlags (reply options client flags) =
      (rVersion ||| (flags &&& flagOffset)) &&& ~~~(CHK &&& flagOffset) := by
  exact plain_flags_outgoing options _

theorem reply_ackn (options : Options) (client : ClientState) (flags : UInt16) :
    (reply options client flags).ackn = client.trackSeqn := by
  unfold reply outgoing
  split_ifs <;> rfl

end Cprogramming.ReliableUdp.Client
