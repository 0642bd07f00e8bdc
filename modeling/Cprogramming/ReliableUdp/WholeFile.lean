import Cprogramming.ReliableUdp.PortLock
import Cprogramming.ReliableUdp.Transfer

/-!
# A transfer over a perfect network

Every datagram arrives once, in order and in time, and the client takes every
packet that it expects, so the two sides answer each other in rounds. The server
sends one chunk of the file in each round and reads it at an offset that it
computes from `ack`. This counter has 16 bits: it reaches the end of a file of at
most 65535 chunks, and starts over before the end of a longer one.
-/

namespace Cprogramming.ReliableUdp.WholeFile

open Library.Runs Library.CStrings
open Header Process Server Client Script Transfer
open PortLock (Ready taken message taken_whole rhandle_port_whole)

set_option autoImplicit false

/-! ## Rounds -/

/-- The last datagram of the client reaches the server, the sending thread
answers it, the main loop makes its retransmission pass, and the client reads the
answer; `rand` does not make it misbehave. -/
def exchange (call : ServerCall) (round : Nat) : List Event :=
  [.serverReceives round call, .serverSends, .serverRetransmits call, .clientReceives round false]

def exchanges (calls : Nat → ServerCall) (rounds : Nat) : List Event :=
  (List.range rounds).flatMap fun round => exchange (calls round) round

def after (options : Options) (known : Bool) (calls : Nat → ServerCall) (rounds : Nat) : System :=
  run (step options) (start options known) (exchanges calls rounds)

def sentPackets (system : System) : List RHdr := system.toClient.map ofWire

def isData (packet : RHdr) : Bool := plainFlags packet == DAT ||| rVersion

/-- The number of payloads for a file: one for an empty file. -/
def packetCount (file : List UInt8) : Nat := max 1 ((file.length + (msgSiz - 1)) / msgSiz)

/-- The `DAT` packets come first, as many as the file needs; they hold the file,
and a `FIN` follows them. -/
structure SentOnce (file : List UInt8) (packets : List RHdr) : Prop where
  first : packets.filter isData = packets.take (packetCount file)
  count : (packets.filter isData).length = packetCount file
  content : ((packets.filter isData).flatMap fun packet => packet.msg.bytes).take file.length = file
  fin : ∃ packet, packets[packetCount file]? = some packet ∧ plainFlags packet = FIN ||| rVersion

theorem read_packets (packets : List RHdr) : (packets.map toWire).map ofWire = packets := by
  simp only [List.map_map, Function.comp_def, of_wire_whole, List.map_id']

theorem after_succ (options : Options) (known : Bool) (calls : Nat → ServerCall) (rounds : Nat) :
    after options known calls (rounds + 1) =
      run (step options) (after options known calls rounds) (exchange (calls rounds) rounds) := by
  simp only [after, exchanges, List.range_succ, List.flatMap_append, List.flatMap_singleton,
    run_append]

/-! ## Packets -/

theorem empty_chksum : chksumLoop 0 emptyBuf.bytes = 0 := by
  have zeros : emptyBuf.bytes = List.replicate (1462 + 1 + 1) 0 := by
    change List.take msgSiz (List.replicate msgSiz 0) = _
    exact List.take_of_length_le (by rw [List.length_replicate])
  rw [zeros, List.replicate_succ, List.replicate_succ, chksumLoop, if_pos rfl]

/-- The kinds of packets in such a transfer; the last two acknowledge a `DAT` and a
`FIN`. -/
inductive Kind where
  | get
  | data
  | fin
  | dataAck
  | finAck
deriving DecidableEq

def Kind.flags : Kind → UInt16
  | .get => GET
  | .data => DAT
  | .fin => FIN
  | .dataAck => ACK ||| DAT
  | .finAck => ACK ||| FIN

inductive Acknowledged : Kind → Kind → Prop
  | data : Acknowledged .data .dataAck
  | fin : Acknowledged .fin .finAck

/-- A packet as either side writes it, with a checksum if the client asked for
checksums. -/
def packet (options : Options) (kind : Kind) (seqn ackn : UInt16) (msg : Msg) : RHdr :=
  outgoing options ⟨seqn, ackn, 0, kind.flags ||| rVersion, msg⟩

section

variable (options : Options) (kind : Kind) (seqn ackn : UInt16) (msg : Msg)

theorem packet_seqn : (packet options kind seqn ackn msg).seqn = seqn := by
  unfold packet outgoing
  split_ifs <;> rfl

theorem packet_ackn : (packet options kind seqn ackn msg).ackn = ackn := by
  unfold packet outgoing
  split_ifs <;> rfl

theorem packet_msg : (packet options kind seqn ackn msg).msg = msg := by
  unfold packet outgoing
  split_ifs <;> rfl

theorem packet_flgv : (packet options kind seqn ackn msg).flgv =
    if options.chksum then kind.flags ||| rVersion ||| CHK else kind.flags ||| rVersion := by
  unfold packet outgoing
  split_ifs <;> rfl

theorem packet_confirm : flagConfirm (packet options kind seqn ackn msg) = true := by
  rw [flagConfirm, packet_flgv]
  cases kind <;> cases options.chksum <;> decide

theorem packet_chk : flagValidate (packet options kind seqn ackn msg) CHK = options.chksum := by
  rw [flagValidate, packet_flgv]
  cases kind <;> cases options.chksum <;> decide

theorem packet_nak : flagValidate (packet options kind seqn ackn msg) NAK = false := by
  rw [flagValidate, packet_flgv]
  cases kind <;> cases options.chksum <;> decide

theorem packet_plain : plainFlags (packet options kind seqn ackn msg) = kind.flags ||| rVersion := by
  change (packet options kind seqn ackn msg).flgv &&& ~~~(CHK &&& flagOffset) = _
  rw [packet_flgv]
  cases kind <;> cases options.chksum <;> decide

theorem packet_valid (asked : options.chksum = true) :
    validChksum (packet options kind seqn ackn msg) = true := by
  have sum : rhdrComputerChksum (packet options kind seqn ackn msg) =
      (packet options kind seqn ackn msg).chks := by
    rw [packet, outgoing, if_pos asked]
    rfl
  rw [validChksum, packet_chk, asked, sum, beq_self_eq_true, Bool.and_self]

theorem packet_checked :
    (options.chksum && !validChksum (packet options kind seqn ackn msg)) = false := by
  cases asked : options.chksum with
  | false => rfl
  | true =>
    rw [packet_valid options kind seqn ackn msg asked]
    rfl

theorem flag_set_kind : flagSet ⟨seqn, ackn, 0, rVersion, msg⟩ kind.flags =
    ⟨seqn, ackn, 0, kind.flags ||| rVersion, msg⟩ := by
  have word : rVersion ||| (kind.flags &&& flagOffset) = kind.flags ||| rVersion := by
    cases kind <;> decide
  rw [flagSet, word]

theorem outgoing_packet :
    outgoing options (flagSet ⟨seqn, ackn, 0, rVersion, msg⟩ kind.flags) =
      packet options kind seqn ackn msg := by
  rw [flag_set_kind, packet]

theorem sendable_packet :
    sendable options.chksum (flagSet ⟨seqn, ackn, 0, rVersion, msg⟩ kind.flags) =
      packet options kind seqn ackn msg := by
  have unmarked : flagValidate ⟨seqn, ackn, 0, kind.flags ||| rVersion, msg⟩ CHK = false := by
    change ((kind.flags ||| rVersion) &&& (CHK ||| rVersion) == CHK ||| rVersion) = false
    cases kind <;> decide
  rw [flag_set_kind, sendable, unmarked, packet, outgoing, Bool.not_false, Bool.and_true]

theorem packet_client_chksum (asked : options.chksum = true) :
    clientChksum (packet options kind seqn ackn emptyBuf) = true := by
  have sum : (packet options kind seqn ackn emptyBuf).chks = emptyChecksumPrecompute := by
    rw [packet, outgoing, if_pos asked, markChk]
    simp only [rhdrComputerChksum, flagSet, empty_chksum]
    rfl
  rw [clientChksum, packet_chk, asked, sum, packet_valid options kind seqn ackn emptyBuf asked,
    beq_self_eq_true, Bool.or_true]
  rfl

end

def request (options : Options) : RHdr := packet options .get 1 0 (requestMsg options)

/-- The packet with which the client acknowledges the `count` packets it has
taken. -/
def acknowledgement (options : Options) (kind : Kind) (count : Nat) : RHdr :=
  packet options kind (UInt16.ofNat (count + 1)) (UInt16.ofNat count) emptyBuf

/-- The entry for a chunk: its number and its place in the file wrap around. -/
def dataEntry (options : Options) (file : List UInt8) (index : Nat) : RHdr :=
  packet options .data (UInt16.ofNat (index + 1)) 0 (chunkAt file (index % 65536))

def finEntry (options : Options) (index : Nat) : RHdr :=
  packet options .fin (UInt16.ofNat (index + 1)) 0 emptyBuf

/-- The answer to the acknowledgement of the `FIN`. -/
def lastEntry (options : Options) (index : Nat) : RHdr :=
  packet options .finAck (UInt16.ofNat (index + 1)) (UInt16.ofNat (index + 1)) emptyBuf

/-! ## The server's answer to a packet -/

variable {files : FileSystem}

/-- The connection once the packets have been sent and nothing else. -/
def connection (options : Options) (packets : List RHdr) : RState where
  mys := packets.reverse
  request := some (requestMsg options)
  ack := UInt16.ofNat packets.length
  seq := UInt16.ofNat (packets.length + 1)
  chksum := options.chksum

theorem strip_packet (options : Options) (state : RState) (kind : Kind) (seqn ackn : UInt16)
    (msg : Msg) (asked : state.chksum = options.chksum ∨ state.chksum = false) :
    demands state (packet options kind seqn ackn msg) = options.chksum ∧
      (strip state (packet options kind seqn ackn msg)).flgv = kind.flags ||| rVersion := by
  have demanded : demands state (packet options kind seqn ackn msg) = options.chksum := by
    rw [demands, packet_chk]
    rcases asked with same | unset
    · rw [same, Bool.or_self]
    · rw [unset, Bool.or_false]
  refine ⟨demanded, ?_⟩
  rw [strip, demanded]
  split_ifs with chksum
  · exact packet_plain options kind seqn ackn msg
  · rw [packet_flgv, if_neg chksum]

theorem request_processed {options : Options} {file : List UInt8}
    (serves : openResource files (requestMsg options) = some file) :
    rprocessRequest files rstateFresh (request options) =
      (.returnTrue, connection options [dataEntry options file 0]) := by
  obtain ⟨demanded, stripped⟩ := strip_packet options rstateFresh .get 1 0 (requestMsg options)
    (Or.inr rfl)
  have confirmed := packet_confirm options .get 1 0 (requestMsg options)
  have valid := packet_checked options .get 1 0 (requestMsg options)
  have get : flagCheck (strip rstateFresh (request options)) GET = true :=
    (flag_check_iff _ _).mpr stripped
  have opening : (request options).seqn = 1 ∧ (request options).ackn = 0 :=
    ⟨packet_seqn options .get 1 0 _, packet_ackn options .get 1 0 _⟩
  have entry : sendable options.chksum
      { flagSet (rheadAppend []) DAT with msg := Msg.ofBytes file } = dataEntry options file 0 := by
    exact sendable_packet options .data 1 0 (Msg.ofBytes file)
  rw [process_first files rstateFresh _ rfl, if_neg (by simp [request, confirmed])]
  rw [request] at get opening ⊢
  rw [demanded, valid, if_neg (by decide), answer_first files _ _ rfl, strip_seqn, strip_ackn,
    if_pos opening, if_pos get, answerGet, strip_msg, packet_msg, serves]
  simp only
  rw [snd_pkt_open _ _ _ rfl, mark_curr_open _ _ _ rfl]
  exact congrArg (fun first => (Verdict.returnTrue,
    (⟨[first], some (requestMsg options), 1, 2, options.chksum⟩ : RState))) entry

theorem connection_concat (options : Options) (before : List RHdr) (last : RHdr) :
    (connection options (before ++ [last])).mys = last :: before.reverse := by
  simp [connection]

theorem connection_sends (options : Options) (packets : List RHdr) (entry : RHdr) :
    sndPkt (appendEntry (connection options packets) entry) =
      (.returnTrue, connection options (packets ++ [sendable options.chksum entry])) := by
  rw [snd_pkt_open _ entry packets.reverse rfl, mark_curr_open _ entry packets.reverse rfl]
  simp only [appendEntry, connection, word_succ, List.reverse_append, List.reverse_singleton,
    List.singleton_append, List.length_append, List.length_singleton]

theorem acknowledgement_processed (files : FileSystem) (options : Options) (before : List RHdr)
    (last : RHdr) (kind : Kind) :
    rprocessRequest files (connection options (before ++ [last]))
        (acknowledgement options kind (before ++ [last]).length) =
      if kind = .dataAck then answerAck files (connection options (before ++ [last]))
      else if kind = .finAck ∧ finSent (connection options (before ++ [last])) = true then
        answerFin (connection options (before ++ [last]))
      else (.badChk, connection options (before ++ [last])) := by
  have shape := connection_concat options before last
  generalize before ++ [last] = packets at shape ⊢
  have data : kind.flags ||| rVersion = ACK ||| DAT ||| rVersion ↔ kind = .dataAck := by
    cases kind <;> decide
  have fin : kind.flags ||| rVersion = ACK ||| FIN ||| rVersion ↔ kind = .finAck := by
    cases kind <;> decide
  obtain ⟨demanded, stripped⟩ := strip_packet options (connection options packets) kind
    (UInt16.ofNat (packets.length + 1)) (UInt16.ofNat packets.length) emptyBuf (Or.inl rfl)
  have admits : admitted (connection options packets) (packet options kind
      (UInt16.ofNat (packets.length + 1)) (UInt16.ofNat packets.length) emptyBuf) = true := by
    rw [admitted, packet_msg, demanded, packet_chk, beq_self_eq_true, Bool.true_and]
    cases asked : options.chksum with
    | false => rfl
    | true => exact packet_client_chksum options kind _ _ asked
  rw [acknowledgement, process_next files _ _ last before.reverse shape,
    if_neg (by simp [packet_confirm]), if_pos admits,
    answer_next files _ _ last before.reverse shape, strip_nak, packet_nak, if_neg (by decide),
    strip_seqn, strip_ackn, packet_seqn, packet_ackn, if_pos ⟨rfl, rfl⟩]
  simp only [Bool.and_eq_true, flag_check_iff, stripped, data, fin]

/-- The acknowledgement of a chunk is answered with the next one, or with the
`FIN` if there are no bytes at its offset. -/
theorem data_processed {options : Options} {file : List UInt8}
    (serves : openResource files (requestMsg options) = some file) {before : List RHdr}
    {last : RHdr} (number : last.seqn = UInt16.ofNat (before ++ [last]).length) :
    rprocessRequest files (connection options (before ++ [last]))
        (acknowledgement options .dataAck (before ++ [last]).length) =
      (.returnTrue, connection options (before ++ [last] ++
        [if file.drop ((before ++ [last]).length % 65536 * msgSiz) = [] then
            finEntry options (before ++ [last]).length
          else dataEntry options file (before ++ [last]).length])) := by
  rw [acknowledgement_processed files options before last, if_pos rfl]
  have next : rheadAppend (connection options (before ++ [last])).mys =
      ⟨UInt16.ofNat ((before ++ [last]).length + 1), 0, 0, rVersion, emptyBuf⟩ := by
    rw [connection_concat, rheadAppend, number, word_succ]
    rfl
  have asked : (connection options (before ++ [last])).request.bind (openResource files) =
      some file := serves
  have offset : (connection options (before ++ [last])).ack.toNat =
      (before ++ [last]).length % 65536 := UInt16.toNat_ofNat'
  rw [answerAck, asked]
  simp only [connection_sends, fileEntry, next, offset]
  generalize (before ++ [last]).length = count
  split_ifs with finished
  · exact congrArg (fun entry => (Verdict.returnTrue, connection options (before ++ [last] ++ [entry])))
      (sendable_packet options .fin (UInt16.ofNat (count + 1)) 0 emptyBuf)
  · exact congrArg (fun entry => (Verdict.returnTrue, connection options (before ++ [last] ++ [entry])))
      (sendable_packet options .data (UInt16.ofNat (count + 1)) 0 (chunkAt file (count % 65536)))

theorem fin_processed (files : FileSystem) (options : Options) (before : List RHdr) :
    rprocessRequest files (connection options (before ++ [finEntry options before.length]))
        (acknowledgement options .finAck (before.length + 1)) = (.returnFalse, connection options
        (before ++ [finEntry options before.length] ++ [lastEntry options (before.length + 1)])) := by
  have length : (before ++ [finEntry options before.length]).length = before.length + 1 := by simp
  have processed := acknowledgement_processed files options before
    (finEntry options before.length) .finAck
  have fin : finSent (connection options (before ++ [finEntry options before.length])) = true := by
    rw [finSent, curr_open _ _ _ (connection_concat options before _)]
    simp only [Option.any_some, flagCheck, finEntry, packet_flgv]
    cases options.chksum <;> decide
  have next : rheadAppend (connection options (before ++ [finEntry options before.length])).mys =
      ⟨UInt16.ofNat (before.length + 1 + 1), 0, 0, rVersion, emptyBuf⟩ := by
    rw [connection_concat, rheadAppend, finEntry, packet_seqn, word_succ]
    rfl
  rw [length, if_neg (by decide), if_pos ⟨rfl, fin⟩] at processed
  have flags : rVersion ||| (ACK &&& flagOffset) ||| (FIN &&& flagOffset) =
      ACK ||| FIN ||| rVersion := by
    decide
  have entry : lastEntry options (before.length + 1) =
      if options.chksum then
        markChk ⟨UInt16.ofNat (before.length + 1 + 1), UInt16.ofNat (before.length + 1 + 1), 0,
          rVersion ||| (ACK &&& flagOffset) ||| (FIN &&& flagOffset), emptyBuf⟩
      else ⟨UInt16.ofNat (before.length + 1 + 1), UInt16.ofNat (before.length + 1 + 1), 0,
          rVersion ||| (ACK &&& flagOffset) ||| (FIN &&& flagOffset), emptyBuf⟩ := by
    rw [flags]
    rfl
  rw [processed, answerFin, next, entry]
  simp only [appendEntry, connection, length, word_succ, List.reverse_append,
    List.reverse_singleton, List.singleton_append, List.length_append, List.length_singleton]
  rfl

/-! ## One round -/

variable {found : Option RMsg} {call : ServerCall} {system : System} {hdr entry : RHdr}
  {next : RState} {older packets : List RHdr}

structure Open (port : RMsg) : Prop where
  ready : Ready port
  unlocked : port.lock = .free
  ona : port.ona = true
  clr : port.clr = false

/-- `csock_send` switches the port off after this entry. -/
def switchOff (entry : RHdr) : Bool :=
  flagCheck entry (FIN ||| ACK) || flagCheck entry (FIN ||| ACK ||| CHK)

def answeredPort (call : ServerCall) (found : Option RMsg) (hdr : RHdr) (next : RState)
    (entry : RHdr) : RMsg :=
  { taken call found (toWire hdr) with state := next, ona := !switchOff entry, lock := .free }

theorem Open.unstuck {port : RMsg} (waits : Open port) : port.lock ≠ .stuck := by
  simp [waits.unlocked]

theorem message_whole (found : Option RMsg) (hdr : RHdr) :
    ofWire (message found (toWire hdr)) = hdr := by
  have full : rhdrSiz ≤ (toWire hdr).length := Nat.le_of_eq (to_wire_length hdr).symm
  cases found with
  | none => simp only [message, copyInto, List.take_zero, List.nil_append, of_wire_to_wire]
  | some port =>
    simp only [message, if_pos full, copyInto, List.take_zero, List.nil_append, of_wire_to_wire]

theorem taken_open (call : ServerCall) (hdr : RHdr)
    (waits : ∀ port, found = some port → Open port) :
    (taken call found (toWire hdr)).ona = true ∧ (taken call found (toWire hdr)).clr = false ∧
      (taken call found (toWire hdr)).updateMys = call.now := by
  have full : rhdrSiz ≤ (toWire hdr).length := Nat.le_of_eq (to_wire_length hdr).symm
  cases found with
  | none => exact ⟨rfl, rfl, rfl⟩
  | some port =>
    obtain ⟨_, unlocked, ona, clr⟩ := waits port rfl
    have idle : runSender port = port := if_neg (by simp [unlocked])
    simp only [taken, Option.map_some, idle, storeInto, if_pos full, reopen, clr]
    exact ⟨ona, rfl, rfl⟩

theorem handle_accepted (call : ServerCall) (oldTime : Int) (port : RMsg) (verdict : Verdict)
    (next : RState) (accepted : verdict = .returnTrue ∨ verdict = .returnFalse)
    (current : next.curr.isNone = false)
    (answered : rprocessRequest call.files port.state (ofWire port.msg) = (verdict, next)) :
    handleMessage call oldTime port = (true, { port with state := next, lock := spawned call }) := by
  rw [handleMessage, answered]
  rcases accepted with rfl | rfl <;> simp [current]

theorem answer_sent (options : Options) {round : Nat} {verdict : Verdict}
    (waits : ∀ port, system.server.bind RAddr.port = some port → Open port)
    (arrives : system.toServer[round]? = some (toWire hdr)) (spawns : call.spawns = true)
    (accepted : verdict = .returnTrue ∨ verdict = .returnFalse) (sent : next.mys = entry :: older)
    (answered : rprocessRequest call.files (foundState (system.server.bind RAddr.port)) hdr =
      (verdict, next)) : run (step options) system [.serverReceives round call, .serverSends] =
      { system with
        server := some ⟨some (answeredPort call (system.server.bind RAddr.port) hdr next entry)⟩
        toClient := system.toClient ++ [toWire entry] } := by
  generalize found : system.server.bind RAddr.port = port at waits answered ⊢
  have whole : port.isNone = true → (toWire hdr).length = rhdrSiz := fun _ => to_wire_length hdr
  obtain ⟨_, _, state, msg⟩ := taken_whole call port (toWire hdr)
    (fun known same => (waits known same).ready) (fun known same => (waits known same).unstuck) whole
  obtain ⟨ona, _, _⟩ := taken_open call hdr waits
  have current := curr_open next entry older sent
  have handled : rhandlePort call port (toWire hdr) = some (true,
      { taken call port (toWire hdr) with state := next, lock := .sending }) := by
    rw [rhandle_port_whole call port (toWire hdr) (fun known same => (waits known same).ready)
      (fun known same => (waits known same).unstuck) whole]
    rw [handle_accepted call _ _ verdict next accepted (by simp [current])
      (by rw [state, msg, message_whole, answered]), spawned, if_pos spawns]
  have waited : serverSends system = system := by
    unfold serverSends
    cases port with
    | none => simp [found]
    | some known => simp [found, (waits known rfl).unlocked]
  have received : step options system (.serverReceives round call) =
      { system with
        server := some ⟨some { taken call port (toWire hdr) with
          state := next, lock := .sending }⟩ } := by
    simp only [step, arrives, waited, rhandleServ, found, handled, Bool.or_true, if_true]
  rw [run_cons, received, run_cons]
  simp only [step, serverSends, Option.bind_some, if_true, csockSend, ona, current]
  rfl

theorem answered_ready (call : ServerCall) (hdr : RHdr)
    (waits : ∀ port, found = some port → Open port) (sent : next.mys = entry :: older) :
    Ready (answeredPort call found hdr next entry) := by
  obtain ⟨left, written, _, _⟩ := taken_whole call found (toWire hdr)
    (fun port same => (waits port same).ready) (fun port same => (waits port same).unstuck)
    (fun _ => to_wire_length hdr)
  exact ⟨left, written, fun _ => by simp [answeredPort, sent]⟩

/-- The retransmission pass finds the timer just set and does nothing. -/
theorem answered_open (call : ServerCall) (hdr : RHdr)
    (waits : ∀ port, found = some port → Open port) (sent : next.mys = entry :: older)
    (on : switchOff entry = false) :
    Open (rhandleRetransmit call (answeredPort call found hdr next entry)) ∧
      (rhandleRetransmit call (answeredPort call found hdr next entry)).state = next := by
  obtain ⟨_, clr, now⟩ := taken_open call hdr waits
  have ona : (answeredPort call found hdr next entry).ona = true := by simp [answeredPort, on]
  have early : ¬ maxTimeout ≤ call.now - (answeredPort call found hdr next entry).updateMys := by
    rw [answeredPort, now, Int.sub_self]
    decide
  have same : rhandleRetransmit call (answeredPort call found hdr next entry) =
      answeredPort call found hdr next entry := by
    simp [rhandleRetransmit, ona, early]
  rw [same]
  exact ⟨⟨answered_ready call hdr waits sent, rfl, ona, clr⟩, rfl⟩

/-- The client has written a packet, the server has sent the packets before it,
and neither side has more to do until it arrives. -/
structure Waiting (hdr : RHdr) (state : RState) (packets : List RHdr) (system : System) : Prop where
  running : system.client.done = false
  written : system.client.mys = hdr
  number : hdr.seqn = UInt16.ofNat (packets.length + 1)
  track : system.client.trackSeqn = UInt16.ofNat (packets.length + 1)
  requests : system.toServer.length = packets.length + 1
  current : system.toServer[packets.length]? = some (toWire hdr)
  sent : system.toClient = packets.map toWire
  waits : ∀ port, system.server.bind RAddr.port = some port → Open port
  found : foundState (system.server.bind RAddr.port) = state

theorem start_waiting (options : Options) (known : Bool) :
    Waiting (request options) rstateFresh [] (start options known) := by
  have asked : (clientStart options).mys = request options :=
    outgoing_packet options .get 1 0 (requestMsg options)
  refine ⟨rfl, asked, packet_seqn options .get 1 0 (requestMsg options), rfl, rfl, ?_, rfl, ?_, ?_⟩
  · rw [← asked]
    rfl
  · intro port found
    cases known <;> cases found
  · cases known <;> rfl

theorem exchange_answered (options : Options) {state : RState} {verdict : Verdict}
    (waiting : Waiting hdr state packets system) (spawns : call.spawns = true)
    (accepted : verdict = .returnTrue ∨ verdict = .returnFalse) (sent : next.mys = entry :: older)
    (answered : rprocessRequest call.files state hdr = (verdict, next)) :
    run (step options) system (exchange call packets.length) =
      { client := clientReceive options false system.client entry
        server := some ⟨some (rhandleRetransmit call
          (answeredPort call (system.server.bind RAddr.port) hdr next entry))⟩
        toServer :=
          if (clientReceive options false system.client entry).done then system.toServer
          else system.toServer ++ [toWire (clientReceive options false system.client entry).mys]
        toClient := (packets ++ [entry]).map toWire } := by
  have split : exchange call packets.length =
      [.serverReceives packets.length call, .serverSends] ++
        [.serverRetransmits call, .clientReceives packets.length false] := rfl
  have arrived : (packets.map toWire ++ [toWire entry])[packets.length]? = some (toWire entry) := by
    rw [List.getElem?_append_right (by simp), List.length_map, Nat.sub_self]
    rfl
  rw [split, run_append, answer_sent options
    waiting.waits waiting.current spawns accepted sent (by rw [waiting.found, answered]), run_cons,
    run_cons]
  simp only [step, waiting.sent, Option.map_some, arrived, of_wire_whole, List.map_append,
    List.map_singleton]
  rfl

theorem client_takes (options : Options) {client : ClientState} {kind answer : Kind}
    (ackn : UInt16) (msg : Msg) (taken : Acknowledged kind answer) (running : client.done = false) :
    let next := clientReceive options false client (packet options kind client.trackSeqn ackn msg)
    next.done = false ∧
      next.mys = packet options answer (client.mys.seqn + 1) client.trackSeqn emptyBuf ∧
      next.trackSeqn = client.trackSeqn + 1 := by
  have valid := packet_checked options kind client.trackSeqn ackn msg
  have check (flag : UInt16) : flagCheck (flagUnset
      (packet options kind client.trackSeqn ackn msg) CHK) flag =
        (kind.flags ||| rVersion == flag ||| rVersion) := by
    rw [← packet_plain options kind client.trackSeqn ackn msg]
    rfl
  have number : (flagUnset (packet options kind client.trackSeqn ackn msg) CHK).seqn =
      client.trackSeqn := packet_seqn options kind client.trackSeqn ackn msg
  have replied : reply options client answer.flags =
      packet options answer (client.mys.seqn + 1) client.trackSeqn emptyBuf :=
    outgoing_packet options answer (client.mys.seqn + 1) client.trackSeqn emptyBuf
  have flags : (DAT ||| rVersion == FIN ||| ACK ||| rVersion) = false ∧
      (FIN ||| rVersion == FIN ||| ACK ||| rVersion) = false ∧
      (DAT ||| rVersion == FIN ||| rVersion) = false := by
    decide
  rw [← replied]
  simp only [clientReceive, running, valid, Bool.and_false, check, number, beq_self_eq_true,
    Bool.and_true]
  cases taken with
  | data => simp [Kind.flags, flags]
  | fin => simp [Kind.flags, flags]

theorem client_stops (options : Options) {client : ClientState} {count : Nat}
    (running : client.done = false) (current : client.mys.seqn = UInt16.ofNat (count + 1)) :
    (clientReceive options false client (lastEntry options count)).done = true := by
  have valid : (options.chksum && !validChksum (lastEntry options count)) = false :=
    packet_checked options .finAck _ _ emptyBuf
  have check : flagCheck (flagUnset (lastEntry options count) CHK) (FIN ||| ACK) = true :=
    (flag_check_iff _ _).mpr (packet_plain options .finAck _ _ emptyBuf)
  have number : (flagUnset (lastEntry options count) CHK).ackn = client.mys.seqn := by
    rw [current]
    exact packet_ackn options .finAck _ _ emptyBuf
  simp [clientReceive, running, valid, check, number]

theorem waiting_round {options : Options} {state : RState} {kind answer : Kind} {msg : Msg}
    (waiting : Waiting hdr state packets system) (spawns : call.spawns = true)
    (taken : Acknowledged kind answer) (clear : next.mys =
      packet options kind (UInt16.ofNat (packets.length + 1)) 0 msg :: older)
    (answered : rprocessRequest call.files state hdr = (.returnTrue, next)) :
    Waiting (acknowledgement options answer (packets.length + 1)) next
      (packets ++ [packet options kind (UInt16.ofNat (packets.length + 1)) 0 msg])
      (run (step options) system (exchange call packets.length)) := by
  rw [← waiting.track] at clear ⊢
  obtain ⟨running, mys, track⟩ := client_takes options 0 msg taken waiting.running
  rw [exchange_answered options waiting spawns (Or.inl rfl) clear answered]
  have on : switchOff (packet options kind system.client.trackSeqn 0 msg) = false := by
    simp only [switchOff, flagCheck, packet_flgv]
    cases taken <;> cases options.chksum <;> decide
  obtain ⟨waits, found⟩ := answered_open call hdr waiting.waits clear on
  generalize packet options kind system.client.trackSeqn 0 msg = entry at *
  have length : (packets ++ [entry]).length = packets.length + 1 := by simp
  have written : (clientReceive options false system.client entry).mys =
      acknowledgement options answer (packets.length + 1) := by
    rw [mys, waiting.written, waiting.number, waiting.track, word_succ]
    rfl
  simp only [running, written]
  refine ⟨running, written, ?_, ?_, ?_, ?_, rfl, ?_, ?_⟩
  · rw [length, acknowledgement, packet_seqn]
  · rw [track, waiting.track, word_succ, length]
  · simp [waiting.requests]
  · rw [length, ← waiting.requests]
    simp
  · intro port same
    rw [← Option.some.inj same]
    exact waits
  · simp only [Option.bind_some, foundState, waits.clr, found]
    rfl

structure Ended (rounds : Nat) (packets : List RHdr) (system : System) : Prop where
  requests : system.toServer.length ≤ rounds
  answers : packets.length ≤ rounds
  sent : system.toClient = packets.map toWire
  off : ∀ port, system.server.bind RAddr.port = some port → port.ona = false ∧ port.lock = .free

theorem retransmit_off (call : ServerCall) {port : RMsg} (ona : port.ona = false)
    (unlocked : port.lock = .free) :
    (rhandleRetransmit call port).ona = false ∧ (rhandleRetransmit call port).lock = .free := by
  unfold rhandleRetransmit
  rw [ona]
  split_ifs with cleared resent
  · exact ⟨rfl, unlocked⟩
  · simp at resent
  · exact ⟨ona, unlocked⟩

theorem ended_round (options : Options) (call : ServerCall) {rounds : Nat}
    (ended : Ended rounds packets system) :
    Ended (rounds + 1) packets (run (step options) system (exchange call rounds)) := by
  obtain ⟨requests, answers, sent, off⟩ := ended
  have received : step options system (.serverReceives rounds call) = system := by
    simp only [step, List.getElem?_eq_none requests]
  have silent : step options system .serverSends = system := by
    simp only [step, serverSends]
    cases found : system.server.bind RAddr.port with
    | none => rfl
    | some port => simp [(off port found).2]
  simp only [exchange, run_cons, received, silent]
  have unanswered : (packets.map toWire)[rounds]? = none :=
    List.getElem?_eq_none (by rw [List.length_map]; exact answers)
  simp only [step, sent, unanswered]
  refine ⟨Nat.le_succ_of_le requests, Nat.le_succ_of_le answers, rfl, ?_⟩
  intro next located
  cases server : system.server with
  | none => simp [server, run] at located
  | some addr =>
    simp only [server, run, List.foldl_nil, Option.map_some, Option.bind_some] at located
    obtain ⟨port, there, same⟩ := Option.map_eq_some_iff.mp located
    obtain ⟨ona, unlocked⟩ := off port (by rw [server]; exact there)
    rw [← same]
    exact retransmit_off call ona unlocked

def dataPackets (options : Options) (file : List UInt8) (count : Nat) : List RHdr :=
  (List.range count).map (dataEntry options file)

theorem data_packets_length (options : Options) (file : List UInt8) (count : Nat) :
    (dataPackets options file count).length = count := by
  simp [dataPackets]

theorem data_packets_succ (options : Options) (file : List UInt8) (count : Nat) :
    dataPackets options file (count + 1) =
      dataPackets options file count ++ [dataEntry options file count] := by
  simp [dataPackets, List.range_succ]

theorem data_answered {options : Options} {file : List UInt8}
    (serves : openResource files (requestMsg options) = some file) (count : Nat) :
    rprocessRequest files (connection options (dataPackets options file (count + 1)))
        (acknowledgement options .dataAck (count + 1)) =
      (.returnTrue, connection options (dataPackets options file (count + 1) ++
        [if file.drop ((count + 1) % 65536 * msgSiz) = [] then finEntry options (count + 1)
          else dataEntry options file (count + 1)])) := by
  have length := data_packets_length options file (count + 1)
  rw [data_packets_succ] at length ⊢
  have processed := data_processed serves (by rw [length, dataEntry, packet_seqn])
  rw [length] at processed
  exact processed

section

variable {options : Options} (known : Bool) {calls : Nat → ServerCall} {file : List UInt8}
  (spawns : ∀ round, (calls round).spawns = true)
  (serves : ∀ round, openResource (calls round).files (requestMsg options) = some file)
include spawns serves

theorem chunks_underway (count : Nat)
    (more : ∀ index, 0 < index → index ≤ count → file.drop (index % 65536 * msgSiz) ≠ []) :
    Waiting (acknowledgement options .dataAck (count + 1))
      (connection options (dataPackets options file (count + 1)))
      (dataPackets options file (count + 1)) (after options known calls (count + 1)) := by
  induction count with
  | zero =>
    rw [after_succ]
    exact waiting_round
      (start_waiting options known) (spawns 0) .data rfl
      (request_processed (serves 0))
  | succ count ih =>
    have waiting := ih (fun index positive inside => more index positive (by omega))
    have answered := data_answered (serves (count + 1)) count
    rw [if_neg (more (count + 1) (by omega) (by omega))] at answered
    have length := data_packets_length options file (count + 1)
    have next := waiting_round
      waiting
      (spawns (count + 1)) .data
      (by rw [connection_concat, length, dataEntry]) answered
    rw [length] at next
    rw [after_succ, data_packets_succ _ _ (count + 1)]
    exact next

theorem fin_underway {count : Nat}
    (more : ∀ index, 0 < index → index ≤ count → file.drop (index % 65536 * msgSiz) ≠ [])
    (finished : file.drop ((count + 1) % 65536 * msgSiz) = []) :
    Waiting (acknowledgement options .finAck (count + 1 + 1))
      (connection options (dataPackets options file (count + 1) ++ [finEntry options (count + 1)]))
      (dataPackets options file (count + 1) ++ [finEntry options (count + 1)])
      (after options known calls (count + 1 + 1)) := by
  have waiting := chunks_underway known spawns serves count more
  have answered := data_answered (serves (count + 1)) count
  rw [if_pos finished] at answered
  have length := data_packets_length options file (count + 1)
  have next := waiting_round
    waiting (spawns (count + 1)) .fin
    (by rw [connection_concat, length, finEntry]) answered
  rw [length] at next
  rw [after_succ]
  exact next

omit serves in
theorem last_round {before : List RHdr} {system : System}
    (waiting : Waiting (acknowledgement options .finAck (before.length + 1))
      (connection options (before ++ [finEntry options before.length]))
      (before ++ [finEntry options before.length]) system) : Ended (before.length + 1 + 1)
      (before ++ [finEntry options before.length] ++ [lastEntry options (before.length + 1)])
      (run (step options) system (exchange (calls (before.length + 1)) (before.length + 1))) := by
  have length : (before ++ [finEntry options before.length]).length = before.length + 1 := by simp
  have answered := fin_processed (calls (before.length + 1)).files options before
  have exchanged := exchange_answered options waiting
    (spawns (before.length + 1)) (Or.inr rfl) (connection_concat options _ _) answered
  have stopped := client_stops options waiting.running
    (by rw [waiting.written, acknowledgement, packet_seqn])
  rw [length] at exchanged
  rw [exchanged]
  simp only [stopped, if_true]
  have off : switchOff (lastEntry options (before.length + 1)) = true := by
    simp only [switchOff, flagCheck, lastEntry, packet_flgv]
    cases options.chksum <;> decide
  refine ⟨?_, ?_, rfl, ?_⟩
  · rw [waiting.requests, length]
  · simp
  · intro port located
    rw [← Option.some.inj located]
    exact retransmit_off _ (by simp [answeredPort, off]) rfl

theorem ended_after {count : Nat}
    (more : ∀ index, 0 < index → index ≤ count → file.drop (index % 65536 * msgSiz) ≠ [])
    (finished : file.drop ((count + 1) % 65536 * msgSiz) = []) (extra : Nat) :
    Ended (count + 1 + 1 + 1 + extra)
      (dataPackets options file (count + 1) ++ [finEntry options (count + 1)] ++
        [lastEntry options (count + 1 + 1)])
      (after options known calls (count + 1 + 1 + 1 + extra)) := by
  induction extra with
  | zero =>
    have waiting := fin_underway known spawns serves more finished
    have length := data_packets_length options file (count + 1)
    have ended := last_round spawns (by rw [length]; exact waiting)
    rw [length] at ended
    rw [Nat.add_zero, after_succ]
    exact ended
  | succ extra ih =>
    rw [← Nat.add_assoc, after_succ]
    exact ended_round options (calls _) ih

theorem packets_sent (count : Nat)
    (more : ∀ index, 0 < index → index ≤ count → file.drop (index % 65536 * msgSiz) ≠ [])
    (finished : file.drop ((count + 1) % 65536 * msgSiz) = []) (rounds : Nat)
    (enough : count + 1 < rounds) :
    ∃ rest, (∀ entry ∈ rest, isData entry = false) ∧
      sentPackets (after options known calls rounds) =
        dataPackets options file (count + 1) ++ finEntry options (count + 1) :: rest := by
  have waiting := fin_underway known spawns serves more finished
  obtain ⟨extra, rfl⟩ := Nat.exists_eq_add_of_lt enough
  cases extra with
  | zero =>
    refine ⟨[], by simp, ?_⟩
    rw [sentPackets, Nat.add_zero, waiting.sent, read_packets]
  | succ extra =>
    have ended := ended_after known spawns serves more finished extra
    refine ⟨[lastEntry options (count + 1 + 1)], ?_, ?_⟩
    · intro entry member
      rw [List.mem_singleton.mp member, isData, lastEntry, packet_plain]
      decide
    · rw [sentPackets, show count + 1 + (extra + 1) + 1 = count + 1 + 1 + 1 + extra by omega,
        ended.sent, read_packets, List.append_assoc]
      rfl

end

/-! ## The whole transfer -/

theorem data_packets_content (options : Options) (file : List UInt8) (count : Nat)
    (few : count ≤ 65536) (enough : file.length ≤ count * msgSiz) :
    ((dataPackets options file count).flatMap fun entry => entry.msg.bytes).take file.length =
      file := by
  have payload : ∀ index ∈ List.range count,
      (dataEntry options file index).msg.bytes = (chunkAt file index).bytes := by
    intro index inside
    rw [dataEntry, packet_msg, Nat.mod_eq_of_lt (by have := List.mem_range.mp inside; omega)]
  rw [dataPackets, List.flatMap_map, List.flatMap_congr payload, chunks_joined, List.take_take,
    Nat.min_eq_left enough, List.take_left]

theorem packet_count_eq (file : List UInt8) :
    packetCount file = max 1 ((file.length + 1463) / 1464) := rfl

theorem bytes_left (file : List UInt8) (few : file.length ≤ 65535 * msgSiz) (index : Nat)
    (positive : 0 < index) (inside : index ≤ packetCount file) :
    file.drop (index % 65536 * msgSiz) = [] ↔ index = packetCount file := by
  rw [packet_count_eq] at inside ⊢
  rw [List.drop_eq_nil_iff, msgSiz]
  rw [msgSiz] at few
  omega

theorem bytes_always_left (file : List UInt8) (many : 65535 * msgSiz < file.length) (index : Nat) :
    file.drop (index % 65536 * msgSiz) ≠ [] := by
  intro nothing
  rw [List.drop_eq_nil_iff, msgSiz] at nothing
  rw [msgSiz] at many
  omega

theorem sent_once_of_packets {options : Options} {file : List UInt8} {rest : List RHdr}
    (few : file.length ≤ 65535 * msgSiz) (others : ∀ entry ∈ rest, isData entry = false)
    (sent : packets = dataPackets options file (packetCount file) ++
      finEntry options (packetCount file) :: rest) : SentOnce file packets := by
  have length := data_packets_length options file (packetCount file)
  have data : ∀ entry ∈ dataPackets options file (packetCount file), isData entry = true := by
    intro entry member
    obtain ⟨index, _, rfl⟩ := List.mem_map.mp member
    exact beq_iff_eq.mpr (packet_plain options .data _ 0 _)
  have fin := packet_plain options .fin (UInt16.ofNat (packetCount file + 1)) 0 emptyBuf
  have finData : isData (finEntry options (packetCount file)) = false := by
    rw [isData, finEntry, fin]
    decide
  have filtered : packets.filter isData = dataPackets options file (packetCount file) := by
    rw [sent, List.filter_append, List.filter_eq_self.mpr data, List.filter_cons, finData,
      List.filter_eq_nil_iff.mpr (by simpa using others)]
    simp
  refine ⟨?_, ?_, ?_, ?_⟩
  · rw [filtered, sent, List.take_left' length]
  · rw [filtered, length]
  · rw [filtered]
    apply data_packets_content
    · rw [packet_count_eq]
      rw [msgSiz] at few
      omega
    · rw [packet_count_eq, msgSiz]
      omega
  · refine ⟨finEntry options (packetCount file), ?_, fin⟩
    rw [sent, List.getElem?_append_right (Nat.le_of_eq length), length, Nat.sub_self]
    rfl

/-- The counter wraps before the end of a long file, so one more chunk stands
where the `FIN` should. -/
theorem fin_missing (options : Options) (known : Bool) (calls : Nat → ServerCall)
    (file : List UInt8) (spawns : ∀ round, (calls round).spawns = true)
    (serves : ∀ round, openResource (calls round).files (requestMsg options) = some file)
    (many : 65535 * msgSiz < file.length) :
    ¬ SentOnce file (sentPackets (after options known calls (packetCount file + 1))) := by
  intro once
  have waiting := chunks_underway known spawns serves (packetCount file)
    (fun index _ _ => bytes_always_left file many index)
  obtain ⟨entry, there, flags⟩ := once.fin
  rw [sentPackets, waiting.sent, read_packets, data_packets_succ,
    List.getElem?_append_right (Nat.le_of_eq (data_packets_length _ _ _)), data_packets_length,
    Nat.sub_self] at there
  rw [← Option.some.inj there, dataEntry, packet_plain options .data _ 0 _] at flags
  exact absurd flags (by decide)

/-- The server sends a file once and in whole exactly if 16 bits count its
packets. -/
theorem file_sent_once_iff (options : Options) (known : Bool) (calls : Nat → ServerCall)
    (file : List UInt8) (spawns : ∀ round, (calls round).spawns = true)
    (serves : ∀ round, openResource (calls round).files (requestMsg options) = some file) :
    (∀ rounds, packetCount file < rounds →
        SentOnce file (sentPackets (after options known calls rounds))) ↔
      file.length ≤ 65535 * msgSiz := by
  constructor
  · intro once
    by_contra long
    exact fin_missing options known calls file spawns serves (Nat.lt_of_not_le long)
      (once (packetCount file + 1) (Nat.lt_succ_self _))
  · intro few rounds enough
    have count : packetCount file - 1 + 1 = packetCount file := by
      rw [packet_count_eq]
      omega
    have more : ∀ index, 0 < index → index ≤ packetCount file - 1 →
        file.drop (index % 65536 * msgSiz) ≠ [] := by
      intro index positive inside nothing
      have last := (bytes_left file few index positive (by omega)).mp nothing
      omega
    have finished : file.drop ((packetCount file - 1 + 1) % 65536 * msgSiz) = [] := by
      rw [count]
      exact (bytes_left file few (packetCount file) (by omega) (Nat.le_refl _)).mpr rfl
    obtain ⟨rest, others, sent⟩ := packets_sent known spawns serves (packetCount file - 1) more
      finished rounds (by omega)
    rw [count] at sent
    exact sent_once_of_packets few others sent

/-- A file of one byte is sent in one packet, and the second is the `FIN`. -/
theorem one_byte_file_sent_once :
    SentOnce [104] (sentPackets (after plainClient false (fun _ => hosting [104]) 2)) := by
  exact (file_sent_once_iff plainClient false (fun _ => hosting [104]) [104] (fun _ => rfl)
    (fun _ => rfl)).mpr (by decide) 2 (by decide)

theorem byte_behind_counter (file : List UInt8) (length : file.length = 65535 * msgSiz + 1) :
    ¬ ∀ rounds, packetCount file < rounds →
      SentOnce file (sentPackets (after plainClient false (fun _ => hosting file) rounds)) := by
  intro once
  exact fin_missing plainClient false (fun _ => hosting file) file (fun _ => rfl) (fun _ => rfl)
    (by omega) (once (packetCount file + 1) (Nat.lt_succ_self _))

/-- One byte more than 65535 payloads hold: no `FIN` follows the 65536 packets
that the file needs. -/
theorem long_file_not_sent_once :
    ¬ ∀ rounds, packetCount (List.replicate (65535 * msgSiz + 1) 0) < rounds →
      SentOnce (List.replicate (65535 * msgSiz + 1) 0) (sentPackets (after plainClient false
        (fun _ => hosting (List.replicate (65535 * msgSiz + 1) 0)) rounds)) := by
  -- the length is all that matters, and the list is never written out
  apply byte_behind_counter
  apply List.length_replicate

end Cprogramming.ReliableUdp.WholeFile
