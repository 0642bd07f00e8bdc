import Cprogramming.Library.Runs
import Cprogramming.ReliableUdp.Client
import Cprogramming.ReliableUdp.Script
import Cprogramming.ReliableUdp.Server

/-!
# A transfer over an unreliable network

One client and the server's connection for it. The network keeps every datagram
that was ever sent and may deliver any of them at any time, any number of times
or never: this covers loss, duplication, delay and reordering. Along every run
the payloads that the client has taken are the chunks of the file from the first
on, and it takes a `FIN` only after all of them.
-/

namespace Cprogramming.ReliableUdp.Transfer

open Library.InOrder Library.Runs Library.CStrings
open Header Process Server Client Script

set_option autoImplicit false

structure System where
  client : ClientState
  server : Option RAddr
  toServer : List (List UInt8)
  toClient : List (List UInt8)

/-- What can happen next: a datagram arrives at either side, the sending thread
runs, or the main loop of the server makes its retransmission pass. -/
inductive Event where
  | serverReceives (index : Nat) (call : ServerCall)
  | clientReceives (index : Nat) (random : Bool)
  | serverSends
  | serverRetransmits (call : ServerCall)

/-- The client has written its request; the server may know the address from
another port. -/
def start (options : Options) (known : Bool) : System where
  client := clientStart options
  server := if known then some ⟨none⟩ else none
  toServer := [toWire (clientStart options).mys]
  toClient := []

def serverSends (system : System) : System :=
  match system.server.bind RAddr.port with
  | none => system
  | some port =>
    if port.lock = .sending then
      { system with
        server := some ⟨some (csockSend port).1⟩
        toClient := system.toClient ++ ((csockSend port).2.map toWire).toList }
    else system

def step (options : Options) (system : System) : Event → System
  | .serverReceives index call =>
    match system.toServer[index]? with
    | none => system
    | some buf =>
      -- the main thread waits for the sending thread
      let waited := serverSends system
      { waited with server := rhandleServ call waited.server buf }
  | .clientReceives index random =>
    match system.toClient[index]? with
    | none => system
    | some buf =>
      let client := clientReceive options random system.client (ofWire buf)
      { system with
        client := client
        toServer :=
          if client.done then system.toServer else system.toServer ++ [toWire client.mys] }
  | .serverSends => serverSends system
  | .serverRetransmits call =>
    { system with
      server := system.server.map fun addr => ⟨addr.port.map (rhandleRetransmit call)⟩ }

def Unchanged (options : Options) (file : List UInt8) : Event → Prop
  | .serverReceives _ call =>
    ∀ resource, call.files.fopen (fnameOf (requestMsg options)) = some resource → resource = file
  | _ => True

/-! ## The client -/

structure ClientSound (script : List Msg) (client : ClientState) : Prop where
  inOrder : client.accepted <+: script
  complete : client.finAccepted = true → client.accepted = script
  track : client.trackSeqn = UInt16.ofNat (client.accepted.length + 1 + client.finAccepted.toNat)
  ended : client.done = true → client.finAccepted = true

/-- An entry on its way to the client: the last one only exists once the client
has taken the `FIN`. -/
def Expected (script : List Msg) (finished : Bool) (hdr : RHdr) : Prop :=
  ∃ index, Scripted script index hdr ∧ (index = script.length + 1 → finished = true)

section

variable {script : List Msg}

variable {hdr : RHdr}

theorem expected_data {finished : Bool} (expected : Expected script finished hdr)
    (flags : plainFlags hdr = DAT ||| rVersion) :
    ∃ index, script[index]? = some hdr.msg ∧ hdr.seqn = UInt16.ofNat (index + 1) := by
  obtain ⟨index, scripted, _⟩ := expected
  cases scripted with
  | data index _ chunk number _ => exact ⟨index, chunk, number⟩
  | fin _ _ other => exact absurd (flags.symm.trans other) (by decide)
  | finAck _ other => exact absurd (flags.symm.trans other) (by decide)

theorem expected_fin {finished : Bool} (expected : Expected script finished hdr)
    (flags : plainFlags hdr = FIN ||| rVersion) : hdr.seqn = UInt16.ofNat (script.length + 1) := by
  obtain ⟨index, scripted, _⟩ := expected
  cases scripted with
  | data _ _ _ _ other => exact absurd (flags.symm.trans other) (by decide)
  | fin _ number _ => exact number
  | finAck _ other => exact absurd (flags.symm.trans other) (by decide)

theorem expected_fin_ack {finished : Bool} (expected : Expected script finished hdr)
    (flags : plainFlags hdr = FIN ||| ACK ||| rVersion) : finished = true := by
  obtain ⟨index, scripted, closing⟩ := expected
  cases scripted with
  | data _ _ _ _ other => exact absurd (flags.symm.trans other) (by decide)
  | fin _ _ other => exact absurd (flags.symm.trans other) (by decide)
  | finAck _ _ => exact closing rfl

variable {client : ClientState}

/-- Before the `FIN`, a number that the client expects is one more than the
count of what it took; afterwards it expects none of the script. -/
theorem expects (few : script.length ≤ 65534) (sound : ClientSound script client) {index : Nat}
    (inside : index ≤ script.length) (number : UInt16.ofNat (index + 1) = client.trackSeqn) :
    client.finAccepted = false ∧ index % 65536 = client.accepted.length % 65536 := by
  rw [sound.track, word_eq_iff] at number
  cases finished : client.finAccepted with
  | false =>
    rw [finished, Bool.toNat_false] at number
    exact ⟨rfl, by omega⟩
  | true =>
    rw [finished, Bool.toNat_true, sound.complete finished] at number
    omega

theorem fin_taken (options : Options) (few : script.length ≤ 65534)
    (sound : ClientSound script client)
    (number : UInt16.ofNat (script.length + 1) = client.trackSeqn) : ClientSound script
      { client with
        mys := reply options client (ACK ||| FIN)
        trackSeqn := client.trackSeqn + 1
        finAccepted := true } := by
  obtain ⟨unfinished, counts⟩ := expects few sound (Nat.le_refl _) number
  have complete := complete_of_end script client.accepted 65536 sound.inOrder (by omega) counts
  refine ⟨sound.inOrder, fun _ => complete, ?_, fun _ => rfl⟩
  simp only [sound.track, unfinished, word_succ, Bool.toNat_false, Bool.toNat_true, Nat.add_zero]

theorem data_taken (options : Options) (few : script.length ≤ 65534)
    (running : client.done = false) (sound : ClientSound script client) {index : Nat} {msg : Msg}
    (chunk : script[index]? = some msg) (number : UInt16.ofNat (index + 1) = client.trackSeqn) :
    ClientSound script
      { client with
        mys := reply options client (ACK ||| DAT)
        trackSeqn := client.trackSeqn + 1
        accepted := client.accepted ++ [msg] } := by
  obtain ⟨inside, _⟩ := List.getElem?_eq_some_iff.mp chunk
  obtain ⟨unfinished, counts⟩ := expects few sound (by omega) number
  refine ⟨take_in_order script client.accepted 65536 index msg sound.inOrder (by omega) chunk counts,
    ?_, ?_, ?_⟩
  · intro finished
    rw [unfinished] at finished
    cases finished
  · simp only [sound.track, unfinished, word_succ, Bool.toNat_false, Nat.add_zero,
      List.length_append, List.length_singleton]
  · intro stopped
    rw [running] at stopped
    cases stopped

theorem client_receive_sound (options : Options) (request : Msg) (random : Bool) {received : RHdr}
    (few : script.length ≤ 65534) (sound : ClientSound script client)
    (expected : Expected script client.finAccepted received) :
    ClientSound script (clientReceive options random client received) ∧
      (client.finAccepted = true →
        (clientReceive options random client received).finAccepted = true) ∧
      ((clientReceive options random client received).done = false →
        ClientSent script request (clientReceive options random client received).finAccepted
          (clientReceive options random client received).mys) := by
  have ends := client_receive_ends options random client received
  generalize clientReceive options random client received = next at ends
  cases ends with
  | ended stopped => exact ⟨sound, id, fun running => absurd (stopped.symm.trans running) (by decide)⟩
  | refused misbehaved =>
    refine ⟨⟨sound.inOrder, sound.complete, sound.track, sound.ended⟩, id, fun _ => ?_⟩
    apply ClientSent.refused
    simp only [refuse, plain_flags_reply]
    cases misbehaved with
    | false =>
      left
      rw [if_neg (by decide)]
      decide
    | true =>
      right
      rw [if_pos rfl]
      decide
  | done flags =>
    have finished := expected_fin_ack expected flags
    exact ⟨⟨sound.inOrder, sound.complete, sound.track, fun _ => finished⟩, id,
      fun running => absurd running (by simp)⟩
  | fin running flags number =>
    rw [expected_fin expected flags] at number
    refine ⟨fin_taken options few sound number, fun _ => rfl, fun _ => ?_⟩
    refine .last _ ?_ ?_ rfl
    · rw [plain_flags_reply]
      decide
    · rw [reply_ackn, number]
  | data running flags number =>
    obtain ⟨index, chunk, numbered⟩ :=
      expected_data expected flags
    rw [numbered] at number
    obtain ⟨inside, _⟩ := List.getElem?_eq_some_iff.mp chunk
    refine ⟨data_taken options few running sound chunk number, id, fun _ => ?_⟩
    refine .taken _ index inside ?_ ?_
    · rw [plain_flags_reply]
      decide
    · rw [reply_ackn, number]

end

/-! ## The server -/

/-- The connection at a port is on the script; a cleared one has sent
nothing. -/
structure PortSound (script : List Msg) (request : Msg) (finished : Bool) (port : RMsg) :
    Prop where
  follows : Follows script request finished port.state
  cleared : port.clr = true → port.state.mys = []

section

variable {script : List Msg} {request : Msg} {finished : Bool}

theorem follows_empty {state : RState} (empty : state.mys = []) (ack : state.ack = 0) :
    Follows script request finished state := by
  refine ⟨?_, ?_, ?_, ?_, ?_⟩
  · rw [ack, empty]
    rfl
  · simp [empty]
  · intro entry older split
    simp [empty] at split
  · simp [empty]
  · simp [empty]

theorem found_follows {found : Option RMsg}
    (sound : ∀ port, found = some port → PortSound script request finished port) :
    Follows script request finished (foundState found) := by
  cases found with
  | none => exact follows_empty rfl rfl
  | some port =>
    obtain ⟨follows, cleared⟩ := sound port rfl
    simp only [foundState]
    split_ifs with clear
    · refine follows_empty rfl ?_
      have counted := follows.ack
      rw [cleared clear] at counted
      exact counted
    · exact follows

theorem receive_port_sound {file : List UInt8} {call : ServerCall} {found : Option RMsg}
    {hdr : RHdr} {handled : Bool} {next : RMsg} (few : (sentChunks file).length ≤ 65534)
    (serves : ∀ resource, call.files.fopen (fnameOf request) = some resource → resource = file)
    (sound : ∀ port, found = some port → PortSound (sentChunks file) request finished port)
    (sent : ClientSent (sentChunks file) request finished hdr)
    (result : rhandlePort call found (toWire hdr) = some (handled, next)) :
    PortSound (sentChunks file) request finished next := by
  obtain ⟨oldTime, port, rest, message, buffer, state, clear⟩ :=
    full_datagram call found (toWire hdr) (to_wire_length hdr) handled next result
  obtain ⟨after, clearAfter⟩ := handle_message_state call oldTime port
  rw [message] at after clearAfter
  rw [buffer, of_wire_to_wire, state] at after
  constructor
  · rw [after]
    exact process_follows call.files file _ hdr few serves (found_follows sound) sent
  · intro cleared
    rw [clear] at clearAfter
    exact absurd (clearAfter cleared) (by decide)

variable {port : RMsg}

theorem send_port_sound (sound : PortSound script request finished port) :
    PortSound script request finished (csockSend port).1 := by
  obtain ⟨state, clear, _⟩ := csock_send_state port
  refine ⟨?_, ?_⟩
  · rw [state]
    exact sound.follows
  · rw [state, clear]
    exact sound.cleared

theorem sent_expected (sound : PortSound script request finished port) {entry : RHdr}
    (sends : (csockSend port).2 = some entry) : Expected script finished entry := by
  obtain ⟨_, _, current⟩ := csock_send_state port
  have head : port.state.mys.head? = some entry := current entry sends
  obtain ⟨older, split⟩ := List.head?_eq_some_iff.mp head
  refine ⟨older.length, sound.follows.current entry older split, ?_⟩
  intro last
  apply sound.follows.closed
  simp [split, last]

theorem retransmit_port_sound (call : ServerCall) (sound : PortSound script request finished port) :
    PortSound script request finished (rhandleRetransmit call port) := by
  rcases retransmit_state call port with destroyed | ⟨state, clear⟩
  · refine ⟨?_, ?_⟩
    · rw [destroyed]
      exact follows_empty rfl rfl
    · intro _
      rw [destroyed]
      rfl
  · refine ⟨?_, ?_⟩
    · rw [state]
      exact sound.follows
    · rw [state, clear]
      exact sound.cleared

end

/-! ## The system -/

section

variable {script : List Msg} {request : Msg} {before after : Bool}

-- what is known of a packet stays true when the client takes the `FIN`

theorem client_sent_mono {hdr : RHdr} (later : before = true → after = true)
    (sent : ClientSent script request before hdr) : ClientSent script request after hdr := by
  cases sent with
  | get flags name => exact .get hdr flags name
  | taken index inside flags number => exact .taken hdr index inside flags number
  | last flags number fin => exact .last hdr flags number (later fin)
  | refused flags => exact .refused hdr flags

theorem expected_mono {hdr : RHdr} (later : before = true → after = true)
    (expected : Expected script before hdr) : Expected script after hdr := by
  obtain ⟨index, scripted, closing⟩ := expected
  exact ⟨index, scripted, fun last => later (closing last)⟩

theorem port_sound_mono {port : RMsg} (later : before = true → after = true)
    (sound : PortSound script request before port) : PortSound script request after port := by
  obtain ⟨⟨ack, bounded, current, asked, closed⟩, cleared⟩ := sound
  exact ⟨⟨ack, bounded, current, asked, fun full => later (closed full)⟩, cleared⟩

end

/-- Both sides and every datagram under way are on the script of the file. -/
structure Sound (options : Options) (file : List UInt8) (system : System) : Prop where
  client : ClientSound (sentChunks file) system.client
  requests : ∀ buf ∈ system.toServer, ∃ hdr, buf = toWire hdr ∧
    ClientSent (sentChunks file) (requestMsg options) system.client.finAccepted hdr
  entries : ∀ buf ∈ system.toClient, ∃ hdr, buf = toWire hdr ∧
    Expected (sentChunks file) system.client.finAccepted hdr
  port : ∀ port, system.server.bind RAddr.port = some port →
    PortSound (sentChunks file) (requestMsg options) system.client.finAccepted port

theorem start_sound (options : Options) (known : Bool) (file : List UInt8) :
    Sound options file (start options known) := by
  refine ⟨⟨List.nil_prefix, ?_, rfl, ?_⟩, ?_, ?_, ?_⟩
  · intro finished
    cases finished
  · intro stopped
    cases stopped
  · intro buf member
    refine ⟨_, List.mem_singleton.mp member, .get _ ?_ ?_⟩
    · refine (plain_flags_outgoing options _).trans ?_
      simp only [plainFlags, flagUnset, flagSet]
      decide
    · simp only [clientStart, outgoing]
      split_ifs <;> rfl
  · intro buf member
    cases member
  · intro port found
    cases known <;> cases found

theorem client_step_sound {options : Options} {file : List UInt8} {system : System} (index : Nat)
    (random : Bool) (few : (sentChunks file).length ≤ 65534) (sound : Sound options file system) :
    Sound options file (step options system (.clientReceives index random)) := by
  simp only [step]
  cases found : system.toClient[index]? with
  | none => exact sound
  | some buf =>
    obtain ⟨hdr, wire, expected⟩ := sound.entries buf (List.mem_of_getElem? found)
    have read : ofWire buf = hdr := by
      rw [wire, of_wire_whole]
    simp only [read]
    obtain ⟨client, later, sent⟩ := client_receive_sound options (requestMsg options) random
      few sound.client expected
    refine ⟨client, ?_, ?_, ?_⟩
    · intro other member
      have earlier : ∀ datagram ∈ system.toServer, ∃ packet, datagram = toWire packet ∧
          ClientSent (sentChunks file) (requestMsg options)
            (clientReceive options random system.client hdr).finAccepted packet := by
        intro datagram old
        obtain ⟨packet, same, known⟩ := sound.requests datagram old
        exact ⟨packet, same, client_sent_mono later known⟩
      split_ifs at member with stopped
      · exact earlier other member
      · rcases List.mem_append.mp member with old | new
        · exact earlier other old
        · exact ⟨_, List.mem_singleton.mp new, sent (by simpa using stopped)⟩
    · intro other member
      obtain ⟨packet, same, known⟩ := sound.entries other member
      exact ⟨packet, same, expected_mono later known⟩
    · intro port located
      exact port_sound_mono later (sound.port port located)

theorem server_sends_requests (system : System) :
    (serverSends system).toServer = system.toServer := by
  unfold serverSends
  cases system.server.bind RAddr.port with
  | none => rfl
  | some port =>
    dsimp only
    split_ifs <;> rfl

theorem server_sends_sound {options : Options} {file : List UInt8} {system : System}
    (sound : Sound options file system) : Sound options file (serverSends system) := by
  unfold serverSends
  cases found : system.server.bind RAddr.port with
  | none => exact sound
  | some port =>
    have known := sound.port port found
    dsimp only
    split_ifs with sending
    · refine ⟨sound.client, sound.requests, ?_, ?_⟩
      · intro buf member
        rcases List.mem_append.mp member with old | new
        · exact sound.entries buf old
        · obtain ⟨entry, sends, wire⟩ := Option.map_eq_some_iff.mp
            (Option.mem_toList.mp new)
          exact ⟨entry, wire.symm, sent_expected known sends⟩
      · intro next located
        have same : (csockSend port).1 = next := by simpa using located
        rw [← same]
        exact send_port_sound known
    · exact sound

theorem step_sound (options : Options) (file : List UInt8) (system : System) (event : Event)
    (few : (sentChunks file).length ≤ 65534) (sound : Sound options file system)
    (unchanged : Unchanged options file event) :
    Sound options file (step options system event) := by
  cases event with
  | clientReceives index random => exact client_step_sound index random few sound
  | serverReceives index call =>
    simp only [step]
    cases found : system.toServer[index]? with
    | none => exact sound
    | some buf =>
      have waited := server_sends_sound sound
      have member : buf ∈ (serverSends system).toServer := by
        rw [server_sends_requests]
        exact List.mem_of_getElem? found
      obtain ⟨hdr, wire, sent⟩ := waited.requests buf member
      refine ⟨waited.client, waited.requests, waited.entries, ?_⟩
      intro port located
      rcases rhandle_serv_port call (serverSends system).server buf port located with
        same | ⟨handled, result⟩
      · exact waited.port port same
      · rw [wire] at result
        exact receive_port_sound few unchanged waited.port sent result
  | serverSends => exact server_sends_sound sound
  | serverRetransmits call =>
    refine ⟨sound.client, sound.requests, sound.entries, ?_⟩
    intro next located
    simp only [step] at located
    cases server : system.server with
    | none => simp [server] at located
    | some addr =>
      rw [server] at located
      obtain ⟨port, there, same⟩ := Option.map_eq_some_iff.mp
        (show addr.port.map (rhandleRetransmit call) = some next from located)
      rw [← same]
      apply retransmit_port_sound call
      apply sound.port
      rw [server]
      exact there

theorem run_sound {options : Options} (known : Bool) {file : List UInt8} {events : List Event}
    (few : (chunks file).length ≤ 65534)
    (unchanged : ∀ event ∈ events, Unchanged options file event) :
    Sound options file (run (step options) (start options known) events) := by
  have bounded : (sentChunks file).length ≤ 65534 := by
    rw [sent_chunks_length]
    omega
  apply run_invariant_of_steps (step options) (Sound options file)
    (fun _ event => Unchanged options file event)
    (fun system event sound same => step_sound options file system event bounded sound same)
    _ (start_sound options known file) events
  exact each_step_of_mem _ _ _ _ (fun _ => unchanged)

/-- In every state of every run the client has taken chunks of the file from the
first on, and a `FIN` only after all of them. -/
theorem transfer_in_order (options : Options) (known : Bool) (file : List UInt8)
    (events : List Event) (few : (chunks file).length ≤ 65534)
    (unchanged : ∀ event ∈ events, Unchanged options file event) :
    (run (step options) (start options known) events).client.accepted <+: sentChunks file ∧
      ((run (step options) (start options known) events).client.finAccepted = true ∨
          (run (step options) (start options known) events).client.done = true →
        (run (step options) (start options known) events).client.accepted = sentChunks file) := by
  have sound := (run_sound known few unchanged).client
  refine ⟨sound.inOrder, ?_⟩
  rintro (finished | ended)
  · exact sound.complete finished
  · exact sound.complete (sound.ended ended)

/-- A client that asks for the file `a` without options. -/
def plainClient : Options := ⟨CString.ofString "a", false, false⟩

def hosting (file : List UInt8) : ServerCall := ⟨⟨fun _ => true, fun _ => some file⟩, 0, true⟩

/-- Each side receives the packet the other sent last, until the client has
sent the acknowledgement of the `FIN` and has the answer to it. -/
def handshake (file : List UInt8) : List Event :=
  [.serverReceives 0 (hosting file), .serverSends, .clientReceives 0 false,
    .serverReceives 1 (hosting file), .serverSends, .clientReceives 1 false,
    .serverReceives 2 (hosting file), .serverSends, .clientReceives 2 false]

theorem handshake_unchanged (file : List UInt8) :
    ∀ event ∈ handshake file, Unchanged plainClient file event := by
  intro event member
  simp only [handshake, List.mem_cons, List.not_mem_nil, or_false] at member
  rcases member with rfl | rfl | rfl | rfl | rfl | rfl | rfl | rfl | rfl <;>
    first | trivial | exact fun resource found => (Option.some.inj found).symm

/-- A file of one byte is transferred. -/
theorem one_byte_transferred :
    (run (step plainClient) (start plainClient false) (handshake [104])).client.done = true ∧
      (run (step plainClient) (start plainClient false) (handshake [104])).client.accepted =
        sentChunks [104] := by
  have ended : (run (step plainClient) (start plainClient false)
      (handshake [104])).client.done = true := by
    decide +kernel
  exact ⟨ended, (transfer_in_order plainClient false [104] (handshake [104])
    (by simp [chunks_length]) (handshake_unchanged [104])).2 (Or.inr ended)⟩

/-- An empty file has no chunk, but the client takes a payload of zeros for
it. -/
theorem empty_file_sends_chunk :
    ¬ (run (step plainClient) (start plainClient false) (handshake [])).client.accepted <+:
      chunks [] := by
  intro inOrder
  have taken : (run (step plainClient) (start plainClient false)
      (handshake [])).client.accepted.length = 1 := by
    decide +kernel
  have atMost := inOrder.length_le
  rw [taken, chunks_length] at atMost
  simp at atMost

end Cprogramming.ReliableUdp.Transfer
