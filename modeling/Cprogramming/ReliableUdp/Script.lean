import Cprogramming.Library.InOrder
import Cprogramming.ReliableUdp.Process

/-!
# The entries of a transfer

Everything a server sends for one file is fixed by the file: its chunks in
order, then a `FIN`, then the acknowledgement of the client's `FIN`. A connection
that only meets packets of one client has sent these entries from the first on,
and `ack` counts them.
-/

namespace Cprogramming.ReliableUdp.Script

open Library.CStrings Header Process

set_option autoImplicit false

/-! ## Chunks of a file -/

variable {index : Nat}

/-- The chunk that starts at a multiple of `msgSiz`, padded with zeros. -/
def chunkAt (file : List UInt8) (index : Nat) : Msg := Msg.ofBytes (file.drop (index * msgSiz))

/-- The consecutive chunks of a file, as many as hold a byte of it. -/
def chunks (file : List UInt8) : List Msg :=
  (List.range ((file.length + (msgSiz - 1)) / msgSiz)).map (chunkAt file)

/-- The chunks the server sends: an empty file makes one chunk of zeros. -/
def sentChunks (file : List UInt8) : List Msg := if file = [] then [emptyBuf] else chunks file

theorem chunks_length (file : List UInt8) : (chunks file).length = (file.length + 1463) / 1464 := by
  simp [chunks, msgSiz]

theorem sent_chunks_length (file : List UInt8) :
    (sentChunks file).length = max 1 (chunks file).length := by
  unfold sentChunks
  split_ifs with empty
  · simp [empty, chunks_length]
  · have some := List.length_pos_iff.mpr empty
    rw [chunks_length]
    omega

theorem sent_chunks_get {file : List UInt8} (inside : index < (sentChunks file).length) :
    (sentChunks file)[index]? = some (chunkAt file index) := by
  rw [sent_chunks_length] at inside
  unfold sentChunks
  split_ifs with empty
  · have first : index = 0 := by
      simp only [empty, chunks_length, List.length_nil] at inside
      omega
    simp [first, empty, chunkAt, emptyBuf]
  · have some := List.length_pos_iff.mpr empty
    rw [chunks_length] at inside
    simp only [chunks, msgSiz, List.getElem?_map, List.getElem?_range (show index <
      (file.length + (1464 - 1)) / 1464 by omega), Option.map_some]

theorem sent_chunks_end (file : List UInt8) (later : 0 < index) :
    file.drop (index * msgSiz) = [] ↔ (sentChunks file).length ≤ index := by
  rw [List.drop_eq_nil_iff, sent_chunks_length, chunks_length, msgSiz]
  omega

theorem take_padded (bytes : List UInt8) (size padding : Nat) (enough : size ≤ padding) :
    (bytes ++ List.replicate padding 0).take size = (bytes ++ List.replicate size 0).take size := by
  have short : min (size - bytes.length) padding = min (size - bytes.length) size := by omega
  rw [List.take_append, List.take_append, List.take_replicate, List.take_replicate, short]

theorem chunks_joined (file : List UInt8) (count : Nat) :
    ((List.range count).flatMap fun index => (chunkAt file index).bytes) =
      (file ++ List.replicate (count * msgSiz) 0).take (count * msgSiz) := by
  induction count with
  | zero => simp
  | succ count ih =>
    have grown : (count + 1) * msgSiz = count * msgSiz + msgSiz := Nat.succ_mul count msgSiz
    rw [List.range_succ, List.flatMap_append, List.flatMap_singleton, ih, grown, List.take_add,
      take_padded file (count * msgSiz) (count * msgSiz + msgSiz) (Nat.le_add_right _ _),
      List.drop_append, List.drop_replicate, take_padded _ msgSiz _ (by omega)]
    rfl

/-! ## Entries and packets -/

inductive Scripted (script : List Msg) : Nat → RHdr → Prop
  | data (index : Nat) (entry : RHdr) (chunk : script[index]? = some entry.msg)
      (number : entry.seqn = UInt16.ofNat (index + 1))
      (flags : plainFlags entry = DAT ||| rVersion) : Scripted script index entry
  | fin (entry : RHdr) (number : entry.seqn = UInt16.ofNat (script.length + 1))
      (flags : plainFlags entry = FIN ||| rVersion) : Scripted script script.length entry
  | finAck (entry : RHdr) (flags : plainFlags entry = ACK ||| FIN ||| rVersion) :
      Scripted script (script.length + 1) entry

/-- The packets of a client; it acknowledges a `FIN` only when it has taken
one. -/
inductive ClientSent (script : List Msg) (request : Msg) (finished : Bool) : RHdr → Prop
  | get (hdr : RHdr) (flags : plainFlags hdr = GET ||| rVersion) (name : hdr.msg = request) :
      ClientSent script request finished hdr
  | taken (hdr : RHdr) (index : Nat) (inside : index < script.length)
      (flags : plainFlags hdr = ACK ||| DAT ||| rVersion)
      (number : hdr.ackn = UInt16.ofNat (index + 1)) : ClientSent script request finished hdr
  | last (hdr : RHdr) (flags : plainFlags hdr = ACK ||| FIN ||| rVersion)
      (number : hdr.ackn = UInt16.ofNat (script.length + 1)) (fin : finished = true) :
      ClientSent script request finished hdr
  | refused (hdr : RHdr) (flags : plainFlags hdr = NAK ||| rVersion ∨
      plainFlags hdr = DAT ||| NAK ||| rVersion) : ClientSent script request finished hdr

/-- A connection has sent the entries of the script from the first on. -/
structure Follows (script : List Msg) (request : Msg) (finished : Bool) (state : RState) :
    Prop where
  ack : state.ack = UInt16.ofNat state.mys.length
  bounded : state.mys.length ≤ script.length + 2
  current : ∀ entry older, state.mys = entry :: older → Scripted script older.length entry
  asked : state.mys ≠ [] → state.request = some request
  closed : state.mys.length = script.length + 2 → finished = true

/-! ## A packet keeps the connection on the script -/

theorem word_eq_iff (left right : Nat) :
    UInt16.ofNat left = UInt16.ofNat right ↔ left % 65536 = right % 65536 := by
  rw [← UInt16.toNat_inj, UInt16.toNat_ofNat', UInt16.toNat_ofNat']

theorem word_succ (value : Nat) : UInt16.ofNat value + 1 = UInt16.ofNat (value + 1) := by
  exact (UInt16.ofNat_add value 1).symm

theorem scripted_number {script : List Msg} {entry : RHdr}
    (scripted : Scripted script index entry) (early : index ≤ script.length) :
    entry.seqn = UInt16.ofNat (index + 1) := by
  cases scripted with
  | data _ _ _ number _ => exact number
  | fin _ number _ => exact number
  | finAck _ _ => omega

theorem scripted_sendable {script : List Msg} (chksum : Bool) {entry : RHdr}
    (scripted : Scripted script index entry) : Scripted script index (sendable chksum entry) := by
  unfold sendable
  split_ifs
  · have flags := plain_flags_mark entry
    cases scripted with
    | data index entry chunk number plain => exact .data index _ chunk number (flags.trans plain)
    | fin entry number plain => exact .fin _ number (flags.trans plain)
    | finAck entry plain => exact .finAck _ (flags.trans plain)
  · exact scripted

section

variable {script : List Msg} {request : Msg} {finished : Bool}

variable {state : RState}

theorem follows_mark (follows : Follows script request finished state) :
    Follows script request finished (markCurr state) := by
  cases sent : state.mys with
  | nil =>
    have same : markCurr state = state := by simp [markCurr, sent]
    rw [same]
    exact follows
  | cons entry older =>
    have length : state.mys.length = older.length + 1 := by simp [sent]
    rw [mark_curr_open state entry older sent]
    refine ⟨?_, ?_, ?_, ?_, ?_⟩
    · simpa [sent] using follows.ack
    · simpa [sent] using follows.bounded
    · intro current earlier split
      obtain ⟨rfl, rfl⟩ := List.cons.inj split
      exact scripted_sendable state.chksum (follows.current entry older sent)
    · intro _
      exact follows.asked (by simp [sent])
    · intro full
      exact follows.closed (length.trans full)

theorem follows_append (state : RState) (entry : RHdr)
    (follows : Follows script request finished state)
    (scripted : Scripted script state.mys.length entry)
    (room : state.mys.length ≤ script.length + 1) (asked : state.request = some request)
    (closing : state.mys.length = script.length + 1 → finished = true) :
    Follows script request finished (appendEntry state entry) := by
  refine ⟨?_, ?_, ?_, fun _ => asked, ?_⟩
  · simp only [appendEntry, follows.ack, List.length_cons, word_succ]
  · simp only [appendEntry, List.length_cons]
    omega
  · intro current older split
    obtain ⟨rfl, rfl⟩ := List.cons.inj split
    exact scripted
  · intro full
    simp only [appendEntry, List.length_cons] at full
    exact closing (by omega)

theorem append_number {entry : RHdr} {older : List RHdr} (sent : state.mys = entry :: older)
    {index : Nat} (number : entry.seqn = UInt16.ofNat index) :
    (rheadAppend state.mys).seqn = UInt16.ofNat (index + 1) := by
  simp only [sent, rheadAppend, number, word_succ]

theorem resource_served {files : FileSystem} {msg : Msg} {resource : List UInt8}
    (found : openResource files msg = some resource) :
    files.fopen (fnameOf msg) = some resource := by
  simp only [openResource, setFname] at found
  split_ifs at found
  · exact found
  · simp at found

theorem append_flags (mys : List RHdr) : (rheadAppend mys).flgv = rVersion := by
  cases mys <;> rfl

theorem opened_follows {file : List UInt8} (chksum : Bool)
    (follows : Follows (sentChunks file) request finished state) (empty : state.mys = []) :
    Follows (sentChunks file) request finished
      { appendEntry { state with chksum := chksum }
          { flagSet (rheadAppend state.mys) DAT with msg := Msg.ofBytes file } with
        request := some request } := by
  have nonempty : 0 < (sentChunks file).length := by
    rw [sent_chunks_length]
    omega
  have initial : Follows (sentChunks file) request finished
      { state with chksum := chksum, request := some request } :=
    ⟨follows.ack, follows.bounded, follows.current, fun _ => rfl, follows.closed⟩
  refine follows_append { state with chksum := chksum, request := some request } _ initial ?_ ?_
    rfl ?_
  · rw [empty]
    refine .data 0 _ ?_ rfl ?_
    · rw [sent_chunks_get nonempty]
      simp [chunkAt]
    · simp only [plainFlags, flagUnset, flagSet, append_flags]
      decide
  · simp [empty]
  · simp [empty]

theorem continued_follows {file : List UInt8} {entry : RHdr} {older : List RHdr}
    (few : (sentChunks file).length ≤ 65534)
    (follows : Follows (sentChunks file) request finished state)
    (sent : state.mys = entry :: older) (inside : older.length < (sentChunks file).length) :
    Follows (sentChunks file) request finished
      (appendEntry state (fileEntry state.mys file (state.ack.toNat * msgSiz))) := by
  have length : state.mys.length = older.length + 1 := by simp [sent]
  have offset : state.ack.toNat = older.length + 1 := by
    rw [follows.ack, length, UInt16.toNat_ofNat']
    omega
  have number := scripted_number (follows.current entry older sent) (by omega)
  have next := append_number sent number
  refine follows_append state _ follows ?_ (by omega) (follows.asked (by simp [sent])) (by omega)
  rw [offset, length, fileEntry]
  split_ifs with finished
  · have all : older.length + 1 = (sentChunks file).length := by
      have reached := (sent_chunks_end file (by omega)).mp finished
      omega
    rw [all] at next ⊢
    refine .fin _ next ?_
    simp only [plainFlags, flagUnset, flagSet, append_flags]
    decide
  · have more : older.length + 1 < (sentChunks file).length := by
      by_contra past
      exact finished ((sent_chunks_end file (by omega)).mpr (by omega))
    refine .data _ _ (sent_chunks_get more) next ?_
    simp only [plainFlags, flagUnset, flagSet, append_flags]
    decide

theorem closed_follows (follows : Follows script request finished state)
    (full : state.mys.length = script.length + 1) (fin : finished = true) :
    Follows script request finished (answerFin state).2 := by
  refine follows_append state _ follows ?_ (by omega) (follows.asked ?_) (fun _ => fin)
  · rw [full]
    apply Scripted.finAck
    split_ifs
    · rw [plain_flags_mark]
      simp only [plainFlags, flagUnset, flagSet, append_flags]
      decide
    · simp only [plainFlags, flagUnset, flagSet, append_flags]
      decide
  · intro empty
    simp [empty] at full

-- the flags of a client's packet settle which of its packets it is

variable {hdr : RHdr}

theorem request_of_get (sent : ClientSent script request finished hdr)
    (flags : plainFlags hdr = GET ||| rVersion) : hdr.msg = request := by
  cases sent with
  | get _ name => exact name
  | taken _ _ other _ => exact absurd (flags.symm.trans other) (by decide)
  | last other _ _ => exact absurd (flags.symm.trans other) (by decide)
  | refused other =>
    rcases other with other | other <;> exact absurd (flags.symm.trans other) (by decide)

theorem number_of_taken (sent : ClientSent script request finished hdr)
    (flags : plainFlags hdr = ACK ||| DAT ||| rVersion) :
    ∃ index < script.length, hdr.ackn = UInt16.ofNat (index + 1) := by
  cases sent with
  | get other _ => exact absurd (flags.symm.trans other) (by decide)
  | taken index inside _ number => exact ⟨index, inside, number⟩
  | last other _ _ => exact absurd (flags.symm.trans other) (by decide)
  | refused other =>
    rcases other with other | other <;> exact absurd (flags.symm.trans other) (by decide)

theorem number_of_last (sent : ClientSent script request finished hdr)
    (flags : plainFlags hdr = ACK ||| FIN ||| rVersion) :
    hdr.ackn = UInt16.ofNat (script.length + 1) ∧ finished = true := by
  cases sent with
  | get other _ => exact absurd (flags.symm.trans other) (by decide)
  | taken _ _ other _ => exact absurd (flags.symm.trans other) (by decide)
  | last _ number fin => exact ⟨number, fin⟩
  | refused other =>
    rcases other with other | other <;> exact absurd (flags.symm.trans other) (by decide)

theorem process_follows (files : FileSystem) (file : List UInt8) (state : RState) (hdr : RHdr)
    (few : (sentChunks file).length ≤ 65534)
    (serves : ∀ resource, files.fopen (fnameOf request) = some resource → resource = file)
    (follows : Follows (sentChunks file) request finished state)
    (sent : ClientSent (sentChunks file) request finished hdr) :
    Follows (sentChunks file) request finished (processed files state hdr) := by
  have bounded := follows.bounded
  have counted := follows.ack
  have ends := process_ends files state hdr
  generalize processed files state hdr = next at ends
  cases ends with
  | kept next mys ack asked =>
    obtain ⟨counts, bounds, current, requested, closed⟩ := follows
    rw [← mys] at counts bounds current requested closed
    exact ⟨ack.trans counts, bounds, current, fun nonempty => asked.trans (requested nonempty), closed⟩
  | marked => exact follows_mark follows
  | opened chksum resource empty flags found =>
    have name := request_of_get sent flags
    have same : resource = file := by
      apply serves
      rw [← name]
      exact resource_served found
    rw [same, name]
    exact follows_mark (opened_follows chksum follows empty)
  | continued resource nonempty flags current found =>
    obtain ⟨entry, older, split⟩ := List.exists_cons_of_ne_nil nonempty
    have length : state.mys.length = older.length + 1 := by simp [split]
    obtain ⟨index, inside, number⟩ := number_of_taken sent flags
    rw [current, counted, word_eq_iff] at number
    have same : resource = file := by
      rw [follows.asked nonempty] at found
      exact serves resource (resource_served found)
    rw [same]
    exact follows_mark (continued_follows few follows split (by omega))
  | closed flags current fin =>
    obtain ⟨number, finished⟩ := number_of_last sent flags
    rw [current, counted, word_eq_iff] at number
    exact closed_follows follows (by omega) finished

end

end Cprogramming.ReliableUdp.Script
