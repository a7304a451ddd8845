import TrackerDemo.Mosquitto.Send
import TrackerDemo.Lib.Transition

/-!
# Writing packets

Model of `_mosquitto_packet_queue` and `_mosquitto_packet_write` (`net_mosq.c`, lines
152–201 and 853–983) without TLS. Threads queue packets at any time; one thread at a
time, the holder of `current_out_packet_mutex`, writes, and each `write` may take a
part of the packet only. The callback of a QoS 0 message only takes note of the call.

Results:
* `packetWrite_run`: one call is a run of the steps below.
* `Writer.Ok.step`: what every step keeps.
* `writer_progress`: in every run of any threads, what is on the wire are the packets
  that were queued, one after the other, the last of them possibly in part.
-/

namespace TrackerDemo.Mosquitto

open TrackerDemo.CString TrackerDemo.Transition

/-! ## The state -/

/-- A packet in the queue, with its `to_process`. -/
structure Sending where
  packet : OutPacket
  toProcess : ℕ
  deriving DecidableEq, Repr

/-- The part of `struct mosquitto` that concerns writing. `wire` are the bytes that the
    socket has taken, `published` the calls of `on_publish` for messages of QoS 0. -/
structure Writer where
  sock : Bool
  outPacket : List Sending
  currentOutPacket : Option Sending
  keepalive : ℕ
  nextMsgOut : ℕ
  wire : Bytes
  published : List ℕ
  deriving DecidableEq, Repr

/-- With a new socket and nothing to write. -/
def Writer.initial (keepalive nextMsgOut : ℕ) : Writer :=
  ⟨true, [], none, keepalive, nextMsgOut, [], []⟩

/-- The result of `_mosquitto_net_write`: the socket has room for `n + 1` bytes, or
    `write` fails, with `EAGAIN`, `ECONNRESET` or another error. -/
inductive NetWrite
  | room (n : ℕ)
  | again | connReset | failed
  deriving DecidableEq, Repr

/-- A PUBLISH of QoS 0 (line 916). -/
def OutPacket.IsPublish0 (p : OutPacket) : Prop := p.command &&& 0xF6 = publish

/-- A DISCONNECT (line 924). -/
def OutPacket.IsDisconnect (p : OutPacket) : Prop :=
  ¬ p.IsPublish0 ∧ p.command &&& 0xF0 = disconnect

instance (p : OutPacket) : Decidable p.IsPublish0 := inferInstanceAs (Decidable (_ = _))

instance (p : OutPacket) : Decidable p.IsDisconnect := inferInstanceAs (Decidable (_ ∧ _))

/-! ## The parts of the functions -/

/-- `_mosquitto_packet_queue`, in a client with a thread of its own. -/
def packetQueue (packet : OutPacket) (w : Writer) : Writer :=
  { w with
    outPacket := w.outPacket ++
      [{ packet := { packet with pos := 0 }, toProcess := packet.payload.length }] }

/-- Lines 863–869. -/
def takePacket (w : Writer) : Writer :=
  match w.currentOutPacket, w.outPacket with
  | none, p :: ps => { w with currentOutPacket := some p, outPacket := ps }
  | _, _ => w

/-- Lines 884–890: the socket takes some bytes of the current packet. -/
def writePiece (n : ℕ) (p : Sending) (w : Writer) : Writer :=
  let writeLength := min (n + 1) p.toProcess
  { w with
    currentOutPacket := some
      { packet := { p.packet with pos := p.packet.pos + writeLength }
        toProcess := p.toProcess - writeLength }
    wire := w.wire ++ (p.packet.payload.drop p.packet.pos).take writeLength }

/-- Lines 916–979: the current packet is written. A DISCONNECT closes the socket. -/
def finishPacket (now : ℕ) (p : Sending) (w : Writer) : Writer :=
  let w :=
    if p.packet.IsPublish0 then { w with published := w.published ++ [p.packet.mid] }
    else if p.packet.IsDisconnect then { w with sock := false }
    else w
  { w with
    currentOutPacket := w.outPacket.head?
    outPacket := w.outPacket.tail
    nextMsgOut := now + w.keepalive }

/-! ## One call -/

/-- The inner loop (lines 880–911): whether the function returns in it, the results of
    `write` that are left, and the state. -/
def writePayload : List NetWrite → Sending → Writer →
    Option (Option MosqErr) × List NetWrite × Sending × Writer
  | [], p, w => if p.toProcess > 0 then (some none, [], p, w) else (none, [], p, w)
  | r :: rs, p, w =>
    if p.toProcess > 0 then
      match r with
      | .room n =>
        let w := writePiece n p w
        writePayload rs (w.currentOutPacket.getD p) w
      | .again => (some none, rs, p, w)
      | .connReset => (some (some .connLost), rs, p, w)
      | .failed => (some (some .errno), rs, p, w)
    else (none, r :: rs, p, w)

/-- The outer loop (lines 877–980), for at most `fuel` packets. -/
def writeLoop (now : ℕ) : ℕ → List NetWrite → Writer → Option MosqErr × Writer
  | 0, _, w => (none, w)
  | fuel + 1, rs, w =>
    match w.currentOutPacket with
    | none => (none, w)
    | some p =>
      match writePayload rs p w with
      | (some rc, _, _, w) => (rc, w)
      | (none, rs, p, w) =>
        let w := finishPacket now p w
        if p.packet.IsDisconnect then (none, w) else writeLoop now fuel rs w

/-- `_mosquitto_packet_write`, where `write` has the results `rs`, and then nothing more
    is taken. The clock reads `now` during the call, and no thread queues a packet in
    it. -/
def packetWrite (now : ℕ) (rs : List NetWrite) (w : Writer) : Option MosqErr × Writer :=
  if w.sock then writeLoop now (w.outPacket.length + 1) rs (takePacket w)
  else (some .noConn, w)

/-! ## The steps -/

/-- A step of one of the threads. -/
inductive WriterEvent
  | queue (packet : OutPacket)
  | take
  | piece (n : ℕ)
  | finish (now : ℕ)
  | close
  deriving Repr

/-- A step, which the state has to allow. -/
def writerStep (w : Writer) : WriterEvent → Option Writer
  | .queue packet => some (packetQueue packet w)
  | .take => if w.sock then some (takePacket w) else none
  | .piece n =>
    match w.currentOutPacket with
    | some p => if w.sock ∧ p.toProcess > 0 then some (writePiece n p w) else none
    | none => none
  | .finish now =>
    match w.currentOutPacket with
    | some p => if p.toProcess = 0 then some (finishPacket now p w) else none
    | none => none
  | .close => some { w with sock := false }

/-- The steps as a relation. -/
def WriterStep (w : Writer) (e : WriterEvent) (w' : Writer) : Prop := writerStep w e = some w'

/-- The packets that are queued in some steps. -/
def queuedPackets : List WriterEvent → List OutPacket
  | [] => []
  | .queue packet :: es => packet :: queuedPackets es
  | _ :: es => queuedPackets es

theorem queuedPackets_append (es es' : List WriterEvent) :
    queuedPackets (es ++ es') = queuedPackets es ++ queuedPackets es' := by
  induction es with
  | nil => rfl
  | cons e es ih =>
    cases e with
    | queue packet => exact congrArg (packet :: ·) ih
    | _ => exact ih

/-! ## What the steps keep -/

/-- The packet with the first `n` bytes written. -/
def OutPacket.sendingAt (packet : OutPacket) (n : ℕ) : Sending :=
  ⟨{ packet with pos := n }, packet.payload.length - n⟩

/-- The packets `rest` are still to be written, the first of them without the bytes
    `part`. -/
inductive Writer.Remains (w : Writer) : List OutPacket → Bytes → Prop
  | idle (rest : List OutPacket) (hcurrent : w.currentOutPacket = none)
      (hout : w.outPacket = rest.map fun p => p.sendingAt 0) : w.Remains rest []
  | writing (p : OutPacket) (n : ℕ) (rest : List OutPacket) (hn : n ≤ p.payload.length)
      (hcurrent : w.currentOutPacket = some (p.sendingAt n))
      (hout : w.outPacket = rest.map fun p => p.sendingAt 0) :
      w.Remains (p :: rest) (p.payload.take n)

/-- The bytes of some packets. -/
def payloads (ps : List OutPacket) : Bytes := ps.flatMap OutPacket.payload

/-- Of the packets that were queued, `done` are written and `rest` are not. -/
structure Writer.Ok (w : Writer) (done rest : List OutPacket) (part : Bytes) : Prop where
  remains : w.Remains rest part
  wire_eq : w.wire = payloads done ++ part
  published_eq : w.published = (done.filter (·.IsPublish0)).map OutPacket.mid
  disconnected : ∀ p ∈ done, p.IsDisconnect → w.sock = false ∧ part = []
  after_disconnect : ∀ pre p post, done = pre ++ p :: post → p.IsDisconnect → payloads post = []

section Steps

variable {w : Writer} {done rest : List OutPacket} {part : Bytes}

theorem Writer.Remains.packetQueue (h : w.Remains rest part) (packet : OutPacket) :
    (packetQueue packet w).Remains (rest ++ [packet]) part := by
  have hout : ∀ waiting : List OutPacket, w.outPacket = waiting.map (fun p => p.sendingAt 0) →
      (Mosquitto.packetQueue packet w).outPacket =
        (waiting ++ [packet]).map fun p => p.sendingAt 0 := by
    intro waiting hw
    show w.outPacket ++ _ = _
    rw [hw, List.map_append]
    rfl
  cases h with
  | idle _ hcurrent hw => exact .idle _ hcurrent (hout rest hw)
  | writing p n waiting hn hcurrent hw => exact .writing p n _ hn hcurrent (hout waiting hw)

theorem Writer.Remains.takePacket (h : w.Remains rest part) :
    (takePacket w).Remains rest part := by
  cases h with
  | idle _ hcurrent hout =>
    cases rest with
    | nil =>
      have he : Mosquitto.takePacket w = w := by
        unfold Mosquitto.takePacket
        rw [hcurrent, hout]
        rfl
      rw [he]
      exact .idle [] hcurrent hout
    | cons p rest =>
      have he : Mosquitto.takePacket w =
          { w with
            currentOutPacket := some (p.sendingAt 0)
            outPacket := rest.map fun p => p.sendingAt 0 } := by
        unfold Mosquitto.takePacket
        rw [hcurrent, hout]
        rfl
      rw [he]
      exact .writing p 0 rest (Nat.zero_le _) rfl rfl
  | writing p n rest hn hcurrent hout =>
    have he : Mosquitto.takePacket w = w := by
      unfold Mosquitto.takePacket
      rw [hcurrent]
    rw [he]
    exact .writing p n rest hn hcurrent hout

/-- What `takePacket` leaves alone. -/
theorem takePacket_frame (w : Writer) : (takePacket w).sock = w.sock ∧
    (takePacket w).wire = w.wire ∧ (takePacket w).published = w.published := by
  unfold takePacket
  split <;> exact ⟨rfl, rfl, rfl⟩

theorem Writer.Ok.packetQueue (h : w.Ok done rest part) (packet : OutPacket) :
    (packetQueue packet w).Ok done (rest ++ [packet]) part :=
  ⟨h.remains.packetQueue packet, h.wire_eq, h.published_eq, h.disconnected, h.after_disconnect⟩

theorem Writer.Ok.takePacket (h : w.Ok done rest part) : (takePacket w).Ok done rest part := by
  obtain ⟨hsock, hwire, hpublished⟩ := takePacket_frame w
  refine ⟨h.remains.takePacket, ?_, ?_, ?_, h.after_disconnect⟩
  · rw [hwire]
    exact h.wire_eq
  · rw [hpublished]
    exact h.published_eq
  · rw [hsock]
    exact h.disconnected

/-- The current packet is the first one that remains. -/
theorem Writer.Remains.current {p : Sending} (h : w.Remains rest part)
    (hp : w.currentOutPacket = some p) :
    ∃ q n rest', rest = q :: rest' ∧ n ≤ q.payload.length ∧ part = q.payload.take n ∧
      p = q.sendingAt n ∧ w.outPacket = rest'.map fun p => p.sendingAt 0 := by
  cases h with
  | idle _ hcurrent _ =>
    rw [hcurrent] at hp
    exact absurd hp (by simp)
  | writing q n rest' hn hcurrent hout =>
    rw [hcurrent, Option.some.injEq] at hp
    exact ⟨q, n, rest', rfl, hn, rfl, hp.symm, hout⟩

theorem Writer.Remains.nil (h : w.Remains [] part) :
    w.currentOutPacket = none ∧ w.outPacket = [] ∧ part = [] := by
  cases h with
  | idle _ hcurrent hout => exact ⟨hcurrent, hout, rfl⟩

/-- A piece of the current packet, when a DISCONNECT has not closed the socket. -/
theorem Writer.Ok.writePiece (h : w.Ok done rest part) (hsock : w.sock = true) (n : ℕ)
    {p : Sending} (hp : w.currentOutPacket = some p) :
    ∃ part', (writePiece n p w).Ok done rest part' := by
  obtain ⟨hremains, hwire, hpublished, hdisconnected, hafter⟩ := h
  obtain ⟨q, m, waiting, rfl, hm, rfl, rfl, hout⟩ := hremains.current hp
  have hlen : min (n + 1) (q.payload.length - m) + m ≤ q.payload.length := by omega
  refine ⟨q.payload.take (m + min (n + 1) (q.payload.length - m)), ?_, ?_, hpublished, ?_, hafter⟩
  · apply Writer.Remains.writing q _ waiting (by omega)
    · show some (Sending.mk _ (q.payload.length - m - min (n + 1) (q.payload.length - m))) = _
      rw [Nat.sub_sub]
      rfl
    · exact hout
  · show w.wire ++ (q.payload.drop m).take (min (n + 1) (q.payload.length - m)) = _
    rw [hwire, List.append_assoc, List.take_add]
  · intro p hp hd
    obtain ⟨hfalse, -⟩ := hdisconnected p hp hd
    rw [hsock] at hfalse
    exact absurd hfalse (by simp)

/-- The end of a packet, in one record. -/
theorem finishPacket_eq (now : ℕ) (p : Sending) (w : Writer) :
    finishPacket now p w =
      { w with
        sock := w.sock && !decide p.packet.IsDisconnect
        published :=
          w.published ++ if p.packet.IsPublish0 then [p.packet.mid] else []
        currentOutPacket := w.outPacket.head?
        outPacket := w.outPacket.tail
        nextMsgOut := now + w.keepalive } := by
  unfold finishPacket
  split_ifs with hpublish hdisconnect
  · have hno : ¬ p.packet.IsDisconnect := fun h => h.1 hpublish
    simp [hno]
  · simp [hdisconnect]
  · simp [hdisconnect]

/-- The end of a packet. -/
theorem Writer.Ok.finishPacket (h : w.Ok done rest part) (now : ℕ) {p : Sending}
    (hp : w.currentOutPacket = some p) (hdone : p.toProcess = 0) :
    ∃ q rest', rest = q :: rest' ∧ (finishPacket now p w).Ok (done ++ [q]) rest' [] := by
  obtain ⟨hremains, hwire, hpublished, hdisconnected, hafter⟩ := h
  obtain ⟨q, m, waiting, rfl, hm, rfl, rfl, hout⟩ := hremains.current hp
  have hm' : q.payload.length ≤ m := by
    have hzero : q.payload.length - m = 0 := hdone
    omega
  rw [List.take_of_length_le hm'] at hwire hdisconnected
  refine ⟨q, waiting, rfl, ?_, ?_, ?_, ?_, ?_⟩
  · rw [finishPacket_eq]
    cases waiting with
    | nil => exact .idle [] (by rw [hout]; rfl) (by rw [hout]; rfl)
    | cons r waiting =>
      exact .writing r 0 waiting (Nat.zero_le _) (by rw [hout]; rfl) (by rw [hout]; rfl)
  · rw [finishPacket_eq]
    show w.wire = _
    rw [hwire, List.append_nil, payloads, payloads, List.flatMap_append, List.flatMap_singleton]
  · have hlast : ([q].filter (·.IsPublish0)).map OutPacket.mid =
        if (q.sendingAt m).packet.IsPublish0 then [q.mid] else [] := by
      show _ = if q.IsPublish0 then [q.mid] else []
      by_cases h0 : q.IsPublish0 <;> simp [h0]
    rw [finishPacket_eq, List.filter_append, List.map_append, ← hpublished, hlast]
    rfl
  · intro r hr hd
    refine ⟨?_, rfl⟩
    rw [finishPacket_eq]
    rcases List.mem_append.1 hr with hr | hr
    · show (w.sock && _) = false
      rw [(hdisconnected r hr hd).1]
      rfl
    · obtain rfl := List.mem_singleton.1 hr
      have hd' : (r.sendingAt m).packet.IsDisconnect := hd
      simp [hd']
  · intro pre r post heq hd
    obtain rfl | ⟨post, x, rfl⟩ := List.eq_nil_or_concat' post
    · rfl
    · -- another packet before this one was the DISCONNECT
      rw [← List.cons_append, ← List.append_assoc] at heq
      obtain ⟨hpre, hx⟩ := List.append_inj' heq rfl
      obtain rfl := List.singleton_inj.1 hx
      obtain ⟨-, hnil⟩ := hdisconnected r (by rw [hpre]; simp) hd
      rw [payloads, List.flatMap_append, List.flatMap_singleton, hnil, List.append_nil]
      exact hafter pre r post hpre hd

/-- The step lemma. -/
theorem Writer.Ok.step {queued : List OutPacket} {e : WriterEvent} {w' : Writer}
    (h : ∃ done rest part, queued = done ++ rest ∧ w.Ok done rest part)
    (hstep : WriterStep w e w') :
    ∃ done rest part, queued ++ queuedPackets [e] = done ++ rest ∧ w'.Ok done rest part := by
  obtain ⟨done, rest, part, rfl, hok⟩ := h
  unfold WriterStep at hstep
  cases e with
  | queue packet =>
    obtain rfl := Option.some.inj hstep
    exact ⟨done, rest ++ [packet], part, List.append_assoc _ _ _, hok.packetQueue packet⟩
  | take =>
    rw [writerStep, Option.ite_none_right_eq_some] at hstep
    obtain ⟨-, hw⟩ := hstep
    obtain rfl := Option.some.inj hw
    exact ⟨done, rest, part, List.append_nil _, hok.takePacket⟩
  | piece n =>
    obtain ⟨p, hp, hsock, hw⟩ : ∃ p, w.currentOutPacket = some p ∧ w.sock = true ∧
        Mosquitto.writePiece n p w = w' := by
      rw [writerStep] at hstep
      split at hstep
      next p hp =>
        rw [Option.ite_none_right_eq_some] at hstep
        exact ⟨p, hp, hstep.1.1, Option.some.inj hstep.2⟩
      next => exact absurd hstep (by simp)
    obtain ⟨part', hok'⟩ := hok.writePiece hsock n hp
    rw [← hw]
    exact ⟨done, rest, part', List.append_nil _, hok'⟩
  | finish now =>
    obtain ⟨p, hp, hdone, hw⟩ : ∃ p, w.currentOutPacket = some p ∧ p.toProcess = 0 ∧
        Mosquitto.finishPacket now p w = w' := by
      rw [writerStep] at hstep
      split at hstep
      next p hp =>
        rw [Option.ite_none_right_eq_some] at hstep
        exact ⟨p, hp, hstep.1, Option.some.inj hstep.2⟩
      next => exact absurd hstep (by simp)
    obtain ⟨q, rest', rfl, hok'⟩ := hok.finishPacket now hp hdone
    rw [← hw]
    refine ⟨done ++ [q], rest', [], ?_, hok'⟩
    show done ++ q :: rest' ++ [] = _
    rw [List.append_nil, List.append_assoc, List.singleton_append]
  | close =>
    obtain rfl := Option.some.inj hstep
    refine ⟨done, rest, part, List.append_nil _, ?_, hok.wire_eq, hok.published_eq, ?_,
      hok.after_disconnect⟩
    · cases hok.remains with
      | idle _ hcurrent hout => exact .idle _ hcurrent hout
      | writing p n waiting hn hcurrent hout => exact .writing p n waiting hn hcurrent hout
    · exact fun p hp hd => ⟨rfl, (hok.disconnected p hp hd).2⟩

theorem Writer.ok_initial (keepalive nextMsgOut : ℕ) :
    (Writer.initial keepalive nextMsgOut).Ok [] [] [] where
  remains := .idle [] rfl rfl
  wire_eq := rfl
  published_eq := rfl
  disconnected p hp := absurd hp (by simp)
  after_disconnect pre p post h := absurd h (by simp)

/-- The run lemma. -/
theorem Writer.ok_run {keepalive nextMsgOut : ℕ} {es : List WriterEvent}
    (hr : Run WriterStep (Writer.initial keepalive nextMsgOut) es w) :
    ∃ done rest part, queuedPackets es = done ++ rest ∧ w.Ok done rest part := by
  refine @Run.reverseInduction _ _ _ _
    (fun es w => ∃ done rest part, queuedPackets es = done ++ rest ∧ w.Ok done rest part)
    ⟨[], [], [], rfl, Writer.ok_initial keepalive nextMsgOut⟩ ?_ _ _ hr
  intro es s e s' _ hok hstep
  rw [queuedPackets_append]
  exact Writer.Ok.step hok hstep

/-! ## One call is a run -/

/-- The steps of some events that queue nothing. -/
def Steps (w w' : Writer) : Prop := ∃ es, queuedPackets es = [] ∧ Run WriterStep w es w'

theorem Steps.refl (w : Writer) : Steps w w := ⟨[], rfl, .nil w⟩

theorem Steps.head {w1 w2 : Writer} {e : WriterEvent} (he : queuedPackets [e] = [])
    (hstep : WriterStep w e w1) (h : Steps w1 w2) : Steps w w2 := by
  obtain ⟨es, hes, hr⟩ := h
  refine ⟨e :: es, ?_, .cons hstep hr⟩
  show queuedPackets ([e] ++ es) = []
  rw [queuedPackets_append, he, hes]
  rfl

theorem Steps.trans {w1 w2 : Writer} (h : Steps w w1) (h' : Steps w1 w2) : Steps w w2 := by
  obtain ⟨es, hes, hr⟩ := h
  obtain ⟨es', hes', hr'⟩ := h'
  refine ⟨es ++ es', ?_, hr.append hr'⟩
  rw [queuedPackets_append, hes, hes']
  rfl

/-- What the inner loop does to the current packet. -/
structure WritesPayload (rs : List NetWrite) (p : Sending) (w : Writer)
    (out : Option (Option MosqErr) × List NetWrite × Sending × Writer) : Prop where
  steps : Steps w out.2.2.2
  current_eq : out.2.2.2.currentOutPacket = some out.2.2.1
  sock_eq : out.2.2.2.sock = true
  done : out.1 = none → out.2.2.1.toProcess = 0
  ok : ∀ done rest part, w.Ok done rest part → ∃ part', out.2.2.2.Ok done rest part'
  /-- Without an error, each byte of room is used. -/
  room : (∀ r ∈ rs, ∃ n, r = .room n) → p.toProcess ≤ rs.length →
    out.1 = none ∧ (∀ r ∈ out.2.1, ∃ n, r = .room n) ∧ rs.length ≤ out.2.1.length + p.toProcess

theorem writePayload_spec (rs : List NetWrite) {p : Sending} (hsock : w.sock = true)
    (hp : w.currentOutPacket = some p) : WritesPayload rs p w (writePayload rs p w) := by
  induction rs generalizing p w with
  | nil =>
    rw [writePayload]
    split_ifs with hleft
    · refine ⟨.refl w, hp, hsock, by simp, fun _ _ part h => ⟨part, h⟩, fun _ hle => ?_⟩
      rw [List.length_nil] at hle
      omega
    · refine ⟨.refl w, hp, hsock, fun _ => ?_, fun _ _ part h => ⟨part, h⟩,
        fun _ _ => ⟨rfl, by simp, Nat.zero_le _⟩⟩
      show p.toProcess = 0
      omega
  | cons r rs ih =>
    rw [writePayload.eq_def]
    dsimp only
    split_ifs with hleft
    · cases r with
      | room n =>
        have hstep : WriterStep w (.piece n) (writePiece n p w) := by
          show writerStep w (.piece n) = _
          rw [writerStep, hp]
          exact if_pos ⟨hsock, hleft⟩
        have hp' : (writePiece n p w).currentOutPacket =
          some ((writePiece n p w).currentOutPacket.getD p) := rfl
        obtain ⟨hsteps, hcurrent, hsock', hdone, hok, hroom⟩ := @ih (writePiece n p w) _ hsock hp'
        refine ⟨.head rfl hstep hsteps, hcurrent, hsock', hdone, fun done rest part h => ?_,
          fun hrs hle => ?_⟩
        · obtain ⟨part', h'⟩ := h.writePiece hsock n hp
          exact hok done rest part' h'
        have hless : ((writePiece n p w).currentOutPacket.getD p).toProcess =
          p.toProcess - min (n + 1) p.toProcess := rfl
        rw [hless] at hroom
        rw [List.length_cons] at hle ⊢
        obtain ⟨hnone, hrest, hlen⟩ := hroom (fun r hr => hrs r (List.mem_cons_of_mem _ hr))
          (by omega)
        refine ⟨hnone, hrest, ?_⟩
        show _ ≤ (writePayload rs _ (writePiece n p w)).2.1.length + _
        omega
      | _ =>
        refine ⟨.refl w, hp, hsock, by simp, fun _ _ part h => ⟨part, h⟩, fun hrs _ => ?_⟩
        obtain ⟨n, hn⟩ := hrs _ List.mem_cons_self
        exact absurd hn (by simp)
    · refine ⟨.refl w, hp, hsock, fun _ => ?_, fun _ _ part h => ⟨part, h⟩,
        fun hrs _ => ⟨rfl, hrs, Nat.le_add_right _ _⟩⟩
      show p.toProcess = 0
      omega

theorem writeLoop_steps (now fuel : ℕ) (rs : List NetWrite) (hsock : w.sock = true) :
    Steps w (writeLoop now fuel rs w).2 := by
  induction fuel generalizing rs w with
  | zero => exact .refl w
  | succ fuel ih =>
    rw [writeLoop]
    split
    next => exact .refl w
    next p hp =>
      have hspec := writePayload_spec rs hsock hp
      split
      next rc rs' p' w' he =>
        rw [he] at hspec
        exact hspec.steps
      next rs' p' w' he =>
        rw [he] at hspec
        have hstep : WriterStep w' (.finish now) (finishPacket now p' w') := by
          show writerStep w' (.finish now) = _
          rw [writerStep, hspec.current_eq]
          exact if_pos (hspec.done rfl)
        dsimp only
        split_ifs with hd
        · exact hspec.steps.trans (.head rfl hstep (.refl _))
        · refine hspec.steps.trans (.head rfl hstep (ih rs' ?_))
          rw [finishPacket_eq]
          show (w'.sock && _) = true
          rw [hspec.sock_eq]
          simp [hd]

/-- **One call is a run** of the steps, so that any calls of both functions are. -/
theorem packetWrite_run (now : ℕ) (rs : List NetWrite) (w : Writer) :
    Steps w (packetWrite now rs w).2 := by
  unfold packetWrite
  split_ifs with hsock
  · apply Steps.head (e := .take) rfl
    · show writerStep w .take = some (takePacket w)
      rw [writerStep, if_pos hsock]
    · apply writeLoop_steps
      rw [(takePacket_frame w).1]
      exact hsock
  · exact .refl w

/-! ## Enough room -/

/-- A socket with room for what is left takes all of it. -/
theorem writeLoop_all (now fuel : ℕ) {rs : List NetWrite} (h : w.Ok done rest part)
    (hsock : w.sock = true) (hidle : w.currentOutPacket = none → rest = [])
    (hfuel : rest.length ≤ fuel) (hrest : ∀ p ∈ rest, ¬ p.IsDisconnect)
    (hrs : ∀ r ∈ rs, ∃ n, r = .room n) (hroom : (payloads rest).length ≤ rs.length + part.length) :
    (writeLoop now fuel rs w).1 = none ∧ (writeLoop now fuel rs w).2.Ok (done ++ rest) [] [] := by
  induction fuel generalizing rs w done rest part with
  | zero =>
    obtain rfl : rest = [] := List.eq_nil_of_length_eq_zero (by omega)
    have hremains := h.remains
    rw [List.append_nil]
    cases hremains with
    | idle _ hcurrent hout => exact ⟨rfl, h⟩
  | succ fuel ih =>
    rw [writeLoop]
    split
    next hp =>
      obtain rfl := hidle hp
      have hremains := h.remains
      rw [List.append_nil]
      cases hremains with
      | idle _ hcurrent hout => exact ⟨rfl, h⟩
    next p hp =>
      obtain ⟨q, n, rest', rfl, hn, rfl, rfl, -⟩ := h.remains.current hp
      have hspec := writePayload_spec rs hsock hp
      have hleft : (q.sendingAt n).toProcess = q.payload.length - n := rfl
      rw [payloads, List.flatMap_cons, List.length_append, List.length_take,
        Nat.min_eq_left hn] at hroom
      obtain ⟨hnone, hrs', hlen⟩ := hspec.room hrs (by omega)
      obtain ⟨part', hok'⟩ := hspec.ok _ _ _ h
      generalize writePayload rs (q.sendingAt n) w = out at hspec hnone hrs' hlen hok'
      obtain ⟨o, rs', p', w'⟩ := out
      obtain rfl : o = none := hnone
      obtain ⟨q', rest'', heq, hfinish⟩ := hok'.finishPacket now hspec.current_eq (hspec.done rfl)
      obtain ⟨rfl, rfl⟩ := List.cons.inj heq
      obtain ⟨q', m, rest'', heq, -, -, hp', hout⟩ := hok'.remains.current hspec.current_eq
      obtain ⟨rfl, rfl⟩ := List.cons.inj heq
      have hnot : ¬ p'.packet.IsDisconnect := by
        obtain rfl : p' = q.sendingAt m := hp'
        exact hrest q List.mem_cons_self
      dsimp only at hlen hrs' hout ⊢
      rw [if_neg hnot]
      rw [← List.singleton_append, ← List.append_assoc]
      apply ih hfinish
      · rw [finishPacket_eq]
        show (w'.sock && _) = true
        rw [hspec.sock_eq]
        simp [hnot]
      · intro hcurrent
        rw [finishPacket_eq] at hcurrent
        have hhead : w'.outPacket.head? = none := hcurrent
        rw [hout, List.head?_eq_none_iff, List.map_eq_nil_iff] at hhead
        exact hhead
      · rw [List.length_cons] at hfuel
        omega
      · exact fun r hr => hrest r (List.mem_cons_of_mem _ hr)
      · exact hrs'
      · rw [payloads]
        rw [List.length_nil]
        omega

/-- One call writes all there is, if there is room for it. -/
theorem packetWrite_all (now : ℕ) {rs : List NetWrite} (h : w.Ok done rest part)
    (hsock : w.sock = true) (hrest : ∀ p ∈ rest, ¬ p.IsDisconnect)
    (hrs : ∀ r ∈ rs, ∃ n, r = .room n) (hroom : (payloads rest).length ≤ rs.length + part.length) :
    (packetWrite now rs w).1 = none ∧ (packetWrite now rs w).2.Ok (done ++ rest) [] [] := by
  have hidle : (takePacket w).currentOutPacket = none → rest = [] := by
    intro hnone
    cases h.remains with
    | idle _ hcurrent hout =>
      cases rest with
      | nil => rfl
      | cons p rest =>
        unfold takePacket at hnone
        rw [hcurrent, hout] at hnone
        exact absurd hnone (by simp)
    | writing p n waiting _ hcurrent _ =>
      unfold takePacket at hnone
      rw [hcurrent] at hnone
      exact absurd hnone (by simp [hcurrent])
  have hfuel : rest.length ≤ w.outPacket.length + 1 := by
    cases h.remains with
    | idle _ _ hout =>
      rw [hout, List.length_map]
      omega
    | writing p n waiting _ _ hout => rw [hout, List.length_map, List.length_cons]
  unfold packetWrite
  rw [if_pos hsock]
  exact writeLoop_all now _ h.takePacket (by rw [(takePacket_frame w).1, hsock]) hidle hfuel hrest
    hrs hroom

end Steps

/-- **Whatever the threads do.** In any run of queueing and writing, in any pieces, what
    is on the wire is the packets that were queued, in their order, up to a part of one
    packet, and nothing follows a DISCONNECT; `on_publish` was called once for each
    message of QoS 0 among them. As long as the socket is open and no DISCONNECT is
    queued, one call with enough room writes all that is left. -/
theorem writer_progress {keepalive nextMsgOut : ℕ} {es : List WriterEvent} {w : Writer}
    (hr : Run WriterStep (Writer.initial keepalive nextMsgOut) es w) :
    ∃ done rest part, queuedPackets es = done ++ rest ∧
      w.wire = payloads done ++ part ∧ part <+: payloads (rest.take 1) ∧
      w.published = (done.filter (·.IsPublish0)).map OutPacket.mid ∧
      (∀ pre p post, done = pre ++ p :: post → p.IsDisconnect → payloads post ++ part = []) ∧
      (∀ now rs, w.sock = true → (∀ p ∈ rest, ¬ p.IsDisconnect) →
        (∀ r ∈ rs, ∃ n, r = NetWrite.room n) → (payloads rest).length ≤ rs.length →
        (packetWrite now rs w).1 = none ∧
          (packetWrite now rs w).2.wire = payloads (queuedPackets es)) := by
  obtain ⟨done, rest, part, hqueued, hok⟩ := Writer.ok_run hr
  refine ⟨done, rest, part, hqueued, hok.wire_eq, ?_, hok.published_eq, ?_, ?_⟩
  · cases hok.remains with
    | idle => exact List.nil_prefix
    | writing p n waiting =>
      rw [List.take_succ_cons, List.take_zero, payloads, List.flatMap_singleton]
      exact List.take_prefix n p.payload
  · intro pre p post heq hd
    obtain ⟨-, hnil⟩ := hok.disconnected p (by rw [heq]; simp) hd
    rw [hok.after_disconnect pre p post heq hd, hnil]
    rfl
  · intro now rs hsock hrest hrs hroom
    obtain ⟨hnone, hok'⟩ := packetWrite_all now hok hsock hrest hrs (by omega)
    refine ⟨hnone, ?_⟩
    rw [hok'.wire_eq, hqueued, List.append_nil]

/-- Two packets of two bytes, the first of which is on the wire with one of them. -/
theorem writer_progress_sample : ∃ w, Run WriterStep (Writer.initial 60 60)
    [.queue ⟨0, 0xC0, [0xC0, 0], 0⟩, .take, .piece 0, .queue ⟨0, 0xC0, [0xC0, 0], 0⟩] w ∧
    ∃ done rest part, queuedPackets [.queue ⟨0, 0xC0, [0xC0, 0], 0⟩, .take, .piece 0,
      .queue ⟨0, 0xC0, [0xC0, 0], 0⟩] = done ++ rest ∧ w.wire = payloads done ++ part := by
  have hr : Run WriterStep (Writer.initial 60 60)
      [.queue ⟨0, 0xC0, [0xC0, 0], 0⟩, .take, .piece 0, .queue ⟨0, 0xC0, [0xC0, 0], 0⟩]
      ⟨true, [⟨⟨0, 0xC0, [0xC0, 0], 0⟩, 2⟩], some ⟨⟨0, 0xC0, [0xC0, 0], 1⟩, 1⟩, 60, 60,
        [0xC0], []⟩ :=
    .cons rfl (.cons rfl (.cons rfl (.cons rfl (.nil _))))
  obtain ⟨done, rest, part, hqueued, hwire, -⟩ := writer_progress hr
  exact ⟨_, hr, done, rest, part, hqueued, hwire⟩

end TrackerDemo.Mosquitto
