import TrackerDemo.Mosquitto.PacketStream
import TrackerDemo.Mosquitto.PacketWrite

/-!
# From one end to the other

Both ends of a connection use `net_mosq.c`: threads of one end build packets and queue
them, one thread writes them in pieces, the bytes arrive in other pieces, and the other
end reads them. The steps come in any order.

Results:
* `Channel.Ok.step`: what every step keeps.
* `channel_delivers`: the packets handed on are the first ones of those that were sent,
  in order, and when nothing is under way all of them.
-/

namespace TrackerDemo.Mosquitto

open TrackerDemo.CString TrackerDemo.Transition

/-! ## The steps -/

/-- The writing end, the bytes that are under way, and the reading end. -/
structure Channel (σ : Type*) where
  writer : Writer
  inFlight : Bytes
  reader : Reader σ

/-- A new connection. -/
def Channel.initial {σ : Type*} (c : σ) (keepalive nextMsgOut : ℕ) : Channel σ :=
  ⟨.initial keepalive nextMsgOut, [], ⟨c, [], .initial⟩⟩

/-- A step: a packet is built and queued, the writing thread takes a step, `n + 1` bytes
    arrive together, something other than data arrives, or the other end reads. -/
inductive ChannelEvent
  | send (o : Outgoing) (fresh : ℕ → Byte)
  | write (e : WriterEvent)
  | deliver (n : ℕ)
  | arrive (a : Arrival)
  | read

/-- A step, which the state has to allow. A packet that is too large is not queued. -/
def channelStep {σ : Type*} (handle : σ → ReadBuffer → Option MosqErr × σ) (s : Channel σ) :
    ChannelEvent → Option (Channel σ)
  | .send o fresh =>
    match o.send fresh with
    | .ok packet => some { s with writer := packetQueue packet s.writer }
    | .error _ => some s
  | .write (.queue _) => none
  | .write e =>
    (writerStep s.writer e).map fun w =>
      { s with writer := w, inFlight := s.inFlight ++ w.wire.drop s.writer.wire.length }
  | .deliver n =>
    match s.inFlight with
    | [] => none
    | b :: bs =>
      some { s with
        inFlight := bs.drop n
        reader := { s.reader with sock := s.reader.sock ++ [.data b (bs.take n)] } }
  | .arrive a =>
    if streamBytes [a] = [] then
      some { s with reader := { s.reader with sock := s.reader.sock ++ [a] } }
    else none
  | .read => (packetRead handle s.reader).map fun out => { s with reader := out.2 }

/-- The steps as a relation. -/
def ChannelStep {σ : Type*} (handle : σ → ReadBuffer → Option MosqErr × σ) (s : Channel σ)
    (e : ChannelEvent) (s' : Channel σ) : Prop :=
  channelStep handle s e = some s'

/-- The frame of a packet, if it is not too large. -/
def Outgoing.sentFrame (o : Outgoing) : List Frame :=
  if o.frame.body.length < remainingLimit then [o.frame] else []

/-- The frames that are sent in some steps. -/
def sentFrames : List ChannelEvent → List Frame
  | [] => []
  | .send o _ :: es => o.sentFrame ++ sentFrames es
  | _ :: es => sentFrames es

theorem sentFrames_append (es es' : List ChannelEvent) :
    sentFrames (es ++ es') = sentFrames es ++ sentFrames es' := by
  induction es with
  | nil => rfl
  | cons e es ih =>
    cases e with
    | send o fresh =>
      show o.sentFrame ++ sentFrames (es ++ es') = o.sentFrame ++ sentFrames es ++ _
      rw [ih, List.append_assoc]
    | _ => exact ih

/-- The packet has a type, and its strings fit. -/
structure Outgoing.Ok (o : Outgoing) : Prop where
  command_ne : o.frame.command ≠ 0
  stringsFit : o.StringsFit

/-- A step that sends a packet sends a proper one. -/
def ChannelEvent.Ok : ChannelEvent → Prop
  | .send o _ => o.Ok
  | _ => True

/-! ## What the steps keep -/

variable {σ : Type*}

section Steps

variable {handle : σ → ReadBuffer → Option MosqErr × σ} {c : σ} {packets : List OutPacket}
  {frames : List Frame} {s s' : Channel σ}

theorem Texts.snoc {fs : List Frame} {bs text : Bytes} {f : Frame} (h : Texts fs bs)
    (hf : FrameText f text) : Texts (fs ++ [f]) (bs ++ text) := by
  induction h with
  | nil =>
    have hone : Texts [f] (text ++ []) := .cons hf .nil
    rw [List.append_nil] at hone
    exact hone
  | cons hg _ ih =>
    rw [List.append_assoc]
    exact .cons hg ih

/-- The bytes of the packets that are not on the wire yet. -/
def Writer.unwritten (packets : List OutPacket) (w : Writer) : Bytes :=
  (payloads packets).drop w.wire.length

/-- The writer has some packets to write and the bytes on the wire are the first ones
    of theirs. -/
def Writer.Writes (packets : List OutPacket) (w : Writer) : Prop :=
  ∃ done rest part, packets = done ++ rest ∧ w.Ok done rest part

theorem Writer.Writes.wire_append {w : Writer} (h : w.Writes packets) :
    payloads packets = w.wire ++ w.unwritten packets := by
  obtain ⟨done, rest, part, rfl, hok⟩ := h
  obtain ⟨later, hlater⟩ : part <+: payloads rest := by
    cases hok.remains with
    | idle => exact List.nil_prefix
    | writing p n waiting =>
      rw [payloads, List.flatMap_cons]
      exact (List.take_prefix n p.payload).trans (List.prefix_append _ _)
  have hall : payloads (done ++ rest) = w.wire ++ later := by
    rw [hok.wire_eq, List.append_assoc, hlater, payloads, List.flatMap_append]
    rfl
  rw [unwritten, hall, List.drop_left]

/-- What has arrived, is under way and is not written are the frames that the reader
    awaits. -/
structure Channel.Ok (handle : σ → ReadBuffer → Option MosqErr × σ) (c : σ)
    (packets : List OutPacket) (frames : List Frame) (s : Channel σ) : Prop where
  writes : s.writer.Writes packets
  payloads_eq : packets.map OutPacket.payload = frames.map Frame.text
  valid : ∀ f ∈ frames, f.Valid
  awaits : ∃ done todo, frames = done ++ todo ∧ s.reader.client = handled handle c done ∧
    Awaits (s.inFlight ++ s.writer.unwritten packets) todo s.reader

theorem Channel.ok_initial (keepalive nextMsgOut : ℕ) :
    (Channel.initial c keepalive nextMsgOut).Ok handle c [] [] where
  writes := ⟨[], [], [], rfl, Writer.ok_initial keepalive nextMsgOut⟩
  payloads_eq := rfl
  valid f hf := absurd hf (by simp)
  awaits := ⟨[], [], rfl, rfl, [], .nil, .inl ⟨rfl, fun _ => rfl⟩⟩

/-- A packet that is sent is queued, with its frame's bytes. -/
theorem Channel.Ok.send (h : s.Ok handle c packets frames) {o : Outgoing} {fresh : ℕ → Byte}
    (ho : o.Ok) (hstep : channelStep handle s (.send o fresh) = some s') :
    ∃ packets', s'.Ok handle c packets' (frames ++ o.sentFrame) := by
  obtain ⟨hlarge, hfits⟩ := Outgoing.send_builds fresh ho.stringsFit
  rw [channelStep] at hstep
  rcases Nat.lt_or_ge o.frame.body.length remainingLimit with hlt | hge
  · obtain ⟨packet, hpacket, hpayload⟩ := hfits hlt
    rw [hpacket] at hstep
    obtain rfl := Option.some.inj hstep
    have hvalid : o.frame.Valid := ⟨ho.command_ne, hlt⟩
    obtain ⟨done, rest, part, hpackets, hok⟩ := h.writes
    obtain ⟨doneFs, todo, hframes, hclient, bs, htexts, hr⟩ := h.awaits
    have hsent : o.sentFrame = [o.frame] := if_pos hlt
    rw [hsent]
    refine ⟨packets ++ [packet], ?_, ?_, ?_, doneFs, todo ++ [o.frame], ?_, hclient, bs, ?_, hr⟩
    · exact ⟨done, rest ++ [packet], part, by rw [hpackets, List.append_assoc],
        hok.packetQueue packet⟩
    · rw [List.map_append, List.map_append, h.payloads_eq, List.map_singleton,
        List.map_singleton, hpayload]
    · intro f hf
      rcases List.mem_append.1 hf with hf | hf
      · exact h.valid f hf
      · rw [List.mem_singleton.1 hf]
        exact hvalid
    · rw [hframes, List.append_assoc]
    · have hmore : s.writer.unwritten (packets ++ [packet]) =
          s.writer.unwritten packets ++ o.frame.text := by
        have hall := h.writes.wire_append
        unfold Writer.unwritten
        rw [payloads, List.flatMap_append, List.flatMap_singleton, hpayload]
        apply List.drop_append_of_le_length
        show _ ≤ (payloads packets).length
        rw [hall, List.length_append]
        exact Nat.le_add_right _ _
      show Texts _ (bs ++ (s.inFlight ++ s.writer.unwritten (packets ++ [packet])))
      rw [hmore, ← List.append_assoc, ← List.append_assoc]
      rw [← List.append_assoc] at htexts
      exact htexts.snoc hvalid.frameText
  · rw [hlarge hge] at hstep
    obtain rfl := Option.some.inj hstep
    refine ⟨packets, ?_⟩
    rw [Outgoing.sentFrame, if_neg (by omega), List.append_nil]
    exact h

/-- A step of the writer other than queueing appends to the wire. -/
theorem WriterStep.wire_append {w w' : Writer} {e : WriterEvent} (h : WriterStep w e w') :
    ∃ bytes, w'.wire = w.wire ++ bytes := by
  unfold WriterStep at h
  cases e with
  | queue packet =>
    obtain rfl := Option.some.inj h
    exact ⟨[], (List.append_nil _).symm⟩
  | take =>
    rw [writerStep, Option.ite_none_right_eq_some] at h
    obtain rfl := Option.some.inj h.2
    exact ⟨[], by rw [(takePacket_frame w).2.1, List.append_nil]⟩
  | piece n =>
    rw [writerStep] at h
    split at h
    next p _ =>
      rw [Option.ite_none_right_eq_some] at h
      obtain rfl := Option.some.inj h.2
      exact ⟨_, rfl⟩
    next => exact absurd h (by simp)
  | finish now =>
    rw [writerStep] at h
    split at h
    next p _ =>
      rw [Option.ite_none_right_eq_some] at h
      obtain rfl := Option.some.inj h.2
      exact ⟨[], by rw [finishPacket_eq, List.append_nil]⟩
    next => exact absurd h (by simp)
  | close =>
    obtain rfl := Option.some.inj h
    exact ⟨[], (List.append_nil _).symm⟩

/-- What the writer writes is under way. -/
theorem Channel.Ok.write (h : s.Ok handle c packets frames) {e : WriterEvent}
    (hstep : channelStep handle s (.write e) = some s') : s'.Ok handle c packets frames := by
  obtain ⟨w, hw, hqueue, rfl⟩ : ∃ w, WriterStep s.writer e w ∧ queuedPackets [e] = [] ∧
      s' = { s with writer := w, inFlight := s.inFlight ++ w.wire.drop s.writer.wire.length } := by
    cases e with
    | queue packet => exact absurd hstep (by simp [channelStep])
    | _ =>
      rw [channelStep, Option.map_eq_some_iff] at hstep
      · obtain ⟨w, hw, rfl⟩ := hstep
        exact ⟨w, hw, rfl, rfl⟩
      · simp
  have hwrites : w.Writes packets := by
    obtain ⟨done, rest, part, heq, hok⟩ := Writer.Ok.step h.writes hw
    rw [hqueue, List.append_nil] at heq
    exact ⟨done, rest, part, heq, hok⟩
  obtain ⟨done, todo, hframes, hclient, bs, htexts, hr⟩ := h.awaits
  refine ⟨hwrites, h.payloads_eq, h.valid, done, todo, hframes, hclient, bs, ?_, hr⟩
  obtain ⟨bytes, hbytes⟩ := hw.wire_append
  have hunwritten : s.writer.unwritten packets = bytes ++ w.unwritten packets := by
    apply List.append_cancel_left
    rw [← h.writes.wire_append, hwrites.wire_append, hbytes, List.append_assoc]
  show Texts todo (bs ++ (s.inFlight ++ w.wire.drop s.writer.wire.length ++ w.unwritten packets))
  rw [hbytes, List.drop_left, List.append_assoc s.inFlight, ← hunwritten]
  exact htexts

theorem streamBytes_append (sock sock' : Socket) :
    streamBytes (sock ++ sock') = streamBytes sock ++ streamBytes sock' := by
  induction sock with
  | nil => rfl
  | cons a sock ih =>
    cases a with
    | data b bs =>
      show b :: bs ++ streamBytes (sock ++ sock') = b :: bs ++ streamBytes sock ++ _
      rw [ih, List.append_assoc]
    | _ => exact ih

/-- What arrives moves from the bytes under way to the socket. -/
theorem Awaits.arrive {more later : Bytes} {fs : List Frame} {r : Reader σ} {a : Arrival}
    (h : Awaits (streamBytes [a] ++ later) fs r) (hmore : more = later) :
    Awaits more fs { r with sock := r.sock ++ [a] } := by
  obtain ⟨bs, htexts, hr⟩ := h
  refine ⟨bs ++ streamBytes [a], ?_, ?_⟩
  · rw [hmore, List.append_assoc]
    exact htexts
  · show Receiving _ r.inPacket (streamBytes (r.sock ++ [a]))
    rw [streamBytes_append]
    exact hr.append _

theorem Channel.Ok.deliver (h : s.Ok handle c packets frames) {n : ℕ}
    (hstep : channelStep handle s (.deliver n) = some s') : s'.Ok handle c packets frames := by
  obtain ⟨done, todo, hframes, hclient, hawaits⟩ := h.awaits
  rw [channelStep] at hstep
  split at hstep
  next => exact absurd hstep (by simp)
  next b bs hflight =>
    obtain rfl := Option.some.inj hstep
    refine ⟨h.writes, h.payloads_eq, h.valid, done, todo, hframes, hclient, ?_⟩
    apply Awaits.arrive _ rfl
    have hbytes : s.inFlight = streamBytes [.data b (bs.take n)] ++ bs.drop n := by
      rw [hflight]
      show b :: bs = b :: bs.take n ++ [] ++ bs.drop n
      rw [List.append_nil, List.cons_append, List.take_append_drop]
    rw [hbytes, List.append_assoc] at hawaits
    exact hawaits

theorem Channel.Ok.arrive (h : s.Ok handle c packets frames) {a : Arrival}
    (hstep : channelStep handle s (.arrive a) = some s') : s'.Ok handle c packets frames := by
  obtain ⟨done, todo, hframes, hclient, hawaits⟩ := h.awaits
  rw [channelStep, Option.ite_none_right_eq_some] at hstep
  obtain ⟨hnone, hs⟩ := hstep
  obtain rfl := Option.some.inj hs
  refine ⟨h.writes, h.payloads_eq, h.valid, done, todo, hframes, hclient, ?_⟩
  apply Awaits.arrive _ rfl
  rw [hnone]
  exact hawaits

theorem Channel.Ok.read (h : s.Ok handle c packets frames)
    (hstep : channelStep handle s .read = some s') : s'.Ok handle c packets frames := by
  obtain ⟨done, todo, hframes, hclient, hawaits⟩ := h.awaits
  obtain ⟨out, hread, hspec⟩ := @packetRead_spec σ handle _ todo s.reader hawaits
  rw [channelStep, hread] at hstep
  obtain rfl := Option.some.inj hstep
  cases hspec with
  | waits rc r' hclient' hawaits' _ =>
    exact ⟨h.writes, h.payloads_eq, h.valid, done, todo, hframes, hclient'.trans hclient, hawaits'⟩
  | hands f todo' r' htodo hclient' hawaits' _ _ _ =>
    refine ⟨h.writes, h.payloads_eq, h.valid, done ++ [f], todo', ?_, ?_, hawaits'⟩
    · rw [hframes, htodo, List.append_assoc, List.singleton_append]
    · show r'.client = _
      rw [hclient', hclient]
      unfold handled
      rw [List.foldl_append]
      rfl

/-- The step lemma. -/
theorem Channel.Ok.step {e : ChannelEvent} (h : s.Ok handle c packets frames) (he : e.Ok)
    (hstep : ChannelStep handle s e s') :
    ∃ packets', s'.Ok handle c packets' (frames ++ sentFrames [e]) := by
  have unsent : sentFrames [e] = [] → s'.Ok handle c packets frames →
      ∃ packets', s'.Ok handle c packets' (frames ++ sentFrames [e]) := by
    intro hnone hok
    rw [hnone, List.append_nil]
    exact ⟨packets, hok⟩
  cases e with
  | send o fresh =>
    have hsent : sentFrames [.send o fresh] = o.sentFrame := List.append_nil _
    rw [hsent]
    exact h.send he hstep
  | write e => exact unsent rfl (h.write hstep)
  | deliver n => exact unsent rfl (h.deliver hstep)
  | arrive a => exact unsent rfl (h.arrive hstep)
  | read => exact unsent rfl (h.read hstep)

/-- The run lemma. -/
theorem Channel.Ok.run {es : List ChannelEvent} (h : s.Ok handle c packets frames)
    (hes : ∀ e ∈ es, e.Ok) (hr : Run (ChannelStep handle) s es s') :
    ∃ packets', s'.Ok handle c packets' (frames ++ sentFrames es) := by
  induction hr generalizing packets frames with
  | nil =>
    rw [sentFrames, List.append_nil]
    exact ⟨packets, h⟩
  | @cons s t u e es hstep _ ih =>
    obtain ⟨packets', hok⟩ := h.step (hes e List.mem_cons_self) hstep
    obtain ⟨packets'', hok'⟩ := ih hok fun e he => hes e (List.mem_cons_of_mem _ he)
    refine ⟨packets'', ?_⟩
    rw [← List.singleton_append, sentFrames_append, ← List.append_assoc]
    exact hok'

/-- Nothing is under way. -/
structure Channel.Drained (s : Channel σ) : Prop where
  outPacket_eq : s.writer.outPacket = []
  current_eq : s.writer.currentOutPacket = none
  inFlight_eq : s.inFlight = []
  sock_eq : streamBytes s.reader.sock = []

/-- What the end of a run says of the packets. -/
theorem Channel.Ok.handed (h : s.Ok handle c packets frames) :
    ∃ done todo, frames = done ++ todo ∧ s.reader.client = handled handle c done ∧
      (s.Drained → todo = []) := by
  obtain ⟨done, todo, hframes, hclient, hawaits⟩ := h.awaits
  refine ⟨done, todo, hframes, hclient, fun hdrained => ?_⟩
  obtain ⟨hout, hcurrent, hflight, hsock⟩ := hdrained
  have hunwritten : s.writer.unwritten packets = [] := by
    obtain ⟨doneP, rest, part, hpackets, hok⟩ := h.writes
    have hrest : rest = [] ∧ part = [] := by
      cases hok.remains with
      | idle _ _ hout' =>
        rw [hout] at hout'
        exact ⟨List.map_eq_nil_iff.1 hout'.symm, rfl⟩
      | writing p n waiting _ hcurrent' _ =>
        rw [hcurrent] at hcurrent'
        exact absurd hcurrent' (by simp)
    rw [Writer.unwritten, hok.wire_eq, hpackets, hrest.1, hrest.2, List.append_nil,
      List.append_nil, List.drop_length]
  rw [hflight, hunwritten] at hawaits
  cases todo with
  | nil => rfl
  | cons f todo => exact absurd hsock hawaits.ne_nil

/-! ## Getting through -/

/-- What the writing thread does is done in the channel. -/
theorem run_write {w w' : Writer} {es : List WriterEvent} (h : Run WriterStep w es w')
    (hes : queuedPackets es = []) (inFlight : Bytes) (r : Reader σ) :
    ∃ bytes, w'.wire = w.wire ++ bytes ∧ Run (ChannelStep handle) ⟨w, inFlight, r⟩
      (es.map .write) ⟨w', inFlight ++ bytes, r⟩ := by
  induction h generalizing inFlight with
  | nil w =>
    refine ⟨[], (List.append_nil _).symm, ?_⟩
    rw [List.append_nil]
    exact .nil _
  | @cons w w1 w' e es hstep _ ih =>
    have hparts : queuedPackets [e] = [] ∧ queuedPackets es = [] := by
      rw [← List.singleton_append, queuedPackets_append] at hes
      exact List.append_eq_nil_iff.1 hes
    obtain ⟨bytes, hbytes⟩ := hstep.wire_append
    obtain ⟨bytes', hbytes', hrun⟩ := ih hparts.2 (inFlight ++ bytes)
    refine ⟨bytes ++ bytes', by rw [hbytes', hbytes, List.append_assoc], ?_⟩
    rw [← List.append_assoc]
    refine .cons ?_ hrun
    have hmap : channelStep handle ⟨w, inFlight, r⟩ (.write e) = (writerStep w e).map fun w' =>
        (⟨w', inFlight ++ w'.wire.drop w.wire.length, r⟩ : Channel σ) := by
      cases e with
      | queue packet => exact absurd hparts.1 (by simp [queuedPackets])
      | _ => rfl
    show channelStep handle _ (.write e) = _
    rw [hmap, show writerStep w e = some w1 from hstep, Option.map_some, hbytes, List.drop_left]

/-- All bytes under way arrive together. -/
theorem run_deliver (w : Writer) (inFlight : Bytes) (r : Reader σ) :
    ∃ es sock, sentFrames es = [] ∧ (∀ e ∈ es, e.Ok) ∧ (Steady r.sock → Steady sock) ∧
      Run (ChannelStep handle) ⟨w, inFlight, r⟩ es ⟨w, [], { r with sock := sock }⟩ := by
  cases inFlight with
  | nil => exact ⟨[], r.sock, rfl, by simp, id, .nil _⟩
  | cons b bs =>
    refine ⟨[.deliver bs.length], r.sock ++ [.data b bs], rfl, fun e he => ?_, fun hs a ha => ?_,
      .cons ?_ (.nil _)⟩
    · obtain rfl := List.mem_singleton.1 he
      trivial
    · rcases List.mem_append.1 ha with ha | ha
      · exact hs a ha
      · exact .inr ⟨b, bs, List.mem_singleton.1 ha⟩
    · show channelStep handle _ (.deliver bs.length) = _
      rw [channelStep]
      simp

/-- The calls that read. -/
theorem run_read (w : Writer) (inFlight : Bytes) (n : ℕ) {r r' : Reader σ}
    (h : readPackets handle n r = some (none, r')) :
    Run (ChannelStep handle) ⟨w, inFlight, r⟩ (List.replicate n .read) ⟨w, inFlight, r'⟩ := by
  induction n generalizing r with
  | zero =>
    obtain ⟨-, rfl⟩ := Prod.mk.inj (Option.some.inj h)
    exact .nil _
  | succ n ih =>
    rw [readPackets] at h
    split at h
    next r1 hread =>
      refine .cons ?_ (ih h)
      show channelStep handle _ .read = _
      rw [channelStep, hread]
      rfl
    next hother =>
      exact absurd h (fun h => hother r' h)

theorem sentFrames_write (es : List WriterEvent) : sentFrames (es.map .write) = [] := by
  induction es with
  | nil => rfl
  | cons e es ih => exact ih

theorem sentFrames_read (n : ℕ) : sentFrames (List.replicate n .read) = [] := by
  induction n with
  | zero => rfl
  | succ n ih => exact ih

/-- While both ends are open and no DISCONNECT waits, what was sent can be handed on
    without sending more, if the other end accepts it. -/
theorem Channel.Ok.drains (h : s.Ok handle c packets frames) (hsock : s.writer.sock = true)
    (hsteady : Steady s.reader.sock)
    (hwaiting : ∀ p ∈ s.writer.currentOutPacket.toList ++ s.writer.outPacket,
      ¬ p.packet.IsDisconnect)
    (haccepts : ∀ c b, (handle c b).1 = none) :
    ∃ es s', sentFrames es = [] ∧ Run (ChannelStep handle) s es s' ∧ s'.Drained ∧
      s'.reader.client = handled handle c frames := by
  obtain ⟨done, rest, part, hpackets, hok⟩ := h.writes
  have hrest : ∀ p ∈ rest, ¬ p.IsDisconnect := by
    cases hok.remains with
    | idle _ hcurrent hout =>
      intro p hp
      apply hwaiting (p.sendingAt 0)
      rw [hout]
      exact List.mem_append_right _ (List.mem_map_of_mem hp)
    | writing q n waiting _ hcurrent hout =>
      intro p hp
      rcases List.mem_cons.1 hp with rfl | hp
      · exact hwaiting (p.sendingAt n) (by rw [hcurrent]; simp)
      · apply hwaiting (p.sendingAt 0)
        rw [hout]
        exact List.mem_append_right _ (List.mem_map_of_mem hp)
  have hrs : ∀ r ∈ List.replicate (payloads rest).length (NetWrite.room 0), ∃ n, r = .room n :=
    fun r hr => ⟨0, (List.mem_replicate.1 hr).2⟩
  obtain ⟨-, hall⟩ := packetWrite_all 0 hok hsock hrest hrs (by rw [List.length_replicate]; omega)
  obtain ⟨esW, hesW, hrunW⟩ := packetWrite_run 0
    (List.replicate (payloads rest).length (NetWrite.room 0)) s.writer
  generalize (packetWrite 0 (List.replicate (payloads rest).length (NetWrite.room 0))
    s.writer).2 = w at hall hrunW
  obtain ⟨bytes, -, hrun1⟩ := @run_write σ handle _ _ _ hrunW hesW s.inFlight s.reader
  obtain ⟨es2, sock, hes2, hok2, hsteady', hrun2⟩ :=
    @run_deliver σ handle w (s.inFlight ++ bytes) s.reader
  have hrun := hrun1.append hrun2
  have hes : ∀ e ∈ esW.map .write ++ es2, ChannelEvent.Ok e := by
    intro e he
    rcases List.mem_append.1 he with he | he
    · obtain ⟨e', -, rfl⟩ := List.mem_map.1 he
      trivial
    · exact hok2 e he
  obtain ⟨packets', hok'⟩ := h.run hes hrun
  rw [sentFrames_append, sentFrames_write, hes2, List.append_nil, List.append_nil] at hok'
  have hwritten : w.unwritten packets' = [] := by
    have hsame : payloads packets' = payloads packets := by
      rw [payloads, payloads, List.flatMap_def, List.flatMap_def, hok'.payloads_eq, h.payloads_eq]
    have hwire := hall.wire_eq
    rw [List.append_nil, ← hpackets, ← hsame] at hwire
    rw [Writer.unwritten, ← hwire, List.drop_length]
  obtain ⟨doneFs, todo, hframes, hclient, hawaits⟩ := hok'.awaits
  rw [hwritten] at hawaits
  obtain ⟨sock', hread, hsock'⟩ := @readPackets_until σ handle (todo.length + sock.length) _ _
    hawaits (hsteady' hsteady) le_rfl
  rw [handledUntil_eq_handled haccepts] at hread hsock'
  rw [hsock' rfl] at hread
  refine ⟨_, _, ?_, hrun.append (run_read w [] _ hread), ?_, ?_⟩
  · rw [sentFrames_append, sentFrames_append, sentFrames_write, hes2, sentFrames_read]
    rfl
  · obtain ⟨hcurrent, hout, -⟩ := hall.remains.nil
    exact ⟨hout, hcurrent, rfl, rfl⟩
  · show handled handle s.reader.client todo = _
    rw [show s.reader.client = _ from hclient, hframes]
    unfold handled
    rw [List.foldl_append]

end Steps

/-- **From one end to the other.** Whatever the order of the threads' steps, the pieces
    in which packets are written and arrive, and the errors: the packets that the other
    end hands on are the first ones of those that were sent, in order, each with its own
    contents; when nothing is under way they are all of them. A read never goes wrong,
    and on a stream that stays open it reports no error. From every state in which both
    ends are open and no DISCONNECT waits, all that was sent can still be handed on. -/
theorem channel_delivers {keepalive nextMsgOut : ℕ} {es : List ChannelEvent}
    {s : Channel (List ReadBuffer)} (hes : ∀ e ∈ es, e.Ok)
    (hr : Run (ChannelStep logPacket) (Channel.initial [] keepalive nextMsgOut) es s) :
    s.reader.client <+: (sentFrames es).map Frame.buffer ∧
      (s.Drained → s.reader.client = (sentFrames es).map Frame.buffer) ∧
      (∃ rc r', packetRead logPacket s.reader = some (rc, r') ∧
        (Steady s.reader.sock → rc = none)) ∧
      (s.writer.sock = true → Steady s.reader.sock →
        (∀ p ∈ s.writer.currentOutPacket.toList ++ s.writer.outPacket,
          ¬ p.packet.IsDisconnect) →
        ∃ es' s', sentFrames es' = [] ∧ Run (ChannelStep logPacket) s es' s' ∧
          s'.reader.client = (sentFrames es).map Frame.buffer) := by
  obtain ⟨packets, hok⟩ := (Channel.ok_initial keepalive nextMsgOut).run hes hr
  rw [List.nil_append] at hok
  obtain ⟨done, todo, hframes, hclient, hdrained⟩ := hok.handed
  rw [handled_logPacket, List.nil_append] at hclient
  refine ⟨?_, fun h => ?_, ?_, fun hsock hsteady hwaiting => ?_⟩
  · rw [hclient, hframes, List.map_append]
    exact List.prefix_append _ _
  · rw [hclient, hframes, hdrained h, List.append_nil]
  · obtain ⟨_, todo', _, _, hawaits⟩ := hok.awaits
    obtain ⟨⟨rc, r'⟩, hread, hspec⟩ := @packetRead_spec _ logPacket _ todo' s.reader hawaits
    refine ⟨rc, r', hread, fun hsteady => ?_⟩
    cases hspec with
    | waits _ _ _ _ hs => exact (hs hsteady).1
    | hands => rfl
  · obtain ⟨es', s', hsent, hrun, -, hall⟩ := hok.drains hsock hsteady hwaiting fun _ _ => rfl
    rw [handled_logPacket, List.nil_append] at hall
    exact ⟨es', s', hsent, hrun, hall⟩

/-- A ping, which is written in two pieces and arrives as one. -/
theorem channel_delivers_sample : ∃ s : Channel (List ReadBuffer),
    Run (ChannelStep logPacket) (Channel.initial [] 60 60)
      [.send (.simple pingreq) fun _ => 0, .write .take, .write (.piece 0), .write (.piece 0),
        .write (.finish 0), .deliver 1, .read] s ∧
      s.reader.client = [⟨pingreq, 0, [], 0⟩] := by
  have hr : Run (ChannelStep logPacket) (Channel.initial [] 60 60)
      [.send (.simple pingreq) fun _ => 0, .write .take, .write (.piece 0), .write (.piece 0),
        .write (.finish 0), .deliver 1, .read]
      ⟨⟨true, [], none, 60, 60, [0xC0, 0], []⟩, [], ⟨[⟨pingreq, 0, [], 0⟩], [], .initial⟩⟩ :=
    .cons rfl (.cons rfl (.cons rfl (.cons rfl (.cons rfl (.cons rfl (.cons rfl (.nil _)))))))
  have hes : ∀ e ∈ [ChannelEvent.send (.simple pingreq) fun _ => 0, .write .take,
      .write (.piece 0), .write (.piece 0), .write (.finish 0), .deliver 1, .read], e.Ok := by
    intro e he
    simp only [List.mem_cons, List.not_mem_nil, or_false] at he
    rcases he with rfl | rfl | rfl | rfl | rfl | rfl | rfl
    · exact ⟨by decide, trivial⟩
    all_goals trivial
  exact ⟨_, hr, (channel_delivers hes hr).2.1 ⟨rfl, rfl, rfl, rfl⟩⟩

end TrackerDemo.Mosquitto
