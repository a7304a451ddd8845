import TrackerDemo.Mosquitto.Link

/-!
# The keepalive

Model of `_mosquitto_check_keepalive` (`util_mosq.c`), of `mosquitto_loop_misc` and of the
time that `mosquitto_loop` waits (`mosquitto.c`), and of the other functions as far as they
set `last_msg_in`, `next_msg_out` and `ping_t`.

The loop of the library's thread waits in `select`, for as long as `selectTimeout` says at
most, reads and writes, and calls `mosquitto_loop_misc`. Besides waiting each part of it
takes `delay` seconds at most; the program's own threads publish at any time, and anything
may arrive.

Results:
* `keepalive_patient`: a connection is given up only when the broker has had the keepalive
  time for its answer to a PINGREQ.
* `keepalive_promise`: the client is never silent for longer than the keepalive time.
* `keepalive_detects`: a broker that has fallen silent is noticed within four times the
  keepalive time, whatever the client sends meanwhile.
-/

namespace TrackerDemo.Mosquitto

open TrackerDemo.CString TrackerDemo.Transition

/-! ## The functions -/

/-- `struct mosquitto` with the times that it keeps, in seconds (`mosquitto_internal.h`, lines
    153–275). -/
structure Timed where
  client : Client
  keepalive : ℕ
  lastMsgIn : ℕ
  nextMsgOut : ℕ
  lastRetryCheck : ℕ
  deriving DecidableEq, Repr

namespace Client

/-- `_mosquitto_send_pingreq` (`send_mosq.c`, lines 38–52). -/
def sendPingreq (now : ℕ) (c : Client) : Option MosqErr × Client :=
  match c.send (.simple pingreq) with
  | (none, c) => (none, { c with pingT := now })
  | (some rc, c) => (some rc, c)

/-- `mosquitto_disconnect` (`mosquitto.c`, lines 549–559), with `_mosquitto_send_disconnect`
    (`send_client_mosq.c`, lines 147–158). -/
def disconnect (c : Client) : Option MosqErr × Client :=
  let c := { c with state := .disconnecting }
  if c.sock then c.send (.simple Mosquitto.disconnect) else (some .noConn, c)

/-- `_mosquitto_socket_close` (`net_mosq.c`, lines 208–253), as far as the client sees it. -/
def socketClose (c : Client) : Client := { c with sock := false }

/-- What is queued from `c` to `c'`, where nothing is written between them. -/
def queued (c c' : Client) : List Outgoing := c'.outPackets.drop c.outPackets.length

end Client

namespace Timed

/-- `_mosquitto_check_keepalive` (`util_mosq.c`, lines 84–151). It reads the clock as `now`, and
    as `after` when it has sent a PINGREQ; no `on_disconnect` is set. -/
def checkKeepalive (now after : ℕ) (t : Timed) : Timed :=
  if t.keepalive ≠ 0 ∧ t.client.sock = true ∧
      (now ≥ t.nextMsgOut ∨ (now : ℤ) - t.lastMsgIn ≥ t.keepalive) then
    if t.client.state = .connected ∧ t.client.pingT = 0 then
      { t with
        client := (t.client.sendPingreq after).2
        lastMsgIn := now
        nextMsgOut := now + t.keepalive }
    else { t with client := t.client.socketClose }
  else t

/-- `_mosquitto_message_retry_check`, at most every other second (lines 1093–1096). -/
def retryCheck (now : ℕ) (t : Timed) : Timed :=
  if t.lastRetryCheck + 1 < now then
    { t with client := t.client.messageRetryCheck now, lastRetryCheck := now }
  else t

/-- `mosquitto_loop_misc` (`mosquitto.c`, lines 1083–1119). -/
def loopMisc (now after : ℕ) (t : Timed) : Option MosqErr × Timed :=
  if t.client.sock then
    let t := (t.checkKeepalive now after).retryCheck after
    if t.client.pingT ≠ 0 ∧ (after : ℤ) - t.client.pingT ≥ t.keepalive then
      (some .connLost, { t with client := t.client.socketClose })
    else (none, t)
  else (some .noConn, t)

end Timed

/-- How long `mosquitto_loop` waits at most, in milliseconds (lines 909–922). -/
def selectTimeout (timeout now nextMsgOut : ℤ) : ℤ :=
  let timeout := if timeout < 0 then 1000 else timeout
  let timeout := if nextMsgOut ≠ 0 ∧ now + timeout.tdiv 1000 > nextMsgOut then
    (nextMsgOut - now) * 1000 else timeout
  if timeout < 0 then 0 else timeout

/-! ## The client in time -/

/-- The client, the clock, and the time at which the thread goes on at the latest: it calls
    `mosquitto_loop_misc` when it is `looping`, and `mosquitto_loop` otherwise. `lastSent`
    is when a packet was last written, or a PINGREQ or a CONNECT queued. -/
structure Session where
  timed : Timed
  clock : ℕ
  due : ℕ
  looping : Bool
  lastSent : ℕ
  deriving DecidableEq, Repr

/-- After `mosquitto_new`, with the keepalive time that `mosquitto_connect` sets (lines
    392–443). -/
def Session.initial (keepalive clock : ℕ) : Session :=
  ⟨⟨.initial, keepalive, clock, clock + 60, 0⟩, clock, clock, false, clock⟩

inductive SessionEvent
  | advance (d : ℕ)
  | loop
  | loopMisc (after : ℕ)
  | written
  | read (p : BrokerPacket)
  | readMore
  | publish (topic payload : Bytes) (qos : ℕ) (retain : Bool)
  | sendPublish (m : Message)
  | subscribe (sub : Bytes) (qos : ℕ)
  | disconnect
  | lose
  | reconnect (sock : Bool)

def Session.withClient (s : Session) (c : Client) : Session :=
  { s with timed := { s.timed with client := c } }

/-- A step of the thread, which goes round `mosquitto_loop` (lines 836–999) in
    `mosquitto_loop_forever` (lines 1001–1081), or of another thread. `delay` bounds the time
    that the thread takes between two calls, and for `mosquitto_loop_misc`. -/
def sessionStep (delay : ℕ) (s : Session) : SessionEvent → Option Session
  | .advance d =>
    if s.timed.client.sock = true ∧ s.due < s.clock + d then none
    else some { s with clock := s.clock + d }
  | .loop =>
    if s.timed.client.sock = true ∧ s.looping = false then
      let timeout := selectTimeout (s.timed.keepalive * 1000) s.clock s.timed.nextMsgOut
      some { s with due := s.clock + (timeout / 1000).toNat + delay, looping := true }
    else none
  | .loopMisc after =>
    if s.timed.client.sock = true ∧ s.looping = true ∧
        s.clock ≤ after ∧ after ≤ s.clock + delay then
      let t := (s.timed.loopMisc s.clock after).2
      some {
        timed := t
        clock := after
        due := s.clock + delay
        looping := false
        lastSent :=
          if .simple pingreq ∈ s.timed.client.queued t.client then s.clock else s.lastSent }
    else none
  | .written =>
    match s.timed.client.outPackets with
    | [] => none
    | o :: ps =>
      if s.timed.client.sock then
        let c := { s.timed.client with outPackets := ps }
        some { s with
          timed := { s.timed with
            client := if o = .simple disconnect then c.socketClose else c
            nextMsgOut := s.clock + s.timed.keepalive }
          lastSent := s.clock }
      else none
  | .read p =>
    if s.timed.client.sock then
      let (rc, c) := p.receive s.clock s.timed.client
      some { s with timed := { s.timed with
        client := if rc = none then c else c.socketClose
        lastMsgIn := s.clock } }
    else none
  | .readMore =>
    if s.timed.client.sock then some { s with timed := { s.timed with lastMsgIn := s.clock } }
    else none
  | .publish topic payload qos retain =>
    some (s.withClient (s.timed.client.publishStart topic payload qos retain s.clock).2)
  | .sendPublish m => some (s.withClient (s.timed.client.sendPublish m).2)
  | .subscribe sub qos => some (s.withClient (s.timed.client.subscribeTo sub qos).2)
  | .disconnect => some (s.withClient s.timed.client.disconnect.2)
  | .lose => some (s.withClient s.timed.client.socketClose)
  | .reconnect sock =>
    (s.timed.client.reconnect sock).map fun c =>
      { s with
        timed := { s.timed with
          client := c
          lastMsgIn := s.clock
          nextMsgOut := s.clock + s.timed.keepalive }
        due := s.clock + delay
        looping := false
        lastSent := s.clock }

/-- The steps as a relation. -/
def SessionStep (delay : ℕ) (s : Session) (e : SessionEvent) (s' : Session) : Prop :=
  sessionStep delay s e = some s'

/-! ## What the functions do -/

/-- The waiting never goes beyond `next_msg_out`. -/
theorem selectTimeout_spec (keepalive now nextMsgOut : ℕ) :
    (selectTimeout (keepalive * 1000) now nextMsgOut / 1000).toNat ≤ keepalive ∧
      (nextMsgOut ≠ 0 → now + (selectTimeout (keepalive * 1000) now nextMsgOut / 1000).toNat ≤
        max now nextMsgOut) := by
  have hdiv : ((keepalive : ℤ) * 1000).tdiv 1000 = keepalive :=
    Int.mul_tdiv_cancel _ (by decide)
  unfold selectTimeout
  dsimp only
  rw [if_neg (show ¬ (keepalive : ℤ) * 1000 < 0 by omega), hdiv]
  split_ifs <;> omega

/-- From `c` to `c'` nothing happens to the connection. -/
structure Client.SameConnection (c c' : Client) : Prop where
  sock : c'.sock = c.sock
  state : c'.state = c.state
  pingT : c'.pingT = c.pingT

section Functions

variable {t : Timed} {now after : ℕ}

theorem Client.SameConnection.refl (c : Client) : c.SameConnection c := ⟨rfl, rfl, rfl⟩

theorem Client.sameConnection_send (o : Outgoing) (c : Client) : c.SameConnection (c.send o).2 := by
  obtain ⟨ps, he⟩ := c.send_snd o
  rw [he]
  exact ⟨rfl, rfl, rfl⟩

theorem Client.sameConnection_sendPublish (m : Message) (c : Client) :
    c.SameConnection (c.sendPublish m).2 := by
  obtain ⟨ps, he⟩ := c.sendPublish_snd m
  rw [he]
  exact ⟨rfl, rfl, rfl⟩

theorem Client.sameConnection_publishStart (topic payload : Bytes) (qos : ℕ) (retain : Bool)
    (now : ℕ) (c : Client) : c.SameConnection (c.publishStart topic payload qos retain now).2 := by
  rcases Nat.eq_zero_or_pos qos with rfl | hqos
  · exact ⟨rfl, rfl, rfl⟩
  · rw [Client.publishStart_eq topic payload hqos]
    split_ifs <;> exact ⟨rfl, rfl, rfl⟩

theorem Client.sameConnection_subscribeTo (sub : Bytes) (qos : ℕ) (c : Client) :
    c.SameConnection (c.subscribeTo sub qos).2 := by
  unfold Client.subscribeTo
  split_ifs
  · obtain ⟨hsock, hstate, hpingT⟩ :=
      c.midGenerate.2.sameConnection_send (.subscribe c.midGenerate.1 sub qos)
    exact ⟨hsock, hstate, hpingT⟩
  · exact .refl c
  · exact .refl c

theorem Client.sameConnection_messageRetryCheck (now : ℕ) (c : Client) :
    c.SameConnection (c.messageRetryCheck now) := by
  obtain ⟨out, inc, ps, he, -⟩ := c.messageRetryCheck_spec now
  rw [he]
  exact ⟨rfl, rfl, rfl⟩

theorem Client.sendPingreq_eq (now : ℕ) (c : Client) :
    (c.sendPingreq now).2 =
      { c with outPackets := c.outPackets ++ [.simple pingreq], pingT := now } := by
  have hfits : ¬ remainingLimit ≤ (Outgoing.simple pingreq).frame.body.length := by
    show ¬ remainingLimit ≤ 0
    decide
  rw [Client.sendPingreq, Client.send, if_neg hfits]

theorem Client.pingT_messageRemoveOut (mid : ℕ) (c : Client) :
    (c.messageRemoveOut mid).2.pingT = c.pingT := by
  unfold Client.messageRemoveOut
  split
  · rfl
  next cur rest _ =>
    obtain ⟨inflight, ps, he, -⟩ := Client.startWaiting_spec rest
      { c with
        outQueueLen := c.outQueueLen - 1
        inflightMessages := if cur.qos > 0 then c.inflightMessages - 1 else c.inflightMessages }
    dsimp only
    rw [he]

/-- Only a PINGRESP ends the waiting for it. -/
theorem receive_pingT (p : BrokerPacket) (now : ℕ) (c : Client) :
    (p.receive now c).2.pingT = c.pingT ∨ p = .pingresp ∧ (p.receive now c).2.pingT = 0 := by
  have hremove : ∀ mid, (BrokerPacket.receive now (.puback mid) c).2.pingT = c.pingT := by
    intro mid
    rw [← c.pingT_messageRemoveOut mid]
    rcases receive_puback now mid c with he | he
    · rw [he]
      rfl
    · rw [he]
  have hsend : ∀ (o : Outgoing) (c' : Client), (c'.send o).2.pingT = c'.pingT :=
    fun o c' => (c'.sameConnection_send o).pingT
  cases p with
  | connack ack result =>
    left
    unfold BrokerPacket.receive
    dsimp only
    split_ifs <;> rfl
  | suback mid granted => exact .inl rfl
  | unsuback mid => exact .inl rfl
  | publish mid topic payload qos retain dup =>
    obtain ⟨inQueueLen, inMessages, ps, callbacks, he⟩ := receiveMessage_frame
      ⟨if qos > 0 then mid else 0, topic, payload, qos, retain, dup, .invalid, now⟩ c
    left
    show (receiveMessage _ c).2.pingT = c.pingT
    rw [he]
  | puback mid => exact .inl (hremove mid)
  | pubcomp mid => exact .inl (hremove mid)
  | pubrec mid =>
    left
    show ((c.messageOutUpdate mid .waitForPubcomp now).2.send _).2.pingT = c.pingT
    rw [hsend]
    rcases c.messageOutUpdate_cases mid .waitForPubcomp now with he | ⟨pre, m, post, -, -, he⟩
    · rw [he]
    · rw [he]
  | pubrel mid =>
    left
    unfold BrokerPacket.receive
    dsimp only
    split
    next message c' he =>
      rw [Client.sendPubcomp, hsend]
      unfold Client.messageRemoveIn at he
      split at he
      · exact absurd he (by simp)
      · obtain ⟨-, rfl⟩ := Prod.mk.inj (Option.some.inj he)
        rfl
    next => exact hsend _ c
  | pingreq => exact .inl (hsend _ c)
  | pingresp => exact .inr ⟨rfl, rfl⟩

/-- What the retries leave alone. -/
theorem Timed.retryCheck_frame (now : ℕ) (t : Timed) :
    t.client.SameConnection (t.retryCheck now).client ∧ (t.retryCheck now).keepalive = t.keepalive ∧
      (t.retryCheck now).lastMsgIn = t.lastMsgIn ∧
      (t.retryCheck now).nextMsgOut = t.nextMsgOut := by
  unfold Timed.retryCheck
  split_ifs
  · exact ⟨t.client.sameConnection_messageRetryCheck now, rfl, rfl, rfl⟩
  · exact ⟨.refl _, rfl, rfl, rfl⟩

/-- What the retries queue. -/
theorem Timed.retryCheck_packets (now : ℕ) (t : Timed) :
    ∃ ps, (t.retryCheck now).client.outPackets = t.client.outPackets ++ ps ∧
      ∀ o ∈ ps, ∀ command, o ≠ .simple command := by
  unfold Timed.retryCheck
  split_ifs
  · exact t.client.messageRetryCheck_packets now
  · exact ⟨[], by simp⟩

/-- What `mosquitto_loop_misc` can do, on an open connection: nothing, as no time has come;
    or send a PINGREQ; or close the connection. -/
inductive Timed.Misc (now after : ℕ) (t t' : Timed) : Prop
  | idle (hout : now < t.nextMsgOut) (hin : now < t.lastMsgIn + t.keepalive)
      (hping : t.client.pingT = 0 ∨ after < t.client.pingT + t.keepalive)
      (hsame : t.client.SameConnection t'.client) (hin' : t'.lastMsgIn = t.lastMsgIn)
      (hout' : t'.nextMsgOut = t.nextMsgOut)
      (hqueued : .simple pingreq ∉ t.client.queued t'.client)
  | ping (hping : t.client.pingT = 0) (hsock : t'.client.sock = true)
      (hping' : t'.client.pingT = after) (hin' : t'.lastMsgIn = now)
      (hout' : t'.nextMsgOut = now + t.keepalive)
      (hqueued : .simple pingreq ∈ t.client.queued t'.client)
  | close (hsock : t'.client.sock = false) (hping' : t'.client.pingT = t.client.pingT)
      (hwhy : t.client.state = .connected → t.client.pingT ≠ 0 ∧
        (t.nextMsgOut ≤ now ∨ t.lastMsgIn + t.keepalive ≤ now ∨
          t.client.pingT + t.keepalive ≤ after))

theorem Timed.loopMisc_spec (hkeepalive : 0 < t.keepalive) (hsock : t.client.sock = true) :
    t.Misc now after (t.loopMisc now after).2 ∧
      (t.loopMisc now after).2.keepalive = t.keepalive := by
  have hchecked : t.loopMisc now after =
      let t := (t.checkKeepalive now after).retryCheck after
      if t.client.pingT ≠ 0 ∧ (after : ℤ) - t.client.pingT ≥ t.keepalive then
        (some .connLost, { t with client := t.client.socketClose })
      else (none, t) := if_pos hsock
  obtain ⟨⟨hsock', hstate', hpingT'⟩, hkeepalive', hin', hout'⟩ :=
    (t.checkKeepalive now after).retryCheck_frame after
  obtain ⟨ps, hpackets, hps⟩ := (t.checkKeepalive now after).retryCheck_packets after
  rw [hchecked]
  dsimp only
  rw [hpingT', hkeepalive']
  by_cases hdue : now ≥ t.nextMsgOut ∨ (now : ℤ) - t.lastMsgIn ≥ t.keepalive
  · by_cases hping : t.client.state = .connected ∧ t.client.pingT = 0
    · have hcheck : t.checkKeepalive now after = { t with
          client := { t.client with
            outPackets := t.client.outPackets ++ [.simple pingreq]
            pingT := after }
          lastMsgIn := now
          nextMsgOut := now + t.keepalive } := by
        rw [Timed.checkKeepalive, if_pos ⟨by omega, hsock, hdue⟩, if_pos hping,
          Client.sendPingreq_eq]
      rw [hcheck] at hsock' hpingT' hkeepalive' hin' hout' hpackets ⊢
      dsimp only at *
      rw [if_neg (by omega)]
      refine ⟨.ping hping.2 (hsock'.trans hsock) hpingT' hin' hout' ?_, hkeepalive'⟩
      rw [Client.queued, hpackets, List.append_assoc, List.drop_left]
      exact List.mem_cons_self
    · have hcheck : t.checkKeepalive now after = { t with client := t.client.socketClose } := by
        rw [Timed.checkKeepalive, if_pos ⟨by omega, hsock, hdue⟩, if_neg hping]
      rw [hcheck] at hsock' hpingT' hkeepalive' ⊢
      have hwhy : t.client.state = .connected → t.client.pingT ≠ 0 ∧
          (t.nextMsgOut ≤ now ∨ t.lastMsgIn + t.keepalive ≤ now ∨
            t.client.pingT + t.keepalive ≤ after) := by
        intro hstate
        refine ⟨fun h => hping ⟨hstate, h⟩, ?_⟩
        omega
      split_ifs
      · exact ⟨.close rfl hpingT' hwhy, rfl⟩
      · exact ⟨.close hsock' hpingT' hwhy, hkeepalive'⟩
  · have hcheck : t.checkKeepalive now after = t := if_neg fun h => hdue h.2.2
    rw [hcheck] at hsock' hstate' hpingT' hkeepalive' hin' hout' hpackets ⊢
    split_ifs with hlate
    · exact ⟨.close rfl hpingT' fun _ => ⟨hlate.1, by omega⟩, rfl⟩
    · have hqueued : .simple pingreq ∉ t.client.queued (t.retryCheck after).client := by
        rw [Client.queued, hpackets, List.drop_left]
        exact fun hmem => hps _ hmem pingreq rfl
      refine ⟨.idle (by omega) (by omega) ?_ ⟨hsock', hstate', hpingT'⟩ hin' hout' hqueued,
        hkeepalive'⟩
      by_cases hpingT : t.client.pingT = 0
      · exact .inl hpingT
      · have hearly : ¬ (after : ℤ) - t.client.pingT ≥ t.keepalive := fun h => hlate ⟨hpingT, h⟩
        omega

end Functions

/-! ## What the steps keep -/

/-- The times of an open connection. -/
structure Session.InTime (delay : ℕ) (s : Session) : Prop where
  lastMsgIn_le : s.timed.lastMsgIn ≤ s.clock
  lastSent_le : s.lastSent ≤ s.clock
  nextMsgOut_eq : s.timed.nextMsgOut = s.lastSent + s.timed.keepalive
  pingT_le : s.timed.client.pingT ≤ s.clock
  /-- Since the last PINGREQ both times count from it at least. -/
  ping : s.timed.client.pingT ≠ 0 →
    s.timed.client.pingT ≤ s.timed.lastMsgIn + delay ∧ s.timed.client.pingT ≤ s.lastSent + delay
  clock_le : s.clock ≤ s.due
  due_out : s.due ≤ s.timed.nextMsgOut + (if s.looping then 2 * delay else delay)
  due_le : s.due ≤ s.clock + (if s.looping then s.timed.keepalive + delay else delay)

structure Session.Ok (delay keepalive : ℕ) (s : Session) : Prop where
  keepalive_eq : s.timed.keepalive = keepalive
  clock_pos : 0 < s.clock
  inTime : s.timed.client.sock = true → s.InTime delay

section Runs

variable {delay keepalive clock : ℕ} {s s' : Session} {e : SessionEvent}

theorem Session.initial_ok (hclock : 0 < clock) :
    (Session.initial keepalive clock).Ok delay keepalive :=
  ⟨rfl, hclock, fun h => absurd h (by simp [Session.initial, Client.initial])⟩

/-- Nothing happens to the connection. -/
theorem Session.Ok.withClient (h : s.Ok delay keepalive) {c : Client}
    (hsock : c.sock = s.timed.client.sock) (hpingT : c.pingT = s.timed.client.pingT) :
    (s.withClient c).Ok delay keepalive := by
  refine ⟨h.keepalive_eq, h.clock_pos, fun hopen => ?_⟩
  have ht := h.inTime (hsock.symm.trans hopen)
  have hpingT : (s.withClient c).timed.client.pingT = s.timed.client.pingT := hpingT
  refine ⟨ht.lastMsgIn_le, ht.lastSent_le, ht.nextMsgOut_eq, ?_, ?_, ht.clock_le, ht.due_out,
    ht.due_le⟩
  · rw [hpingT]
    exact ht.pingT_le
  · rw [hpingT]
    exact ht.ping

/-- A connection that is closed. -/
theorem Session.Ok.closed (h : s.Ok delay keepalive) (hkeepalive : s'.timed.keepalive = keepalive)
    (hclock : s.clock ≤ s'.clock) (hsock : s'.timed.client.sock = false) :
    s'.Ok delay keepalive :=
  ⟨hkeepalive, h.clock_pos.trans_le hclock, fun hopen => absurd (hopen.symm.trans hsock) (by simp)⟩

theorem Session.Ok.step_loopMisc (h : s.Ok delay keepalive) (hkeepalive : 0 < keepalive) {after : ℕ}
    (hstep : SessionStep delay s (.loopMisc after) s') : s'.Ok delay keepalive := by
  unfold SessionStep at hstep
  rw [sessionStep, Option.ite_none_right_eq_some] at hstep
  obtain ⟨⟨hsock, hlooping, hafter, hdelay⟩, hs⟩ := hstep
  obtain rfl := Option.some.inj hs
  obtain ⟨hmisc, hkeepalive'⟩ := @Timed.loopMisc_spec s.timed s.clock after
    (h.keepalive_eq ▸ hkeepalive) hsock
  have hk := h.keepalive_eq
  have hpos := h.clock_pos
  obtain ⟨hin, hlast, hout, hpingT, hping, hdue, hdueOut, hdueLe⟩ := h.inTime hsock
  generalize (s.timed.loopMisc s.clock after).2 = t at hmisc hkeepalive' ⊢
  cases hmisc with
  | idle hout' hin' hping' hsame hin'' hout'' hqueued =>
    have hpingT' := hsame.pingT
    refine ⟨hkeepalive'.trans hk, hpos.trans_le hafter, fun _ => ?_⟩
    rw [if_neg hqueued]
    refine ⟨?_, ?_, ?_, ?_, ?_, hdelay, ?_, ?_⟩
    · exact hin''.trans_le (hin.trans hafter)
    · exact hlast.trans hafter
    · show t.nextMsgOut = s.lastSent + t.keepalive
      omega
    · exact hpingT'.trans_le (hpingT.trans hafter)
    · show t.client.pingT ≠ 0 → t.client.pingT ≤ t.lastMsgIn + delay ∧ _
      rw [hpingT', hin'']
      exact hping
    · show s.clock + delay ≤ t.nextMsgOut + delay
      omega
    · show s.clock + delay ≤ after + delay
      omega
  | ping hping0 hsock' hping' hin' hout' hqueued =>
    refine ⟨hkeepalive'.trans hk, hpos.trans_le hafter, fun _ => ?_⟩
    rw [if_pos hqueued]
    refine ⟨?_, hafter, ?_, hping'.le, fun _ => ⟨?_, ?_⟩, hdelay, ?_, ?_⟩
    · exact hin'.trans_le hafter
    · show t.nextMsgOut = s.clock + t.keepalive
      omega
    · show t.client.pingT ≤ t.lastMsgIn + delay
      omega
    · exact hping'.trans_le hdelay
    · show s.clock + delay ≤ t.nextMsgOut + delay
      omega
    · show s.clock + delay ≤ after + delay
      omega
  | close hsock' _ _ => exact h.closed (hkeepalive'.trans hk) hafter hsock'

theorem Session.Ok.step (h : s.Ok delay keepalive) (hkeepalive : 0 < keepalive)
    (hstep : SessionStep delay s e s') : s'.Ok delay keepalive := by
  have hk := h.keepalive_eq
  have hpos := h.clock_pos
  cases e with
  | loopMisc after => exact h.step_loopMisc hkeepalive hstep
  | advance d =>
    unfold SessionStep at hstep
    rw [sessionStep, Option.ite_none_left_eq_some] at hstep
    obtain ⟨hdue, hs⟩ := hstep
    obtain rfl := Option.some.inj hs
    refine ⟨hk, by dsimp only; omega, fun hsock => ?_⟩
    obtain ⟨hin, hlast, hout, hpingT, hping, hclock, hdueOut, hdueLe⟩ := h.inTime hsock
    have hnot : ¬ s.due < s.clock + d := fun hlt => hdue ⟨hsock, hlt⟩
    exact ⟨by dsimp only; omega, by dsimp only; omega, hout, by dsimp only; omega, hping,
      by dsimp only; omega, hdueOut, by dsimp only; omega⟩
  | loop =>
    unfold SessionStep at hstep
    rw [sessionStep, Option.ite_none_right_eq_some] at hstep
    obtain ⟨⟨hsock, hidle⟩, hs⟩ := hstep
    obtain rfl := Option.some.inj hs
    refine ⟨hk, hpos, fun _ => ?_⟩
    obtain ⟨hin, hlast, hout, hpingT, hping, hclock, hdueOut, hdueLe⟩ := h.inTime hsock
    obtain ⟨hle, hmax⟩ := selectTimeout_spec s.timed.keepalive s.clock s.timed.nextMsgOut
    rw [hidle] at hdueOut hdueLe
    have hwait := hmax (by omega)
    refine ⟨hin, hlast, hout, hpingT, hping, ?_, ?_, ?_⟩
    · dsimp only
      omega
    · show _ + delay ≤ s.timed.nextMsgOut + 2 * delay
      have hdueOut : s.due ≤ s.timed.nextMsgOut + delay := hdueOut
      omega
    · show _ + delay ≤ s.clock + (s.timed.keepalive + delay)
      omega
  | written =>
    unfold SessionStep at hstep
    rw [sessionStep] at hstep
    split at hstep
    · exact absurd hstep (by simp)
    next o ps _ =>
      rw [Option.ite_none_right_eq_some] at hstep
      obtain ⟨hsock, hs⟩ := hstep
      obtain rfl := Option.some.inj hs
      dsimp only
      split_ifs with hd
      · exact h.closed hk le_rfl rfl
      · obtain ⟨hin, hlast, hout, hpingT, hping, hclock, hdueOut, hdueLe⟩ := h.inTime hsock
        refine ⟨hk, hpos, fun _ => ⟨hin, le_rfl, rfl, hpingT, ?_, hclock, ?_, hdueLe⟩⟩
        · show s.timed.client.pingT ≠ 0 → s.timed.client.pingT ≤ s.timed.lastMsgIn + delay ∧
            s.timed.client.pingT ≤ s.clock + delay
          intro h0
          have := hping h0
          omega
        · dsimp only
          omega
  | read p =>
    unfold SessionStep at hstep
    rw [sessionStep, Option.ite_none_right_eq_some] at hstep
    obtain ⟨hsock, hs⟩ := hstep
    have hpingT' := receive_pingT p s.clock s.timed.client
    generalize p.receive s.clock s.timed.client = r at hs hpingT'
    obtain ⟨rc, c⟩ := r
    obtain rfl := Option.some.inj hs
    obtain ⟨hin, hlast, hout, hpingT, hping, hclock, hdueOut, hdueLe⟩ := h.inTime hsock
    dsimp only at hpingT' ⊢
    split_ifs with hrc
    · refine ⟨hk, hpos, fun _ => ⟨le_rfl, hlast, hout, ?_, ?_, hclock, hdueOut, hdueLe⟩⟩
      · show c.pingT ≤ s.clock
        omega
      · show c.pingT ≠ 0 → c.pingT ≤ s.clock + delay ∧ c.pingT ≤ s.lastSent + delay
        omega
    · exact h.closed hk le_rfl rfl
  | readMore =>
    unfold SessionStep at hstep
    rw [sessionStep, Option.ite_none_right_eq_some] at hstep
    obtain ⟨hsock, hs⟩ := hstep
    obtain rfl := Option.some.inj hs
    obtain ⟨hin, hlast, hout, hpingT, hping, hclock, hdueOut, hdueLe⟩ := h.inTime hsock
    refine ⟨hk, hpos, fun _ => ⟨le_rfl, hlast, hout, hpingT, ?_, hclock, hdueOut, hdueLe⟩⟩
    dsimp only
    omega
  | publish topic payload qos retain =>
    obtain rfl := Option.some.inj hstep
    have hsame := s.timed.client.sameConnection_publishStart topic payload qos retain s.clock
    exact h.withClient hsame.sock hsame.pingT
  | sendPublish m =>
    obtain rfl := Option.some.inj hstep
    have hsame := s.timed.client.sameConnection_sendPublish m
    exact h.withClient hsame.sock hsame.pingT
  | subscribe sub qos =>
    obtain rfl := Option.some.inj hstep
    have hsame := s.timed.client.sameConnection_subscribeTo sub qos
    exact h.withClient hsame.sock hsame.pingT
  | disconnect =>
    obtain rfl := Option.some.inj hstep
    unfold Client.disconnect
    dsimp only
    split_ifs
    · have hsame := Client.sameConnection_send (.simple disconnect)
        { s.timed.client with state := .disconnecting }
      exact h.withClient hsame.sock hsame.pingT
    · exact h.withClient rfl rfl
  | lose =>
    obtain rfl := Option.some.inj hstep
    exact h.closed hk le_rfl rfl
  | reconnect sock =>
    unfold SessionStep at hstep
    rw [sessionStep, Option.map_eq_some_iff] at hstep
    obtain ⟨c, hreconnect, rfl⟩ := hstep
    obtain ⟨inQueueLen, inMessages, rfl⟩ := Client.reconnect_eq hreconnect
    refine ⟨hk, hpos, fun _ => ⟨le_rfl, le_rfl, rfl, Nat.zero_le _, ?_, ?_, ?_, le_rfl⟩⟩
    · exact fun h0 => absurd rfl h0
    · exact Nat.le_add_right _ _
    · show s.clock + delay ≤ s.clock + s.timed.keepalive + delay
      omega

theorem Session.run_ok (hkeepalive : 0 < keepalive) (hclock : 0 < clock) {es : List SessionEvent}
    (hr : Run (SessionStep delay) (Session.initial keepalive clock) es s) :
    s.Ok delay keepalive :=
  hr.invariant (fun _ _ _ h hstep => h.step hkeepalive hstep) (Session.initial_ok hclock)

/-! ## PINGREQ and PINGRESP -/

/-- The call of `mosquitto_loop_misc` from `s` to `s'`, which ends at the time `sent`, sends a
    PINGREQ: the packet is queued, and `ping_t` was 0 and is `sent` now. -/
structure SendsPing (delay sent : ℕ) (s s' : Session) : Prop where
  step : SessionStep delay s (.loopMisc sent) s'
  queued : .simple pingreq ∈ s.timed.client.queued s'.timed.client
  pingT : s.timed.client.pingT = 0
  pingT' : s'.timed.client.pingT = sent
  sent_ne : sent ≠ 0

/-- A step after which the client waits for a PINGRESP sends the PINGREQ, or it has waited
    before. -/
theorem step_pingT (h : s.Ok delay keepalive) (hkeepalive : 0 < keepalive)
    (hstep : SessionStep delay s e s') (hping : s'.timed.client.pingT ≠ 0) :
    e = .loopMisc s'.timed.client.pingT ∧ SendsPing delay s'.timed.client.pingT s s' ∨
      s.timed.client.pingT = s'.timed.client.pingT ∧ e ≠ .read .pingresp ∧
        ∀ sock, e ≠ .reconnect sock := by
  have hcall := hstep
  unfold SessionStep at hstep
  cases e with
  | loopMisc after =>
    rw [sessionStep, Option.ite_none_right_eq_some] at hstep
    obtain ⟨⟨hsock, -, -, -⟩, hs⟩ := hstep
    obtain rfl := Option.some.inj hs
    obtain ⟨hmisc, -⟩ := @Timed.loopMisc_spec s.timed s.clock after
      (h.keepalive_eq ▸ hkeepalive) hsock
    cases hmisc with
    | idle _ _ _ hsame _ _ _ => exact .inr ⟨hsame.pingT.symm, by simp, by simp⟩
    | ping hping0 _ hping' _ _ hqueued =>
      have hsent : after = (s.timed.loopMisc s.clock after).2.client.pingT := hping'.symm
      exact .inl ⟨congrArg _ hsent, hsent ▸ hcall, hqueued, hping0, rfl, hping⟩
    | close _ hping' _ => exact .inr ⟨hping'.symm, by simp, by simp⟩
  | read p =>
    rw [sessionStep, Option.ite_none_right_eq_some] at hstep
    obtain ⟨hsock, hs⟩ := hstep
    have hpingT' := receive_pingT p s.clock s.timed.client
    have hpingresp : p = .pingresp → (p.receive s.clock s.timed.client).2.pingT = 0 := by
      rintro rfl
      rfl
    generalize p.receive s.clock s.timed.client = r at hs hpingT' hpingresp
    obtain ⟨rc, c⟩ := r
    obtain rfl := Option.some.inj hs
    have hc : (if rc = none then c else c.socketClose).pingT = c.pingT := by split_ifs <;> rfl
    have hping : (if rc = none then c else c.socketClose).pingT ≠ 0 := hping
    right
    dsimp only at hpingT' hpingresp ⊢
    rw [hc] at hping ⊢
    refine ⟨?_, ?_, by simp⟩
    · rcases hpingT' with he | ⟨-, he⟩
      · exact he.symm
      · exact absurd he hping
    · intro he
      exact hping (hpingresp (SessionEvent.read.inj he))
  | reconnect sock =>
    rw [sessionStep, Option.map_eq_some_iff] at hstep
    obtain ⟨c, hreconnect, rfl⟩ := hstep
    obtain ⟨inQueueLen, inMessages, rfl⟩ := Client.reconnect_eq hreconnect
    exact absurd rfl hping
  | advance d =>
    rw [sessionStep, Option.ite_none_left_eq_some] at hstep
    obtain rfl := Option.some.inj hstep.2
    exact .inr ⟨rfl, by simp, by simp⟩
  | loop =>
    rw [sessionStep, Option.ite_none_right_eq_some] at hstep
    obtain rfl := Option.some.inj hstep.2
    exact .inr ⟨rfl, by simp, by simp⟩
  | written =>
    rw [sessionStep] at hstep
    split at hstep
    · exact absurd hstep (by simp)
    next o ps _ =>
      rw [Option.ite_none_right_eq_some] at hstep
      obtain rfl := Option.some.inj hstep.2
      refine .inr ⟨?_, by simp, by simp⟩
      dsimp only
      split_ifs <;> rfl
  | readMore =>
    rw [sessionStep, Option.ite_none_right_eq_some] at hstep
    obtain rfl := Option.some.inj hstep.2
    exact .inr ⟨rfl, by simp, by simp⟩
  | publish topic payload qos retain =>
    obtain rfl := Option.some.inj hstep
    have hsame := s.timed.client.sameConnection_publishStart topic payload qos retain s.clock
    exact .inr ⟨hsame.pingT.symm, by simp, by simp⟩
  | sendPublish m =>
    obtain rfl := Option.some.inj hstep
    exact .inr ⟨(s.timed.client.sameConnection_sendPublish m).pingT.symm, by simp, by simp⟩
  | subscribe sub qos =>
    obtain rfl := Option.some.inj hstep
    exact .inr ⟨(s.timed.client.sameConnection_subscribeTo sub qos).pingT.symm, by simp, by simp⟩
  | disconnect =>
    obtain rfl := Option.some.inj hstep
    refine .inr ⟨?_, by simp, by simp⟩
    show s.timed.client.pingT = s.timed.client.disconnect.2.pingT
    unfold Client.disconnect
    dsimp only
    split_ifs
    · exact (Client.sameConnection_send (.simple disconnect)
        { s.timed.client with state := .disconnecting }).pingT.symm
    · rfl
  | lose =>
    obtain rfl := Option.some.inj hstep
    exact .inr ⟨rfl, by simp, by simp⟩

/-- While the client waits for a PINGRESP, none has been read since it sent the PINGREQ. -/
theorem ping_unanswered (hkeepalive : 0 < keepalive) (hclock : 0 < clock) {es : List SessionEvent}
    (hr : Run (SessionStep delay) (Session.initial keepalive clock) es s) :
    s.timed.client.pingT ≠ 0 → ∃ es1 es2 t t', es = es1 ++ .loopMisc s.timed.client.pingT :: es2 ∧
      Run (SessionStep delay) (Session.initial keepalive clock) es1 t ∧
      SendsPing delay s.timed.client.pingT t t' ∧
      ∀ e ∈ es2, e ≠ .read .pingresp ∧ ∀ sock, e ≠ .reconnect sock := by
  apply Run.reverseInduction _ _ hr
  · intro h
    exact absurd rfl h
  · intro es s e s' hr ih hstep hping
    have hok := Session.run_ok hkeepalive hclock hr
    rcases step_pingT hok hkeepalive hstep hping with ⟨rfl, hsends⟩ | ⟨heq, hne, hre⟩
    · exact ⟨es, [], s, s', rfl, hr, hsends, by simp⟩
    · rw [← heq] at hping ⊢
      obtain ⟨es1, es2, t, t', rfl, hrun, hsends, hes2⟩ := ih hping
      refine ⟨es1, es2 ++ [e], t, t', by simp, hrun, hsends, fun e' he' => ?_⟩
      rcases List.mem_append.1 he' with he' | he'
      · exact hes2 e' he'
      · rw [List.mem_singleton.1 he']
        exact ⟨hne, hre⟩

/-- **The client is patient**: when `mosquitto_loop_misc` closes the connection of a client
    that is connected, an earlier call of it has sent a PINGREQ the keepalive time ago, and
    no PINGRESP has been read since. -/
theorem keepalive_patient (hkeepalive : 0 < keepalive) (hclock : 0 < clock)
    {es : List SessionEvent} (hr : Run (SessionStep delay) (Session.initial keepalive clock) es s)
    {after : ℕ} (hstep : SessionStep delay s (.loopMisc after) s')
    (hclosed : s'.timed.client.sock = false) (hconnected : s.timed.client.state = .connected) :
    ∃ es1 sent es2 t t', es = es1 ++ .loopMisc sent :: es2 ∧
      Run (SessionStep delay) (Session.initial keepalive clock) es1 t ∧ SendsPing delay sent t t' ∧
      sent + keepalive ≤ after + delay ∧
      ∀ e ∈ es2, e ≠ .read .pingresp ∧ ∀ sock, e ≠ .reconnect sock := by
  have hok := Session.run_ok hkeepalive hclock hr
  have hping := ping_unanswered hkeepalive hclock hr
  unfold SessionStep at hstep
  rw [sessionStep, Option.ite_none_right_eq_some] at hstep
  obtain ⟨⟨hsock, -, hafter, -⟩, hs⟩ := hstep
  obtain rfl := Option.some.inj hs
  have hk := hok.keepalive_eq
  have ht := hok.inTime hsock
  have hout := ht.nextMsgOut_eq
  obtain ⟨hmisc, -⟩ := @Timed.loopMisc_spec s.timed s.clock after (hk ▸ hkeepalive) hsock
  cases hmisc with
  | idle _ _ _ hsame _ _ _ =>
    have := hsame.sock.symm.trans hclosed
    exact absurd (hsock.symm.trans this) (by simp)
  | ping _ hsock' _ _ _ _ => exact absurd (hsock'.symm.trans hclosed) (by simp)
  | close _ _ hwhy =>
    obtain ⟨hpingT, hlate⟩ := hwhy hconnected
    obtain ⟨es1, es2, t, t', hes, hrun, hsends, hes2⟩ := hping hpingT
    obtain ⟨hin, hsent⟩ := ht.ping hpingT
    exact ⟨es1, _, es2, t, t', hes, hrun, hsends, by omega, hes2⟩

/-- The broker does not answer the first PINGREQ. -/
theorem keepalive_patient_sample : ∃ es s s', Run (SessionStep 0) (Session.initial 60 1) es s ∧
    SessionStep 0 s (.loopMisc 121) s' ∧ s'.timed.client.sock = false ∧
    ∃ es1 sent es2 t t', es = es1 ++ .loopMisc sent :: es2 ∧
      Run (SessionStep 0) (Session.initial 60 1) es1 t ∧ SendsPing 0 sent t t' ∧
      sent + 60 ≤ 121 + 0 ∧ ∀ e ∈ es2, e ≠ .read .pingresp ∧ ∀ sock, e ≠ .reconnect sock := by
  have hr : Run (SessionStep 0) (Session.initial 60 1) [.reconnect true, .read (.connack 0 0),
      .loop, .advance 60, .loopMisc 61, .loop, .advance 60] _ :=
    .cons rfl (.cons rfl (.cons rfl (.cons rfl (.cons rfl (.cons rfl (.cons rfl (.nil _)))))))
  exact ⟨_, _, _, hr, rfl, rfl, keepalive_patient (by decide) (by decide) hr rfl rfl rfl⟩

/-- Nothing comes from the broker. -/
def SessionEvent.Silent : SessionEvent → Prop
  | .read _ | .readMore | .reconnect _ => False
  | _ => True

/-- When `mosquitto_loop_misc` is called next, at the latest. -/
def Session.nextMisc (delay : ℕ) (s : Session) : ℕ :=
  if s.looping then s.due else s.due + s.timed.keepalive + delay

/-- The connection is open, and the broker has been silent since `start`. First a PINGREQ
    becomes due, and then its answer. -/
structure Session.Fading (delay start : ℕ) (s : Session) : Prop where
  idle : s.timed.client.pingT = 0 → s.timed.lastMsgIn ≤ start ∧
    s.nextMisc delay ≤ start + 2 * s.timed.keepalive + 2 * delay
  waiting : s.timed.client.pingT ≠ 0 →
    s.timed.client.pingT ≤ start + 2 * s.timed.keepalive + 3 * delay ∧
      s.nextMisc delay ≤ start + 4 * s.timed.keepalive + 5 * delay

variable {start : ℕ}

theorem Session.InTime.fading (h : s.InTime delay) : s.Fading delay s.clock := by
  obtain ⟨hin, -, -, hpingT, -, -, -, hdueLe⟩ := h
  have hnext : s.nextMisc delay ≤ s.clock + s.timed.keepalive + 2 * delay := by
    unfold Session.nextMisc
    split_ifs at hdueLe ⊢ <;> omega
  exact ⟨fun _ => ⟨hin, by omega⟩, fun _ => ⟨by omega, by omega⟩⟩

/-- Nothing happens to the connection. -/
theorem Session.Fading.of_eq (h : s.Fading delay start)
    (hkeepalive : s'.timed.keepalive = s.timed.keepalive)
    (hping : s'.timed.client.pingT = s.timed.client.pingT)
    (hin : s'.timed.lastMsgIn = s.timed.lastMsgIn) (hnext : s'.nextMisc delay ≤ s.nextMisc delay) :
    s'.Fading delay start := by
  obtain ⟨hidle, hwaiting⟩ := h
  constructor
  · rw [hping, hin, hkeepalive]
    omega
  · rw [hping, hkeepalive]
    omega

theorem Session.Fading.step_loopMisc (h : s.Fading delay start) (hok : s.Ok delay keepalive)
    (hkeepalive : 0 < keepalive) {after : ℕ} (hstep : SessionStep delay s (.loopMisc after) s')
    (hopen : s'.timed.client.sock = true) : s'.Fading delay start := by
  unfold SessionStep at hstep
  rw [sessionStep, Option.ite_none_right_eq_some] at hstep
  obtain ⟨⟨hsock, hlooping, hafter, hdelay⟩, hs⟩ := hstep
  obtain rfl := Option.some.inj hs
  obtain ⟨hmisc, hkeepalive'⟩ := @Timed.loopMisc_spec s.timed s.clock after
    (hok.keepalive_eq ▸ hkeepalive) hsock
  have hpos := hok.clock_pos
  have hclock := (hok.inTime hsock).clock_le
  have hnow : s.nextMisc delay = s.due := if_pos hlooping
  obtain ⟨hidle, hwaiting⟩ := h
  rw [hnow] at hidle hwaiting
  generalize (s.timed.loopMisc s.clock after).2 = t at hmisc hkeepalive' hopen ⊢
  -- the next call is due one round later
  have hnext : ∀ lastSent, Session.nextMisc delay ⟨t, after, s.clock + delay, false, lastSent⟩ =
      s.clock + delay + t.keepalive + delay := fun _ => rfl
  cases hmisc with
  | idle _ hin hping hsame hin' _ _ =>
    have hpingT := hsame.pingT
    refine ⟨?_, ?_⟩
    · rw [hnext]
      dsimp only
      omega
    · rw [hnext]
      dsimp only
      omega
  | ping hping _ hping' _ _ _ =>
    refine ⟨?_, ?_⟩
    · dsimp only
      omega
    · rw [hnext]
      dsimp only
      omega
  | close hclosed _ _ => exact absurd (hopen.symm.trans hclosed) (by simp)

theorem Session.Fading.step (h : s.timed.client.sock = true → s.Fading delay start)
    (hok : s.Ok delay keepalive) (hkeepalive : 0 < keepalive) (he : e.Silent)
    (hstep : SessionStep delay s e s') :
    s'.timed.client.sock = true → s'.Fading delay start := by
  intro hopen
  cases e with
  | loopMisc after =>
    have hsock : s.timed.client.sock = true := by
      unfold SessionStep at hstep
      rw [sessionStep, Option.ite_none_right_eq_some] at hstep
      exact hstep.1.1
    exact (h hsock).step_loopMisc hok hkeepalive hstep hopen
  | advance d =>
    unfold SessionStep at hstep
    rw [sessionStep, Option.ite_none_left_eq_some] at hstep
    obtain rfl := Option.some.inj hstep.2
    exact (h hopen).of_eq rfl rfl rfl le_rfl
  | loop =>
    unfold SessionStep at hstep
    rw [sessionStep, Option.ite_none_right_eq_some] at hstep
    obtain ⟨⟨hsock, hidle⟩, hs⟩ := hstep
    obtain rfl := Option.some.inj hs
    refine (h hsock).of_eq rfl rfl rfl ?_
    obtain ⟨hle, -⟩ := selectTimeout_spec s.timed.keepalive s.clock s.timed.nextMsgOut
    have hclock := (hok.inTime hsock).clock_le
    have hnext : s.nextMisc delay = s.due + s.timed.keepalive + delay := if_neg (by simp [hidle])
    rw [hnext]
    show s.clock + _ + delay ≤ s.due + s.timed.keepalive + delay
    omega
  | written =>
    unfold SessionStep at hstep
    rw [sessionStep] at hstep
    split at hstep
    · exact absurd hstep (by simp)
    next o ps _ =>
      rw [Option.ite_none_right_eq_some] at hstep
      obtain ⟨hsock, hs⟩ := hstep
      obtain rfl := Option.some.inj hs
      refine (h hsock).of_eq rfl ?_ rfl le_rfl
      dsimp only
      split_ifs <;> rfl
  | publish topic payload qos retain =>
    obtain rfl := Option.some.inj hstep
    have hsame := s.timed.client.sameConnection_publishStart topic payload qos retain s.clock
    exact (h (hsame.sock.symm.trans hopen)).of_eq rfl hsame.pingT rfl le_rfl
  | sendPublish m =>
    obtain rfl := Option.some.inj hstep
    have hsame := s.timed.client.sameConnection_sendPublish m
    exact (h (hsame.sock.symm.trans hopen)).of_eq rfl hsame.pingT rfl le_rfl
  | subscribe sub qos =>
    obtain rfl := Option.some.inj hstep
    have hsame := s.timed.client.sameConnection_subscribeTo sub qos
    exact (h (hsame.sock.symm.trans hopen)).of_eq rfl hsame.pingT rfl le_rfl
  | disconnect =>
    obtain rfl := Option.some.inj hstep
    have hsame : s.timed.client.disconnect.2.sock = s.timed.client.sock ∧
        s.timed.client.disconnect.2.pingT = s.timed.client.pingT := by
      unfold Client.disconnect
      dsimp only
      split_ifs
      · have hsent := Client.sameConnection_send (.simple disconnect)
          { s.timed.client with state := .disconnecting }
        exact ⟨hsent.sock, hsent.pingT⟩
      · exact ⟨rfl, rfl⟩
    exact (h (hsame.1.symm.trans hopen)).of_eq rfl hsame.2 rfl le_rfl
  | lose =>
    obtain rfl := Option.some.inj hstep
    exact absurd hopen (by simp [Session.withClient, Client.socketClose])
  | read p => exact absurd he id
  | readMore => exact absurd he id
  | reconnect sock => exact absurd he id

theorem Session.Fading.run {es : List SessionEvent} (hr : Run (SessionStep delay) s es s')
    (hkeepalive : 0 < keepalive) (hsilent : ∀ e ∈ es, e.Silent) (hok : s.Ok delay keepalive)
    (h : s.timed.client.sock = true → s.Fading delay start) :
    s'.Ok delay keepalive ∧ (s'.timed.client.sock = true → s'.Fading delay start) := by
  induction hr with
  | nil => exact ⟨hok, h⟩
  | cons hstep _ ih =>
    rw [List.forall_mem_cons] at hsilent
    exact ih hsilent.2 (hok.step hkeepalive hstep)
      (Session.Fading.step h hok hkeepalive hsilent.1 hstep)

/-- **A silent broker is noticed**: when nothing more comes from the broker, the connection
    is closed within four times the keepalive time, whatever the program's threads publish
    and the client writes meanwhile. -/
theorem keepalive_detects (hkeepalive : 0 < keepalive) (hclock : 0 < clock)
    {es es' : List SessionEvent}
    (hr : Run (SessionStep delay) (Session.initial keepalive clock) es s)
    (hr' : Run (SessionStep delay) s es' s') (hsilent : ∀ e ∈ es', e.Silent)
    (hopen : s'.timed.client.sock = true) :
    s'.clock ≤ s.clock + 4 * keepalive + 5 * delay := by
  have hok := Session.run_ok hkeepalive hclock hr
  obtain ⟨hok', hfading⟩ := Session.Fading.run hr' hkeepalive hsilent hok
    fun hsock => (hok.inTime hsock).fading
  obtain ⟨hidle, hwaiting⟩ := hfading hopen
  have hk := hok'.keepalive_eq
  have hnext : s'.clock ≤ s'.nextMisc delay := by
    have := (hok'.inTime hopen).clock_le
    unfold Session.nextMisc
    split_ifs <;> omega
  omega

/-- The bound is met, up to two seconds, when a packet is written just before each time at
    which the silence would be noticed. -/
theorem keepalive_detects_sample : ∃ s es' s',
    Run (SessionStep 0) (Session.initial 60 1) [.reconnect true, .read (.connack 0 0)] s ∧
    Run (SessionStep 0) s es' s' ∧ (∀ e ∈ es', e.Silent) ∧ s'.timed.client.sock = true ∧
    s'.clock = s.clock + 238 ∧ s'.clock ≤ s.clock + 4 * 60 + 5 * 0 := by
  have hr : Run (SessionStep 0) (Session.initial 60 1) [.reconnect true, .read (.connack 0 0)]
      ⟨⟨{ Client.initial with sock := true, state := .connected, callbacks := [.onConnect 0] },
        60, 1, 61, 0⟩, 1, 1, false, 1⟩ :=
    .cons rfl (.cons rfl (.nil _))
  have hr' : Run (SessionStep 0)
      ⟨⟨{ Client.initial with sock := true, state := .connected, callbacks := [.onConnect 0] },
        60, 1, 61, 0⟩, 1, 1, false, 1⟩ [.loop, .advance 59,
      .sendPublish ⟨0, [97], [120], 0, false, false, .invalid, 60⟩, .written, .loopMisc 60,
      .loop, .advance 60, .loopMisc 120, .loop, .advance 59, .written, .loopMisc 179,
      .loop, .advance 60] _ :=
    .cons rfl (.cons rfl (.cons rfl (.cons rfl (.cons rfl (.cons rfl (.cons rfl (.cons rfl
      (.cons rfl (.cons rfl (.cons rfl (.cons rfl (.cons rfl (.cons rfl (.nil _))))))))))))))
  have hsilent : ∀ e ∈ [SessionEvent.loop, .advance 59,
      .sendPublish ⟨0, [97], [120], 0, false, false, .invalid, 60⟩, .written, .loopMisc 60,
      .loop, .advance 60, .loopMisc 120, .loop, .advance 59, .written, .loopMisc 179,
      .loop, .advance 60], e.Silent := by simp [SessionEvent.Silent]
  exact ⟨_, _, _, hr, hr', hsilent, rfl, rfl,
    keepalive_detects (by decide) (by decide) hr hr' hsilent rfl⟩

end Runs

end TrackerDemo.Mosquitto
