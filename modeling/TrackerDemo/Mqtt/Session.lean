import TrackerDemo.Lib.Transition
import Mathlib.Logic.Function.Basic
import Mathlib.Data.Fintype.Basic

/-!
# The MQTT session

The reporter thread (`trackerDemo.c`, lines 295–327), the library's network
thread and the broker, as a system of interleaved steps. The client is made with
`clean_session` true, so the broker forgets its subscriptions on every accepted
CONNECT; the two SUBSCRIBEs are issued once, by the start-up sequence, and the
connect callback issues none.

Results:
* `subscriptions_survive`: the subscriptions are complete in every settled state
  of a run in which no accepted CONNECT comes after a lost SUBSCRIBE.
* `lost_of_accept`, `subscription_lost_for_good`: after such a CONNECT the
  subscription never comes back.
-/

namespace TrackerDemo.Mqtt

open TrackerDemo.Transition

/-- `MQTT_TOPIC_ID_STOW_WEBAPP` and `MQTT_TOPIC_ID_STOW_RULES_ENGINE`. -/
inductive Topic
  | stowWebApp | stowRulesEngine
  deriving DecidableEq, Repr

instance : Fintype Topic := ⟨{.stowWebApp, .stowRulesEngine}, fun t => by cases t <;> decide⟩

/-- What the client sends. -/
inductive Packet
  | connect (cleanSession : Bool)
  | subscribe (topic : Topic)
  | publish
  deriving DecidableEq, Repr

/-- What the broker answers. -/
inductive Reply
  | connack (accepted : Bool)
  | suback (topic : Topic)
  deriving DecidableEq, Repr

/-- Where `ReportToBroker_thread` is: before `MQTT_init`, before the
    `MQTT_subscribe` for a topic, in its loop, or behind an `exit(1)`. -/
inductive Reporter
  | starting
  | subscribing (topic : Topic)
  | reporting
  | exited
  deriving DecidableEq, Repr

/-- The next step of the start-up sequence after the SUBSCRIBE for a topic. -/
def Reporter.afterSubscribe : Topic → Reporter
  | .stowWebApp => .subscribing .stowRulesEngine
  | .stowRulesEngine => .reporting

/-- The start-up sequence has issued the SUBSCRIBE for the topic. -/
def Reporter.issued : Reporter → Topic → Bool
  | .starting, _ => false
  | .subscribing .stowWebApp, _ => false
  | .subscribing .stowRulesEngine, t => t = .stowWebApp
  | .reporting, _ => true
  | .exited, _ => false

/-- The client, the network and the broker's session for the client. -/
structure Session where
  reporter : Reporter
  /-- `mosq->sock != INVALID_SOCKET`. -/
  sockValid : Bool
  /-- The TCP connection exists. The client may not have noticed that it does
      not. -/
  linkUp : Bool
  /-- Sent on the current connection and not handled by the broker yet. -/
  outgoing : List Packet
  /-- Sent by the broker and not handled by the client yet. -/
  incoming : List Reply
  /-- The broker has accepted the current connection. -/
  accepted : Bool
  subscriptions : Topic → Bool

def Session.initial : Session :=
  ⟨.starting, false, false, [], [], false, fun _ => false⟩

/-- The flag that `MQTT_init` gives to `mosquitto_new` (line 114). -/
def mqttCleanSession : Bool := true

/-- What `MQTT_callback_connect` sends (lines 225–228). -/
def mqttCallbackConnect (_returnCode : Bool) : List Packet := []

/-- What `MQTT_callback_subscribe` sends (lines 230–233). -/
def mqttCallbackSubscribe (_topic : Topic) : List Packet := []

/-! ## Steps -/

/-- The steps of the three parties. -/
inductive Event
  /-- `MQTT_init`, whose `mosquitto_connect` succeeds or not. -/
  | init (connected : Bool)
  /-- The reporter's next `MQTT_subscribe`. -/
  | subscribe
  /-- `MQTT_publish`, or the library sending a message again. -/
  | publish
  /-- The broker handles the next packet; a CONNECT is accepted or refused. -/
  | handle (accept : Bool)
  /-- The network thread handles the next answer and runs its callback. -/
  | receive
  /-- The connection is lost. -/
  | lose
  /-- The network thread notices the loss and closes the socket. -/
  | notice
  /-- `mosquitto_reconnect`, which connects or not. -/
  | reconnect (connected : Bool)
  deriving DecidableEq, Repr

/-- Packets reach the queue while the connection exists. -/
def Session.send (s : Session) (ps : List Packet) : Session :=
  if s.linkUp then { s with outgoing := s.outgoing ++ ps } else s

/-- `exit(1)`. -/
def Session.exit (s : Session) : Session :=
  { s with
    reporter := .exited, sockValid := false, linkUp := false
    outgoing := [], incoming := [], accepted := false }

/-- A new connection: only CONNECT is sent. -/
def Session.opened (s : Session) : Session :=
  { s with
    sockValid := true, linkUp := true
    outgoing := [.connect mqttCleanSession], incoming := [], accepted := false }

/-- The broker handles a packet. -/
def Session.handled (s : Session) (accept : Bool) : Packet → List Packet → Session
  | .connect clean, rest =>
    if accept then
      { s with
        outgoing := rest, incoming := s.incoming ++ [.connack true], accepted := true
        subscriptions := if clean then fun _ => false else s.subscriptions }
    else
      -- a refused connection is closed by the broker
      { s with outgoing := [], incoming := s.incoming ++ [.connack false], linkUp := false }
  | .subscribe t, rest =>
    { s with
      outgoing := rest, incoming := s.incoming ++ [.suback t]
      subscriptions := Function.update s.subscriptions t true }
  | .publish, rest => { s with outgoing := rest }

/-- The callback of an answer. -/
def Reply.callback : Reply → List Packet
  | .connack accepted => mqttCallbackConnect accepted
  | .suback t => mqttCallbackSubscribe t

/-- When a step is possible. -/
def Session.Enabled (s : Session) : Event → Prop
  | .init _ => s.reporter = .starting
  | .subscribe => ∃ t, s.reporter = .subscribing t
  | .publish => s.sockValid = true
  | .handle _ => s.linkUp = true ∧ s.outgoing ≠ []
  | .receive => s.sockValid = true ∧ s.incoming ≠ []
  | .lose => s.linkUp = true
  | .notice => s.sockValid = true ∧ s.linkUp = false
  | .reconnect _ =>
    s.sockValid = false ∧ s.reporter ≠ .starting ∧ s.reporter ≠ .exited

instance (s : Session) (e : Event) : Decidable (s.Enabled e) := by
  cases e <;> unfold Session.Enabled <;> infer_instance

/-- What a step does. -/
def Session.next (s : Session) : Event → Session
  | .init connected =>
    if connected then { s.opened with reporter := .subscribing .stowWebApp } else s.exit
  | .subscribe =>
    match s.reporter with
    | .subscribing t =>
      if s.sockValid then { s.send [.subscribe t] with reporter := .afterSubscribe t }
      else s.exit
    | _ => s
  | .publish => s.send [.publish]
  | .handle accept =>
    match s.outgoing with
    | [] => s
    | p :: rest => s.handled accept p rest
  | .receive =>
    match s.incoming with
    | [] => s
    | r :: rest => { s with incoming := rest }.send r.callback
  | .lose => { s with linkUp := false, outgoing := [], accepted := false }
  | .notice => { s with sockValid := false }
  | .reconnect connected => if connected then s.opened else s

/-- A step of the system. -/
def sessionStep (s : Session) (e : Event) (s' : Session) : Prop := s.Enabled e ∧ s.next e = s'

section

variable {s s' : Session}

/-- A `MQTT_subscribe` sends its packet, or exits the program. -/
theorem sessionStep_subscribe (h : sessionStep s .subscribe s') :
    ∃ t, s.reporter = .subscribing t ∧
      (s' = { s.send [.subscribe t] with reporter := .afterSubscribe t } ∨ s' = s.exit) := by
  obtain ⟨⟨t, ht⟩, rfl⟩ := h
  refine ⟨t, ht, ?_⟩
  unfold Session.next
  rw [ht]
  dsimp only
  split_ifs
  · exact .inl rfl
  · exact .inr rfl

/-- The broker handles the packet at the head of the queue. -/
theorem sessionStep_handle {accept : Bool} (h : sessionStep s (.handle accept) s') :
    ∃ p rest, s.linkUp = true ∧ s.outgoing = p :: rest ∧ s' = s.handled accept p rest := by
  obtain ⟨⟨hup, hne⟩, rfl⟩ := h
  obtain ⟨p, rest, hout⟩ := List.exists_cons_of_ne_nil hne
  refine ⟨p, rest, hup, hout, ?_⟩
  unfold Session.next
  rw [hout]

/-- No answer makes the library send a packet. -/
theorem sessionStep_receive (h : sessionStep s .receive s') :
    ∃ rest, s' = Session.send { s with incoming := rest } [] := by
  obtain ⟨⟨-, hne⟩, rfl⟩ := h
  obtain ⟨r, rest, hin⟩ := List.exists_cons_of_ne_nil hne
  have hsilent : r.callback = [] := by cases r <;> rfl
  refine ⟨rest, ?_⟩
  unfold Session.next
  rw [hin]
  dsimp only
  rw [hsilent]

end

/-! ## The property -/

/-- The broker has accepted the connection, and no SUBSCRIBE is in flight or
    still to be issued. -/
structure Settled (s : Session) : Prop where
  accepted : s.accepted = true
  issued : s.reporter = .reporting
  noneInFlight : ∀ t, .subscribe t ∉ s.outgoing

/-- Both stow topics are subscribed to. -/
def Subscribed (s : Session) : Prop := ∀ t, s.subscriptions t = true

/-- If the step is the broker accepting a CONNECT, then every SUBSCRIBE issued
    so far is queued behind it. -/
def NothingLost (s : Session) (e : Event) : Prop :=
  e = .handle true → ∀ clean, s.outgoing.head? = some (.connect clean) →
    ∀ t, s.reporter.issued t = true → .subscribe t ∈ s.outgoing

instance (s : Session) (e : Event) : Decidable (NothingLost s e) :=
  inferInstanceAs (Decidable (_ → ∀ _, _ → ∀ _, _ → _))

/-- The invariant of runs that lose no SUBSCRIBE. -/
structure SubscriptionsKept (s : Session) : Prop where
  linkUp : s.accepted = true → s.linkUp = true
  kept : s.accepted = true → ∀ t, s.reporter.issued t = true →
    s.subscriptions t = true ∨ .subscribe t ∈ s.outgoing
  /-- A connection starts with one CONNECT. -/
  connected : s.accepted = true → ∀ c, .connect c ∉ s.outgoing
  connecting : s.accepted = false → s.linkUp = true →
    ∃ c rest, s.outgoing = .connect c :: rest ∧ ∀ c', .connect c' ∉ rest

theorem subscriptionsKept_initial : SubscriptionsKept .initial where
  linkUp h := by cases h
  kept h := by cases h
  connected h := by cases h
  connecting _ h := by cases h

theorem SubscriptionsKept.subscribed {s : Session} (h : SubscriptionsKept s) (hs : Settled s) :
    Subscribed s := by
  intro t
  have hissued : s.reporter.issued t = true := by
    rw [hs.issued]
    rfl
  rcases h.kept hs.accepted t hissued with hsub | hqueued
  · exact hsub
  · exact absurd hqueued (hs.noneInFlight t)

variable {s : Session}

theorem subscriptionsKept_exit (s : Session) : SubscriptionsKept s.exit where
  linkUp h := by cases h
  kept h := by cases h
  connected h := by cases h
  connecting _ h := by cases h

theorem subscriptionsKept_opened (s : Session) (r : Reporter) :
    SubscriptionsKept { s.opened with reporter := r } where
  linkUp h := by cases h
  kept h := by cases h
  connected h := by cases h
  connecting _ _ := ⟨mqttCleanSession, [], rfl, fun _ h => by cases h⟩

theorem SubscriptionsKept.withIncoming (h : SubscriptionsKept s) (rs : List Reply) :
    SubscriptionsKept { s with incoming := rs } :=
  ⟨h.linkUp, h.kept, h.connected, h.connecting⟩

theorem send_withReporter (s : Session) (ps : List Packet) :
    { s.send ps with reporter := s.reporter } = s.send ps := by
  unfold Session.send
  split_ifs <;> rfl

/-- Packets other than CONNECT may be sent at any time, the SUBSCRIBEs among
    them then count as issued. -/
theorem SubscriptionsKept.send (h : SubscriptionsKept s) {ps : List Packet} {r : Reporter}
    (hps : ∀ c, .connect c ∉ ps)
    (hr : ∀ t, r.issued t = true → s.reporter.issued t = true ∨ .subscribe t ∈ ps) :
    SubscriptionsKept { s.send ps with reporter := r } := by
  cases hup : s.linkUp with
  | false =>
    have hacc : s.accepted ≠ true := fun ha => by simp [h.linkUp ha] at hup
    have hsend : s.send ps = s := by simp [Session.send, hup]
    rw [hsend]
    exact ⟨h.linkUp, fun ha => absurd ha hacc, h.connected, h.connecting⟩
  | true =>
    have hsend : s.send ps = { s with outgoing := s.outgoing ++ ps } := by
      simp [Session.send, hup]
    rw [hsend]
    refine ⟨h.linkUp, fun ha t ht => ?_, fun ha c hc => ?_, fun ha hl => ?_⟩
    · rcases hr t ht with hissued | hmem
      · rcases h.kept ha t hissued with hsub | hqueued
        · exact .inl hsub
        · exact .inr (List.mem_append_left ps hqueued)
      · exact .inr (List.mem_append_right s.outgoing hmem)
    · rcases List.mem_append.1 hc with hmem | hmem
      · exact h.connected ha c hmem
      · exact hps c hmem
    · obtain ⟨c, rest, hout, hrest⟩ := h.connecting ha hl
      refine ⟨c, rest ++ ps, by simp [hout], fun c' hc' => ?_⟩
      rcases List.mem_append.1 hc' with hmem | hmem
      · exact hrest c' hmem
      · exact hps c' hmem

theorem SubscriptionsKept.sendOther (h : SubscriptionsKept s) {ps : List Packet}
    (hps : ∀ c, .connect c ∉ ps) : SubscriptionsKept (s.send ps) := by
  rw [← send_withReporter]
  exact h.send hps fun t ht => .inl ht

theorem issued_afterSubscribe {t t' : Topic}
    (h : (Reporter.afterSubscribe t).issued t' = true) :
    (Reporter.subscribing t).issued t' = true ∨ .subscribe t' ∈ [Packet.subscribe t] := by
  revert h
  cases t <;> cases t' <;> decide

/-- A packet other than CONNECT is handled on an accepted connection. -/
theorem SubscriptionsKept.accepted_of_head (h : SubscriptionsKept s) {p : Packet}
    {rest : List Packet} (hup : s.linkUp = true) (hout : s.outgoing = p :: rest)
    (hp : ∀ c, p ≠ .connect c) : s.accepted = true := by
  by_contra hacc
  obtain ⟨c, rest', hout', -⟩ := h.connecting (by simpa using hacc) hup
  rw [hout] at hout'
  exact hp c (List.cons.inj hout').1

/-- The broker's part of the step lemma. -/
theorem SubscriptionsKept.handled (h : SubscriptionsKept s) {accept : Bool} {p : Packet}
    {rest : List Packet} (hup : s.linkUp = true) (hout : s.outgoing = p :: rest)
    (hlost : NothingLost s (.handle accept)) : SubscriptionsKept (s.handled accept p rest) := by
  cases p with
  | connect clean =>
    have hacc : s.accepted = false := by
      rw [← Bool.not_eq_true]
      intro ha
      exact h.connected ha clean (by simp [hout])
    obtain ⟨c, rest', hout', hrest⟩ := h.connecting hacc hup
    rw [hout] at hout'
    obtain ⟨-, rfl⟩ := List.cons.inj hout'
    cases accept with
    | true =>
      refine ⟨fun _ => hup, fun _ t ht => .inr ?_, fun _ => hrest, fun ha => by cases ha⟩
      have hqueued := hlost rfl clean (by rw [hout]; rfl) t ht
      rw [hout] at hqueued
      rcases List.mem_cons.1 hqueued with heq | hmem
      · cases heq
      · exact hmem
    | false =>
      have hlink : (s.handled false (.connect clean) rest).linkUp = false := rfl
      refine ⟨fun ha => ?_, fun ha => ?_, fun ha => ?_, fun _ hl => ?_⟩
      · exact absurd (hacc.symm.trans ha) (by decide)
      · exact absurd (hacc.symm.trans ha) (by decide)
      · exact absurd (hacc.symm.trans ha) (by decide)
      · exact absurd (hlink.symm.trans hl) (by decide)
  | subscribe t =>
    have hacc := h.accepted_of_head hup hout fun c => by simp
    refine ⟨h.linkUp, fun ha t' ht' => ?_, fun ha c hc => ?_, fun ha _ => ?_⟩
    · by_cases htt : t' = t
      · left
        rw [htt]
        exact Function.update_self _ _ _
      · rcases h.kept ha t' ht' with hsub | hqueued
        · left
          exact (Function.update_of_ne htt _ _).trans hsub
        · right
          rw [hout] at hqueued
          rcases List.mem_cons.1 hqueued with heq | hmem
          · exact absurd (Packet.subscribe.inj heq) htt
          · exact hmem
    · exact h.connected ha c (by rw [hout]; exact List.mem_cons_of_mem _ hc)
    · exact absurd (hacc.symm.trans ha) (by decide)
  | publish =>
    have hacc := h.accepted_of_head hup hout fun c => by simp
    refine ⟨h.linkUp, fun ha t ht => ?_, fun ha c hc => ?_, fun ha _ => ?_⟩
    · rcases h.kept ha t ht with hsub | hqueued
      · exact .inl hsub
      · right
        rw [hout] at hqueued
        rcases List.mem_cons.1 hqueued with heq | hmem
        · cases heq
        · exact hmem
    · exact h.connected ha c (by rw [hout]; exact List.mem_cons_of_mem _ hc)
    · exact absurd (hacc.symm.trans ha) (by decide)

/-- The step lemma. -/
theorem SubscriptionsKept.step {s' : Session} {e : Event} (h : SubscriptionsKept s)
    (hlost : NothingLost s e) (hstep : sessionStep s e s') : SubscriptionsKept s' := by
  cases e with
  | init connected =>
    obtain ⟨-, rfl⟩ := hstep
    cases connected with
    | true => exact subscriptionsKept_opened s _
    | false => exact subscriptionsKept_exit s
  | subscribe =>
    obtain ⟨t, ht, rfl | rfl⟩ := sessionStep_subscribe hstep
    · apply h.send (fun c hc => by simp at hc)
      rw [ht]
      exact fun t' => issued_afterSubscribe
    · exact subscriptionsKept_exit s
  | publish =>
    obtain ⟨-, rfl⟩ := hstep
    exact h.sendOther fun c hc => by simp at hc
  | handle accept =>
    obtain ⟨p, rest, hup, hout, rfl⟩ := sessionStep_handle hstep
    exact h.handled hup hout hlost
  | receive =>
    obtain ⟨rest, rfl⟩ := sessionStep_receive hstep
    exact (h.withIncoming rest).sendOther fun c hc => by cases hc
  | lose =>
    obtain ⟨-, rfl⟩ := hstep
    refine ⟨fun ha => ?_, fun ha => ?_, fun ha => ?_, fun _ hl => ?_⟩
    · cases ha
    · cases ha
    · cases ha
    · cases hl
  | notice =>
    obtain ⟨-, rfl⟩ := hstep
    exact ⟨h.linkUp, h.kept, h.connected, h.connecting⟩
  | reconnect connected =>
    obtain ⟨-, rfl⟩ := hstep
    cases connected with
    | true => exact subscriptionsKept_opened s s.reporter
    | false => exact h

/-- **Subscriptions survive** every run that loses no SUBSCRIBE: whenever the
    broker accepts a CONNECT, the SUBSCRIBEs issued so far are queued behind
    it. -/
theorem subscriptions_survive (es : List Event) (s : Session)
    (hr : Run (Guarded NothingLost sessionStep) .initial es s) (hs : Settled s) :
    Subscribed s := by
  have hkept : SubscriptionsKept s :=
    hr.invariant (fun _ _ _ h hstep => h.step hstep.1 hstep.2) subscriptionsKept_initial
  exact hkept.subscribed hs

/-! ## A lost subscription -/

/-- The SUBSCRIBE was issued, but is neither in force nor in flight. -/
structure Lost (t : Topic) (s : Session) : Prop where
  issued : s.reporter = .exited ∨ s.reporter.issued t = true
  notSubscribed : s.subscriptions t = false
  notQueued : .subscribe t ∉ s.outgoing

theorem Lost.send {t : Topic} (h : Lost t s) {ps : List Packet} {r : Reporter}
    (hps : .subscribe t ∉ ps) (hr : r = .exited ∨ r.issued t = true) :
    Lost t { s.send ps with reporter := r } := by
  unfold Session.send
  split_ifs
  · refine ⟨hr, h.notSubscribed, fun hq => ?_⟩
    rcases List.mem_append.1 hq with hmem | hmem
    · exact h.notQueued hmem
    · exact hps hmem
  · exact ⟨hr, h.notSubscribed, h.notQueued⟩

theorem Lost.sendOther {t : Topic} (h : Lost t s) {ps : List Packet}
    (hps : .subscribe t ∉ ps) : Lost t (s.send ps) := by
  rw [← send_withReporter]
  exact h.send hps h.issued

theorem Lost.handled {t : Topic} (h : Lost t s) {accept : Bool} {p : Packet} {rest : List Packet}
    (hout : s.outgoing = p :: rest) : Lost t (s.handled accept p rest) := by
  have hrest : .subscribe t ∉ rest := fun hq =>
    h.notQueued (by rw [hout]; exact List.mem_cons_of_mem _ hq)
  cases p with
  | connect clean =>
    cases accept with
    | true =>
      refine ⟨h.issued, ?_, hrest⟩
      show (if clean then fun _ => false else s.subscriptions) t = false
      split_ifs
      · rfl
      · exact h.notSubscribed
    | false => exact ⟨h.issued, h.notSubscribed, fun hq => by cases hq⟩
  | subscribe t' =>
    have hne : t ≠ t' := by
      rintro rfl
      exact h.notQueued (by rw [hout]; exact List.mem_cons_self)
    exact ⟨h.issued, (Function.update_of_ne hne _ _).trans h.notSubscribed, hrest⟩
  | publish => exact ⟨h.issued, h.notSubscribed, hrest⟩

theorem Lost.step {t : Topic} {s' : Session} {e : Event} (h : Lost t s)
    (hstep : sessionStep s e s') : Lost t s' := by
  cases e with
  | init connected =>
    have hstart : s.reporter = .starting := hstep.1
    have hissued := h.issued
    rw [hstart] at hissued
    rcases hissued with habs | habs <;> cases habs
  | subscribe =>
    have hissued := h.issued
    obtain ⟨t', ht', rfl | rfl⟩ := sessionStep_subscribe hstep
    · rw [ht'] at hissued
      -- the topic at hand is not issued yet
      have hne : t ≠ t' := by
        rintro rfl
        revert hissued
        cases t <;> decide
      apply h.send (by simpa using hne)
      right
      revert hissued hne
      cases t <;> cases t' <;> decide
    · exact ⟨.inl rfl, h.notSubscribed, fun hq => by cases hq⟩
  | publish =>
    obtain ⟨-, rfl⟩ := hstep
    exact h.sendOther (by simp)
  | handle accept =>
    obtain ⟨p, rest, -, hout, rfl⟩ := sessionStep_handle hstep
    exact h.handled hout
  | receive =>
    obtain ⟨rest, rfl⟩ := sessionStep_receive hstep
    have hrest : Lost t { s with incoming := rest } := ⟨h.issued, h.notSubscribed, h.notQueued⟩
    exact hrest.sendOther (by simp)
  | lose =>
    obtain ⟨-, rfl⟩ := hstep
    exact ⟨h.issued, h.notSubscribed, fun hq => by cases hq⟩
  | notice =>
    obtain ⟨-, rfl⟩ := hstep
    exact ⟨h.issued, h.notSubscribed, h.notQueued⟩
  | reconnect connected =>
    obtain ⟨-, rfl⟩ := hstep
    cases connected with
    | true =>
      exact ⟨h.issued, h.notSubscribed, fun hq => by simp [Session.next, Session.opened] at hq⟩
    | false => exact h

/-- Accepting a CONNECT that an issued SUBSCRIBE does not follow loses it. -/
theorem lost_of_accept {t : Topic} {s' : Session}
    (hc : s.outgoing.head? = some (.connect mqttCleanSession))
    (ht : s.reporter.issued t = true) (hq : .subscribe t ∉ s.outgoing)
    (hstep : sessionStep s (.handle true) s') : Lost t s' := by
  obtain ⟨p, rest, -, hout, rfl⟩ := sessionStep_handle hstep
  obtain rfl : p = .connect mqttCleanSession := by simpa [hout] using hc
  exact ⟨.inr ht, rfl, fun hmem => hq (by rw [hout]; exact List.mem_cons_of_mem _ hmem)⟩

/-- A SUBSCRIBE that is lost is never issued again. -/
theorem subscription_lost_for_good {t : Topic} {es : List Event} {s' : Session} (h : Lost t s)
    (hr : Run sessionStep s es s') : s'.subscriptions t = false :=
  (hr.invariant (fun _ _ _ h hstep => h.step hstep) h).notSubscribed

/-! ## Two runs -/

/-- The start-up sequence up to the second SUBACK. -/
def startUp : List Event :=
  [.init true, .subscribe, .subscribe, .handle true, .receive, .handle true, .receive,
    .handle true, .receive]

/-- A loss, and the automatic reconnect. -/
def reconnection : List Event := [.lose, .notice, .reconnect true, .handle true, .receive]

/-- A start-up sequence whose first connection is lost before a SUBSCRIBE is issued. The
    first SUBSCRIBE is queued behind the CONNECT of the second one. -/
def lateStartUp : List Event :=
  [.init true, .handle true, .receive, .lose, .notice, .reconnect true, .subscribe, .handle true,
    .receive, .subscribe, .handle true, .receive, .handle true, .receive]

/-- `subscriptions_survive` for it. -/
theorem subscriptions_survive_startUp : Subscribed (lateStartUp.foldl Session.next .initial) := by
  refine subscriptions_survive lateStartUp _ ?_ ⟨by decide, by decide, by decide⟩
  repeat refine .cons ⟨by decide, by decide, rfl⟩ ?_
  exact .nil _

/-- After a reconnect the broker has no subscription of the client. -/
theorem reconnection_not_subscribed : ¬ ∀ (es : List Event) (s : Session),
    Run sessionStep .initial es s → Settled s → Subscribed s := by
  intro hall
  have hsub := hall (startUp ++ reconnection)
    ((startUp ++ reconnection).foldl Session.next .initial) (by
      repeat refine .cons ⟨by decide, rfl⟩ ?_
      exact .nil _) ⟨by decide, by decide, by decide⟩ .stowWebApp
  revert hsub
  decide

end TrackerDemo.Mqtt
