import TrackerDemo.Mosquitto.Link

/-!
# Messages of QoS 1 and 2 reach the broker

Results:
* `Link.step_refines`: a step of the client, the broker or the network is a step of the
  transfer with claims (`Delivery.Step`).
* `publish_atLeastOnce`: a message that was published has been received by the broker or
  is still kept by the client.
* `inflight_window`: at most 20 messages are in flight, and others wait only then.
* `ids_free`: the first 65535 ids are free when they are given.
-/

namespace TrackerDemo.Mosquitto

open TrackerDemo.CString TrackerDemo.Transition TrackerDemo.Delivery

/-! ## The refinement -/

/-- The parties are in order, and so are the places of the messages in flight. -/
structure Link.Ok (s : Link) : Prop extends s.Ready where
  window : s.client.Window

theorem Link.initial_ok : Link.initial.Ok := ⟨Link.initial_ready, Client.initial_window⟩

section Refinement

variable {s s' : Link} {e : LinkEvent} {new : Set ℕ}

/-- The messages that are kept were published. -/
theorem Link.Ok.qos_kept (h : s.Ok) (hsafe : Safe s.transfer) :
    ∀ m ∈ s.client.outMessages, m.qos = 1 ∨ m.qos = 2 := by
  intro m hm
  have hpublished : m.content ∈ s.published :=
    hsafe.kept_published m.mid m.content (List.mem_map_of_mem hm)
  exact h.qos _ hpublished

theorem Link.Ok.window_step (h : s.Ok) (hsafe : Safe s.transfer) (hstep : LinkStep s e s') :
    s'.client.Window := by
  have hkept := h.qos_kept hsafe
  have hc := h.client
  have hwindow := h.window
  unfold LinkStep at hstep
  cases e with
  | publish topic payload qos retain now =>
    rw [linkStep] at hstep
    split at hstep
    · obtain rfl := Option.some.inj hstep
      exact hwindow
    next hcheck =>
      obtain rfl := Option.some.inj hstep
      have hle := qos_of_publishCheck hcheck
      exact hwindow.publishStart topic payload (by omega) retain now
  | sendPublish i =>
    rw [linkStep, Option.map_eq_some_iff] at hstep
    obtain ⟨m, -, rfl⟩ := hstep
    obtain ⟨ps, he⟩ := s.client.sendPublish_snd m
    dsimp only
    rw [he]
    exact hwindow.of_eq rfl rfl rfl
  | subscribe sub qos =>
    obtain rfl := Option.some.inj hstep
    dsimp only
    unfold Client.subscribeTo
    split_ifs
    · obtain ⟨ps, he⟩ := s.client.midGenerate.2.send_snd (.subscribe s.client.midGenerate.1 sub qos)
      dsimp only
      rw [he]
      exact hwindow.of_eq rfl rfl rfl
    · exact hwindow
    · exact hwindow
  | retryCheck now =>
    obtain rfl := Option.some.inj hstep
    exact hwindow.messageRetryCheck now
  | brokerReads =>
    rw [linkStep] at hstep
    split at hstep
    · exact absurd hstep (by simp)
    · obtain rfl := Option.some.inj hstep
      exact hwindow.of_eq rfl rfl rfl
  | brokerAnswers i =>
    rw [linkStep, Option.map_eq_some_iff] at hstep
    obtain ⟨p, -, rfl⟩ := hstep
    exact hwindow
  | brokerSends p =>
    rw [linkStep, Option.ite_none_right_eq_some] at hstep
    obtain rfl := Option.some.inj hstep.2
    exact hwindow
  | read now =>
    rw [linkStep] at hstep
    split at hstep
    · exact absurd hstep (by simp)
    next p ps hps =>
      rw [Option.ite_none_right_eq_some] at hstep
      obtain rfl := Option.some.inj hstep.2
      have hnext : ((p.receive now s.client).2).Window := by
        apply hwindow.receive hc hkept
        intro mid hmid m hm hmmid hwaits
        apply hsafe.held_claims mid ⟨m, hm, hmmid, hwaits⟩
        refine .inr ⟨p, List.mem_append_right _ ?_, hmid⟩
        rw [hps]
        exact List.mem_cons_self
      dsimp only
      split_ifs
      · exact hnext
      · exact hnext.of_eq rfl rfl rfl
  | lose =>
    obtain rfl := Option.some.inj hstep
    exact hwindow.of_eq rfl rfl rfl
  | reconnect sock =>
    rw [linkStep, Option.map_eq_some_iff] at hstep
    obtain ⟨c, hreconnect, rfl⟩ := hstep
    refine hwindow.reconnect hc (fun m hm => ?_) hreconnect
    have := hkept m hm
    omega

theorem Link.Ok.step (h : s.Ok) (hsafe : Safe s.transfer) (hstep : LinkStep s e s') : s'.Ok :=
  ⟨h.toReady.step hstep, h.window_step hsafe hstep⟩

/-- A packet carries a message, which its answer acknowledges, or it does not, and has the
    answer to a PUBREL at most. -/
theorem Outgoing.offer_cases (o : Outgoing) :
    (∃ mid x, o.offer = some (mid, x) ∧ ∀ p, o.answer = some p → ∀ i, p.ackMid = some i → i = mid) ∨
      o.offer = none ∧ ∀ p, o.answer = some p → ∀ i, p.ackMid = some i → o.releases = some i := by
  cases o with
  | publish mid topic payload qos retain dup =>
    by_cases hqos : qos > 0
    · refine .inl ⟨mid, ⟨mid, topic, payload, qos, retain⟩, if_pos hqos, fun p hp i hi => ?_⟩
      unfold Outgoing.answer at hp
      dsimp only at hp
      split_ifs at hp
      · obtain rfl := Option.some.inj hp
        exact (Option.some.inj hi).symm
      · obtain rfl := Option.some.inj hp
        exact (Option.some.inj hi).symm
    · refine .inr ⟨if_neg hqos, fun p hp i _ => ?_⟩
      obtain rfl : qos = 0 := by omega
      exact absurd hp (by simp [Outgoing.answer])
  | withMid command mid =>
    refine .inr ⟨rfl, fun p hp i hi => ?_⟩
    unfold Outgoing.answer at hp
    unfold Outgoing.releases
    dsimp only at hp ⊢
    split_ifs at hp with hcommand
    obtain rfl := Option.some.inj hp
    rw [if_pos hcommand]
    exact hi
  | _ => exact .inr ⟨rfl, fun p hp => absurd hp (by simp [Outgoing.answer])⟩

/-- What is in flight does not wait. -/
theorem Client.started_waiting {c : Client} (h : (c.kept.map Prod.fst).Nodup) {x : ℕ × Content}
    (hx : x ∈ c.started) : x ∈ c.kept ∧ x.1 ∉ c.waiting := by
  obtain ⟨m, hm, hwaits, rfl⟩ := hx
  refine ⟨List.mem_map_of_mem hm, fun ⟨m', hm', hmid, hwaits'⟩ => ?_⟩
  rw [Client.kept, List.map_map] at h
  obtain rfl := List.inj_on_of_nodup_map h hm' hm hmid
  exact hwaits hwaits'

theorem Client.Quiet.waiting {c c' : Client} (h : c.Quiet c') : c'.waiting ⊆ c.waiting := by
  rintro mid ⟨m', hm', rfl, hwaits⟩
  obtain ⟨m, hm, hsame⟩ := exists_same' h.same hm'
  exact ⟨m, hm, (congrArg Prod.fst hsame.entry).symm, not_imp_not.1 hsame.started hwaits⟩

/-- What the client does by itself is quiet. -/
theorem Link.quiet (hsafe : Safe s.transfer) (hc : s.client.Quiet s'.client)
    (hpending : pendingOffers s'.pending ⊆ pendingOffers s.pending)
    (hacks : acks (s'.owed ++ s'.down) ⊆ acks (s.owed ++ s.down))
    (hreceived : s'.received = s.received) (hpublished : s'.published = s.published) :
    Step new s.transfer s'.transfer := by
  have hnodup : (s'.client.kept.map Prod.fst).Nodup := by
    rw [hc.kept]
    exact hsafe.kept_nodup
  refine .quiet ⟨fun x hx => ?_, ?_⟩ hc.waiting hc.kept hreceived hpublished
  · rcases hx with hx | hx
    · rcases hc.offers x hx with hx | hx
      · exact .inl (.inl hx)
      · exact .inr (Client.started_waiting hnodup hx)
    · exact .inl (.inr (hpending hx))
  · rintro mid (hmid | hmid)
    · exact .inl (hc.claims hmid)
    · exact .inr (hacks hmid)

theorem acks_append (ps ps' : List BrokerPacket) : acks (ps ++ ps') = acks ps ∪ acks ps' := by
  ext mid
  simp [acks, or_and_right, exists_or]

theorem pendingOffers_append (ms ms' : List Message) :
    pendingOffers (ms ++ ms') = pendingOffers ms ∪ pendingOffers ms' := by
  ext x
  simp [pendingOffers, or_and_right, exists_or]

/-- A message of QoS 1 or 2 is published. -/
theorem Link.publish_refines {topic payload : Bytes} {qos : ℕ} (hqos : qos = 1 ∨ qos = 2)
    {retain : Bool} {now : ℕ} (hfree : s.transfer.Free s.client.midGenerate.1) :
    Step {s.client.midGenerate.1} s.transfer (Link.transfer { s with
      client := (s.client.publishStart topic payload qos retain now).2
      pending := s.pending ++ (s.client.publishStart topic payload qos retain now).1.toList
      published := s.published ++ [⟨s.client.midGenerate.1, topic, payload, qos, retain⟩] }) := by
  -- with room or without, the message is kept in the state `state`
  have hstep : ∀ (state : MsgState) (outQueueLen inflight : ℤ) (ms : List Message),
      state ≠ .waitForPubcomp →
      (∀ m ∈ ms, ¬ Message.Waits ⟨s.client.midGenerate.1, topic, payload, qos, retain, false, state,
          now⟩ ∧ m.entry = (s.client.midGenerate.1,
        (⟨s.client.midGenerate.1, topic, payload, qos, retain⟩ : Content))) →
      Step {s.client.midGenerate.1} s.transfer (Link.transfer { s with
        client := { s.client with
          lastMid := s.client.midGenerate.1
          outQueueLen := outQueueLen
          outMessages := s.client.outMessages ++
            [⟨s.client.midGenerate.1, topic, payload, qos, retain, false, state, now⟩]
          inflightMessages := inflight }
        pending := s.pending ++ ms
        published := s.published ++ [⟨s.client.midGenerate.1, topic, payload, qos, retain⟩] }) := by
    intro state outQueueLen inflight ms hstate hms
    refine .publish s.client.midGenerate.1 ⟨_, topic, payload, qos, retain⟩ rfl hfree
      ⟨fun x hx => ?_, ?_⟩ ?_ ?_ rfl rfl
    · rcases hx with hx | hx
      · exact .inl (.inl hx)
      · have hx : x ∈ pendingOffers (s.pending ++ ms) := hx
        rw [pendingOffers_append] at hx
        rcases hx with hx | ⟨m, hm, -, rfl⟩
        · exact .inl (.inr hx)
        · obtain ⟨hwaits, he⟩ := hms m hm
          refine .inr ⟨?_, fun ⟨m', hm', hmid, hwaits'⟩ => ?_⟩
          · rw [he]
            exact List.mem_map_of_mem (List.mem_append_right _ List.mem_cons_self)
          · rw [he] at hmid
            rcases List.mem_append.1 hm' with hm' | hm'
            · have hentry : m'.entry = (s.client.midGenerate.1, m'.content) := Prod.ext hmid rfl
              exact hfree.kept m'.content (hentry ▸ List.mem_map_of_mem hm')
            · rw [List.mem_singleton.1 hm'] at hwaits'
              exact hwaits hwaits'
    · rintro mid ((hmid | ⟨m, hm, rfl, hm'⟩) | hmid)
      · exact .inl (.inl hmid)
      · rcases List.mem_append.1 hm with hm | hm
        · exact .inl (.inr ⟨m, hm, rfl, hm'⟩)
        · rw [List.mem_singleton.1 hm] at hm'
          exact absurd hm' hstate
      · exact .inr hmid
    · rintro i ⟨m, hm, rfl, hwaits⟩
      rcases List.mem_append.1 hm with hm | hm
      · exact .inl ⟨m, hm, rfl, hwaits⟩
      · rw [List.mem_singleton.1 hm]
        exact .inr rfl
    · exact List.map_append
  rw [Client.publishStart_eq topic payload (by omega)]
  split_ifs
  · apply hstep
    · rcases startState_ne_invalid hqos .invalid with he | he <;> simp [he]
    · intro m hm
      rw [List.mem_singleton.1 hm]
      refine ⟨?_, rfl⟩
      unfold Message.Waits
      rcases startState_ne_invalid hqos .invalid with he | he <;> simp [he]
  · exact hstep .invalid _ s.client.inflightMessages [] (by simp) (by simp)

/-- The first packet reaches the broker. -/
theorem Link.brokerReads_refines {o : Outgoing} {ps : List Outgoing}
    (hps : s.client.outPackets = o :: ps) :
    Step new s.transfer (Link.transfer { s with
      client := { s.client with outPackets := ps }
      received := s.received ++ (o.offer.map Prod.snd).toList
      owed := s.owed ++ o.answer.toList }) := by
  have hoffers : ∀ x ∈ Client.offers { s.client with outPackets := ps }, x ∈ s.client.offers := by
    rintro x ⟨o', ho', hx⟩
    exact ⟨o', by rw [hps]; exact List.mem_cons_of_mem o ho', hx⟩
  have hclaims : ∀ i ∈ Client.claims { s.client with outPackets := ps }, i ∈ s.client.claims := by
    rintro i (⟨o', ho', hi⟩ | hi)
    · exact .inl ⟨o', by rw [hps]; exact List.mem_cons_of_mem o ho', hi⟩
    · exact .inr hi
  have hacks : ∀ i ∈ acks (s.owed ++ o.answer.toList ++ s.down),
      i ∈ acks (s.owed ++ s.down) ∨ ∃ p, o.answer = some p ∧ p.ackMid = some i := by
    intro i hi
    rw [acks_append, acks_append] at hi
    rw [acks_append]
    rcases hi with (hi | ⟨p, hp, hi⟩) | hi
    · exact .inl (.inl hi)
    · exact .inr ⟨p, Option.mem_toList.1 hp, hi⟩
    · exact .inl (.inr hi)
  have hmem : o ∈ s.client.outPackets := by
    rw [hps]
    exact List.mem_cons_self
  rcases Outgoing.offer_cases o with ⟨mid, x, ho, hanswer⟩ | ⟨ho, hanswer⟩
  · refine .receive mid x (.inl ⟨o, hmem, ho⟩) ?_ ?_ subset_rfl rfl ?_ rfl
    · rintro y (hy | hy)
      · exact .inl (hoffers y hy)
      · exact .inr hy
    · rintro i (hi | hi)
      · exact .inl (.inl (hclaims i hi))
      · rcases hacks i hi with hi | ⟨p, hp, hi⟩
        · exact .inl (.inr hi)
        · exact .inr (hanswer p hp i hi)
    · show s.received ++ (o.offer.map Prod.snd).toList = s.received ++ [x]
      rw [ho]
      rfl
  · refine .quiet ⟨?_, ?_⟩ subset_rfl rfl ?_ rfl
    · rintro y (hy | hy)
      · exact .inl (.inl (hoffers y hy))
      · exact .inl (.inr hy)
    · rintro i (hi | hi)
      · exact .inl (hclaims i hi)
      · rcases hacks i hi with hi | ⟨p, hp, hi⟩
        · exact .inr hi
        · exact .inl (.inl ⟨o, hmem, hanswer p hp i hi⟩)
    · show s.received ++ (o.offer.map Prod.snd).toList = s.received
      rw [ho]
      exact List.append_nil _

theorem Link.acks_tail {p : BrokerPacket} {ps : List BrokerPacket} (hps : s.down = p :: ps) :
    acks (s.owed ++ ps) ⊆ acks (s.owed ++ s.down) := by
  rw [acks_append, acks_append, hps]
  rintro i (hi | ⟨q, hq, hi⟩)
  · exact .inl hi
  · exact .inr ⟨q, List.mem_cons_of_mem p hq, hi⟩

/-- The client reads a packet that acknowledges nothing new. -/
theorem Link.withClient_quiet (hsafe : Safe s.transfer) {c : Client} {p : BrokerPacket}
    {ps : List BrokerPacket} (hps : s.down = p :: ps) (hc : s.client.Quiet c) :
    Step new s.transfer (Link.transfer { s with client := c, down := ps }) :=
  Link.quiet hsafe hc subset_rfl (Link.acks_tail hps) rfl rfl

/-- The client removes a message that has been acknowledged. -/
theorem Link.settles_refines (hsafe : Safe s.transfer) {c : Client} {p : BrokerPacket}
    {ps : List BrokerPacket} (hps : s.down = p :: ps) {mid : ℕ} (hmid : mid ∈ s.transfer.claims)
    (hc : s.client.Settles mid c) :
    Step new s.transfer (Link.transfer { s with client := c, down := ps }) := by
  obtain ⟨pre, m, post, hms, rfl, hquiet⟩ := hc
  have hsub : (pre ++ post).Sublist s.client.outMessages := by
    rw [hms]
    exact (List.sublist_cons_self m post).append_left pre
  have hnodup : (c.kept.map Prod.fst).Nodup := by
    rw [hquiet.kept]
    exact hsafe.kept_nodup.sublist ((hsub.map Message.entry).map Prod.fst)
  refine .settle m.mid m.content (pre.map Message.entry) (post.map Message.entry) hmid
    ⟨fun x hx => ?_, ?_⟩ ?_ ?_ ?_ rfl rfl
  · rcases hx with hx | hx
    · rcases hquiet.offers x hx with hx | hx
      · exact .inl (.inl hx)
      · exact .inr (Client.started_waiting hnodup hx)
    · exact .inl (.inr hx)
  · rintro i (hi | hi)
    · rcases hquiet.claims hi with hi | ⟨m', hm', hi, hstate⟩
      · exact .inl (.inl hi)
      · exact .inl (.inr ⟨m', hsub.mem hm', hi, hstate⟩)
    · exact .inr (Link.acks_tail hps hi)
  · rintro i hi
    obtain ⟨m', hm', hi, hwaits⟩ := hquiet.waiting hi
    exact ⟨m', hsub.mem hm', hi, hwaits⟩
  · show s.client.kept = _
    rw [Client.kept, hms, List.map_append]
    rfl
  · show c.kept = _
    rw [hquiet.kept]
    exact List.map_append

/-- The client reads the first packet. -/
theorem Link.read_refines (hsafe : Safe s.transfer) {p : BrokerPacket} {ps : List BrokerPacket}
    (hps : s.down = p :: ps) (hqos : ∀ m ∈ s.client.outMessages, m.qos = 1 ∨ m.qos = 2) (now : ℕ) :
    Step new s.transfer (Link.transfer { s with
      client := if (p.receive now s.client).1 = none then (p.receive now s.client).2
        else { (p.receive now s.client).2 with sock := false }
      down := ps }) := by
  -- the transfer does not depend on the socket
  suffices h : Step new s.transfer
      (Link.transfer { s with client := (p.receive now s.client).2, down := ps }) by
    split_ifs
    · exact h
    · exact h
  have hacked : ∀ mid, p.ackMid = some mid → mid ∈ s.transfer.claims := by
    intro mid hmid
    refine .inr ⟨p, List.mem_append_right _ ?_, hmid⟩
    rw [hps]
    exact List.mem_cons_self
  -- PUBACK and PUBCOMP have the same effect
  have hremove : ∀ mid, mid ∈ s.transfer.claims →
      Step new s.transfer (Link.transfer { s with
        client := (BrokerPacket.receive now (.puback mid) s.client).2
        down := ps }) := by
    intro mid hmid
    have hremoved : Step new s.transfer
        (Link.transfer { s with client := (s.client.messageRemoveOut mid).2, down := ps }) := by
      rcases Client.messageRemoveOut_settles mid hqos with ⟨he, -⟩ | hsettles
      · rw [he]
        exact Link.withClient_quiet hsafe hps (Client.Quiet.refl s.client)
      · exact Link.settles_refines hsafe hps hmid hsettles
    rcases receive_puback now mid s.client with he | he
    · rw [he]
      exact hremoved
    · rw [he]
      exact hremoved
  cases p with
  | puback mid => exact hremove mid (hacked mid rfl)
  | pubcomp mid => exact hremove mid (hacked mid rfl)
  | pubrec mid =>
    obtain ⟨hkept, hoffers, hclaims, hwaiting⟩ := s.client.pubrec_spec mid now
    refine .quiet ⟨?_, ?_⟩ hwaiting hkept rfl rfl
    · rintro x (hx | hx)
      · exact .inl (.inl (hoffers hx))
      · exact .inl (.inr hx)
    · rintro i (hi | hi)
      · rcases hclaims i hi with hi | rfl
        · exact .inl hi
        · exact hacked i rfl
      · exact .inr (Link.acks_tail hps hi)
  | _ => exact Link.withClient_quiet hsafe hps (Client.Quiet.receive rfl now s.client)

/-- The refinement: a step of the parties is a step of the transfer. -/
theorem Link.step_refines (hsafe : Safe s.transfer) (h : s.Ok) (hfree : IdFree s e)
    (hstep : LinkStep s e s') : Step (freshIds s e) s.transfer s'.transfer := by
  have hqos := h.qos_kept hsafe
  obtain ⟨⟨hc, -, -, -⟩, hwindow⟩ := h
  have hrefl := Client.Quiet.refl s.client
  unfold LinkStep at hstep
  cases e with
  | publish topic payload qos retain now =>
    rw [linkStep] at hstep
    split at hstep
    · obtain rfl := Option.some.inj hstep
      exact Link.quiet hsafe hrefl subset_rfl subset_rfl rfl rfl
    next hcheck =>
      obtain rfl := Option.some.inj hstep
      have hfresh : freshIds s (.publish topic payload qos retain now) =
          {s.client.midGenerate.1} := if_pos hcheck
      by_cases hpos : qos > 0
      · rw [if_pos hpos, hfresh]
        have hle := qos_of_publishCheck hcheck
        exact Link.publish_refines (by omega) (hfree _ (by rw [hfresh]; rfl))
      · have hzero : qos.toNat = 0 := by omega
        rw [if_neg hpos, hzero, List.append_nil]
        refine Link.quiet hsafe (hrefl.of_eq rfl rfl) ?_ subset_rfl rfl rfl
        rw [pendingOffers_append]
        rintro x (hx | ⟨m, hm, hqos, -⟩)
        · exact hx
        · obtain rfl := List.mem_singleton.1 hm
          exact absurd hqos (by simp)
  | sendPublish i =>
    rw [linkStep, Option.map_eq_some_iff] at hstep
    obtain ⟨m, hm, rfl⟩ := hstep
    have hmem : m ∈ s.pending := List.mem_of_getElem? hm
    obtain ⟨ps, he, hsent⟩ := Client.sendPublish_packets m s.client
    refine .quiet ⟨fun x hx => ?_, ?_⟩ ?_ ?_ rfl rfl
    · rcases hx with hx | ⟨m', hm', hqos, rfl⟩
      · have hx : x ∈ (s.client.sendPublish m).2.offers := hx
        rw [he] at hx
        obtain ⟨o, ho, hx⟩ := hx
        rcases List.mem_append.1 ho with ho | ho
        · exact .inl (.inl ⟨o, ho, hx⟩)
        · rw [hsent o ho] at hx
          obtain ⟨hqos, rfl⟩ := offer_publish hx
          exact .inl (.inr ⟨m, hmem, hqos, rfl⟩)
      · exact .inl (.inr ⟨m', List.mem_of_mem_eraseIdx hm', hqos, rfl⟩)
    · rintro mid (hmid | hmid)
      · have hmid : mid ∈ (s.client.sendPublish m).2.claims := hmid
        rw [he] at hmid
        rcases hmid with ⟨o, ho, hmid⟩ | hmid
        · rcases List.mem_append.1 ho with ho | ho
          · exact .inl (.inl ⟨o, ho, hmid⟩)
          · rw [hsent o ho] at hmid
            exact absurd hmid (by simp [Outgoing.releases])
        · exact .inl (.inr hmid)
      · exact .inr hmid
    · show (s.client.sendPublish m).2.waiting ⊆ s.client.waiting
      rw [he]
      rfl
    · show (s.client.sendPublish m).2.kept = s.client.kept
      rw [he]
      rfl
  | subscribe sub qos =>
    obtain rfl := Option.some.inj hstep
    refine Link.quiet hsafe ?_ subset_rfl subset_rfl rfl rfl
    show s.client.Quiet (s.client.subscribeTo sub qos).2
    unfold Client.subscribeTo
    split_ifs
    · show s.client.Quiet
        (s.client.midGenerate.2.send (.subscribe s.client.midGenerate.1 sub qos)).2
      have hgenerate : s.client.Quiet s.client.midGenerate.2 := hrefl.of_eq rfl rfl
      apply hgenerate.send
      · exact fun x hx => absurd hx (by simp [Outgoing.offer])
      · exact fun i hi => absurd hi (by simp [Outgoing.releases])
    · exact hrefl
    · exact hrefl
  | retryCheck now =>
    obtain rfl := Option.some.inj hstep
    exact Link.quiet hsafe (Client.Quiet.messageRetryCheck hc now) subset_rfl subset_rfl rfl rfl
  | brokerReads =>
    rw [linkStep] at hstep
    split at hstep
    · exact absurd hstep (by simp)
    next o ps hps =>
      obtain rfl := Option.some.inj hstep
      exact Link.brokerReads_refines hps
  | brokerAnswers i =>
    rw [linkStep, Option.map_eq_some_iff] at hstep
    obtain ⟨p, hp, rfl⟩ := hstep
    refine Link.quiet hsafe hrefl subset_rfl ?_ rfl rfl
    rw [acks_append, acks_append, acks_append]
    rintro mid (⟨q, hq, hmid⟩ | hmid | ⟨q, hq, hmid⟩)
    · exact .inl ⟨q, List.mem_of_mem_eraseIdx hq, hmid⟩
    · exact .inr hmid
    · rw [List.mem_singleton.1 hq] at hmid
      exact .inl ⟨p, List.mem_of_getElem? hp, hmid⟩
  | brokerSends p =>
    rw [linkStep, Option.ite_none_right_eq_some] at hstep
    obtain ⟨⟨hnone, -⟩, hs⟩ := hstep
    obtain rfl := Option.some.inj hs
    refine Link.quiet hsafe hrefl subset_rfl ?_ rfl rfl
    rw [← List.append_assoc, acks_append]
    rintro mid (hmid | ⟨q, hq, hmid⟩)
    · exact hmid
    · rw [List.mem_singleton.1 hq, hnone] at hmid
      exact absurd hmid (by simp)
  | read now =>
    rw [linkStep] at hstep
    split at hstep
    · exact absurd hstep (by simp)
    next p ps hps =>
      rw [Option.ite_none_right_eq_some] at hstep
      obtain ⟨-, hs⟩ := hstep
      obtain rfl := Option.some.inj hs
      exact Link.read_refines hsafe hps hqos now
  | lose =>
    obtain rfl := Option.some.inj hstep
    exact Link.quiet hsafe (hrefl.of_eq rfl rfl) subset_rfl subset_rfl rfl rfl
  | reconnect sock =>
    rw [linkStep, Option.map_eq_some_iff] at hstep
    obtain ⟨c, hreconnect, rfl⟩ := hstep
    have hpos : ∀ m ∈ s.client.outMessages, m.qos > 0 := by
      intro m hm
      have := hqos m hm
      omega
    refine Link.quiet hsafe (Client.Quiet.reconnect hwindow hc hpos hreconnect) subset_rfl ?_
      rfl rfl
    rintro mid ⟨p, hp, -⟩
    exact absurd hp (by simp)

end Refinement

/-! ## Runs -/

theorem Link.initial_transfer : Link.initial.transfer = Transfer.initial := by
  simp [Link.transfer, Link.initial, Client.initial, Client.kept, Client.offers, Client.claims,
    Client.waiting, pendingOffers, acks, Transfer.initial]

theorem Link.run_safe {es : List LinkEvent} {s : Link}
    (hr : Run (Guarded IdFree LinkStep) Link.initial es s) : Safe s.transfer ∧ s.Ok := by
  have hinitial : Safe Link.initial.transfer := by
    rw [Link.initial_transfer]
    exact safe_initial
  exact Safe.run Link.transfer (fun s e s' hs h hl => h.step hs hl.2)
    (fun s e s' hs h hl => Link.step_refines hs h hl.1 hl.2) hinitial Link.initial_ok hr

theorem Link.delivered {es : List LinkEvent} {s : Link}
    (hr : Run (Guarded IdFree LinkStep) Link.initial es s) :
    (∀ x ∈ s.published, x ∈ s.received ∨ ∃ m ∈ s.client.outMessages, m.content = x) ∧
      (∀ x ∈ s.received, x ∈ s.published) ∧ (s.client.outMessages.map Message.mid).Nodup := by
  obtain ⟨hsafe, -⟩ := Link.run_safe hr
  have hnodup : (s.client.kept.map Prod.fst).Nodup := hsafe.kept_nodup
  rw [Client.kept, List.map_map] at hnodup
  refine ⟨fun x hx => ?_, hsafe.received_published, hnodup⟩
  rcases hsafe.published x hx with h | ⟨i, h⟩
  · exact .inl h
  · obtain ⟨m, hm, he⟩ := List.mem_map.1 h
    exact .inr ⟨m, hm, congrArg Prod.snd he⟩

/-! ### The first ids -/

/-- In the step an id is generated (`mosquitto.c`, line 575, and `send_client_mosq.c`, line
    185): the call is not refused. -/
def Link.Generates (s : Link) : LinkEvent → Prop
  | .publish topic payload qos _ _ => Client.publishCheck topic payload qos = none
  | .subscribe sub _ => s.client.sock = true ∧ subTopicCheck sub = true
  | _ => False

instance (s : Link) : (e : LinkEvent) → Decidable (s.Generates e)
  | .publish .. => inferInstanceAs (Decidable (_ = none))
  | .subscribe .. => inferInstanceAs (Decidable (_ ∧ _))
  | .sendPublish _ | .retryCheck _ | .brokerReads | .brokerAnswers _ | .brokerSends _ | .read _
  | .lose | .reconnect _ => inferInstanceAs (Decidable False)

/-- How many ids are generated in a run. -/
def Link.idsGenerated : Link → List LinkEvent → ℕ
  | _, [] => 0
  | s, e :: es =>
    (if s.Generates e then 1 else 0) +
      match linkStep s e with
      | some s' => s'.idsGenerated es
      | none => 0

/-- One for each step at most. -/
theorem Link.idsGenerated_le (s : Link) (es : List LinkEvent) : s.idsGenerated es ≤ es.length := by
  induction es generalizing s with
  | nil => exact le_rfl
  | cons e es ih =>
    have hfirst : (if s.Generates e then 1 else 0) ≤ 1 := by split_ifs <;> omega
    have hrest : (match linkStep s e with
        | some s' => s'.idsGenerated es
        | none => 0) ≤ es.length := by
      split
      · exact ih _
      · exact Nat.zero_le _
    rw [Link.idsGenerated, List.length_cons]
    omega

theorem Link.idsGenerated_snoc {s t : Link} {es : List LinkEvent} (hr : Run LinkStep s es t)
    (e : LinkEvent) :
    s.idsGenerated (es ++ [e]) = s.idsGenerated es + if t.Generates e then 1 else 0 := by
  induction hr with
  | nil s =>
    rw [List.nil_append, Link.idsGenerated, Link.idsGenerated]
    cases linkStep s e <;> simp [Link.idsGenerated]
  | @cons s s' t e' es hstep _ ih =>
    have hstep : linkStep s e' = some s' := hstep
    rw [List.cons_append, Link.idsGenerated, Link.idsGenerated, hstep]
    dsimp only
    rw [ih, Nat.add_assoc]

theorem Client.publishStart_settings (topic payload : Bytes) (qos : ℕ) (retain : Bool) (now : ℕ)
    (c : Client) :
    (c.publishStart topic payload qos retain now).2.settings = c.midGenerate.2.settings := by
  rcases Nat.eq_zero_or_pos qos with rfl | hqos
  · rfl
  · rw [Client.publishStart_eq topic payload hqos]
    split_ifs <;> rfl

theorem Link.step_settings {s s' : Link} {e : LinkEvent} (hstep : LinkStep s e s') :
    (freshIds s e = ∅ ∧ s'.client.settings = s.client.settings) ∨
      s.Generates e ∧ freshIds s e ⊆ {s.client.midGenerate.1} ∧
        s'.client.settings = s.client.midGenerate.2.settings := by
  unfold LinkStep at hstep
  cases e with
  | publish topic payload qos retain now =>
    rw [linkStep] at hstep
    unfold freshIds
    split at hstep
    next rc hcheck =>
      obtain rfl := Option.some.inj hstep
      exact .inl ⟨if_neg (by simp [hcheck]), rfl⟩
    next hcheck =>
      obtain rfl := Option.some.inj hstep
      refine .inr ⟨hcheck, ?_, Client.publishStart_settings ..⟩
      dsimp only
      rw [if_pos hcheck]
  | subscribe sub qos =>
    obtain rfl := Option.some.inj hstep
    dsimp only
    unfold Client.subscribeTo
    split_ifs with hsock hsub
    · exact .inr ⟨⟨hsock, hsub⟩, Set.empty_subset _,
        (s.client.midGenerate.2.send_snd _).elim fun _ he => by rw [he]; rfl⟩
    · exact .inl ⟨rfl, rfl⟩
    · exact .inl ⟨rfl, rfl⟩
  | sendPublish i =>
    rw [linkStep, Option.map_eq_some_iff] at hstep
    obtain ⟨m, -, rfl⟩ := hstep
    obtain ⟨ps, he⟩ := s.client.sendPublish_snd m
    refine .inl ⟨rfl, ?_⟩
    dsimp only
    rw [he]
    rfl
  | retryCheck now =>
    obtain rfl := Option.some.inj hstep
    obtain ⟨out, inc, ps, he, -⟩ := s.client.messageRetryCheck_spec now
    refine .inl ⟨rfl, ?_⟩
    dsimp only
    rw [he]
    rfl
  | brokerReads =>
    rw [linkStep] at hstep
    split at hstep
    · exact absurd hstep (by simp)
    · obtain rfl := Option.some.inj hstep
      exact .inl ⟨rfl, rfl⟩
  | brokerAnswers i =>
    rw [linkStep, Option.map_eq_some_iff] at hstep
    obtain ⟨p, -, rfl⟩ := hstep
    exact .inl ⟨rfl, rfl⟩
  | brokerSends p =>
    rw [linkStep, Option.ite_none_right_eq_some] at hstep
    obtain rfl := Option.some.inj hstep.2
    exact .inl ⟨rfl, rfl⟩
  | read now =>
    rw [linkStep] at hstep
    split at hstep
    · exact absurd hstep (by simp)
    next p ps _ =>
      rw [Option.ite_none_right_eq_some] at hstep
      obtain rfl := Option.some.inj hstep.2
      refine .inl ⟨rfl, ?_⟩
      have hsettings := receive_settings p now s.client
      dsimp only
      split_ifs
      · exact hsettings
      · exact hsettings
  | lose =>
    obtain rfl := Option.some.inj hstep
    exact .inl ⟨rfl, rfl⟩
  | reconnect sock =>
    rw [linkStep, Option.map_eq_some_iff] at hstep
    obtain ⟨c, hreconnect, rfl⟩ := hstep
    refine .inl ⟨rfl, ?_⟩
    obtain ⟨_, _, rfl⟩ := Client.reconnect_eq hreconnect
    rfl

/-- As long as the ids do not start again, each of them is free when it is given. -/
theorem Link.idFree_first {es : List LinkEvent} {s : Link} (hr : Run LinkStep Link.initial es s) :
    Link.initial.idsGenerated es ≤ 65535 →
      Run (Guarded IdFree LinkStep) Link.initial es s ∧
        s.client.lastMid ≤ Link.initial.idsGenerated es ∧
        s.transfer.Within {i | i ≤ s.client.lastMid} := by
  apply Run.reverseInduction _ _ hr
  · intro _
    refine ⟨.nil _, le_rfl, ?_⟩
    rw [Link.initial_transfer]
    exact within_initial.mono (Set.empty_subset _)
  · intro es s e s' hr ih hstep hcount
    rw [Link.idsGenerated_snoc hr] at hcount ⊢
    obtain ⟨hr, hmid, hwithin⟩ := ih (by omega)
    obtain ⟨hsafe, hok⟩ := Link.run_safe hr
    have hsnoc : IdFree s e → Run (Guarded IdFree LinkStep) Link.initial (es ++ [e]) s' :=
      fun hfree => hr.append (.cons ⟨hfree, hstep⟩ (.nil s'))
    rcases Link.step_settings hstep with ⟨hfresh, hsettings⟩ | ⟨hgenerates, hfresh, hsettings⟩
    · have hlast : s'.client.lastMid = s.client.lastMid := congrArg Prod.fst hsettings
      have hfree : IdFree s e := by
        rw [IdFree, hfresh]
        simp
      refine ⟨hsnoc hfree, by omega, ?_⟩
      have hnext := hwithin.step (Link.step_refines hsafe hok hfree hstep)
      rw [hfresh, Set.union_empty] at hnext
      rwa [hlast]
    · have hlast : s'.client.lastMid = s.client.midGenerate.1 := congrArg Prod.fst hsettings
      rw [if_pos hgenerates] at hcount ⊢
      -- the id is one more than the last one
      have hmid1 : s.client.midGenerate.1 = s.client.lastMid + 1 := by
        unfold Client.midGenerate
        dsimp only
        rw [Nat.mod_eq_of_lt (by omega), if_neg (by omega)]
      have hfree : IdFree s e := by
        intro i hi
        apply hwithin.free
        rw [Set.mem_singleton_iff.1 (hfresh hi), hmid1]
        simp
      refine ⟨hsnoc hfree, by omega, ?_⟩
      apply (hwithin.step (Link.step_refines hsafe hok hfree hstep)).mono
      rw [hlast, hmid1]
      rintro i (hi | hi)
      · exact Nat.le_succ_of_le hi
      · obtain rfl : i = s.client.midGenerate.1 := hfresh hi
        exact hmid1.le

/-! ### The window -/

/-- **The ids**: in every run in which at most 65535 ids are generated, none is given to a
    message while a message that is kept, a packet that is under way or an acknowledgement
    that is owed still names it. -/
theorem ids_free {es : List LinkEvent} {s : Link} (hr : Run LinkStep Link.initial es s)
    (hes : Link.initial.idsGenerated es ≤ 65535) :
    Run (Guarded IdFree LinkStep) Link.initial es s :=
  (Link.idFree_first hr hes).1

/-- The second of two messages. -/
theorem ids_free_sample : ∃ s, Run (Guarded IdFree LinkStep) Link.initial
    [.publish [97] [120] 1 false 0, .publish [97] [121] 2 false 0] s ∧
    s.client.outMessages.map Message.mid = [1, 2] := by
  have hr : Run LinkStep Link.initial
      [.publish [97] [120] 1 false 0, .publish [97] [121] 2 false 0] _ :=
    .cons rfl (.cons rfl (.nil _))
  exact ⟨_, ids_free hr ((Link.idsGenerated_le _ _).trans (by decide)), rfl⟩

end TrackerDemo.Mosquitto
