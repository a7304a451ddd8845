import TrackerDemo.Mosquitto.ClientRuns

/-!
# The messages in flight

A client has at most `max_inflight_messages` messages of QoS 1 and 2 in flight; the
others wait, behind them in the list. `Client.Window` says how the code keeps that: by
the state `mosq_ms_invalid` of the messages that wait and by the counter
`inflight_messages`, and each function that adds, removes or resets messages keeps it.

Results:
* `Client.Window.split`: the list is the messages in flight and those that wait.
* `Client.Window.messageRemoveOut`: when a message in flight is removed, the first one
  that waits takes its place.
* `Client.Window.resetOut_eq`: the reset of a reconnect neither starts a message nor makes
  one wait.
-/

namespace TrackerDemo.Mosquitto

open TrackerDemo.CString

/-- The message waits until others have been acknowledged. -/
def Message.Waits (m : Message) : Prop := m.state = .invalid

instance (m : Message) : Decidable m.Waits := inferInstanceAs (Decidable (_ = _))

/-- The messages that wait are the last ones, the others are counted, and none waits while
    there is room. Only incoming messages wait for a PUBREL. -/
structure Client.Window (c : Client) : Prop where
  order : c.outMessages.Pairwise fun m m' => m.Waits → m'.Waits
  inflight_eq : c.inflightMessages = c.outMessages.countP (¬ ·.Waits)
  full : ∀ m ∈ c.outMessages, m.Waits → ¬ c.HasRoom
  states : ∀ m ∈ c.outMessages, m.state ≠ .waitForPubrel

section Window

variable {c c' : Client}

theorem Client.initial_window : Client.initial.Window :=
  ⟨.nil, rfl, by simp [Client.initial], by simp [Client.initial]⟩

/-- The messages and the counters are all that counts. -/
theorem Client.Window.of_eq (h : c.Window) (hout : c'.outMessages = c.outMessages)
    (hinflight : c'.inflightMessages = c.inflightMessages)
    (hmax : c'.maxInflightMessages = c.maxInflightMessages) : c'.Window := by
  refine ⟨hout ▸ h.order, ?_, ?_, hout ▸ h.states⟩
  · rw [hinflight, hout]
    exact h.inflight_eq
  · rw [hout, Client.HasRoom, hinflight, hmax]
    exact h.full

/-- A message that waits as the other one does. -/
structure WaitsAlike (m m' : Message) : Prop where
  waits_iff : m'.Waits ↔ m.Waits
  state_ne : m.state ≠ .waitForPubrel → m'.state ≠ .waitForPubrel

theorem WaitsAlike.refl (m : Message) : WaitsAlike m m := ⟨Iff.rfl, id⟩

/-- Messages may change, but none starts, and none waits that did not. -/
theorem Client.Window.withMessages (h : c.Window) {ms : List Message}
    (hms : List.Forall₂ WaitsAlike c.outMessages ms) : { c with outMessages := ms }.Window := by
  have hmap : ms.map (fun m => decide m.Waits) = c.outMessages.map fun m => decide m.Waits := by
    rw [← List.forall₂_eq_eq_eq, List.forall₂_map_left_iff, List.forall₂_map_right_iff]
    exact hms.flip.imp fun m m' hm => by simp [hm.waits_iff]
  have horder : ∀ ms : List Message, (ms.Pairwise fun m m' => m.Waits → m'.Waits) ↔
      (ms.map fun m => decide m.Waits).Pairwise fun a b => a = true → b = true := by
    intro ms
    simp [List.pairwise_map]
  have hcount : ∀ ms : List Message, ms.countP (¬ ·.Waits) =
      (ms.map fun m => decide m.Waits).countP (! ·) := by
    intro ms
    simp [List.countP_map, Function.comp_def]
  refine ⟨?_, ?_, fun m' hm' hwaits => ?_, ?_⟩
  · rw [horder, hmap, ← horder]
    exact h.order
  · rw [hcount, hmap, ← hcount]
    exact h.inflight_eq
  · have hmem : true ∈ c.outMessages.map fun m => decide m.Waits := by
      rw [← hmap]
      exact List.mem_map.2 ⟨m', hm', decide_eq_true hwaits⟩
    obtain ⟨m, hm, hwaits⟩ := List.mem_map.1 hmem
    exact h.full m hm (of_decide_eq_true hwaits)
  · exact forall_mem_of_forall₂ hms (fun m m' hm => hm.state_ne) h.states

/-- The two parts of the list. -/
theorem Client.Window.split (h : c.Window) : ∃ started waiting,
    c.outMessages = started ++ waiting ∧ (∀ m ∈ started, ¬ m.Waits) ∧ (∀ m ∈ waiting, m.Waits) ∧
      c.inflightMessages = started.length ∧ (waiting ≠ [] → ¬ c.HasRoom) := by
  have hsplit : ∀ ms : List Message, (ms.Pairwise fun m m' => m.Waits → m'.Waits) →
      ∃ started waiting, ms = started ++ waiting ∧ (∀ m ∈ started, ¬ m.Waits) ∧
        ∀ m ∈ waiting, m.Waits := by
    intro ms horder
    induction ms with
    | nil => exact ⟨[], [], rfl, by simp, by simp⟩
    | cons m ms ih =>
      obtain ⟨hm, horder⟩ := List.pairwise_cons.1 horder
      by_cases hwaits : m.Waits
      · exact ⟨[], m :: ms, rfl, by simp, List.forall_mem_cons.2 ⟨hwaits, fun m' hm' =>
          hm m' hm' hwaits⟩⟩
      · obtain ⟨started, waiting, rfl, hstarted, hwaiting⟩ := ih horder
        exact ⟨m :: started, waiting, rfl, List.forall_mem_cons.2 ⟨hwaits, hstarted⟩, hwaiting⟩
  obtain ⟨started, waiting, hms, hstarted, hwaiting⟩ := hsplit _ h.order
  refine ⟨started, waiting, hms, hstarted, hwaiting, ?_, fun hne => ?_⟩
  · have hall : started.countP (¬ ·.Waits) = started.length := by
      rw [List.countP_eq_length]
      simpa using hstarted
    have hnone : waiting.countP (¬ ·.Waits) = 0 := by
      rw [List.countP_eq_zero]
      simpa using hwaiting
    rw [h.inflight_eq, hms, List.countP_append, hall, hnone, Nat.add_zero]
  · obtain ⟨m, waiting, rfl⟩ := List.exists_cons_of_ne_nil hne
    exact h.full m (by rw [hms]; simp) (hwaiting m List.mem_cons_self)

/-! ## Publishing -/

theorem startState_ne_invalid {qos : ℕ} (hqos : qos = 1 ∨ qos = 2) (state : MsgState) :
    startState qos state = .waitForPuback ∨ startState qos state = .waitForPubrec := by
  rcases hqos with rfl | rfl
  · exact .inl rfl
  · exact .inr rfl

/-- Room means that no message waits. -/
theorem Client.Window.not_waits (h : c.Window) (hroom : c.HasRoom) :
    ∀ m ∈ c.outMessages, ¬ m.Waits :=
  fun m hm hwaits => h.full m hm hwaits hroom

theorem Client.Window.publishStart (h : c.Window) (topic payload : Bytes) {qos : ℕ}
    (hqos : qos = 0 ∨ qos = 1 ∨ qos = 2) (retain : Bool) (now : ℕ) :
    (c.publishStart topic payload qos retain now).2.Window := by
  rcases hqos with rfl | hqos
  · exact h.of_eq rfl rfl rfl
  rw [Client.publishStart_eq topic payload (by omega)]
  split_ifs with hroom
  · have hwaits : ¬ Message.Waits ⟨c.midGenerate.1, topic, payload, qos, retain, false,
        startState qos .invalid, now⟩ := by
      rcases startState_ne_invalid hqos .invalid with he | he <;> simp [Message.Waits, he]
    refine ⟨?_, ?_, fun m hm hm' => ?_, fun m hm => ?_⟩
    · refine List.pairwise_append.2 ⟨h.order, List.pairwise_singleton .., fun m hm _ _ hm' => ?_⟩
      exact absurd hm' (h.not_waits hroom m hm)
    · show c.inflightMessages + 1 = _
      rw [h.inflight_eq, List.countP_append, List.countP_singleton, if_pos (by simpa using hwaits)]
      rfl
    · rcases List.mem_append.1 hm with hm | hm
      · exact absurd hm' (h.not_waits hroom m hm)
      · rw [List.mem_singleton.1 hm] at hm'
        exact absurd hm' hwaits
    · rcases List.mem_append.1 hm with hm | hm
      · exact h.states m hm
      · rw [List.mem_singleton.1 hm]
        rcases startState_ne_invalid hqos .invalid with he | he <;> simp [he]
  · refine ⟨?_, ?_, fun _ _ _ => hroom, fun m hm => ?_⟩
    · refine List.pairwise_append.2 ⟨h.order, List.pairwise_singleton .., fun m _ m' hm' _ => ?_⟩
      rw [List.mem_singleton.1 hm']
      exact rfl
    · show c.inflightMessages = _
      rw [h.inflight_eq, List.countP_append, List.countP_singleton]
      simp [Message.Waits]
    · rcases List.mem_append.1 hm with hm | hm
      · exact h.states m hm
      · rw [List.mem_singleton.1 hm]
        simp

/-! ## Removing -/

/-- Messages that do not wait are left alone. -/
theorem Client.startWaiting_append {xs : List Message} (hxs : ∀ m ∈ xs, ¬ m.Waits)
    (ms : List Message) (c : Client) :
    c.startWaiting (xs ++ ms) =
      if c.HasRoom then
        ((c.startWaiting ms).1, xs ++ (c.startWaiting ms).2.1, (c.startWaiting ms).2.2)
      else (none, xs ++ ms, c) := by
  induction xs with
  | nil =>
    split_ifs with hroom
    · rfl
    · cases ms with
      | nil => rfl
      | cons m ms =>
        show c.startWaiting (m :: ms) = (none, m :: ms, c)
        rw [Client.startWaiting, if_neg hroom]
  | cons x xs ih =>
    rw [List.forall_mem_cons] at hxs
    rw [List.cons_append, Client.startWaiting, ih hxs.2]
    split_ifs with hroom hwaits
    · exact absurd hwaits.2 hxs.1
    · rfl
    · rfl

/-- The message that is started when there is room for one. -/
def Message.start (m : Message) : Message := { m with state := startState m.qos m.state }

theorem Message.start_state {m : Message} (hqos : m.qos = 1 ∨ m.qos = 2) :
    m.start.state = .waitForPuback ∨ m.start.state = .waitForPubrec :=
  startState_ne_invalid hqos m.state

theorem Message.start_not_waits {m : Message} (hqos : m.qos = 1 ∨ m.qos = 2) : ¬ m.start.Waits := by
  unfold Message.Waits
  rcases m.start_state hqos with he | he <;> simp [he]

/-- With room for one message, the first one that waits is started. -/
theorem Client.startWaiting_cons {w : Message} (hqos : w.qos > 0) (hwaits : w.Waits)
    (hroom : c.HasRoom) (hfull : ¬ { c with inflightMessages := c.inflightMessages + 1 }.HasRoom)
    (ms : List Message) :
    ∃ rc ps, c.startWaiting (w :: ms) = (rc, w.start :: ms,
      { c with inflightMessages := c.inflightMessages + 1, outPackets := ps }) := by
  rw [Client.startWaiting, if_pos hroom, if_pos ⟨hqos, hwaits⟩]
  obtain ⟨ps, hps⟩ := Client.sendPublish_snd w.start
    { c with inflightMessages := c.inflightMessages + 1 }
  have hstart : { w with state := startState w.qos w.state } = w.start := rfl
  dsimp only
  rw [hstart]
  generalize Client.sendPublish w.start { c with inflightMessages := c.inflightMessages + 1 } = out
    at hps ⊢
  obtain ⟨rc, c1⟩ := out
  obtain rfl := hps
  cases rc with
  | some rc => exact ⟨some rc, ps, rfl⟩
  | none =>
    -- the loop stops, or is at its end
    refine ⟨none, ps, ?_⟩
    cases ms with
    | nil => rfl
    | cons m ms =>
      dsimp only
      have hfull' : ¬ { c with
          inflightMessages := c.inflightMessages + 1, outPackets := ps }.HasRoom := hfull
      rw [Client.startWaiting, if_neg hfull']

theorem Client.hasRoom_iff (c : Client) :
    c.HasRoom ↔ c.maxInflightMessages = 0 ∨ c.inflightMessages < c.maxInflightMessages := Iff.rfl

/-- A message in flight is removed. -/
theorem Client.Window.messageRemoveOut (h : c.Window) (hc : c.Ok)
    (hqos : ∀ m ∈ c.outMessages, m.qos = 1 ∨ m.qos = 2) {mid : ℕ}
    (hmid : ∀ m ∈ c.outMessages, m.mid = mid → ¬ m.Waits) : (c.messageRemoveOut mid).2.Window := by
  unfold Client.messageRemoveOut
  cases htake : takeMid mid c.outMessages with
  | none => exact h
  | some r =>
    obtain ⟨cur, rest⟩ := r
    obtain ⟨pre, post, hms, rfl, hcurmid, -⟩ := takeMid_eq_some htake
    have hcur : cur ∈ c.outMessages := by rw [hms]; simp
    have hsub : (pre ++ post).Sublist c.outMessages := by
      rw [hms]
      exact (List.sublist_cons_self _ post).append_left pre
    have horder : (pre ++ post).Pairwise fun m m' => m.Waits → m'.Waits := h.order.sublist hsub
    have hcount : c.inflightMessages = (pre ++ post).countP (¬ ·.Waits) + 1 := by
      have hcurwaits := hmid cur hcur hcurmid
      rw [h.inflight_eq, hms, List.countP_append, List.countP_append, List.countP_cons,
        if_pos (by simpa using hcurwaits)]
      push_cast
      omega
    have hcurqos : cur.qos > 0 := by
      have := hqos cur hcur
      omega
    dsimp only
    rw [if_pos hcurqos]
    set c1 : Client := { c with
      outQueueLen := c.outQueueLen - 1
      inflightMessages := c.inflightMessages - 1 } with hc1
    have hinflight : c1.inflightMessages = c.inflightMessages - 1 := rfl
    have hmax : c1.maxInflightMessages = c.maxInflightMessages := rfl
    cases hfind : (pre ++ post).find? (·.Waits) with
    | none =>
      -- no message waits
      have hnone : ∀ m ∈ pre ++ post, ¬ m.Waits := by
        simpa using List.find?_eq_none.1 hfind
      have hstart := Client.startWaiting_append hnone [] c1
      rw [List.append_nil] at hstart
      have hsame : c1.startWaiting (pre ++ post) = (none, pre ++ post, c1) := by
        rw [hstart]
        split_ifs
        · simp [Client.startWaiting]
        · rfl
      rw [hsame]
      refine ⟨horder, ?_, fun m hm hwaits => absurd hwaits (hnone m hm), fun m hm =>
        h.states m (hsub.mem hm)⟩
      dsimp only
      omega
    | some w =>
      obtain ⟨hw, xs, ys, hsplit, hxs⟩ := List.find?_eq_some_iff_append.1 hfind
      have hw : w.Waits := by simpa using hw
      have hxs : ∀ m ∈ xs, ¬ m.Waits := by simpa using hxs
      have hwmem : w ∈ pre ++ post := by rw [hsplit]; simp
      have hwout : w ∈ c.outMessages := hsub.mem hwmem
      -- a message waits, so that all the room is the one of the message that is removed
      have hnoroom := h.full w hwout hw
      have hle := hc.inflight_le
      rw [Client.hasRoom_iff] at hnoroom
      have hroom : c1.HasRoom := by
        rw [Client.hasRoom_iff, hinflight, hmax]
        omega
      have hfull : ¬ { c1 with inflightMessages := c1.inflightMessages + 1 }.HasRoom := by
        rw [Client.hasRoom_iff]
        dsimp only
        rw [hinflight, hmax]
        omega
      have hwqos := hqos w hwout
      obtain ⟨rc, ps, hstart⟩ := Client.startWaiting_cons (by omega) hw hroom hfull ys
      have hwstart : ¬ w.start.Waits := Message.start_not_waits hwqos
      rw [hsplit, Client.startWaiting_append hxs, if_pos hroom, hstart]
      rw [hsplit] at horder hcount hsub
      obtain ⟨hxsorder, hwsorder, hcross⟩ := List.pairwise_append.1 horder
      refine ⟨?_, ?_, fun m hm hwaits => ?_, fun m hm => ?_⟩
      · refine List.pairwise_append.2 ⟨hxsorder, ?_, fun m hm _ _ hwaits => ?_⟩
        · exact List.pairwise_cons.2 ⟨fun _ _ hwaits => absurd hwaits hwstart,
            (List.pairwise_cons.1 hwsorder).2⟩
        · exact absurd hwaits (hxs m hm)
      · dsimp only
        rw [List.countP_append, List.countP_cons, if_neg (by simpa using hw)] at hcount
        rw [List.countP_append, List.countP_cons, if_pos (by simpa using hwstart), hinflight]
        push_cast at hcount ⊢
        omega
      · exact hfull
      · rcases List.mem_append.1 hm with hm | hm
        · exact h.states m (hsub.mem (List.mem_append_left _ hm))
        · rcases List.mem_cons.1 hm with rfl | hm
          · rcases w.start_state hwqos with he | he <;> simp [he]
          · exact h.states m (hsub.mem (List.mem_append_right _ (List.mem_cons_of_mem w hm)))

/-! ## The other functions -/

/-- The state is changed of the first message with the id. -/
theorem Client.messageOutUpdate_cases (mid : ℕ) (state : MsgState) (now : ℕ) (c : Client) :
    (c.messageOutUpdate mid state now).2 = c ∨
      ∃ pre m post, c.outMessages = pre ++ m :: post ∧ m.mid = mid ∧
        (c.messageOutUpdate mid state now).2 = { c with
          outMessages := pre ++ { m with state := state, timestamp := now } :: post } := by
  unfold Client.messageOutUpdate
  cases hfind : c.outMessages.findIdx? (·.mid = mid) with
  | none => exact .inl rfl
  | some i =>
    obtain ⟨hi, hmid, -⟩ := List.findIdx?_eq_some_iff_getElem.1 hfind
    refine .inr ⟨c.outMessages.take i, c.outMessages[i], c.outMessages.drop (i + 1), ?_, ?_, ?_⟩
    · rw [List.cons_getElem_drop_succ, List.take_append_drop]
    · simpa using hmid
    · dsimp only
      rw [List.modify_eq_take_cons_drop hi]

theorem Client.Window.messageOutUpdate (h : c.Window) {mid : ℕ}
    (hmid : ∀ m ∈ c.outMessages, m.mid = mid → ¬ m.Waits) {state : MsgState}
    (hstate : state ≠ .invalid) (hstate' : state ≠ .waitForPubrel) (now : ℕ) :
    (c.messageOutUpdate mid state now).2.Window := by
  rcases c.messageOutUpdate_cases mid state now with he | ⟨pre, m, post, hms, hm, he⟩
  · rw [he]
    exact h
  · rw [he]
    have hwaits : ¬ m.Waits := by
      apply hmid m _ hm
      rw [hms]
      simp
    have hrefl : ∀ ms : List Message, List.Forall₂ WaitsAlike ms ms :=
      fun ms => List.forall₂_same.2 fun m _ => .refl m
    apply h.withMessages
    rw [hms]
    exact List.rel_append (hrefl pre) (.cons ⟨iff_of_false hstate hwaits, fun _ => hstate'⟩
      (hrefl post))

theorem Client.Window.messageRetryCheck (h : c.Window) (now : ℕ) :
    (c.messageRetryCheck now).Window := by
  obtain ⟨out, inc, ps, he, hout, -⟩ := c.messageRetryCheck_spec now
  rw [he]
  have hsame : List.Forall₂ WaitsAlike c.outMessages out :=
    hout.imp fun m m' ⟨_, _, hm⟩ => hm ▸ ⟨Iff.rfl, id⟩
  exact (h.withMessages hsame).of_eq rfl rfl rfl

/-! ## Connecting again -/

/-- A message after the connection is lost. -/
def Message.reset (m : Message) : Message :=
  { m with
    timestamp := 0
    state := if m.qos = 1 ∧ ¬ m.Waits then .waitForPuback else m.state }

theorem Message.reset_waits (m : Message) : m.reset.Waits ↔ m.Waits := by
  unfold Message.reset Message.Waits
  dsimp only
  split_ifs with h
  · simp [h.2]
  · rfl

/-- The loop, with `inflight` messages in flight before it. -/
theorem resetOut_eq {maxInflight : ℕ} {ms : List Message} (hqos : ∀ m ∈ ms, m.qos > 0)
    (horder : ms.Pairwise fun m m' => m.Waits → m'.Waits) {inflight : ℤ}
    (hle : maxInflight = 0 ∨ inflight + ms.countP (¬ ·.Waits) ≤ maxInflight)
    (hfull : ∀ m ∈ ms, m.Waits →
      maxInflight ≠ 0 ∧ maxInflight ≤ inflight + ms.countP (¬ ·.Waits)) :
    resetOut maxInflight inflight ms =
      (inflight + ms.countP (¬ ·.Waits), ms.map Message.reset) := by
  induction ms generalizing inflight with
  | nil => simp [resetOut]
  | cons m ms ih =>
    rw [List.forall_mem_cons] at hqos hfull
    obtain ⟨hm, horder⟩ := List.pairwise_cons.1 horder
    have htail : ∀ inflight : ℤ,
        (maxInflight = 0 ∨ inflight + ms.countP (¬ ·.Waits) ≤ maxInflight) →
        (∀ m ∈ ms, m.Waits → maxInflight ≠ 0 ∧ maxInflight ≤ inflight + ms.countP (¬ ·.Waits)) →
        resetOut maxInflight inflight ms =
          (inflight + ms.countP (¬ ·.Waits), ms.map Message.reset) :=
      fun _ => ih hqos.2 horder
    rw [resetOut]
    by_cases hwaits : m.Waits
    · -- all the others wait, and the window is full
      have hrest : ms.countP (¬ ·.Waits) = 0 := by
        rw [List.countP_eq_zero]
        intro m' hm'
        simpa using hm m' hm' hwaits
      have hcons : (m :: ms).countP (¬ ·.Waits) = ms.countP (¬ ·.Waits) :=
        List.countP_cons_of_neg (by simpa using hwaits)
      rw [hcons] at hle hfull ⊢
      have hstate : m.state = .invalid := hwaits
      have hroom : ¬ (maxInflight = 0 ∨ inflight < maxInflight) := by
        have hge := hfull.1 hwaits
        rw [hrest] at hge
        push_cast at hge
        omega
      rw [if_neg hroom, htail _ hle hfull.2]
      simp [Message.reset, hwaits, hstate]
    · have hcons : (m :: ms).countP (¬ ·.Waits) = ms.countP (¬ ·.Waits) + 1 :=
        List.countP_cons_of_pos (by simpa using hwaits)
      rw [hcons] at hle hfull ⊢
      push_cast at hle hfull ⊢
      have hroom : maxInflight = 0 ∨ inflight < maxInflight := by omega
      have hstate : (if m.qos = 1 then MsgState.waitForPuback else m.state) =
          if m.qos = 1 ∧ ¬ m.Waits then .waitForPuback else m.state := by
        simp [hwaits]
      rw [if_pos hroom, if_pos hqos.1, htail (inflight + 1) (by omega) (fun m' hm' hwaits' => by
        have := hfull.2 m' hm' hwaits'
        omega), hstate]
      exact Prod.ext (by dsimp only; omega) rfl

/-- The reset changes no message that waits, and lets none wait. -/
theorem Client.Window.resetOut_eq (h : c.Window) (hc : c.Ok)
    (hqos : ∀ m ∈ c.outMessages, m.qos > 0) :
    resetOut c.maxInflightMessages 0 c.outMessages =
      (c.inflightMessages, c.outMessages.map Message.reset) := by
  have hle := hc.inflight_le
  rw [h.inflight_eq] at hle ⊢
  rw [TrackerDemo.Mosquitto.resetOut_eq hqos h.order, zero_add]
  · rwa [zero_add]
  · intro m hm hwaits
    have hroom := h.full m hm hwaits
    rw [Client.hasRoom_iff, h.inflight_eq] at hroom
    omega

theorem Client.reconnect_eq {sock : Bool} (h : c.reconnect sock = some c') :
    ∃ inQueueLen inMessages, c' = { c with
      state := .new
      pingT := 0
      outPackets := []
      inQueueLen := inQueueLen
      inMessages := inMessages
      inflightMessages := (resetOut c.maxInflightMessages 0 c.outMessages).1
      outQueueLen := (resetOut c.maxInflightMessages 0 c.outMessages).2.length
      outMessages := (resetOut c.maxInflightMessages 0 c.outMessages).2
      sock := sock } := by
  unfold Client.reconnect Client.messagesReconnectReset at h
  cases hin : resetIn c.inMessages with
  | none => simp [hin] at h
  | some r =>
    simp only [hin] at h
    exact ⟨r.1, r.2, (Option.some.inj h).symm⟩

/-- The reset finds no message that it would drop. -/
theorem Client.Ok.reconnect (h : c.Ok) (sock : Bool) :
    ∃ c', c.reconnect sock = some c' ∧ c'.Ok := by
  have hnew : { c with state := .new, pingT := 0, outPackets := [] }.Ok :=
    ⟨h.inMessages, h.inQueueLen_eq, h.outQueueLen_eq, h.inflight_le, h.delivered⟩
  obtain ⟨c1, he, hok⟩ := hnew.messagesReconnectReset
  unfold Client.reconnect
  rw [he]
  exact ⟨_, rfl, hok.inMessages, hok.inQueueLen_eq, hok.outQueueLen_eq, hok.inflight_le,
    hok.delivered⟩

/-- A reconnect resets the messages. -/
theorem Client.Window.reconnect_eq (h : c.Window) (hc : c.Ok)
    (hqos : ∀ m ∈ c.outMessages, m.qos > 0) {sock : Bool} (hr : c.reconnect sock = some c') :
    ∃ inQueueLen inMessages outQueueLen, c' = { c with
      state := .new
      pingT := 0
      outPackets := []
      inQueueLen := inQueueLen
      inMessages := inMessages
      outQueueLen := outQueueLen
      outMessages := c.outMessages.map Message.reset
      sock := sock } := by
  obtain ⟨inQueueLen, inMessages, rfl⟩ := Client.reconnect_eq hr
  rw [h.resetOut_eq hc hqos]
  exact ⟨inQueueLen, inMessages, _, rfl⟩

theorem Client.Window.reconnect (h : c.Window) (hc : c.Ok)
    (hqos : ∀ m ∈ c.outMessages, m.qos > 0) {sock : Bool} (hr : c.reconnect sock = some c') :
    c'.Window := by
  obtain ⟨inQueueLen, inMessages, outQueueLen, rfl⟩ := h.reconnect_eq hc hqos hr
  have hsame : List.Forall₂ WaitsAlike c.outMessages (c.outMessages.map Message.reset) := by
    rw [List.forall₂_map_right_iff]
    refine List.forall₂_same.2 fun m _ => ⟨m.reset_waits, fun hstate => ?_⟩
    unfold Message.reset
    dsimp only
    split_ifs
    · simp
    · exact hstate
  exact (h.withMessages hsame).of_eq rfl rfl rfl

end Window

end TrackerDemo.Mosquitto
