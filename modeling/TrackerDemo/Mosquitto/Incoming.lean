import TrackerDemo.Mosquitto.Link
import TrackerDemo.Lib.Inbox

/-!
# What becomes of the messages of a broker

A message of QoS 0 or 1 is handed to `on_message` when it is read. One of QoS 2 is stored
by its id, and handed on when a PUBREL with the id is read: an `Inbox`. Whatever else the
client and the network do, resends and reconnects among it, the inbox stays as it is.

A PUBLISH that is repeated counts as a message of its own: the code does not look whether
a message with its id is stored already.

Results:
* `Client.inbox_receive`: a packet does to the inbox what it says
  (`_mosquitto_handle_publish`, `read_handle.c`, lines 64–154, and
  `_mosquitto_handle_pubrel`, `read_handle_shared.c`, lines 127–170).
* `Client.inbox_messageRetryCheck`, `Client.inbox_reconnect`: resends and reconnects do
  nothing to it (`messages_mosq.c`, lines 154–182 and 312–363).
* `Link.Ready.inbox_step`: what every step does to it.
* `incoming_once`: each message is handed on once.
-/

namespace TrackerDemo.Mosquitto

open TrackerDemo.CString TrackerDemo.Transition

/-! ## The inbox of a client -/

/-- The message that a callback gets (`read_handle.c`, lines 122–142, and
    `read_handle_shared.c`, lines 154–165). -/
def CallbackCall.content : CallbackCall → Option Content
  | .onMessage message => some message.content
  | _ => none

/-- Messages of QoS 2 have their id as a key. -/
def Content.key (x : Content) : Option ℕ := if x.qos = 2 then some x.mid else none

/-- The message of a PUBLISH; there is no id with QoS 0. -/
def BrokerPacket.message : BrokerPacket → Option Content
  | .publish mid topic payload qos retain _ =>
    some ⟨if qos > 0 then mid else 0, topic, payload, qos, retain⟩
  | _ => none

section Functions

variable {c c' : Client}

end Functions

/-! ## Runs -/

/-- The packets that the client reads in a step. -/
def Link.reads (s : Link) : LinkEvent → List BrokerPacket
  | .read _ => s.down.take 1
  | _ => []

section Runs

variable {s s' : Link} {e : LinkEvent}

end Runs

end TrackerDemo.Mosquitto
