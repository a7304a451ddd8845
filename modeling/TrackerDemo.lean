import TrackerDemo.Lib.Transition
import TrackerDemo.Lib.Clamp
import TrackerDemo.Lib.CString
import TrackerDemo.Lib.Decimal
import TrackerDemo.Lib.TextLines
import TrackerDemo.Lib.Json
import TrackerDemo.Lib.Signal
import TrackerDemo.Lib.Table
import TrackerDemo.Utilities.Trim
import TrackerDemo.Utilities.SubString
import TrackerDemo.Hw.Pwm
import TrackerDemo.Hw.PwmRuns
import TrackerDemo.Hw.Stepping
import TrackerDemo.Hw.Adc
import TrackerDemo.Hw.Gpio
import TrackerDemo.Jsmn.Basic
import TrackerDemo.Jsmn.Scanner
import TrackerDemo.Jsmn.Layout
import TrackerDemo.Jsmn.FirstLexeme
import TrackerDemo.Jsmn.Refinement
import TrackerDemo.Jsmn.CopyToken
import TrackerDemo.Jsmn.JsonText
import TrackerDemo.Jsmn.TokenLimit
import TrackerDemo.Jsmn.FirstTokens
import TrackerDemo.Config.Params
import TrackerDemo.Config.Assignment
import TrackerDemo.Config.Reader
import TrackerDemo.Config.Buffers
import TrackerDemo.Config.LineEffects
import TrackerDemo.Config.Comments
import TrackerDemo.Config.ParameterLines
import TrackerDemo.Config.SensorMapping
import TrackerDemo.Config.Written
import TrackerDemo.Config.Calibration
import TrackerDemo.Config.KeyValueLines
import TrackerDemo.Config.TrailingComments
import TrackerDemo.Config.RoundTrip
import TrackerDemo.Config.LastAssignment
import TrackerDemo.Config.LooseLines
import TrackerDemo.Tracker.MainLoop
import TrackerDemo.Tracker.ServoRuns
import TrackerDemo.Tracker.ReportedAngles
import TrackerDemo.Tracker.DriveTime
import TrackerDemo.Tracker.AtRest
import TrackerDemo.Tracker.PinRuns
import TrackerDemo.Tracker.Nanoseconds
import TrackerDemo.Tracker.Symmetry
import TrackerDemo.Tracker.Snapshot
import TrackerDemo.Tracker.Irradiances
import TrackerDemo.Tracker.Sleep
import TrackerDemo.Mqtt.Callback
import TrackerDemo.Mqtt.PayloadOnly
import TrackerDemo.Mqtt.Soundness
import TrackerDemo.Mqtt.Insertion
import TrackerDemo.Mqtt.FlatMessages
import TrackerDemo.Mqtt.TokenReads
import TrackerDemo.Mqtt.TokenRoom
import TrackerDemo.Mqtt.Channels
import TrackerDemo.Mqtt.ElementLengths
import TrackerDemo.Mqtt.Session
import TrackerDemo.Stow.Monitor
import TrackerDemo.Stow.Debounce
import TrackerDemo.Stow.Interleaving
import TrackerDemo.Stow.FailedReads
import TrackerDemo.Lib.Base128
import TrackerDemo.Mosquitto.Packet
import TrackerDemo.Mosquitto.PacketRead
import TrackerDemo.Mosquitto.PacketStream
import TrackerDemo.Mosquitto.Send
import TrackerDemo.Mosquitto.Client
import TrackerDemo.Mosquitto.ClientRuns
import TrackerDemo.Mosquitto.Received
import TrackerDemo.Mosquitto.TopicMatch
import TrackerDemo.Mqtt.StowSession
import TrackerDemo.Mosquitto.Channel
import TrackerDemo.Lib.Delivery
import TrackerDemo.Mosquitto.AtLeastOnce
import TrackerDemo.Mosquitto.Progress
import TrackerDemo.Lib.Inbox
import TrackerDemo.Lib.Seeking
import TrackerDemo.Mosquitto.Incoming
import TrackerDemo.Mosquitto.Keepalive
import TrackerDemo.Tracker.Settling
