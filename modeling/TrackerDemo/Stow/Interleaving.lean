import TrackerDemo.Stow.Monitor
import TrackerDemo.Mqtt.Callback
import TrackerDemo.Tracker.ServoRuns

/-!
# Stowing and releasing the panel

The message callback, the monitor thread and the control loop as interleaved
atomic steps: each read and each write of a shared variable is a step of its
own. A pass of the monitor samples the button, reads the three sources in order
until one is active, and writes `panelIsStowed`.

Results:
* `panelIsStowed_eq_lastWritten`: the control loop sees the last pass's value.
* `writing_reads`: what a pass has read before it writes.
* `stowRelease_run`: the panel is released only when all sources were read
  inactive.
-/

namespace TrackerDemo.Stow

open TrackerDemo.CString TrackerDemo.Jsmn TrackerDemo.Mqtt TrackerDemo.Config
  TrackerDemo.Tracker TrackerDemo.Hw TrackerDemo.Transition

/-- The operands of line 449, in the order of evaluation. -/
inductive Source
  | button | webApp | rulesEngine
  deriving DecidableEq, Repr

/-- Where the monitor thread is in its pass. -/
inductive MonitorPc
  | sampling
  | reading (src : Source)
  | writing (stowed : Bool)
  deriving DecidableEq, Repr

/-- The shared variables, and the local state of the three actors. -/
structure System where
  monitor : MonitorState
  pc : MonitorPc
  panelIsStowed : Bool
  cmds : StowCmds
  /-- The assignments that the running callback has not made yet. -/
  pending : List StowWrite
  main : MainState

/-- The start: the button was read once, and the servos are positioned. -/
def System.initial (stowInput : GPIOState) (main : MainState) : System :=
  ⟨.initial stowInput, .sampling, false, .initial, [], main⟩

/-- The value of an operand. -/
def System.active (s : System) : Source → Bool
  | .button => s.monitor.stowButtonIsPressed
  | .webApp => s.cmds .webApp = 1
  | .rulesEngine => s.cmds .rulesEngine = 1

/-- `||` from left to right: what follows after an operand was read. -/
def MonitorPc.afterRead : Source → Bool → MonitorPc
  | _, true => .writing true
  | .button, false => .reading .webApp
  | .webApp, false => .reading .rulesEngine
  | .rulesEngine, false => .writing false

/-! ## Steps -/

/-- The atomic steps of the three actors. -/
inductive Event
  /-- The callback is entered with a message. -/
  | message (payload after : Bytes) (tokens0 : Tokens)
  /-- The callback makes an assignment. -/
  | assign (w : StowWrite)
  /-- The monitor samples the button and debounces it. -/
  | sample (stowInput : GPIOState)
  /-- The monitor reads an operand. -/
  | read (src : Source)
  /-- The monitor writes `panelIsStowed`. -/
  | write (stowed : Bool)
  /-- An iteration of the control loop. -/
  | iterate (atodRead : Corner → ℚ)

/-- A step of the system, with the parameters `p`. A message on which the
    callback leaves its buffers may be followed by any assignments. -/
inductive Step (p : Params) : System → Event → System → Prop
  | message {s : System} {payload after : Bytes} {tokens0 : Tokens} {ws : List StowWrite}
      (hidle : s.pending = [])
      (hws : ∀ ws', mqttCallbackWrites payload after tokens0 = some ws' → ws = ws') :
      Step p s (.message payload after tokens0) { s with pending := ws }
  | assign {s : System} {w : StowWrite} {ws : List StowWrite} (hpending : s.pending = w :: ws) :
      Step p s (.assign w)
        { s with pending := ws, cmds := Function.update s.cmds w.cmd w.value }
  | sample {s : System} (g : GPIOState) (hpc : s.pc = .sampling) :
      Step p s (.sample g) { s with monitor := monitorSample g s.monitor, pc := .reading .button }
  | read {s : System} {src : Source} (hpc : s.pc = .reading src) :
      Step p s (.read src) { s with pc := .afterRead src (s.active src) }
  | write {s : System} {stowed : Bool} (hpc : s.pc = .writing stowed) :
      Step p s (.write stowed) { s with panelIsStowed := stowed, pc := .sampling }
  | iterate {s : System} {atodRead : Corner → ℚ} {main : MainState}
      (hmain : mainStep p s.main ⟨atodRead, s.panelIsStowed⟩ main) :
      Step p s (.iterate atodRead) { s with main := main }

/-- The value of the last finished pass, if there was one. -/
def lastWritten : List Event → Option Bool
  | [] => none
  | .write stowed :: es => (lastWritten es).or (some stowed)
  | _ :: es => lastWritten es

variable {p : Params} {s0 : System}

/-- In the pass that the run `es` from `s0` ends in, the operand was read with
    this value. -/
def ReadInPass (p : Params) (s0 : System) (es : List Event) (src : Source) (value : Bool) : Prop :=
  ∃ pre post t, es = pre ++ .read src :: post ∧ Run (Step p) s0 pre t ∧ t.pc = .reading src ∧
    t.active src = value ∧ ∀ g, .sample g ∉ post

/-! ## What a pass has read -/

/-- The operands read so far in the pass. -/
def PassReads (p : Params) (s0 : System) (es : List Event) : MonitorPc → Prop
  | .sampling => True
  | .reading .button => True
  | .reading .webApp => ReadInPass p s0 es .button false
  | .reading .rulesEngine => ReadInPass p s0 es .button false ∧ ReadInPass p s0 es .webApp false
  | .writing true => ∃ src, ReadInPass p s0 es src true
  | .writing false => ∀ src, ReadInPass p s0 es src false

theorem ReadInPass.snoc {es : List Event} {src : Source} {value : Bool}
    (h : ReadInPass p s0 es src value) {e : Event} (he : ∀ g, e ≠ .sample g) :
    ReadInPass p s0 (es ++ [e]) src value := by
  obtain ⟨pre, post, t, rfl, hr, hpc, hv, hpost⟩ := h
  refine ⟨pre, post ++ [e], t, by simp, hr, hpc, hv, fun g hg => ?_⟩
  rcases List.mem_append.1 hg with hmem | hmem
  · exact hpost g hmem
  · exact he g (List.mem_singleton.1 hmem).symm

theorem PassReads.snoc {es : List Event} {pc : MonitorPc} (h : PassReads p s0 es pc) {e : Event}
    (he : ∀ g, e ≠ .sample g) : PassReads p s0 (es ++ [e]) pc := by
  cases pc with
  | sampling => trivial
  | reading src =>
    cases src with
    | button => trivial
    | webApp => exact ReadInPass.snoc h he
    | rulesEngine => exact ⟨h.1.snoc he, h.2.snoc he⟩
  | writing stowed =>
    cases stowed with
    | true =>
      obtain ⟨src, hsrc⟩ := h
      exact ⟨src, hsrc.snoc he⟩
    | false => exact fun src => (h src).snoc he

/-- The read that was just made. -/
theorem readInPass_now {es : List Event} {s : System} (hr : Run (Step p) s0 es s) {src : Source}
    (hpc : s.pc = .reading src) : ReadInPass p s0 (es ++ [.read src]) src (s.active src) :=
  ⟨es, [], s, rfl, hr, hpc, rfl, fun _ hg => by cases hg⟩

/-- The step lemma. -/
theorem PassReads.step {es : List Event} {s s' : System} {e : Event}
    (hr : Run (Step p) s0 es s) (h : PassReads p s0 es s.pc) (hstep : Step p s e s') :
    PassReads p s0 (es ++ [e]) s'.pc := by
  cases hstep with
  | message hidle hws => exact h.snoc fun g => by simp
  | assign hpending => exact h.snoc fun g => by simp
  | sample g hpc => trivial
  | @read src hpc =>
    have hnow := readInPass_now hr hpc
    rw [hpc] at h
    have hother : ∀ g, Event.read src ≠ .sample g := fun g => by simp
    show PassReads p s0 _ (MonitorPc.afterRead src (s.active src))
    cases hv : s.active src with
    | true =>
      rw [hv] at hnow
      cases src <;> exact ⟨_, hnow⟩
    | false =>
      rw [hv] at hnow
      cases src with
      | button => exact hnow
      | webApp => exact ⟨ReadInPass.snoc h hother, hnow⟩
      | rulesEngine =>
        intro src'
        cases src' with
        | button => exact h.1.snoc hother
        | webApp => exact h.2.snoc hother
        | rulesEngine => exact hnow
  | write hpc => trivial
  | iterate hmain => exact h.snoc fun g => by simp

/-- What every pass has read when it is about to write. -/
theorem writing_reads {es : List Event} {s : System} (hr : Run (Step p) s0 es s)
    (h0 : s0.pc = .sampling) : PassReads p s0 es s.pc := by
  refine hr.reverseInduction (P := fun es s => PassReads p s0 es s.pc) ?_
    fun es s e s' hr h hstep => h.step hr hstep
  rw [h0]
  trivial

/-! ## The shared variables -/

theorem lastWritten_append (es es' : List Event) :
    lastWritten (es ++ es') = (lastWritten es').or (lastWritten es) := by
  induction es with
  | nil => simp [lastWritten]
  | cons e es ih => cases e <;> simp [lastWritten, ih]

/-- `panelIsStowed` is what the last finished pass wrote. -/
theorem panelIsStowed_eq_lastWritten {es : List Event} {s : System}
    (hr : Run (Step p) s0 es s) : s.panelIsStowed = (lastWritten es).getD s0.panelIsStowed := by
  refine hr.reverseInduction
    (P := fun es s => s.panelIsStowed = (lastWritten es).getD s0.panelIsStowed) rfl ?_
  intro es s e s' _ h hstep
  rw [lastWritten_append]
  cases hstep with
  | write hpc => rfl
  | _ => exact h

/-- Only the monitor's write changes `panelIsStowed`. -/
theorem write_of_panelIsStowed_ne {s s' : System} {e : Event} (hstep : Step p s e s')
    (hne : s'.panelIsStowed ≠ s.panelIsStowed) :
    e = .write s'.panelIsStowed ∧ s.pc = .writing s'.panelIsStowed := by
  cases hstep with
  | write hpc => exact ⟨rfl, hpc⟩
  | _ => exact absurd rfl hne

/-- A command keeps its value while no message assigns it. -/
theorem cmds_of_no_assign {c : StowCmd} {es : List Event} {s s' : System}
    (hr : Run (Step p) s es s') (hes : ∀ w, .assign w ∈ es → w.cmd ≠ c) :
    s'.cmds c = s.cmds c := by
  refine @Run.frame _ _ (Step p) _ (fun s => s.cmds c) (fun e => ∃ w, e = .assign w ∧ w.cmd = c)
    ?_ _ _ _ hr ?_
  · intro s e t hno hstep
    cases hstep with
    | @assign w ws hpending =>
      have hne : c ≠ w.cmd := fun heq => hno ⟨w, rfl, heq.symm⟩
      exact Function.update_of_ne hne _ _
    | _ => rfl
  · rintro e he ⟨w, rfl, hw⟩
    exact hes w he hw

/-- The operand that reads a command. -/
def Source.ofCmd : StowCmd → Source
  | .webApp => .webApp
  | .rulesEngine => .rulesEngine

theorem active_ofCmd (s : System) (c : StowCmd) :
    s.active (.ofCmd c) = decide (s.cmds c = 1) := by cases c <;> rfl

/-- A pass that starts while a command is 1, and finishes before the command is
    assigned again, stows the panel. -/
theorem write_true_of_cmds {c : StowCmd} {es : List Event} {s s' : System}
    (hr : Run (Step p) s es s') (hc : s.cmds c = 1) (hpc : s.pc = .sampling)
    (hes : ∀ w, .assign w ∈ es → w.cmd ≠ c) {stowed : Bool} (hw : .write stowed ∈ es) :
    stowed = true := by
  obtain ⟨pre, post, rfl⟩ := List.append_of_mem hw
  obtain ⟨t, ht, hrest⟩ := run_append_iff.1 hr
  obtain ⟨u, hstep, -⟩ := run_cons_iff.1 hrest
  have hreads := writing_reads ht hpc
  have htpc : t.pc = .writing stowed := by
    cases hstep with
    | write hpc => exact hpc
  rw [htpc] at hreads
  cases stowed with
  | true => rfl
  | false =>
    -- the pass read the command, and it was 1 all the time
    obtain ⟨pre', post', v, rfl, hv, -, hinactive, -⟩ := hreads (.ofCmd c)
    have hkeep : v.cmds c = 1 := by
      rw [cmds_of_no_assign hv fun w hmem => hes w (by simp [hmem]), hc]
    rw [active_ofCmd, hkeep] at hinactive
    exact absurd hinactive (by decide)

/-! ## Stowing and releasing -/

/-- What may happen after the run `es` from `s0` to `s`. -/
structure StowRelease (p : Params) (s0 : System) (es : List Event) (s : System) : Prop where
  /-- The panel is stowed only by a pass that read a source active. -/
  stowed : ∀ e s', Step p s e s' → s.panelIsStowed = false → s'.panelIsStowed = true →
    e = .write true ∧ ∃ src, ReadInPass p s0 es src true
  /-- It is released only by a pass that read every source inactive. -/
  released : ∀ e s', Step p s e s' → s.panelIsStowed = true → s'.panelIsStowed = false →
    e = .write false ∧ ∀ src, ReadInPass p s0 es src false
  /-- A command stays in force until it is assigned again. -/
  inForce : ∀ c es' s', s.cmds c = 1 → Run (Step p) s es' s' →
    (∀ w, .assign w ∈ es' → w.cmd ≠ c) →
      s'.cmds c = 1 ∧ (s.pc = .sampling → ∀ b, .write b ∈ es' → b = true)
  /-- The control loop parks by the value of the last pass, or tracks by it and
      the readings of the iteration. -/
  followed : ∀ atodRead s', Step p s (.iterate atodRead) s' → ∃ irr scaled,
    readAndScale p atodRead s.main.irradianceV = some irr ∧ scaledValues p irr = some scaled ∧
      s'.main.irradianceV = irr ∧ s'.main.pwm =
        if (lastWritten es).getD false then stowServos p s.main.pwm
        else trackServos p scaled s.main.pwm

/-- **Release.** After every run from the start, the panel is stowed and released
    as the three sources demand. -/
theorem stowRelease_run (stowInput : GPIOState) (main : MainState) (es : List Event) (s : System)
    (hr : Run (Step p) (.initial stowInput main) es s) :
    StowRelease p (.initial stowInput main) es s := by
  have hreads := writing_reads hr rfl
  constructor
  · intro e s' hstep hf ht
    obtain ⟨he, hpc⟩ := write_of_panelIsStowed_ne hstep (by rw [hf, ht]; decide)
    rw [ht] at he hpc
    rw [hpc] at hreads
    exact ⟨he, hreads⟩
  · intro e s' hstep ht hf
    obtain ⟨he, hpc⟩ := write_of_panelIsStowed_ne hstep (by rw [hf, ht]; decide)
    rw [hf] at he hpc
    rw [hpc] at hreads
    exact ⟨he, hreads⟩
  · intro c es' s' hc hr' hes
    refine ⟨by rw [cmds_of_no_assign hr' hes, hc], fun hpc b hb => ?_⟩
    exact write_true_of_cmds hr' hc hpc hes hb
  · intro atodRead s' hstep
    have hlast := panelIsStowed_eq_lastWritten hr
    cases hstep with
    | iterate hmain =>
      obtain ⟨irr, scaled, hirr, hscaled, rfl⟩ := mainIteration_eq_some_iff.1 hmain
      refine ⟨irr, scaled, hirr, hscaled, rfl, ?_⟩
      rw [← show s.panelIsStowed = (lastWritten es).getD false from hlast]
      rfl

/-! ## A stow message and its release -/

/-- A message of the web app, and the callback's assignment. -/
def commandEvents (text : String) (value : ℤ) : List Event :=
  [.message (ascii text) [0] zeroTokens, .assign ⟨.webApp, value⟩]

/-- The web app stows the panel: a pass reads its command, the control loop parks
    the servo, the web app takes the command back, and the next pass has read
    all sources. -/
def releaseEvents : List Event :=
  commandEvents "\x7b\"stow_status\":1\x7d" 1 ++
    .sample .low :: .read .button :: .read .webApp :: .write true :: .iterate (fun _ => 0) ::
      (commandEvents "\x7b\"stow_status\":0\x7d" 0 ++
        [.sample .low, .read .button, .read .webApp, .read .rulesEngine])

theorem commandEvents_run {s : System} (hidle : s.pending = []) {text : String} {value : ℤ}
    (hws : mqttCallbackWrites (ascii text) [0] zeroTokens = some [⟨.webApp, value⟩]) :
    Run (Step p) s (commandEvents text value)
      { s with pending := [], cmds := Function.update s.cmds .webApp value } := by
  refine .cons (@Step.message p s _ _ _ [⟨.webApp, value⟩] hidle fun ws' h => ?_)
    (.cons (.assign rfl) (.nil _))
  rw [hws] at h
  exact Option.some.inj h

theorem releaseEvents_run (main : MainState) : ∃ s,
    Run (Step sampleParams) (.initial .low main) releaseEvents s ∧
      s.pc = .writing false ∧ s.panelIsStowed = true := by
  have hstow : mqttCallbackWrites (ascii "\x7b\"stow_status\":1\x7d") [0] zeroTokens =
      some [⟨.webApp, 1⟩] := by
    rw [mqttCallbackWrites_eq, cString_memoryFrom (by decide)]
    rfl
  have hrelease : mqttCallbackWrites (ascii "\x7b\"stow_status\":0\x7d") [0] zeroTokens =
      some [⟨.webApp, 0⟩] := by
    rw [mqttCallbackWrites_eq, cString_memoryFrom (by decide)]
    rfl
  obtain ⟨irr, v, hmain, -⟩ :=
    mainIteration_of_usable sampleParams_mapping ⟨fun _ => 0, true⟩ main
  refine ⟨_, (commandEvents_run rfl hstow).append (.cons (.sample .low rfl)
    (.cons (.read rfl) (.cons (.read rfl) (.cons (.write rfl) (.cons (.iterate hmain)
      ((commandEvents_run rfl hrelease).append (.cons (.sample .low rfl)
        (.cons (.read rfl) (.cons (.read rfl) (.cons (.read rfl) (.nil _))))))))))), rfl, rfl⟩

/-- `stowRelease_run` when the panel is about to be released, for the pass and
    for an iteration before it. -/
theorem stowRelease_run_sample : ∃ (main : PWMState) (s s' : System),
    mainInit sampleParams 0 0 = some main ∧ s.panelIsStowed = true ∧
      (∀ src, ReadInPass sampleParams (.initial .low (.entry main)) releaseEvents src false) ∧
      Step sampleParams s (.iterate fun _ => 0) s' ∧
        s'.main.pwm = stowServos sampleParams s.main.pwm := by
  obtain ⟨main, h0⟩ := Option.isSome_iff_exists.1
    (mainInit_isSome (p := sampleParams) (.inl rfl) (.inl rfl))
  obtain ⟨s, hr, hpc, hstowed⟩ := releaseEvents_run (.entry main)
  have hsafe := stowRelease_run .low (.entry main) _ s hr
  obtain ⟨irr, v, hmain, -⟩ :=
    mainIteration_of_usable sampleParams_mapping ⟨fun _ => 0, s.panelIsStowed⟩ s.main
  have hiterate : Step sampleParams s (.iterate fun _ => 0) _ := .iterate hmain
  obtain ⟨_, _, -, -, -, hpwm⟩ := hsafe.followed _ _ hiterate
  exact ⟨main, s, _, h0, hstowed, (hsafe.released _ _ (.write hpc) hstowed rfl).2, hiterate, hpwm⟩

end TrackerDemo.Stow
