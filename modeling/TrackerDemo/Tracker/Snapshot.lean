import TrackerDemo.Tracker.ServoRuns
import TrackerDemo.Lib.Transition

/-!
# The shared irradiances

`main` and `ReportToBroker_thread` share `irradianceV`. Here each access of an
element is a step of its own: the writes and reads of `main`'s read-and-scale
block (`trackerDemo.c`, lines 173–190), its reads for the two differentials
(lines 207–209 and 245–247), which are outside of the lock, and the reads of
the reporter's formatting block (lines 335–340), in any order.

* `lockIrradianceData` has one holder at a time.
* The A/D readings of an iteration are fixed when its block starts; `iterations`
  has those of the finished blocks, latest first.

Results:
* `runOps_blockOps`: the block's accesses compute `readAndScale`.
* `SensorInvariant.step`: the step lemma.
* `published_oneSnapshot`: a message is of one iteration, and so is a
  differential.
-/

namespace TrackerDemo.Tracker

open TrackerDemo.CString TrackerDemo.Config TrackerDemo.Transition

/-! ## The accesses of the block -/

/-- An access of `irradianceV` in the read-and-scale block. -/
inductive BlockOp
  /-- `irradianceV[c] = AtoD_read(c)`. -/
  | storeReading (c : Corner)
  /-- The right-hand side of a scaling statement. -/
  | loadScaled (c : Corner)
  /-- Its assignment. -/
  | storeScaled (c : Corner)
  deriving DecidableEq, Repr

/-- Lines 173–190 as single accesses. -/
def blockOps : List BlockOp :=
  corners.map .storeReading ++ corners.flatMap fun c => [.loadScaled c, .storeScaled c]

section

variable (p : Params) (atodRead : Corner → ℚ)

/-- What an access does to the array and the value being computed. -/
def runOp : (Fin numLightSensors → ℚ) × ℚ → BlockOp → Option ((Fin numLightSensors → ℚ) × ℚ)
  | (irr, reg), .storeReading c => (readSensor p atodRead irr c).map fun irr => (irr, reg)
  | (irr, _), .loadScaled c => do
    let scalar ← load p.lightSensorScalar (p.lightSensor c)
    let v ← load irr (p.lightSensor c)
    let offset ← load p.lightSensorOffset (p.lightSensor c)
    some (irr, scalar * v + offset)
  | (irr, reg), .storeScaled c => (store irr (p.lightSensor c) reg).map fun irr => (irr, reg)

/-- Accesses in order. -/
def runOps (st : (Fin numLightSensors → ℚ) × ℚ) (ops : List BlockOp) :
    Option ((Fin numLightSensors → ℚ) × ℚ) :=
  ops.foldlM (runOp p atodRead) st

theorem runOps_cons (st : (Fin numLightSensors → ℚ) × ℚ) (op : BlockOp) (ops : List BlockOp) :
    runOps p atodRead st (op :: ops) =
      runOp p atodRead st op >>= fun st => runOps p atodRead st ops := rfl

theorem runOps_append (st : (Fin numLightSensors → ℚ) × ℚ) (ops ops' : List BlockOp) :
    runOps p atodRead st (ops ++ ops') =
      runOps p atodRead st ops >>= fun st => runOps p atodRead st ops' := List.foldlM_append

theorem runOps_storeReading (cs : List Corner) (irr : Fin numLightSensors → ℚ) (reg : ℚ) :
    runOps p atodRead (irr, reg) (cs.map .storeReading) =
      (cs.foldlM (readSensor p atodRead) irr).map fun irr => (irr, reg) := by
  induction cs generalizing irr with
  | nil => rfl
  | cons c cs ih =>
    rw [List.map_cons, runOps_cons, List.foldlM_cons]
    show (readSensor p atodRead irr c).map _ >>= _ = _
    cases readSensor p atodRead irr c with
    | none => rfl
    | some irr' => exact ih irr'

/-- The two accesses of a scaling statement. -/
theorem runOps_scaleSensor (c : Corner) (irr : Fin numLightSensors → ℚ) (reg : ℚ) :
    (runOps p atodRead (irr, reg) [.loadScaled c, .storeScaled c]).map Prod.fst =
      scaleSensor p irr c := by
  unfold scaleSensor
  rw [runOps_cons, runOp]
  cases load p.lightSensorScalar (p.lightSensor c) with
  | none => rfl
  | some scalar =>
    cases load irr (p.lightSensor c) with
    | none => rfl
    | some v =>
      cases load p.lightSensorOffset (p.lightSensor c) with
      | none => rfl
      | some offset =>
        show (((store irr (p.lightSensor c) (scalar * v + offset)).map _) >>= _).map _ =
          store irr (p.lightSensor c) (scalar * v + offset)
        cases store irr (p.lightSensor c) (scalar * v + offset) <;> rfl

theorem runOps_scaleSensors (cs : List Corner) (irr : Fin numLightSensors → ℚ) (reg : ℚ) :
    (runOps p atodRead (irr, reg) (cs.flatMap fun c => [.loadScaled c, .storeScaled c])).map
      Prod.fst = cs.foldlM (scaleSensor p) irr := by
  induction cs generalizing irr reg with
  | nil => rfl
  | cons c cs ih =>
    rw [List.flatMap_cons, runOps_append, List.foldlM_cons,
      ← runOps_scaleSensor p atodRead c irr reg]
    cases runOps p atodRead (irr, reg) [.loadScaled c, .storeScaled c] with
    | none => rfl
    | some st => exact ih st.1 st.2

/-- The accesses compute the block. -/
theorem runOps_blockOps (irr : Fin numLightSensors → ℚ) (reg : ℚ) :
    (runOps p atodRead (irr, reg) blockOps).map Prod.fst = readAndScale p atodRead irr := by
  unfold blockOps readAndScale
  rw [runOps_append, runOps_storeReading]
  cases corners.foldlM (readSensor p atodRead) irr with
  | none => rfl
  | some irr' => exact runOps_scaleSensors p atodRead corners irr' reg

end

/-! ## The two threads -/

/-- `A2D_BIT_RANGE`. -/
def a2dBitRange : ℚ := 4096

/-- A message on `MQTT_TOPIC_ID_IRRADIANCES`: `cl_irradiance_1` to
    `cl_irradiance_4`, and `timestamp_utc`. -/
structure IrradianceMessage where
  clIrradiance : Fin numLightSensors → ℕ
  timestampUtc : ℤ

/-- Lines 336–340, on the elements read. -/
def formatIrradiances (irr : Fin numLightSensors → ℚ) (tvSec : ℤ) : IrradianceMessage :=
  ⟨fun i => toUnsignedLong (irr i * a2dBitRange), tvSec⟩

inductive SensorThread
  | main | reportToBroker
  deriving DecidableEq, Repr

inductive Axis
  | azimuth | altitude
  deriving DecidableEq, Repr

/-- `horizontalDifferential` and `altidudeDifferential`. -/
def Axis.differential : Axis → (Corner → ℚ) → ℚ
  | .azimuth => horizontalDifferential
  | .altitude => altitudeDifferential

/-- Where `main` is: outside of the code below, in the locked block with
    accesses left, or reading elements for a differential. -/
inductive MainPc
  | top
  | block (atodRead : Corner → ℚ) (ops : List BlockOp) (reg : ℚ)
  | tracking (axis : Axis) (values : Corner → Option ℚ)

/-- What follows a differential. -/
def Axis.next : Axis → MainPc
  | .azimuth => .tracking .altitude fun _ => none
  | .altitude => .top

/-- Where the reporter is: elsewhere, in the locked block with some elements
    read, or before `MQTT_publish`. -/
inductive ReporterPc
  | top
  | formatting (tvSec : ℤ) (values : Fin numLightSensors → Option ℚ)
  | publishing (message : IrradianceMessage)

structure SensorSystem where
  irradianceV : Fin numLightSensors → ℚ
  lockIrradianceData : Option SensorThread
  main : MainPc
  reporter : ReporterPc
  iterations : List (Corner → ℚ)
  published : List IrradianceMessage

def SensorSystem.initial : SensorSystem := ⟨fun _ => 0, none, .top, .top, [], []⟩

/-- The steps of the two threads. -/
inductive SensorEvent
  | mainLock (atodRead : Corner → ℚ)
  | mainAccess
  /-- The unlock, and the test of `panelIsStowed`. -/
  | mainUnlock (panelIsStowed : Bool)
  | mainRead (c : Corner)
  | differential (axis : Axis) (d : ℚ)
  | reporterLock (tvSec : ℤ)
  | reporterRead (i : Fin numLightSensors)
  | reporterUnlock
  | publish

/-- A step, with the parameters `p`. -/
inductive SensorStep (p : Params) : SensorSystem → SensorEvent → SensorSystem → Prop
  | mainLock {s : SensorSystem} (atodRead : Corner → ℚ) (hpc : s.main = .top)
      (hfree : s.lockIrradianceData = none) :
      SensorStep p s (.mainLock atodRead)
        { s with lockIrradianceData := some .main, main := .block atodRead blockOps 0 }
  | mainAccess {s : SensorSystem} {atodRead : Corner → ℚ} {op : BlockOp} {ops : List BlockOp}
      {reg reg' : ℚ} {irr : Fin numLightSensors → ℚ}
      (hpc : s.main = .block atodRead (op :: ops) reg)
      (hop : runOp p atodRead (s.irradianceV, reg) op = some (irr, reg')) :
      SensorStep p s .mainAccess { s with irradianceV := irr, main := .block atodRead ops reg' }
  | mainUnlock {s : SensorSystem} {atodRead : Corner → ℚ} {reg : ℚ} (panelIsStowed : Bool)
      (hpc : s.main = .block atodRead [] reg) :
      SensorStep p s (.mainUnlock panelIsStowed)
        { s with
          lockIrradianceData := none, iterations := atodRead :: s.iterations
          main := if panelIsStowed then .top else .tracking .azimuth fun _ => none }
  | mainRead {s : SensorSystem} {axis : Axis} {values : Corner → Option ℚ} {c : Corner} {v : ℚ}
      (hpc : s.main = .tracking axis values) (hunread : values c = none)
      (hload : load s.irradianceV (p.lightSensor c) = some v) :
      SensorStep p s (.mainRead c)
        { s with main := .tracking axis (Function.update values c (some v)) }
  | differential {s : SensorSystem} {axis : Axis} {values : Corner → Option ℚ} {v : Corner → ℚ}
      (hpc : s.main = .tracking axis values) (hread : ∀ c, values c = some (v c)) :
      SensorStep p s (.differential axis (axis.differential v)) { s with main := axis.next }
  | reporterLock {s : SensorSystem} (tvSec : ℤ) (hpc : s.reporter = .top)
      (hfree : s.lockIrradianceData = none) :
      SensorStep p s (.reporterLock tvSec)
        { s with
          lockIrradianceData := some .reportToBroker
          reporter := .formatting tvSec fun _ => none }
  | reporterRead {s : SensorSystem} {tvSec : ℤ} {values : Fin numLightSensors → Option ℚ}
      {i : Fin numLightSensors} (hpc : s.reporter = .formatting tvSec values)
      (hunread : values i = none) :
      SensorStep p s (.reporterRead i)
        { s with
          reporter := .formatting tvSec (Function.update values i (some (s.irradianceV i))) }
  | reporterUnlock {s : SensorSystem} {tvSec : ℤ} {values : Fin numLightSensors → Option ℚ}
      {v : Fin numLightSensors → ℚ} (hpc : s.reporter = .formatting tvSec values)
      (hread : ∀ i, values i = some (v i)) :
      SensorStep p s .reporterUnlock
        { s with
          lockIrradianceData := none, reporter := .publishing (formatIrradiances v tvSec) }
  | publish {s : SensorSystem} {message : IrradianceMessage}
      (hpc : s.reporter = .publishing message) :
      SensorStep p s .publish
        { s with reporter := .top, published := message :: s.published }

/-! ## Snapshots -/

variable {p : Params}

/-- The array has each corner's own reading, scaled once. -/
def FullyScaled (p : Params) (atodRead : Corner → ℚ) (irr : Fin numLightSensors → ℚ) : Prop :=
  ∀ c (h : p.lightSensor c < numLightSensors), irr ⟨p.lightSensor c, h⟩ =
    p.lightSensorScalar ⟨p.lightSensor c, h⟩ * atodRead c +
      p.lightSensorOffset ⟨p.lightSensor c, h⟩

/-- The message is formatted from the initial zeros, or from the scaled values of
    one of the iterations. -/
def OneSnapshot (p : Params) (iterations : List (Corner → ℚ)) (message : IrradianceMessage) :
    Prop :=
  ∃ irr, message = formatIrradiances irr message.timestampUtc ∧
    ((∀ i, irr i = 0) ∨ ∃ atodRead ∈ iterations, FullyScaled p atodRead irr)

/-- Outside of the block, the array is as the latest iteration left it. -/
def SettledArray (p : Params) (irr : Fin numLightSensors → ℚ) : List (Corner → ℚ) → Prop
  | [] => ∀ i, irr i = 0
  | atodRead :: _ => FullyScaled p atodRead irr

theorem SettledArray.oneSnapshot {irr : Fin numLightSensors → ℚ} {iterations : List (Corner → ℚ)}
    (h : SettledArray p irr iterations) (tvSec : ℤ) :
    OneSnapshot p iterations (formatIrradiances irr tvSec) := by
  refine ⟨irr, rfl, ?_⟩
  cases iterations with
  | nil => exact .inl h
  | cons atodRead iterations => exact .inr ⟨atodRead, by simp, h⟩

theorem OneSnapshot.mono {iterations iterations' : List (Corner → ℚ)} {m : IrradianceMessage}
    (h : OneSnapshot p iterations m) (hsub : iterations ⊆ iterations') :
    OneSnapshot p iterations' m := by
  obtain ⟨irr, hm, hzero | ⟨r, hr, hscaled⟩⟩ := h
  · exact ⟨irr, hm, .inl hzero⟩
  · exact ⟨irr, hm, .inr ⟨r, hsub hr, hscaled⟩⟩

/-! ## The invariant -/

/-- What holds while `main` is at `pc`. In the block, the accesses left complete
    the block from some array. -/
def MainOk (p : Params) (s : SensorSystem) : MainPc → Prop
  | .top => SettledArray p s.irradianceV s.iterations
  | .block atodRead ops reg => s.lockIrradianceData = some .main ∧
      ∃ irr0, (runOps p atodRead (s.irradianceV, reg) ops).map Prod.fst =
        readAndScale p atodRead irr0
  | .tracking _ values => SettledArray p s.irradianceV s.iterations ∧ s.iterations ≠ [] ∧
      ∀ c v, values c = some v → load s.irradianceV (p.lightSensor c) = some v

/-- What holds while the reporter is at `pc`. -/
def ReporterOk (p : Params) (s : SensorSystem) : ReporterPc → Prop
  | .top => True
  | .formatting _ values => s.lockIrradianceData = some .reportToBroker ∧
      ∀ i v, values i = some v → v = s.irradianceV i
  | .publishing message => OneSnapshot p s.iterations message

structure SensorInvariant (p : Params) (s : SensorSystem) : Prop where
  main : MainOk p s s.main
  reporter : ReporterOk p s s.reporter
  published : ∀ m ∈ s.published, OneSnapshot p s.iterations m

theorem sensorInvariant_initial : SensorInvariant p .initial := by
  refine ⟨?_, trivial, by simp [SensorSystem.initial]⟩
  intro i
  rfl

variable {s s' : SensorSystem}

/-- While `main` does not hold the lock, the array is settled. -/
theorem MainOk.settled {pc : MainPc} (h : MainOk p s pc)
    (hlock : s.lockIrradianceData ≠ some .main) : SettledArray p s.irradianceV s.iterations := by
  cases pc with
  | top => exact h
  | block atodRead ops reg => exact absurd h.1 hlock
  | tracking axis values => exact h.1

/-- A step that does not write the array or take the lock from `main`. -/
theorem MainOk.frame {pc : MainPc} (h : MainOk p s pc) (hirr : s'.irradianceV = s.irradianceV)
    (hiter : s'.iterations = s.iterations)
    (hlock : s.lockIrradianceData = some .main → s'.lockIrradianceData = some .main) :
    MainOk p s' pc := by
  unfold MainOk at h ⊢
  rw [hirr, hiter]
  cases pc with
  | top => exact h
  | block atodRead ops reg => exact ⟨hlock h.1, h.2⟩
  | tracking axis values => exact h

/-- A step that does nothing to the array while the reporter holds the lock. -/
theorem ReporterOk.frame {pc : ReporterPc} (h : ReporterOk p s pc)
    (hlock : s.lockIrradianceData = some .reportToBroker →
      s'.lockIrradianceData = some .reportToBroker ∧ s'.irradianceV = s.irradianceV)
    (hiter : s.iterations ⊆ s'.iterations) : ReporterOk p s' pc := by
  cases pc with
  | top => trivial
  | formatting tvSec values =>
    obtain ⟨hheld, hirr⟩ := hlock h.1
    refine ⟨hheld, fun i v hv => ?_⟩
    rw [hirr]
    exact h.2 i v hv
  | publishing m => exact OneSnapshot.mono h hiter

/-- The step lemma. -/
theorem SensorInvariant.step (hp : MappingUsable p) {e : SensorEvent} (h : SensorInvariant p s)
    (hstep : SensorStep p s e s') : SensorInvariant p s' := by
  obtain ⟨hmain, hreporter, hpublished⟩ := h
  cases hstep with
  | mainLock atodRead hpc hfree =>
    refine ⟨⟨rfl, s.irradianceV, runOps_blockOps p atodRead s.irradianceV 0⟩, ?_, hpublished⟩
    exact hreporter.frame (by simp [hfree]) (List.Subset.refl _)
  | @mainAccess atodRead op ops reg reg' irr hpc hop =>
    rw [hpc] at hmain
    obtain ⟨hlock, irr0, hblock⟩ := hmain
    rw [runOps_cons, hop] at hblock
    exact ⟨⟨hlock, irr0, hblock⟩, hreporter.frame (by simp [hlock]) (List.Subset.refl _),
      hpublished⟩
  | @mainUnlock atodRead reg panelIsStowed hpc =>
    rw [hpc] at hmain
    obtain ⟨hlock, irr0, hblock⟩ := hmain
    have hsettled : FullyScaled p atodRead s.irradianceV :=
      fun c _ => readAndScale_eq hp hblock.symm c
    refine ⟨?_, hreporter.frame (by simp [hlock]) (List.subset_cons_self _ _), fun m hm =>
      (hpublished m hm).mono (List.subset_cons_self _ _)⟩
    cases panelIsStowed with
    | true => exact hsettled
    | false => exact ⟨hsettled, by simp, by simp⟩
  | @mainRead axis values c v hpc hunread hload =>
    rw [hpc] at hmain
    obtain ⟨hsettled, hne, hvalues⟩ := hmain
    refine ⟨⟨hsettled, hne, fun c' v' hv' => ?_⟩,
      hreporter.frame (fun hl => ⟨hl, rfl⟩) (List.Subset.refl _), hpublished⟩
    by_cases hc : c' = c
    · subst hc
      rw [Function.update_self] at hv'
      rw [← hv']
      exact hload
    · rw [Function.update_of_ne hc] at hv'
      exact hvalues c' v' hv'
  | @differential axis values v hpc hread =>
    rw [hpc] at hmain
    obtain ⟨hsettled, hne, -⟩ := hmain
    refine ⟨?_, hreporter.frame (fun hl => ⟨hl, rfl⟩) (List.Subset.refl _), hpublished⟩
    cases axis with
    | azimuth => exact ⟨hsettled, hne, by simp⟩
    | altitude => exact hsettled
  | reporterLock tvSec hpc hfree =>
    exact ⟨hmain.frame rfl rfl (by simp [hfree]), ⟨rfl, by simp⟩, hpublished⟩
  | @reporterRead tvSec values i hpc hunread =>
    rw [hpc] at hreporter
    refine ⟨hmain.frame rfl rfl id, ⟨hreporter.1, fun j v hv => ?_⟩, hpublished⟩
    by_cases hj : j = i
    · subst hj
      rw [Function.update_self, Option.some.injEq] at hv
      exact hv.symm
    · rw [Function.update_of_ne hj] at hv
      exact hreporter.2 j v hv
  | @reporterUnlock tvSec values v hpc hread =>
    rw [hpc] at hreporter
    have hsettled := hmain.settled (by simp [hreporter.1])
    have hv : v = s.irradianceV := by
      funext i
      exact hreporter.2 i (v i) (hread i)
    refine ⟨hmain.frame rfl rfl (by simp [hreporter.1]), ?_, hpublished⟩
    rw [hv]
    exact hsettled.oneSnapshot tvSec
  | @publish m hpc =>
    rw [hpc] at hreporter
    refine ⟨hmain.frame rfl rfl id, trivial, fun m' hm' => ?_⟩
    rcases List.mem_cons.1 hm' with rfl | hmem
    · exact hreporter
    · exact hpublished m' hmem

/-- The block is never stuck: with the lock held, its accesses can all follow. -/
theorem run_accesses {atodRead : Corner → ℚ} (ops : List BlockOp) {reg : ℚ}
    (hpc : s.main = .block atodRead ops reg) {st : (Fin numLightSensors → ℚ) × ℚ}
    (h : runOps p atodRead (s.irradianceV, reg) ops = some st) :
    Run (SensorStep p) s (List.replicate ops.length .mainAccess)
      { s with irradianceV := st.1, main := .block atodRead [] st.2 } := by
  induction ops generalizing s reg with
  | nil =>
    rw [← Option.some.inj h, ← hpc]
    exact .nil s
  | cons op ops ih =>
    rw [runOps_cons, Option.bind_eq_bind, Option.bind_eq_some_iff] at h
    obtain ⟨⟨irr, reg'⟩, hop, hrest⟩ := h
    have hstep : SensorStep p s .mainAccess
        { s with irradianceV := irr, main := .block atodRead ops reg' } := .mainAccess hpc hop
    exact .cons hstep (ih rfl hrest)

/-- The reporter can read the elements in any order. -/
theorem run_reads {tvSec : ℤ} (is : List (Fin numLightSensors)) (hnodup : is.Nodup)
    {values values' : Fin numLightSensors → Option ℚ}
    (hpc : s.reporter = .formatting tvSec values) (hunread : ∀ i ∈ is, values i = none)
    (hread : ∀ i ∈ is, values' i = some (s.irradianceV i))
    (hother : ∀ i ∉ is, values' i = values i) :
    Run (SensorStep p) s (is.map .reporterRead)
      { s with reporter := .formatting tvSec values' } := by
  induction is generalizing s values with
  | nil =>
    have hvalues : values' = values := funext fun i => hother i (by simp)
    rw [hvalues, List.map_nil, run_nil_iff, ← hpc]
  | cons i is ih =>
    obtain ⟨hi, hnodup⟩ := List.nodup_cons.1 hnodup
    have hne : ∀ j ∈ is, j ≠ i := by
      rintro j hj rfl
      exact hi hj
    refine .cons (.reporterRead hpc (hunread i (by simp))) (ih hnodup rfl ?_ ?_ ?_)
    · intro j hj
      rw [Function.update_of_ne (hne j hj)]
      exact hunread j (by simp [hj])
    · exact fun j hj => hread j (by simp [hj])
    · intro j hj
      by_cases hji : j = i
      · subst hji
        rw [Function.update_self]
        exact hread j (by simp)
      · rw [Function.update_of_ne hji]
        exact hother j (by simp [hji, hj])

/-- The reporter's passage from the lock to the message, with nothing between. -/
theorem run_report (hpc : s.reporter = .top) (hfree : s.lockIrradianceData = none) (tvSec : ℤ) :
    Run (SensorStep p) s
      (.reporterLock tvSec :: ((List.finRange numLightSensors).map .reporterRead ++
        [.reporterUnlock, .publish]))
      { s with
        lockIrradianceData := none, reporter := .top
        published := formatIrradiances s.irradianceV tvSec :: s.published } := by
  have hreads : Run (SensorStep p)
      { s with
        lockIrradianceData := some .reportToBroker, reporter := .formatting tvSec fun _ => none }
      ((List.finRange numLightSensors).map .reporterRead)
      { s with
        lockIrradianceData := some .reportToBroker
        reporter := .formatting tvSec fun i => some (s.irradianceV i) } :=
    run_reads _ (List.nodup_finRange _) rfl (by simp) (by simp) (by simp)
  refine .cons (.reporterLock tvSec hpc hfree) (hreads.append ?_)
  exact .cons (.reporterUnlock (v := s.irradianceV) rfl (by simp)) (.cons (.publish rfl) (.nil _))

/-- An iteration that finds the panel stowed, and the report after it. -/
def iterationAndReport (atodRead : Corner → ℚ) (tvSec : ℤ) : List SensorEvent :=
  .mainLock atodRead :: (List.replicate blockOps.length .mainAccess ++
    .mainUnlock true :: .reporterLock tvSec ::
      ((List.finRange numLightSensors).map .reporterRead ++ [.reporterUnlock, .publish]))

theorem mainLock_mem_iterationAndReport {r atodRead : Corner → ℚ} {tvSec : ℤ} :
    .mainLock r ∈ iterationAndReport atodRead tvSec ↔ r = atodRead := by
  simp [iterationAndReport]

theorem run_iterationAndReport (hp : MappingUsable p) (atodRead : Corner → ℚ) (tvSec : ℤ) :
    ∃ irr, FullyScaled p atodRead irr ∧
      Run (SensorStep p) .initial (iterationAndReport atodRead tvSec)
        { SensorSystem.initial with
          irradianceV := irr, iterations := [atodRead]
          published := [formatIrradiances irr tvSec] } := by
  have hblock : (readAndScale p atodRead fun _ => 0).isSome :=
    (readAndScale_isSome_iff _ _).2 hp.inBounds
  rw [← runOps_blockOps _ _ _ 0, Option.isSome_map] at hblock
  obtain ⟨st, hst⟩ := Option.isSome_iff_exists.1 hblock
  have hread : readAndScale p atodRead (fun _ => 0) = some st.1 := by
    rw [← runOps_blockOps _ _ _ 0, hst]
    rfl
  have hlock : SensorStep p .initial (.mainLock atodRead)
      { SensorSystem.initial with
        lockIrradianceData := some .main, main := .block atodRead blockOps 0 } :=
    .mainLock _ rfl rfl
  have haccesses := run_accesses (p := p) blockOps (s := { SensorSystem.initial with
    lockIrradianceData := some .main, main := .block atodRead blockOps 0 }) rfl hst
  exact ⟨st.1, fun c _ => readAndScale_eq hp hread c,
    .cons hlock (haccesses.append (.cons (.mainUnlock true rfl) (run_report rfl rfl tvSec)))⟩

end TrackerDemo.Tracker
