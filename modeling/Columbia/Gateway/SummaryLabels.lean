import Columbia.Gateway.SummaryMetrics

/-! # The labels of the summaries: `Create`, `Fire` and `ResponseStatus`

A call closes its labels, passes them downstream and reads the clock before it calls `record`, which waits for the
mutex. Any number of calls are on their way to it, and drains come in between.
-/
namespace Columbia.Gateway.SummaryMetrics
open Columbia.Js Columbia.Lib
open Columbia.Gateway.Handler (text)
set_option autoImplicit false

def events : List Bytes := [text "gateway_request", text "configs_request"]

def results : List Bytes :=
  [text "config_mismatch", text "decapsulation_failed", text "encapsulation_failed", text "content_decode_failed",
    text "content_encode_failed", text "request_translate_failed", text "response_translate_failed",
    text "request_forbidden", text "request_failed", text "rate_limited", text "success", text "configs_unavailable",
    text "invalid_method", text "invalid_content_type", text "invalid_content"]

def metricsPayloadStatusPrefix : Bytes := text "gateway_payload"

def prefixes : List Bytes :=
  [text "GET", text "HEAD", text "POST", text "PUT", text "PATCH", text "DELETE", text "OPTIONS",
    metricsPayloadStatusPrefix, text "upstream"]

/-- A `switch` over labels whose default is `"other"`. -/
def orOther (labels : List Bytes) (label : Bytes) : Bytes := if label ∈ labels then label else text "other"

/-- `strings.CutPrefix`. -/
def cutPrefix (s front : Bytes) : Option Bytes :=
  if front.isPrefixOf s then some (s.drop front.length) else none

/-- `strconv.ParseUint` from the digits read so far: the largest value when it is out of range, nothing for bad syntax. -/
def parseUint (n : Nat) : Bytes → Option Nat
  | [] => some n
  | c :: rest =>
    if c < 48 ∨ 57 < c then none
    else if 2 ^ 64 ≤ n * 10 + (c.toNat - 48) then some (2 ^ 64 - 1)
    else parseUint (n * 10 + (c.toNat - 48)) rest

/-- `strconv.Atoi` without its error. -/
def atoi (s : Bytes) : Int :=
  let (neg, digits) := match s with
    | 45 :: rest => (true, rest)
    | 43 :: rest => (false, rest)
    | _ => (false, s)
  match digits, parseUint 0 digits with
  | [], _ => 0
  | _, none => 0
  | _, some n => if neg then -min (n : Int) (2 ^ 63) else min (n : Int) (2 ^ 63 - 1)

def itoa (n : Int) : Bytes := text (toString n)

/-- `summaryMetrics`; its `inner` is the object that the downstream factory made at the same place. -/
structure Metrics where
  event : Bytes
  started : Int

/-- A call of the downstream factory, or of the object that it made for some metrics. -/
inductive Exported
  | create (event : Bytes)
  | fire (metrics : Nat) (result : Bytes)
  | responseStatus (metrics : Nat) (name : Bytes) (status : Int)
  deriving DecidableEq

def closeStatus (status : Int) : Int := if status < 100 ∨ 599 < status then 0 else status

def recordStatus (m : Metrics) (stage : Bytes) (status now : Int) : Sample :=
  ⟨⟨m.event, stage, if 100 ≤ status ∧ status ≤ 599 then itoa status else text "other"⟩, now - m.started⟩

/-- The label that goes downstream, and the arguments of `record`. -/
def fire (m : Metrics) (result : Bytes) (now : Int) : Bytes × Sample :=
  match cutPrefix result metricsPayloadStatusPrefix with
  | some suffix =>
    let status := closeStatus (atoi suffix)
    (metricsPayloadStatusPrefix ++ itoa status, recordStatus m (text "payload") status now)
  | none => (orOther results result, ⟨⟨m.event, text "result", orOther results result⟩, now - m.started⟩)

def stageOf (name : Bytes) : Bytes :=
  if name = text "upstream" then text "upstream"
  else if name = metricsPayloadStatusPrefix then text "payload"
  else text "outer"

def responseStatus (m : Metrics) (name : Bytes) (status now : Int) : (Bytes × Int) × Sample :=
  let name := orOther prefixes name
  let status := closeStatus status
  ((name, status), recordStatus m (stageOf name) status now)

/-- `waiting` holds the calls of `record` that do not have the mutex yet. -/
structure Summaries where
  factory : Factory
  metrics : List Metrics
  exported : List Exported
  waiting : List Sample

inductive Step
  | create (event : Bytes) (now : Int)
  | fire (metrics : Nat) (result : Bytes) (now : Int)
  | responseStatus (metrics : Nat) (name : Bytes) (status now : Int)
  | record (call : Nat)
  | drainWindow (now : Int) (order : List SummaryKey)

def Summaries.next (s : Summaries) : Step → Option Summaries
  | .create event now =>
    some { s with
      metrics := s.metrics ++ [⟨orOther events event, now⟩]
      exported := s.exported ++ [.create (orOther events event)] }
  | .fire metrics result now => s.metrics[metrics]?.map fun m =>
    { s with
      exported := s.exported ++ [.fire metrics (SummaryMetrics.fire m result now).1]
      waiting := s.waiting ++ [(SummaryMetrics.fire m result now).2] }
  | .responseStatus metrics name status now => s.metrics[metrics]?.map fun m =>
    let ((name, status), sample) := SummaryMetrics.responseStatus m name status now
    { s with
      exported := s.exported ++ [.responseStatus metrics name status]
      waiting := s.waiting ++ [sample] }
  | .record call => s.waiting[call]?.map fun sample =>
    { s with factory := SummaryMetrics.record s.factory sample, waiting := s.waiting.eraseIdx call }
  | .drainWindow now order => (SummaryMetrics.drainWindow s.factory now order).map fun f => { s with factory := f }

def summaries (created : Int) : System Summaries Step := ⟨⟨newSummaryMetricsFactory created, [], [], []⟩, Summaries.next⟩

/-! ## The closed labels -/

def statuses : List Int := (List.range 500).map fun k : Nat => 100 + (k : Int)

def eventLabels : List Bytes := text "other" :: events

def resultLabels : List Bytes := text "other" :: results

def outcomes : List Bytes := text "other" :: statuses.map itoa

def stages : List Bytes := [text "outer", text "payload", text "upstream"]

def closedKeys : List SummaryKey :=
  eventLabels.flatMap fun event =>
    resultLabels.map (fun result => ⟨event, text "result", result⟩) ++
      stages.flatMap fun stage => outcomes.map fun outcome => ⟨event, stage, outcome⟩

/-- Only closed labels go downstream. -/
def Exported.Closed : Exported → Prop
  | .create event => event ∈ eventLabels
  | .fire _ result => result ∈ resultLabels ∨ ∃ status ∈ 0 :: statuses, result = metricsPayloadStatusPrefix ++ itoa status
  | .responseStatus _ name status => name ∈ text "other" :: prefixes ∧ status ∈ 0 :: statuses

theorem orOther_mem (labels : List Bytes) (label : Bytes) : orOther labels label ∈ text "other" :: labels := by
  unfold orOther
  split
  · exact List.mem_cons_of_mem _ ‹_›
  · exact List.mem_cons_self

theorem mem_statuses {status : Int} : status ∈ statuses ↔ 100 ≤ status ∧ status ≤ 599 := by
  simp only [statuses, List.mem_map, List.mem_range]
  constructor
  · rintro ⟨k, hk, rfl⟩
    omega
  · rintro ⟨hLow, hHigh⟩
    refine ⟨(status - 100).toNat, ?_, ?_⟩
    · omega
    · omega

theorem closeStatus_mem (status : Int) : closeStatus status ∈ 0 :: statuses := by
  unfold closeStatus
  split
  · exact List.mem_cons_self
  · apply List.mem_cons_of_mem
    rw [mem_statuses]
    omega

theorem stageOf_mem (name : Bytes) : stageOf name ∈ stages := by
  unfold stageOf stages
  split_ifs <;> simp

theorem recordStatus_mem {m : Metrics} (hm : m.event ∈ eventLabels) {stage : Bytes} (hStage : stage ∈ stages)
    (status now : Int) : (recordStatus m stage status now).key ∈ closedKeys := by
  have hOutcome : (recordStatus m stage status now).key.outcome ∈ outcomes := by
    change (if 100 ≤ status ∧ status ≤ 599 then itoa status else text "other") ∈ outcomes
    split
    · rename_i hStatus
      exact List.mem_cons_of_mem _ (List.mem_map_of_mem (mem_statuses.mpr hStatus))
    · exact List.mem_cons_self
  refine List.mem_flatMap.mpr ⟨m.event, hm, List.mem_append_right _ ?_⟩
  exact List.mem_flatMap.mpr ⟨stage, hStage, List.mem_map_of_mem hOutcome⟩

theorem fire_mem {m : Metrics} (hm : m.event ∈ eventLabels) (result : Bytes) (now : Int) :
    (fire m result now).2.key ∈ closedKeys := by
  unfold fire
  split
  · apply recordStatus_mem hm
    simp [stages]
  · refine List.mem_flatMap.mpr ⟨m.event, hm, List.mem_append_left _ ?_⟩
    exact List.mem_map_of_mem (orOther_mem results result)

theorem fire_exported (m : Metrics) (result : Bytes) (now : Int) (metrics : Nat) :
    (Exported.fire metrics (fire m result now).1).Closed := by
  unfold fire
  split
  · exact .inr ⟨_, closeStatus_mem _, rfl⟩
  · exact .inl (orOther_mem results result)

theorem responseStatus_mem {m : Metrics} (hm : m.event ∈ eventLabels) (name : Bytes) (status now : Int) :
    (responseStatus m name status now).2.key ∈ closedKeys := recordStatus_mem hm (stageOf_mem _) _ now

theorem responseStatus_exported (m : Metrics) (name : Bytes) (status now : Int) (metrics : Nat) :
    (Exported.responseStatus metrics (responseStatus m name status now).1.1
      (responseStatus m name status now).1.2).Closed :=
  ⟨orOther_mem prefixes name, closeStatus_mem status⟩

/-! ## The calls of `record` that a run makes -/

structure Labelled (created : Int) (s : Summaries) : Prop where
  metrics : ∀ m ∈ s.metrics, m.event ∈ eventLabels
  exported : ∀ e ∈ s.exported, e.Closed
  waiting : ∀ sample ∈ s.waiting, sample.key ∈ closedKeys
  recorded : ∃ ops, (factory created).run (factory created).start ops = some s.factory ∧
    ∀ sample, .record sample ∈ ops → sample.key ∈ closedKeys

theorem labelled_new (created : Int) : Labelled created (summaries created).start where
  metrics _ h := nomatch h
  exported _ h := nomatch h
  waiting _ h := nomatch h
  recorded := ⟨[], rfl, fun _ h => nomatch h⟩

variable {created : Int} {ops : List Op} {f : Factory} {s t : Summaries}

theorem forall_mem_concat {α : Type} {P : α → Prop} {xs : List α} {x : α} (h : ∀ y ∈ xs, P y) (hx : P x) :
    ∀ y ∈ xs ++ [x], P y :=
  List.forall_mem_append.mpr ⟨h, List.forall_mem_singleton.mpr hx⟩

/-- A step of the factory, for closed labels. -/
theorem Labelled.step (h : Labelled created s) (op : Op) {f' : Factory} (hNext : next s.factory op = some f')
    (hOp : ∀ sample, op = .record sample → sample.key ∈ closedKeys) :
    ∃ ops, (factory created).run (factory created).start ops = some f' ∧
      ∀ sample, .record sample ∈ ops → sample.key ∈ closedKeys := by
  obtain ⟨ops, hRun, hOps⟩ := h.recorded
  refine ⟨ops ++ [op], System.run_append.mpr ⟨s.factory, hRun, ?_⟩, ?_⟩
  · exact Option.bind_eq_some_iff.mpr ⟨f', hNext, rfl⟩
  · intro sample hMem
    cases List.mem_append.mp hMem with
    | inl hOld => exact hOps sample hOld
    | inr hNew => exact hOp sample (List.mem_singleton.mp hNew).symm

theorem Labelled.next (h : Labelled created s) {step : Step} (hNext : s.next step = some t) : Labelled created t := by
  cases step with
  | create event now =>
    cases hNext
    constructor
    case metrics => exact forall_mem_concat h.metrics (orOther_mem events event)
    case exported => exact forall_mem_concat h.exported (orOther_mem events event)
    case waiting => exact h.waiting
    case recorded => exact h.recorded
  | fire metrics result now =>
    obtain ⟨m, hm, rfl⟩ := Option.map_eq_some_iff.mp hNext
    have hEvent := h.metrics m (List.mem_of_getElem? hm)
    constructor
    case metrics => exact h.metrics
    case exported => exact forall_mem_concat h.exported (fire_exported m result now metrics)
    case waiting => exact forall_mem_concat h.waiting (fire_mem hEvent result now)
    case recorded => exact h.recorded
  | responseStatus metrics name status now =>
    obtain ⟨m, hm, rfl⟩ := Option.map_eq_some_iff.mp hNext
    have hEvent := h.metrics m (List.mem_of_getElem? hm)
    constructor
    case metrics => exact h.metrics
    case exported => exact forall_mem_concat h.exported (responseStatus_exported m name status now metrics)
    case waiting => exact forall_mem_concat h.waiting (responseStatus_mem hEvent name status now)
    case recorded => exact h.recorded
  | record call =>
    obtain ⟨sample, hSample, rfl⟩ := Option.map_eq_some_iff.mp hNext
    have hKey := h.waiting sample (List.mem_of_getElem? hSample)
    constructor
    case metrics => exact h.metrics
    case exported => exact h.exported
    case waiting => exact fun other hOther => h.waiting other (List.mem_of_mem_eraseIdx hOther)
    case recorded =>
      apply h.step (.record sample) rfl
      intro other hOther
      cases hOther
      exact hKey
  | drainWindow now order =>
    obtain ⟨f, hDrain, rfl⟩ := Option.map_eq_some_iff.mp hNext
    constructor
    case metrics => exact h.metrics
    case exported => exact h.exported
    case waiting => exact h.waiting
    case recorded =>
      apply h.step (.drainWindow now order) hDrain
      intro sample hSample
      cases hSample

theorem summaries_labelled {steps : List Step} (hRun : (summaries created).run (summaries created).start steps = some s) :
    Labelled created s := by
  apply System.run_invariant (fun _ s => Labelled created s) (labelled_new created) _ hRun
  intro _ s step t h hNext
  exact h.next hNext

/-! ## The keys of the rows -/

theorem record_mem_of_window {w : List Sample} (hw : w ∈ (windows ops).pending :: (windows ops).finished)
    {sample : Sample} (hMem : sample ∈ w) : Op.record sample ∈ ops := by
  induction ops using List.reverseRecOn generalizing w with
  | nil =>
    rw [List.mem_singleton.mp hw] at hMem
    cases hMem
  | append_singleton ops op ih =>
    cases op with
    | record other =>
      rw [windows_record] at hw
      obtain rfl | hFinished := List.mem_cons.mp hw
      · cases List.mem_append.mp hMem with
        | inl hOld => exact List.mem_append_left _ (ih List.mem_cons_self hOld)
        | inr hNew =>
          rw [List.mem_singleton.mp hNew]
          exact List.mem_append_right _ List.mem_cons_self
      · exact List.mem_append_left _ (ih (List.mem_cons_of_mem _ hFinished) hMem)
    | drainWindow now order =>
      rw [windows_drain] at hw
      apply List.mem_append_left
      obtain rfl | hFinished := List.mem_cons.mp hw
      · cases hMem
      · cases List.mem_append.mp hFinished with
        | inl hOld => exact ih (List.mem_cons_of_mem _ hOld) hMem
        | inr hNew =>
          rw [List.mem_singleton.mp hNew] at hMem
          exact ih List.mem_cons_self hMem

theorem exists_sample {key : SummaryKey} {w : List Sample} (h : durations key w ≠ []) :
    ∃ sample ∈ w, sample.key = key := by
  obtain ⟨elapsed, hMem⟩ := List.exists_mem_of_ne_nil _ h
  obtain ⟨sample, hSample, -⟩ := List.mem_map.mp hMem
  obtain ⟨hIn, hKey⟩ := List.mem_filter.mp hSample
  exact ⟨sample, hIn, of_decide_eq_true hKey⟩

/-- A row has a sample. -/
theorem Inv.recorded_of_mem_keys (h : Inv created ops f) {key : SummaryKey} (hKey : key ∈ f.rows.keys) :
    ∃ sample, .record sample ∈ ops ∧ sample.key = key := by
  cases hGet : f.rows.get? key with
  | none => exact absurd hKey (OrderedMap.get?_eq_none_iff.mp hGet)
  | some address =>
    obtain ⟨sample, hMem, hEq⟩ := exists_sample (h.present key address hGet).1
    exact ⟨sample, record_mem_of_window List.mem_cons_self hMem, hEq⟩

theorem Inv.recorded_of_drained (h : Inv created ops f) {d : Drain} (hd : d ∈ f.drains) {row : Nat × SummaryRow}
    (hRow : row ∈ d.rows) : ∃ sample, .record sample ∈ ops ∧ sample.key = row.2.key := by
  obtain ⟨w, hw, order, -, hOrder, hRows⟩ := exists_of_forall₂ h.drained.flip hd
  have hMem : row.2 ∈ d.rows.map Prod.snd := List.mem_map_of_mem hRow
  rw [hRows] at hMem
  obtain ⟨key, hKey, hEq⟩ := List.mem_map.mp hMem
  obtain ⟨sample, hSample, hSampleKey⟩ := exists_sample ((hOrder key).mp hKey)
  refine ⟨sample, record_mem_of_window (List.mem_cons_of_mem _ hw) hSample, ?_⟩
  rw [hSampleKey, ← hEq]
  rfl

/-- The factory went through some calls of `record` and drains, all with closed keys. -/
structure Closed (created : Int) (s : Summaries) : Prop where
  recorded : ∃ ops, (factory created).run (factory created).start ops = some s.factory ∧
    ∀ sample, .record sample ∈ ops → sample.key ∈ closedKeys
  pending : ∀ key ∈ s.factory.rows.keys, key ∈ closedKeys
  drained : ∀ d ∈ s.factory.drains, ∀ row ∈ d.rows, row.2.key ∈ closedKeys
  exported : ∀ e ∈ s.exported, e.Closed

theorem Labelled.closed (h : Labelled created s) : Closed created s := by
  obtain ⟨ops, hRun, hOps⟩ := h.recorded
  have hInv := factory_invariant hRun
  constructor
  case recorded => exact ⟨ops, hRun, hOps⟩
  case pending =>
    intro key hKey
    obtain ⟨sample, hSample, rfl⟩ := hInv.recorded_of_mem_keys hKey
    exact hOps sample hSample
  case drained =>
    intro d hd row hRow
    obtain ⟨sample, hSample, hKey⟩ := hInv.recorded_of_drained hd hRow
    rw [← hKey]
    exact hOps sample hSample
  case exported => exact h.exported

/-- Nothing is lost or counted twice while fewer than `2 ^ 64` samples of a key fall in one window, and no label of a
caller becomes a key. -/
theorem summaries_account (created : Int) :
    (∀ ops f, (factory created).run (factory created).start ops = some f → Accounts created ops f) ∧
    ∀ steps s, (summaries created).run (summaries created).start steps = some s → Closed created s := by
  constructor
  · intro ops f hRun
    exact accounts hRun
  · intro steps s hRun
    exact (summaries_labelled hRun).closed

/-- What the test of dynamic labels passes to the gateway, and a drain. -/
def dynamicLabels : List Step :=
  [.create (text "person@example.com") 0, .fire 0 (text "https://private.example/content") 5000000,
    .responseStatus 0 (text "token=secret") (-123456) 20000000,
    .fire 0 (text "gateway_payloadperson@example.com") 20000000000, .record 1, .record 0, .record 0,
    .drainWindow 60000000000
      [⟨text "other", text "result", text "other"⟩, ⟨text "other", text "outer", text "other"⟩,
        ⟨text "other", text "payload", text "other"⟩]]

def okSample : Sample := ⟨⟨text "gateway_request", text "outer", text "200"⟩, 20000000⟩

def twoWindows : List Op := [.record okSample, .drainWindow 60000000000 [okSample.key], .record okSample]

theorem summaries_account_dynamic_labels :
    Accounts 0 twoWindows ((factory 0).after twoWindows) ∧
    drainedCount ((factory 0).after twoWindows) okSample.key = 1 ∧
    Closed 0 ((summaries 0).after dynamicLabels) ∧
    ((summaries 0).after dynamicLabels).factory.drains.map (·.rows.length) = [3] := by
  have hTwo : ((factory 0).run (factory 0).start twoWindows).isSome := by decide +kernel
  have hDynamic : ((summaries 0).run (summaries 0).start dynamicLabels).isSome := by decide +kernel
  refine ⟨?_, by decide +kernel, ?_, by decide +kernel⟩
  · exact (summaries_account 0).1 twoWindows _ (System.run_after _ hTwo)
  · exact (summaries_account 0).2 dynamicLabels _ (System.run_after _ hDynamic)

theorem run_replicate (created : Int) (sample : Sample) (n : Nat) (f : Factory) :
    ∃ f', (factory created).run f (List.replicate n (.record sample)) = some f' := by
  induction n generalizing f with
  | zero => exact ⟨f, rfl⟩
  | succ n ih => exact ih (record f sample)

theorem windows_replicate (sample : Sample) (n : Nat) :
    windows (List.replicate n (.record sample)) = ⟨[], List.replicate n sample⟩ := by
  induction n with
  | zero => rfl
  | succ n ih =>
    rw [List.replicate_succ', windows_record, ih, List.replicate_succ']

/-- `n` calls of `record` for one key make a row with the count `n`, modulo `2 ^ 64`. -/
theorem count_replicate (created : Int) (sample : Sample) (n : Nat) :
    ∃ f, (factory created).run (factory created).start (List.replicate n (.record sample)) = some f ∧
      drainedCount f sample.key + pendingCount f sample.key = n % 2 ^ 64 := by
  obtain ⟨f, hRun⟩ := run_replicate created sample n (factory created).start
  refine ⟨f, hRun, ?_⟩
  rw [(factory_invariant hRun).counts, windows_replicate]
  simp [durations]

/-- A full counter starts again at 0. -/
theorem count_wraps : ∃ f,
    (factory 0).run (factory 0).start (List.replicate (2 ^ 64) (.record okSample)) = some f ∧
    drainedCount f okSample.key + pendingCount f okSample.key ≠
      (List.replicate (2 ^ 64) (Op.record okSample)).countP (·.records okSample.key) := by
  have hRecords : (Op.record okSample).records okSample.key = true := by simp [Op.records]
  generalize hn : 2 ^ 64 = n
  obtain ⟨f, hRun, hCount⟩ := count_replicate 0 okSample n
  refine ⟨f, hRun, ?_⟩
  rw [hCount, List.countP_replicate, if_pos hRecords, ← hn]
  decide

end Columbia.Gateway.SummaryMetrics
