import Columbia.Gateway.Handler
import Columbia.Lib.OrderedMap
import Columbia.Lib.Reader
import Mathlib.Tactic.IntervalCases

/-! # The gateway's operational summaries: `SummaryMetricsFactory`

Rows are objects: the map holds their addresses, `record` writes through them and a drain copies them. `record` and
`drainWindow` hold the mutex, so a run is a list of them in some order. Times are readings of the monotonic clock, in
nanoseconds: 63 bits, so their differences fit a `Duration`. Strings are their bytes.
-/
namespace Columbia.Gateway.SummaryMetrics
open Columbia.Js Columbia.Lib
open Columbia.Gateway.Handler (text)
set_option autoImplicit false

structure SummaryKey where
  event : Bytes
  stage : Bytes
  outcome : Bytes
  deriving DecidableEq

structure SummaryRow where
  Event : Bytes
  Stage : Bytes
  Outcome : Bytes
  Count : UInt64
  DurationBuckets : Fin 6 → UInt64

/-- A call of `record`. -/
structure Sample where
  key : SummaryKey
  elapsed : Int
  deriving DecidableEq

def durationBounds : List Int := [10000000, 100000000, 1000000000, 5000000000, 15000000000]

/-- The first bound that is not exceeded, 5 when all of them are. -/
def bucketOf (elapsed : Int) : Fin 6 :=
  ⟨durationBounds.findIdx (elapsed ≤ ·), Nat.lt_succ_of_le List.findIdx_le_length⟩

def newRow (key : SummaryKey) : SummaryRow := ⟨key.event, key.stage, key.outcome, 0, fun _ => 0⟩

def SummaryRow.key (row : SummaryRow) : SummaryKey := ⟨row.Event, row.Stage, row.Outcome⟩

/-- `row.Count++` and `row.DurationBuckets[bucket]++`. -/
def bump (elapsed : Int) (row : SummaryRow) : SummaryRow :=
  { row with
    Count := row.Count + 1
    DurationBuckets :=
      Function.update row.DurationBuckets (bucketOf elapsed) (row.DurationBuckets (bucketOf elapsed) + 1) }

/-- What a drain returned. Each row comes with the address it was copied from. -/
structure Drain where
  rows : List (Nat × SummaryRow)
  elapsed : Int

/-- `heap` holds every row ever made, `drains` what the drains have returned so far. -/
structure Factory where
  heap : List SummaryRow
  rows : OrderedMap SummaryKey Nat
  windowStart : Int
  drains : List Drain

def newSummaryMetricsFactory (now : Int) : Factory := ⟨[], .empty, now, []⟩

def record (f : Factory) (sample : Sample) : Factory :=
  match f.rows.get? sample.key with
  | some address => { f with heap := f.heap.modify address (bump sample.elapsed) }
  | none =>
    { f with
      heap := (f.heap ++ [newRow sample.key]).modify f.heap.length (bump sample.elapsed)
      rows := f.rows.set sample.key f.heap.length }

/-- `*row` for the row of a key, with its address. -/
def copyRow (f : Factory) (key : SummaryKey) : Option (Nat × SummaryRow) :=
  (f.rows.get? key).bind fun address => (f.heap[address]?).map fun row => (address, row)

/-- The map is ranged over in any order. -/
def drainWindow (f : Factory) (now : Int) (order : List SummaryKey) : Option Factory :=
  if order.Perm f.rows.keys then
    (order.mapM (copyRow f)).map fun rows =>
      { f with rows := .empty, windowStart := now, drains := f.drains ++ [⟨rows, now - f.windowStart⟩] }
  else none

inductive Op
  | record (sample : Sample)
  | drainWindow (now : Int) (order : List SummaryKey)

def next (f : Factory) : Op → Option Factory
  | .record sample => some (record f sample)
  | .drainWindow now order => drainWindow f now order

def factory (created : Int) : System Factory Op := ⟨newSummaryMetricsFactory created, next⟩

/-! ## What was recorded -/

/-- The samples between consecutive drains: the finished windows and the open one. -/
structure Windows where
  finished : List (List Sample)
  pending : List Sample

def Windows.next (w : Windows) : Op → Windows
  | .record sample => { w with pending := w.pending ++ [sample] }
  | .drainWindow _ _ => ⟨w.finished ++ [w.pending], []⟩

def windows (ops : List Op) : Windows := ops.foldl Windows.next ⟨[], []⟩

/-- The time of the last drain, or of the creation. -/
def lastDrain (created : Int) (ops : List Op) : Int :=
  ops.foldl (fun last op => match op with | .record _ => last | .drainWindow now _ => now) created

/-- A call of `record` for this key. -/
def Op.records (key : SummaryKey) : Op → Bool
  | .record sample => sample.key = key
  | .drainWindow _ _ => false

def durations (key : SummaryKey) (samples : List Sample) : List Int :=
  (samples.filter (·.key = key)).map (·.elapsed)

/-- The row that these durations make: each in one bucket, all of them counted, in 64 bits. -/
def rowOf (key : SummaryKey) (ds : List Int) : SummaryRow :=
  ⟨key.event, key.stage, key.outcome, UInt64.ofNat ds.length, fun b => UInt64.ofNat (ds.countP (bucketOf · = b))⟩

theorem newRow_eq (key : SummaryKey) : newRow key = rowOf key [] := rfl

theorem bump_rowOf (key : SummaryKey) (ds : List Int) (elapsed : Int) :
    bump elapsed (rowOf key ds) = rowOf key (ds ++ [elapsed]) := by
  have hBuckets : (bump elapsed (rowOf key ds)).DurationBuckets = (rowOf key (ds ++ [elapsed])).DurationBuckets := by
    funext b
    by_cases hb : b = bucketOf elapsed
    · subst hb
      simp [bump, rowOf]
    · simp [bump, rowOf, Function.update_of_ne hb, Ne.symm hb]
  simp only [bump, rowOf, SummaryRow.mk.injEq, List.length_append, List.length_singleton, UInt64.ofNat_add] at hBuckets ⊢
  exact ⟨trivial, trivial, trivial, rfl, hBuckets⟩

theorem durations_concat (key : SummaryKey) (samples : List Sample) (sample : Sample) :
    durations key (samples ++ [sample]) =
      durations key samples ++ if sample.key = key then [sample.elapsed] else [] := by
  by_cases hKey : sample.key = key <;> simp [durations, hKey]

theorem lastDrain_concat (created : Int) (ops : List Op) (op : Op) :
    lastDrain created (ops ++ [op]) = match op with | .record _ => lastDrain created ops | .drainWindow now _ => now := by
  rw [lastDrain, List.foldl_append]
  rfl

theorem windows_concat (ops : List Op) (op : Op) : windows (ops ++ [op]) = (windows ops).next op := by
  rw [windows, List.foldl_append]
  rfl

theorem windows_record (ops : List Op) (sample : Sample) :
    windows (ops ++ [.record sample]) = ⟨(windows ops).finished, (windows ops).pending ++ [sample]⟩ := windows_concat ops _

theorem windows_drain (ops : List Op) (now : Int) (order : List SummaryKey) :
    windows (ops ++ [.drainWindow now order]) = ⟨(windows ops).finished ++ [(windows ops).pending], []⟩ :=
  windows_concat ops _

/-! ## The rows say what was recorded -/

/-- A drain returned one row for each key of its window, with what was recorded for it. -/
def Drained (d : Drain) (samples : List Sample) : Prop :=
  ∃ order : List SummaryKey, order.Nodup ∧ (∀ key, key ∈ order ↔ durations key samples ≠ []) ∧
    d.rows.map Prod.snd = order.map fun key => rowOf key (durations key samples)

/-- The addresses of all rows that were returned, and of those in the map. -/
def addresses (f : Factory) : List Nat := f.drains.flatMap (·.rows.map Prod.fst) ++ f.rows.entries.map Prod.snd

structure Inv (created : Int) (ops : List Op) (f : Factory) : Prop where
  present : ∀ key address, f.rows.get? key = some address → durations key (windows ops).pending ≠ [] ∧
    f.heap[address]? = some (rowOf key (durations key (windows ops).pending))
  absent : ∀ key, f.rows.get? key = none → durations key (windows ops).pending = []
  nodup : (addresses f).Nodup
  inHeap : ∀ address ∈ addresses f, address < f.heap.length
  drained : List.Forall₂ Drained f.drains (windows ops).finished
  windowStart : f.windowStart = lastDrain created ops
  elapsed : (f.drains.map (·.elapsed)).sum = f.windowStart - created

theorem inv_new (created : Int) : Inv created [] (newSummaryMetricsFactory created) where
  present _ _ h := nomatch h
  absent _ _ := rfl
  nodup := List.nodup_nil
  inHeap _ h := nomatch h
  drained := .nil
  windowStart := rfl
  elapsed := by simp [newSummaryMetricsFactory]

variable {created : Int} {ops : List Op} {f : Factory}

theorem Inv.lt_length (h : Inv created ops f) {key : SummaryKey} {address : Nat}
    (hGet : f.rows.get? key = some address) : address < f.heap.length := by
  apply h.inHeap
  exact List.mem_append_right _ (List.mem_map_of_mem (f := Prod.snd) (OrderedMap.get?_eq_some_iff.mp hGet))

/-- No two keys share a row. -/
theorem Inv.address_injective (h : Inv created ops f) {key key' : SummaryKey} {address : Nat}
    (hGet : f.rows.get? key = some address) (hGet' : f.rows.get? key' = some address) : key = key' := by
  have hNodup : (f.rows.entries.map Prod.snd).Nodup := (List.nodup_append.mp h.nodup).2.1
  have hEq := List.inj_on_of_nodup_map hNodup (OrderedMap.get?_eq_some_iff.mp hGet)
    (OrderedMap.get?_eq_some_iff.mp hGet') rfl
  exact congrArg Prod.fst hEq

theorem Inv.record_present (h : Inv created ops f) {sample : Sample} {address : Nat}
    (hGet : f.rows.get? sample.key = some address) :
    Inv created (ops ++ [.record sample])
      { f with heap := f.heap.modify address (bump sample.elapsed) } := by
  constructor
  case present =>
    intro key address' hGet'
    obtain ⟨hSome, hRow⟩ := h.present key address' hGet'
    rw [windows_record, durations_concat, List.getElem?_modify]
    by_cases hKey : sample.key = key
    · subst hKey
      obtain rfl : address = address' := Option.some.inj (hGet.symm.trans hGet')
      simp [hRow, bump_rowOf]
    · have hOther : address ≠ address' := fun hEq => hKey (h.address_injective hGet (hEq ▸ hGet'))
      simpa [hKey, hOther] using ⟨hSome, hRow⟩
  case absent =>
    intro key hNone
    have hKey : sample.key ≠ key := by
      rintro rfl
      cases hGet.symm.trans hNone
    rw [windows_record, durations_concat, if_neg hKey, List.append_nil]
    exact h.absent key hNone
  case nodup => exact h.nodup
  case inHeap =>
    intro a ha
    rw [List.length_modify]
    exact h.inHeap a ha
  case drained =>
    rw [windows_record]
    exact h.drained
  case windowStart =>
    rw [lastDrain_concat]
    exact h.windowStart
  case elapsed => exact h.elapsed

theorem addresses_set {key : SummaryKey} (address : Nat) (heap : List SummaryRow) (hNone : f.rows.get? key = none) :
    addresses { f with heap := heap, rows := f.rows.set key address } = addresses f ++ [address] := by
  have hHas : f.rows.has key = false := by
    rw [OrderedMap.has, hNone]
    rfl
  have hEntries : (f.rows.set key address).entries = f.rows.entries ++ [(key, address)] := by
    rw [OrderedMap.entries_set, hHas, if_neg Bool.false_ne_true]
  rw [addresses, hEntries, List.map_append, ← List.append_assoc]
  rfl

theorem Inv.record_absent (h : Inv created ops f) {sample : Sample} (hNone : f.rows.get? sample.key = none) :
    Inv created (ops ++ [.record sample])
      { f with
        heap := (f.heap ++ [newRow sample.key]).modify f.heap.length (bump sample.elapsed)
        rows := f.rows.set sample.key f.heap.length } := by
  constructor
  case present =>
    intro key address hGet
    rw [windows_record, durations_concat, List.getElem?_modify]
    change (f.rows.set sample.key f.heap.length).get? key = some address at hGet
    rw [OrderedMap.get?_set] at hGet
    split at hGet
    · rename_i hKey
      subst hKey
      obtain rfl : f.heap.length = address := Option.some.inj hGet
      simp [h.absent _ hNone, newRow_eq, bump_rowOf]
    · rename_i hKey
      obtain ⟨hSome, hRow⟩ := h.present key address hGet
      have hOld : address < f.heap.length := h.lt_length hGet
      have hOther : f.heap.length ≠ address := by omega
      simpa [Ne.symm hKey, hOther, List.getElem?_append_left hOld] using ⟨hSome, hRow⟩
  case absent =>
    intro key hGet
    change (f.rows.set sample.key f.heap.length).get? key = none at hGet
    rw [OrderedMap.get?_set] at hGet
    split at hGet
    · cases hGet
    · rename_i hKey
      rw [windows_record, durations_concat, if_neg (Ne.symm hKey), List.append_nil]
      exact h.absent key hGet
  case nodup =>
    rw [addresses_set _ _ hNone]
    refine List.nodup_append.mpr ⟨h.nodup, List.nodup_singleton _, fun a ha b hb hEq => ?_⟩
    have hOld := h.inHeap a ha
    have hNew := List.mem_singleton.mp hb
    omega
  case inHeap =>
    rw [addresses_set _ _ hNone]
    intro a ha
    rw [List.length_modify, List.length_append, List.length_singleton]
    cases List.mem_append.mp ha with
    | inl hOld => exact Nat.lt_succ_of_lt (h.inHeap a hOld)
    | inr hNew =>
      rw [List.mem_singleton.mp hNew]
      exact Nat.lt_succ_self _
  case drained =>
    rw [windows_record]
    exact h.drained
  case windowStart =>
    rw [lastDrain_concat]
    exact h.windowStart
  case elapsed => exact h.elapsed

theorem Inv.record (h : Inv created ops f) (sample : Sample) :
    Inv created (ops ++ [.record sample]) (SummaryMetrics.record f sample) := by
  unfold SummaryMetrics.record
  split
  · rename_i address hGet
    exact h.record_present hGet
  · rename_i hNone
    exact h.record_absent hNone

/-- The rows that a drain copies, for the keys in this order. -/
def copies (f : Factory) (samples : List Sample) (order : List SummaryKey) : List (Nat × SummaryRow) :=
  order.map fun key => ((f.rows.get? key).getD 0, rowOf key (durations key samples))

/-- A drain finds every row of the map. -/
theorem Inv.drainWindow_eq (h : Inv created ops f) (now : Int) {order : List SummaryKey}
    (hOrder : order.Perm f.rows.keys) :
    drainWindow f now order = some
      { f with
        rows := .empty
        windowStart := now
        drains := f.drains ++ [⟨copies f (windows ops).pending order, now - f.windowStart⟩] } := by
  have hCopies : order.mapM (copyRow f) = some (copies f (windows ops).pending order) := by
    rw [mapM_eq_some, copies, List.forall₂_map_right_iff, List.forall₂_same]
    intro key hKey
    have hMem : key ∈ f.rows.keys := hOrder.mem_iff.mp hKey
    cases hGet : f.rows.get? key with
    | none => exact absurd hMem (OrderedMap.get?_eq_none_iff.mp hGet)
    | some address =>
      rw [copyRow, hGet, Option.bind_some, (h.present key address hGet).2]
      rfl
  rw [drainWindow, if_pos hOrder, hCopies]
  rfl

/-- The copied rows are those of the map. -/
theorem addresses_drain (samples : List Sample) (now elapsed : Int) {order : List SummaryKey}
    (hOrder : order.Perm f.rows.keys) : (addresses
      { f with
        rows := .empty
        windowStart := now
        drains := f.drains ++ [⟨copies f samples order, elapsed⟩] }).Perm (addresses f) := by
  have hKeys : f.rows.keys.map (fun key => (f.rows.get? key).getD 0) = f.rows.entries.map Prod.snd := by
    rw [OrderedMap.keys, List.map_map]
    apply List.map_congr_left
    intro e he
    change (f.rows.get? e.1).getD 0 = e.2
    rw [OrderedMap.get?_eq_some_iff.mpr he]
    rfl
  have hCopied : (copies f samples order).map Prod.fst = order.map fun key => (f.rows.get? key).getD 0 := by
    rw [copies, List.map_map]
    rfl
  rw [addresses, addresses, List.flatMap_append, List.append_assoc]
  apply List.Perm.append_left
  change ((copies f samples order).map Prod.fst ++ [] ++ []).Perm _
  rw [List.append_nil, List.append_nil, hCopied, ← hKeys]
  exact hOrder.map _

theorem Inv.drain (h : Inv created ops f) {now : Int} {order : List SummaryKey} {f' : Factory}
    (hDrain : drainWindow f now order = some f') : Inv created (ops ++ [.drainWindow now order]) f' := by
  have hOrder : order.Perm f.rows.keys := by
    unfold drainWindow at hDrain
    split at hDrain
    · assumption
    · cases hDrain
  rw [h.drainWindow_eq now hOrder] at hDrain
  cases hDrain
  have hAddresses := addresses_drain (windows ops).pending now (now - f.windowStart) hOrder
  constructor
  case present => exact fun _ _ hGet => nomatch hGet
  case absent =>
    rw [windows_drain]
    exact fun _ _ => rfl
  case nodup => exact hAddresses.nodup_iff.mpr h.nodup
  case inHeap => exact fun a ha => h.inHeap a (hAddresses.mem_iff.mp ha)
  case drained =>
    rw [windows_drain]
    refine List.rel_append h.drained (.cons ⟨order, ?_, ?_, ?_⟩ .nil)
    · exact hOrder.nodup_iff.mpr f.rows.nodup
    · intro key
      rw [hOrder.mem_iff]
      cases hGet : f.rows.get? key with
      | none => exact iff_of_false (OrderedMap.get?_eq_none_iff.mp hGet) (not_not.mpr (h.absent key hGet))
      | some address =>
        have hMem : key ∈ f.rows.keys := List.mem_map_of_mem (f := Prod.fst) (OrderedMap.get?_eq_some_iff.mp hGet)
        exact iff_of_true hMem (h.present key address hGet).1
    · change (copies f (windows ops).pending order).map Prod.snd = _
      rw [copies, List.map_map]
      rfl
  case windowStart => rw [lastDrain_concat]
  case elapsed =>
    rw [List.map_append, List.sum_append, h.elapsed, List.map_singleton, List.sum_singleton]
    exact sub_add_sub_cancel' _ _ _

theorem factory_invariant (hRun : (factory created).run (factory created).start ops = some f) : Inv created ops f := by
  apply System.run_invariant (Inv created) (inv_new created) _ hRun
  intro ops f op f' h hNext
  cases op with
  | record sample =>
    cases hNext
    exact h.record sample
  | drainWindow now order => exact h.drain hNext

/-! ## Counts -/

def countFor (key : SummaryKey) (rows : List SummaryRow) : Nat :=
  ((rows.filter (·.key = key)).map (·.Count.toNat)).sum

def drainedCount (f : Factory) (key : SummaryKey) : Nat :=
  (f.drains.map fun d => countFor key (d.rows.map Prod.snd)).sum

def pendingCount (f : Factory) (key : SummaryKey) : Nat := ((copyRow f key).map (·.2.Count.toNat)).getD 0

theorem recorded_eq (key : SummaryKey) (ops : List Op) : ops.countP (·.records key) =
    ((windows ops).finished.map fun w => (durations key w).length).sum +
      (durations key (windows ops).pending).length := by
  induction ops using List.reverseRecOn with
  | nil => rfl
  | append_singleton ops op ih =>
    rw [List.countP_append, ih]
    cases op with
    | record sample =>
      rw [windows_record, durations_concat]
      by_cases hKey : sample.key = key
      · simp [Op.records, hKey, add_assoc]
      · simp [Op.records, hKey]
    | drainWindow now order =>
      rw [windows_drain]
      simp [Op.records, durations]

theorem toNat_count (key : SummaryKey) (ds : List Int) : (rowOf key ds).Count.toNat = ds.length % 2 ^ 64 :=
  UInt64.toNat_ofNat'

theorem Drained.countFor {d : Drain} {samples : List Sample} (h : Drained d samples) (key : SummaryKey) :
    SummaryMetrics.countFor key (d.rows.map Prod.snd) = (durations key samples).length % 2 ^ 64 := by
  obtain ⟨order, hNodup, hMem, hRows⟩ := h
  have hKeys : (fun row : SummaryRow => decide (row.key = key)) ∘ (fun k => rowOf k (durations k samples)) =
      fun k => decide (k = key) := rfl
  rw [SummaryMetrics.countFor, hRows, List.filter_map, hKeys, List.map_map, List.filter_eq]
  by_cases hKey : durations key samples = []
  · have hNot : key ∉ order := fun hIn => (hMem key).mp hIn hKey
    simp [List.count_eq_zero_of_not_mem hNot, hKey]
  · have hIn : key ∈ order := (hMem key).mpr hKey
    simp [List.count_eq_one_of_mem hNodup hIn, toNat_count]

theorem Inv.pendingCount (h : Inv created ops f) (key : SummaryKey) :
    SummaryMetrics.pendingCount f key = (durations key (windows ops).pending).length % 2 ^ 64 := by
  rw [SummaryMetrics.pendingCount, copyRow]
  cases hGet : f.rows.get? key with
  | none =>
    rw [h.absent key hGet]
    rfl
  | some address =>
    rw [Option.bind_some, (h.present key address hGet).2]
    exact toNat_count _ _

theorem Inv.drainedCount (h : Inv created ops f) (key : SummaryKey) : SummaryMetrics.drainedCount f key =
    ((windows ops).finished.map fun w => (durations key w).length % 2 ^ 64).sum := by
  have hDrained := h.drained
  rw [SummaryMetrics.drainedCount]
  generalize f.drains = drains at hDrained ⊢
  generalize (windows ops).finished = finished at hDrained ⊢
  induction hDrained with
  | nil => rfl
  | cons hHead _ ih => rw [List.map_cons, List.sum_cons, List.map_cons, List.sum_cons, ih, hHead.countFor]

/-! ## Buckets -/

/-- Above the bounds before the bucket, and not above its own bound or the later ones. -/
def InBounds (b : Fin 6) (elapsed : Int) : Prop :=
  (∀ lower ∈ durationBounds.take b, lower < elapsed) ∧ ∀ upper ∈ durationBounds.drop b, elapsed ≤ upper

instance (b : Fin 6) (elapsed : Int) : Decidable (InBounds b elapsed) := inferInstanceAs (Decidable (_ ∧ _))

theorem bucketOf_val (elapsed : Int) : (bucketOf elapsed).val =
    if elapsed ≤ 10000000 then 0 else if elapsed ≤ 100000000 then 1 else if elapsed ≤ 1000000000 then 2
    else if elapsed ≤ 5000000000 then 3 else if elapsed ≤ 15000000000 then 4 else 5 := by
  simp only [bucketOf, durationBounds, List.findIdx_cons, List.findIdx_nil, cond_eq_ite, decide_eq_true_eq]
  split_ifs <;> rfl

theorem bucketOf_eq_iff (b : Fin 6) (elapsed : Int) : bucketOf elapsed = b ↔ InBounds b elapsed := by
  obtain ⟨n, hn⟩ := b
  rw [Fin.ext_iff, bucketOf_val]
  change _ = n ↔ (∀ lower ∈ durationBounds.take n, lower < elapsed) ∧ ∀ upper ∈ durationBounds.drop n, elapsed ≤ upper
  interval_cases n
  all_goals
    simp only [durationBounds, List.take_succ_cons, List.take_zero, List.drop_succ_cons, List.drop_zero,
      List.forall_mem_cons, List.not_mem_nil, false_imp_iff, implies_true, and_true, true_and]
    grind

theorem exists_unique_inBounds (elapsed : Int) : ∃! b, InBounds b elapsed := by
  refine ⟨bucketOf elapsed, (bucketOf_eq_iff _ _).mp rfl, ?_⟩
  intro b hb
  exact ((bucketOf_eq_iff b elapsed).mpr hb).symm

/-- Each duration is in one of the buckets. -/
theorem length_eq_buckets (ds : List Int) :
    ds.length = ((List.finRange 6).map fun b => ds.countP (bucketOf · = b)).sum := by
  rw [OrderedMap.sum_countP_keys bucketOf ds (List.nodup_finRange 6)]
  simp

theorem ofNat_sum (ns : List Nat) : UInt64.ofNat ns.sum = (ns.map UInt64.ofNat).foldr (· + ·) 0 := by
  induction ns with
  | nil => rfl
  | cons n ns ih => rw [List.sum_cons, UInt64.ofNat_add, ih, List.map_cons, List.foldr_cons]

/-- The sum of the buckets, in 64 bits. -/
def SummaryRow.bucketSum (row : SummaryRow) : UInt64 := ((List.finRange 6).map row.DurationBuckets).foldr (· + ·) 0

theorem bucketSum_rowOf (key : SummaryKey) (ds : List Int) : (rowOf key ds).bucketSum = (rowOf key ds).Count := by
  change _ = UInt64.ofNat ds.length
  rw [length_eq_buckets, ofNat_sum, List.map_map]
  rfl

/-- A row counts these durations, each in the bucket whose bounds contain it, in 64 bits. -/
structure Tallies (row : SummaryRow) (ds : List Int) : Prop where
  count : row.Count.toNat = ds.length % 2 ^ 64
  buckets : ∀ b, (row.DurationBuckets b).toNat = ds.countP (InBounds b) % 2 ^ 64
  single : ∀ elapsed ∈ ds, ∃! b, InBounds b elapsed
  sum : row.bucketSum = row.Count
  exact_sum : ds.length < 2 ^ 64 → ((List.finRange 6).map fun b => (row.DurationBuckets b).toNat).sum = row.Count.toNat

theorem tallies_rowOf (key : SummaryKey) (ds : List Int) : Tallies (rowOf key ds) ds := by
  have hBuckets : ∀ b, ((rowOf key ds).DurationBuckets b).toNat = ds.countP (bucketOf · = b) % 2 ^ 64 := by
    intro b
    exact UInt64.toNat_ofNat'
  constructor
  case count => exact toNat_count key ds
  case buckets =>
    intro b
    rw [hBuckets]
    simp only [bucketOf_eq_iff]
  case single => exact fun elapsed _ => exists_unique_inBounds elapsed
  case sum => exact bucketSum_rowOf key ds
  case exact_sum =>
    intro hLength
    have hSmall : ∀ b, ((rowOf key ds).DurationBuckets b).toNat = ds.countP (bucketOf · = b) := by
      intro b
      rw [hBuckets, Nat.mod_eq_of_lt (lt_of_le_of_lt List.countP_le_length hLength)]
    rw [toNat_count, Nat.mod_eq_of_lt hLength, List.map_congr_left fun b _ => hSmall b]
    exact (length_eq_buckets ds).symm

/-! ## The accounts of a run -/

/-- A row that a drain returned or that is still in the map, with the samples of its window. -/
inductive RowOf (ops : List Op) (f : Factory) : SummaryRow → List Sample → Prop
  | drained {d : Drain} {samples : List Sample} {row : SummaryRow} :
    (d, samples) ∈ f.drains.zip (windows ops).finished → row ∈ d.rows.map Prod.snd → RowOf ops f row samples
  | pending {key : SummaryKey} {address : Nat} {row : SummaryRow} :
    copyRow f key = some (address, row) → RowOf ops f row (windows ops).pending

structure Accounts (created : Int) (ops : List Op) (f : Factory) : Prop where
  total : ∀ now order, order.Perm f.rows.keys → (drainWindow f now order).isSome
  drained : List.Forall₂ Drained f.drains (windows ops).finished
  once : (addresses f).Nodup
  counts : ∀ key, drainedCount f key + pendingCount f key =
    ((windows ops).finished.map fun w => (durations key w).length % 2 ^ 64).sum +
      (durations key (windows ops).pending).length % 2 ^ 64
  conserved : ∀ key, (∀ w ∈ (windows ops).pending :: (windows ops).finished, (durations key w).length < 2 ^ 64) →
    drainedCount f key + pendingCount f key = ops.countP (·.records key)
  tallies : ∀ row samples, RowOf ops f row samples → Tallies row (durations row.key samples)
  elapsed : (f.drains.map (·.elapsed)).sum = lastDrain created ops - created

/-- The rows are what was recorded for their keys, which is something. -/
theorem Inv.rowOf_eq (h : Inv created ops f) {row : SummaryRow} {samples : List Sample} (hRow : RowOf ops f row samples) :
    durations row.key samples ≠ [] ∧ row = rowOf row.key (durations row.key samples) := by
  cases hRow with
  | drained hZip hMem =>
    obtain ⟨order, -, hOrder, hRows⟩ := (List.forall₂_iff_zip.mp h.drained).2 hZip
    rw [hRows] at hMem
    obtain ⟨key, hKey, rfl⟩ := List.mem_map.mp hMem
    exact ⟨(hOrder key).mp hKey, rfl⟩
  | pending hCopy =>
    obtain ⟨address, hGet, hAt⟩ := Option.bind_eq_some_iff.mp hCopy
    obtain ⟨hSome, hHeap⟩ := h.present _ address hGet
    rw [hHeap] at hAt
    cases hAt
    exact ⟨hSome, rfl⟩

theorem Inv.counts (h : Inv created ops f) (key : SummaryKey) :
    SummaryMetrics.drainedCount f key + SummaryMetrics.pendingCount f key =
      ((windows ops).finished.map fun w => (durations key w).length % 2 ^ 64).sum +
        (durations key (windows ops).pending).length % 2 ^ 64 := by
  rw [h.drainedCount, h.pendingCount]

/-- No count wraps, so none is lost. -/
theorem Inv.conserved (h : Inv created ops f) {key : SummaryKey}
    (hSmall : ∀ w ∈ (windows ops).pending :: (windows ops).finished, (durations key w).length < 2 ^ 64) :
    SummaryMetrics.drainedCount f key + SummaryMetrics.pendingCount f key = ops.countP (·.records key) := by
  obtain ⟨hPending, hFinished⟩ := List.forall_mem_cons.mp hSmall
  have hMod : ∀ w ∈ (windows ops).finished, (durations key w).length % 2 ^ 64 = (durations key w).length := by
    intro w hw
    exact Nat.mod_eq_of_lt (hFinished w hw)
  rw [h.counts, recorded_eq, Nat.mod_eq_of_lt hPending, List.map_congr_left hMod]

theorem accounts (hRun : (factory created).run (factory created).start ops = some f) : Accounts created ops f := by
  have h := factory_invariant hRun
  constructor
  case total =>
    intro now order hOrder
    rw [h.drainWindow_eq now hOrder]
    rfl
  case drained => exact h.drained
  case once => exact h.nodup
  case counts => exact h.counts
  case conserved => exact fun key hSmall => h.conserved hSmall
  case tallies =>
    intro row samples hRow
    obtain ⟨-, hEq⟩ := h.rowOf_eq hRow
    have hTallies := tallies_rowOf row.key (durations row.key samples)
    rwa [← hEq] at hTallies
  case elapsed => rw [h.elapsed, h.windowStart]

end Columbia.Gateway.SummaryMetrics
