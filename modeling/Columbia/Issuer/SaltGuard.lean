import Columbia.Issuer.AzureDevices

/-! # One salt for each device table

The operations of any number of `azureDeviceBackend` instances over one table, each instance with a salt of its own.
A device row is reached through `initialize` only, and `initialize` returns only while the table's config row holds
the fingerprint of the instance's salt. No write replaces that row.
-/
namespace Columbia.Issuer.SaltGuard
open Columbia.Js Columbia.Lib StateStore
open Columbia.Issuer.AzureDevices (Entity configKey Init initializeStep readDevice)
set_option autoImplicit false

inductive Operation
  | get
  | put (etag : Option Nat) (value : DeviceRecord)

/-- `unavailable` is a thrown `StateUnavailable`. -/
inductive Result
  | row (row : Option (Nat × DeviceRecord))
  | put (done : Bool)
  | unavailable

inductive Phase
  | initializing (init : Init)
  | reading
  | writing (etag : Option Nat) (value : DeviceRecord)
  | readingBack (value : DeviceRecord) (error : RemoteError)
  | returned (result : Result)

structure Request where
  instanceId : Nat
  keyId : Str
  operation : Operation

inductive Call
  | idle
  | running (q : Request) (phase : Phase)

/-- The table and the promises, and what has been seen of them: the instance that made each promise, the instances
whose `initialize` returned, and who went for which device row. -/
structure Shared where
  azure : AzureDevices.Shared
  maker : Nat → Nat
  completed : List Nat
  accesses : List (Nat × Str)

inductive Action
  | start (q : Request)
  | resume (fault : Fault)

section
variable (sha256 : Bytes → Digest) (hmac : Bytes → Str → Digest) (stringify : DeviceRecord → Str) (salt : Nat → Bytes)

def saltFingerprint (instanceId : Nat) : Str := hex (sha256 (salt instanceId)).val

def rowKey (q : Request) : Str := keyFor hmac (salt q.instanceId) q.keyId

def afterInitialize : Operation → Phase
  | .get => .reading
  | .put etag value => if 60000 < 2 * (stringify value).length then .returned .unavailable else .writing etag value

def Shared.access (s : Shared) (q : Request) : Shared :=
  { s with accesses := s.accesses ++ [(q.instanceId, rowKey hmac salt q)] }

def step (call : Nat) (q : Request) (fault : Fault) (s : Shared) : Phase → Option (Shared × Phase)
  | .initializing init =>
    match initializeStep q.instanceId call (saltFingerprint sha256 salt q.instanceId) fault s.azure init with
    | none => none
    | some (azure, .inl init) =>
      some ({ s with azure := azure
                     maker := if s.azure.memo.next < azure.memo.next then
                       Function.update s.maker s.azure.memo.next q.instanceId else s.maker }, .initializing init)
    | some (azure, .inr true) =>
      some ({ s with azure := azure, completed := s.completed ++ [q.instanceId] }, afterInitialize stringify q.operation)
    | some (azure, .inr false) => some ({ s with azure := azure }, .returned .unavailable)
  | .reading =>
    match readDevice s.azure (rowKey hmac salt q) fault with
    | none => some (s.access hmac salt q, .returned .unavailable)
    | some row => some (s.access hmac salt q, .returned (.row row))
  | .writing etag value =>
    match s.azure.table.write (fun _ => true) call ⟨rowKey hmac salt q, etag, .device value⟩ fault with
    | none => none
    | some (table, .ok ()) =>
      some (Shared.access hmac salt { s with azure := { s.azure with table := table } } q, .returned (.put true))
    | some (table, .error error) =>
      some (Shared.access hmac salt { s with azure := { s.azure with table := table } } q, .readingBack value error)
  | .readingBack value error =>
    match readDevice s.azure (rowKey hmac salt q) fault with
    | none => some (s.access hmac salt q, .returned .unavailable)
    | some current =>
      some (s.access hmac salt q,
        if value.commitID ≠ [] ∧ current.any (·.2.commitID = value.commitID) then .returned (.put true)
        else if error.statusCode = some 409 ∨ error.statusCode = some 412 then .returned (.put false)
        else .returned .unavailable)
  | .returned _ => none

def act (i : Nat) : Action → Shared → Call → Option (Shared × Call)
  | .start q, s, .idle => some (s, .running q (.initializing .entering))
  | .resume fault, s, .running q phase =>
    (step sha256 hmac stringify salt i q fault s phase).map fun x => (x.1, .running q x.2)
  | _, _, _ => none

def backends : Calls Shared Call Action RemoteTable.Event where
  start := ⟨.empty, fun _ => 0, [], []⟩
  idle := .idle
  act := act sha256 hmac stringify salt
  env event s := (s.azure.table.settle event).map fun table => { s with azure := { s.azure with table := table } }

/-! ## What holds in every state -/

def Stored (s : Shared) (fingerprint : Str) : Prop :=
  ∃ etag, s.azure.table.rows configKey = some (etag, .config fingerprint)

structure Inv (s : Shared) : Prop where
  createOnly : ∀ w ∈ s.azure.table.inflight, w.2.key = configKey → w.2.etag = none
  ready : ∀ c promise, s.azure.memo.ready c = some promise → promise < s.azure.memo.next ∧ s.maker promise = c
  fulfilled : ∀ promise, s.azure.memo.settled promise = some true →
    Stored s (saltFingerprint sha256 salt (s.maker promise))
  settled : ∀ promise, s.azure.memo.settled promise ≠ none → promise < s.azure.memo.next
  completed : ∀ c ∈ s.completed, Stored s (saltFingerprint sha256 salt c)
  accesses : ∀ a ∈ s.accesses, a.1 ∈ s.completed

/-- Nothing is taken back: promises keep their makers, and the config row stays. -/
structure Grows (s t : Shared) : Prop where
  next : s.azure.memo.next ≤ t.azure.memo.next
  maker : ∀ promise < s.azure.memo.next, t.maker promise = s.maker promise
  completed : ∀ c ∈ s.completed, c ∈ t.completed
  config : ∀ row, s.azure.table.rows configKey = some row → t.azure.table.rows configKey = some row

def Made (s : Shared) (c : Nat) : Init → Prop
  | .entering => True
  | .creatingTable promise | .creatingConfig promise | .readingConfig promise | .awaiting promise =>
    promise < s.azure.memo.next ∧ s.maker promise = c

def CallInv (s : Shared) : Call → Prop
  | .running q (.initializing init) => Made s q.instanceId init
  | .running q .reading | .running q (.writing _ _) | .running q (.readingBack _ _) => q.instanceId ∈ s.completed
  | _ => True

variable {sha256 hmac stringify salt}

theorem Grows.refl (s : Shared) : Grows s s := ⟨le_rfl, fun _ _ => rfl, fun _ hc => hc, fun _ hRow => hRow⟩

theorem Grows.trans {s t u : Shared} (h : Grows s t) (h' : Grows t u) : Grows s u where
  next := h.next.trans h'.next
  maker promise hNext := (h'.maker promise (hNext.trans_le h.next)).trans (h.maker promise hNext)
  completed c hc := h'.completed c (h.completed c hc)
  config row hRow := h'.config row (h.config row hRow)

theorem Grows.stored {s t : Shared} (h : Grows s t) {fingerprint : Str} (hStored : Stored s fingerprint) :
    Stored t fingerprint := by
  obtain ⟨etag, hRow⟩ := hStored
  exact ⟨etag, h.config _ hRow⟩

theorem Grows.made {s t : Shared} (h : Grows s t) {c : Nat} {init : Init} (hMade : Made s c init) : Made t c init := by
  have hPromise : ∀ promise, promise < s.azure.memo.next ∧ s.maker promise = c →
      promise < t.azure.memo.next ∧ t.maker promise = c := by
    rintro promise ⟨hNext, hMaker⟩
    exact ⟨hNext.trans_le h.next, (h.maker promise hNext).trans hMaker⟩
  cases init with
  | entering => trivial
  | creatingTable promise => exact hPromise promise hMade
  | creatingConfig promise => exact hPromise promise hMade
  | readingConfig promise => exact hPromise promise hMade
  | awaiting promise => exact hPromise promise hMade

theorem Grows.callInv {s t : Shared} (h : Grows s t) {call : Call} (hCall : CallInv s call) : CallInv t call := by
  cases call with
  | idle => trivial
  | running q phase =>
    cases phase with
    | initializing init => exact h.made hCall
    | reading => exact h.completed _ hCall
    | writing etag value => exact h.completed _ hCall
    | readingBack value error => exact h.completed _ hCall
    | returned result => trivial

theorem inv_start : Inv sha256 salt (backends sha256 hmac stringify salt).start :=
  ⟨nofun, nofun, nofun, fun _ hSettled => absurd rfl hSettled, nofun, nofun⟩

/-! ## What the pieces of a step keep -/

section
variable {s : Shared} (h : Inv sha256 salt s)
include h

theorem Inv.table {table : RemoteTable Str Entity}
    (hKept : ∀ row, s.azure.table.rows configKey = some row → table.rows configKey = some row)
    (hCreate : ∀ w ∈ table.inflight, w.2.key = configKey → w.2.etag = none) :
    Inv sha256 salt { s with azure := { s.azure with table := table } } ∧
      Grows s { s with azure := { s.azure with table := table } } := by
  have hGrows : Grows s { s with azure := { s.azure with table := table } } :=
    ⟨le_rfl, fun _ _ => rfl, fun _ hc => hc, hKept⟩
  exact ⟨⟨hCreate, h.ready, fun promise hSettled => hGrows.stored (h.fulfilled promise hSettled), h.settled,
    fun c hc => hGrows.stored (h.completed c hc), h.accesses⟩, hGrows⟩

/-- The writes of the guard create the config row, those of `put` go to another row. -/
theorem Inv.commit {owner : Nat} {w : Write Str Entity} (hCreate : w.key = configKey → w.etag = none) :
    Inv sha256 salt { s with azure := { s.azure with table := s.azure.table.commit owner w } } ∧
      Grows s { s with azure := { s.azure with table := s.azure.table.commit owner w } } := by
  apply h.table
  · exact fun row hRow => RemoteTable.commit_create_keeps hRow owner hCreate
  · rw [RemoteTable.commit_inflight]
    exact h.createOnly

theorem Inv.written {table : RemoteTable Str Entity} {ambiguous : RemoteError → Bool} {owner : Nat}
    {w : Write Str Entity} {fault : Fault} {response : Except RemoteError Unit}
    (hCreate : w.key = configKey → w.etag = none)
    (hWrite : s.azure.table.write ambiguous owner w fault = some (table, response)) :
    Inv sha256 salt { s with azure := { s.azure with table := table } } ∧
      Grows s { s with azure := { s.azure with table := table } } := by
  rcases RemoteTable.write_cases hWrite with ⟨-, hAccepts, rfl⟩ | ⟨error, -, rfl | ⟨-, rfl | rfl⟩⟩
  · have hCommit : s.azure.table.performed owner w = s.azure.table.commit owner w := by
      rw [RemoteTable.commit, if_pos hAccepts]
    rw [hCommit]
    exact h.commit hCreate
  · exact ⟨h, .refl s⟩
  · exact h.commit hCreate
  · apply h.table
    · exact fun row hRow => hRow
    · intro v hv
      rcases List.mem_append.mp hv with hOld | hNew
      · exact h.createOnly v hOld
      · rw [List.mem_singleton.mp hNew]
        exact hCreate

theorem Inv.arm {c : Nat} :
    Inv sha256 salt { s with azure := { s.azure with memo := s.azure.memo.arm c }
                             maker := Function.update s.maker s.azure.memo.next c } ∧
      Grows s { s with azure := { s.azure with memo := s.azure.memo.arm c }
                       maker := Function.update s.maker s.azure.memo.next c } := by
  have hOld : ∀ promise < s.azure.memo.next, Function.update s.maker s.azure.memo.next c promise = s.maker promise :=
    fun promise hNext => Function.update_of_ne (by omega) ..
  refine ⟨⟨h.createOnly, ?_, ?_, ?_, h.completed, h.accesses⟩, Nat.le_succ _, hOld, fun _ hc => hc, fun _ hRow => hRow⟩
  · intro d promise hReady
    simp only [Memo.arm] at hReady ⊢
    rw [Function.update_apply] at hReady
    split at hReady
    · cases hReady
      rename_i hEq
      exact ⟨Nat.lt_succ_self _, (Function.update_self ..).trans hEq.symm⟩
    · obtain ⟨hNext, hMaker⟩ := h.ready d promise hReady
      exact ⟨Nat.lt_succ_of_lt hNext, (hOld promise hNext).trans hMaker⟩
  · intro promise hSettled
    have hStored := h.fulfilled promise hSettled
    have hNext := h.settled promise (by rw [show s.azure.memo.settled promise = some true from hSettled]; simp)
    rw [← hOld promise hNext] at hStored
    exact hStored
  · intro promise hSettled
    exact Nat.lt_succ_of_lt (h.settled promise hSettled)

theorem Inv.complete {c : Nat} (hStored : Stored s (saltFingerprint sha256 salt c)) :
    Inv sha256 salt { s with completed := s.completed ++ [c] } ∧ Grows s { s with completed := s.completed ++ [c] } := by
  refine ⟨⟨h.createOnly, h.ready, h.fulfilled, h.settled, fun d hd => ?_, fun a ha => ?_⟩,
    le_rfl, fun _ _ => rfl, fun _ hd => List.mem_append_left _ hd, fun _ hRow => hRow⟩
  · rcases List.mem_append.mp hd with hOld | hNew
    · exact h.completed d hOld
    · rw [List.mem_singleton.mp hNew]
      exact hStored
  · exact List.mem_append_left _ (h.accesses a ha)

theorem Inv.fulfil {promise : Nat} (hNext : promise < s.azure.memo.next)
    (hStored : Stored s (saltFingerprint sha256 salt (s.maker promise))) :
    Inv sha256 salt { s with azure := { s.azure with memo := s.azure.memo.fulfil promise } } ∧
      Grows s { s with azure := { s.azure with memo := s.azure.memo.fulfil promise } } := by
  refine ⟨⟨h.createOnly, h.ready, ?_, ?_, h.completed, h.accesses⟩, le_rfl, fun _ _ => rfl, fun _ hd => hd,
    fun _ hRow => hRow⟩
  · intro other hSettled
    simp only [Memo.fulfil] at hSettled
    rw [Function.update_apply] at hSettled
    split at hSettled
    · rename_i hEq
      rw [hEq]
      exact hStored
    · exact h.fulfilled other hSettled
  · intro other hSettled
    simp only [Memo.fulfil] at hSettled
    rw [Function.update_apply] at hSettled
    split at hSettled
    · rename_i hEq
      rw [hEq]
      exact hNext
    · exact h.settled other hSettled

theorem Inv.reject {c promise : Nat} (hNext : promise < s.azure.memo.next) :
    Inv sha256 salt { s with azure := { s.azure with memo := s.azure.memo.reject c promise } } ∧
      Grows s { s with azure := { s.azure with memo := s.azure.memo.reject c promise } } := by
  refine ⟨⟨h.createOnly, ?_, ?_, ?_, h.completed, h.accesses⟩, le_rfl, fun _ _ => rfl, fun _ hd => hd,
    fun _ hRow => hRow⟩
  · intro d other hReady
    simp only [Memo.reject] at hReady
    rw [Function.update_apply] at hReady
    split at hReady
    · cases hReady
    · exact h.ready d other hReady
  · intro other hSettled
    simp only [Memo.reject] at hSettled
    rw [Function.update_apply] at hSettled
    split at hSettled
    · cases hSettled
    · exact h.fulfilled other hSettled
  · intro other hSettled
    simp only [Memo.reject] at hSettled
    rw [Function.update_apply] at hSettled
    split at hSettled
    · rename_i hEq
      rw [hEq]
      exact hNext
    · exact h.settled other hSettled

theorem Inv.access (hmac : Bytes → Str → Digest) {q : Request} (hCompleted : q.instanceId ∈ s.completed) :
    Inv sha256 salt (s.access hmac salt q) ∧ Grows s (s.access hmac salt q) := by
  refine ⟨⟨h.createOnly, h.ready, h.fulfilled, h.settled, h.completed, fun a ha => ?_⟩, le_rfl, fun _ _ => rfl,
    fun _ hd => hd, fun _ hRow => hRow⟩
  rcases List.mem_append.mp ha with hOld | hNew
  · exact h.accesses a hOld
  · rw [List.mem_singleton.mp hNew]
    exact hCompleted

theorem Inv.createdTable (fault : Fault) :
    Inv sha256 salt { s with azure := { s.azure with table := (s.azure.table.createTable fault).1 } } ∧
      Grows s { s with azure := { s.azure with table := (s.azure.table.createTable fault).1 } } := by
  apply h.table
  · intro row hRow
    rcases s.azure.table.createTable_eq fault with hEq | hEq <;> rw [hEq] <;> exact hRow
  · rcases s.azure.table.createTable_eq fault with hEq | hEq <;> rw [hEq] <;> exact h.createOnly

end

/-! ## `initialize` -/

/-- What a step of `initialize` leaves: a promise of its own instance, or the right fingerprint in the table. -/
def Initialized (sha256 : Bytes → Digest) (salt : Nat → Bytes) (s : Shared) (c : Nat) (azure : AzureDevices.Shared) :
    Init ⊕ Bool → Prop
  | .inl init =>
    let t : Shared := { s with azure := azure
                               maker := if s.azure.memo.next < azure.memo.next then
                                 Function.update s.maker s.azure.memo.next c else s.maker }
    Inv sha256 salt t ∧ Grows s t ∧ Made t c init
  | .inr done =>
    let t : Shared := { s with azure := azure }
    Inv sha256 salt t ∧ Grows s t ∧ (done = true → Stored t (saltFingerprint sha256 salt c))

theorem Initialized.same {s : Shared} {c : Nat} {azure : AzureDevices.Shared} {init : Init}
    (h : Inv sha256 salt { s with azure := azure } ∧ Grows s { s with azure := azure })
    (hNext : azure.memo.next = s.azure.memo.next) (hMade : Made s c init) :
    Initialized sha256 salt s c azure (.inl init) := by
  simp only [Initialized, hNext, lt_irrefl, if_false]
  exact ⟨h.1, h.2, h.2.made hMade⟩

theorem initializeStep_guards {s : Shared} {c call : Nat} {fault : Fault} {init : Init} {azure : AzureDevices.Shared}
    {next : Init ⊕ Bool} (h : Inv sha256 salt s) (hMade : Made s c init)
    (hStep : initializeStep c call (saltFingerprint sha256 salt c) fault s.azure init = some (azure, next)) :
    Initialized sha256 salt s c azure next := by
  cases AzureDevices.initializeStep_initializes hStep with
  | joined promise hReady => exact .same ⟨h, .refl s⟩ rfl (h.ready c promise hReady)
  | armed =>
    simp only [Initialized, Memo.arm, Nat.lt_succ_self, if_true]
    exact ⟨h.arm.1, h.arm.2, Nat.lt_succ_self _, Function.update_self ..⟩
  | createdTable promise => exact .same (h.createdTable fault) rfl hMade
  | missedTable promise =>
    obtain ⟨hInv, hGrows⟩ := h.createdTable fault
    obtain ⟨hRejected, hLater⟩ := hInv.reject (c := c) hMade.1
    exact ⟨hRejected, hGrows.trans hLater, nofun⟩
  | createdConfig promise table hWrite =>
    obtain ⟨hInv, hGrows⟩ := h.written (fun _ => rfl) hWrite
    have hStored : Stored { s with azure := { s.azure with table := table } } (saltFingerprint sha256 salt c) := by
      rcases RemoteTable.write_cases hWrite with ⟨-, -, rfl⟩ | ⟨error, hError, -⟩
      · exact ⟨_, by rw [RemoteTable.performed_rows, if_pos rfl]⟩
      · cases hError
    obtain ⟨hNext, hMaker⟩ := hMade
    obtain ⟨hFulfilled, hLater⟩ := hInv.fulfil hNext (by rw [hMaker]; exact hStored)
    exact ⟨hFulfilled, hGrows.trans hLater, fun _ => hLater.stored hStored⟩
  | missedConfig promise table error hWrite => exact .same (h.written (fun _ => rfl) hWrite) rfl hMade
  | readConfig promise etag hRead =>
    have hStored : Stored s (saltFingerprint sha256 salt c) := ⟨etag, RemoteTable.read_eq_ok hRead⟩
    obtain ⟨hNext, hMaker⟩ := hMade
    obtain ⟨hFulfilled, hLater⟩ := h.fulfil hNext (by rw [hMaker]; exact hStored)
    exact ⟨hFulfilled, hLater, fun _ => hLater.stored hStored⟩
  | refused promise =>
    obtain ⟨hRejected, hLater⟩ := h.reject (c := c) hMade.1
    exact ⟨hRejected, hLater, nofun⟩
  | awaited promise fulfilled hSettled =>
    refine ⟨h, .refl s, ?_⟩
    rintro rfl
    have hStored := h.fulfilled promise hSettled
    rw [hMade.2] at hStored
    exact hStored

theorem rowKey_ne_configKey (q : Request) : rowKey hmac salt q ≠ configKey := by
  intro hEq
  have hLength := congrArg List.length hEq
  rw [rowKey, keyFor, hex_digest_length] at hLength
  exact absurd hLength (by decide)

theorem callInv_afterInitialize {s : Shared} {q : Request} (h : q.instanceId ∈ s.completed) (operation : Operation) :
    CallInv s (.running q (afterInitialize stringify operation)) := by
  unfold afterInitialize
  split
  · exact h
  · split
    · trivial
    · exact h

theorem step_inv {i : Nat} {q : Request} {fault : Fault} {s t : Shared} {phase phase' : Phase}
    (h : Inv sha256 salt s) (hCall : CallInv s (.running q phase))
    (hStep : step sha256 hmac stringify salt i q fault s phase = some (t, phase')) :
    Inv sha256 salt t ∧ CallInv t (.running q phase') ∧ Grows s t := by
  cases phase with
  | initializing init =>
    simp only [step] at hStep
    split at hStep
    · cases hStep
    · rename_i azure init' hInit
      cases hStep
      obtain ⟨hInv, hGrows, hMade⟩ := initializeStep_guards h hCall hInit
      exact ⟨hInv, hMade, hGrows⟩
    · rename_i azure hInit
      cases hStep
      obtain ⟨hInv, hGrows, hStored⟩ := initializeStep_guards h hCall hInit
      obtain ⟨hComplete, hLater⟩ := hInv.complete (hStored rfl)
      exact ⟨hComplete, callInv_afterInitialize (List.mem_append_right _ (List.mem_singleton.mpr rfl)) _,
        hGrows.trans hLater⟩
    · rename_i azure hInit
      cases hStep
      obtain ⟨hInv, hGrows, -⟩ := initializeStep_guards h hCall hInit
      exact ⟨hInv, trivial, hGrows⟩
  | reading =>
    obtain ⟨hInv, hGrows⟩ := h.access hmac hCall
    simp only [step] at hStep
    split at hStep
    · cases hStep
      exact ⟨hInv, trivial, hGrows⟩
    · cases hStep
      exact ⟨hInv, trivial, hGrows⟩
  | writing etag value =>
    have hOther : ∀ {w : Write Str Entity}, w.key = rowKey hmac salt q → w.key = configKey → w.etag = none :=
      fun hKey hConfig => absurd (hKey.symm.trans hConfig) (rowKey_ne_configKey q)
    simp only [step] at hStep
    split at hStep
    · cases hStep
    · rename_i table hWrite
      cases hStep
      obtain ⟨hInv, hGrows⟩ := h.written (hOther rfl) hWrite
      obtain ⟨hAccess, hLater⟩ := hInv.access hmac hCall
      exact ⟨hAccess, trivial, hGrows.trans hLater⟩
    · rename_i table error hWrite
      cases hStep
      obtain ⟨hInv, hGrows⟩ := h.written (hOther rfl) hWrite
      obtain ⟨hAccess, hLater⟩ := hInv.access hmac hCall
      exact ⟨hAccess, hCall, hGrows.trans hLater⟩
  | readingBack value error =>
    obtain ⟨hInv, hGrows⟩ := h.access hmac hCall
    simp only [step] at hStep
    split at hStep
    · cases hStep
      exact ⟨hInv, trivial, hGrows⟩
    · cases hStep
      refine ⟨hInv, ?_, hGrows⟩
      split
      · trivial
      · split
        · trivial
        · trivial
  | returned result => cases hStep

theorem settle_inv {event : RemoteTable.Event} {s : Shared} {table : RemoteTable Str Entity} (h : Inv sha256 salt s)
    (hSettle : s.azure.table.settle event = some table) :
    Inv sha256 salt { s with azure := { s.azure with table := table } } ∧
      Grows s { s with azure := { s.azure with table := table } } := by
  rcases RemoteTable.settle_cases hSettle with rfl | ⟨rest, owner, w, hRemoved, hTable⟩
  · exact h.table (fun _ hRow => hRow) h.createOnly
  · have hRest : ∀ v ∈ rest.inflight, v.2.key = configKey → v.2.etag = none :=
      fun v hv => h.createOnly v (hRemoved.subset hv)
    rcases hTable with rfl | rfl
    · exact h.table (fun row hRow => hRemoved.rows ▸ hRow) hRest
    · apply h.table
      · intro row hRow
        exact RemoteTable.commit_create_keeps (hRemoved.rows ▸ hRow) owner (h.createOnly _ hRemoved.mem)
      · rw [RemoteTable.commit_inflight]
        exact hRest

/-! ## Whole runs -/

theorem act_inv {i : Nat} {action : Action} {s t : Shared} {call call' : Call} (h : Inv sha256 salt s)
    (hCall : CallInv s call) (hAct : act sha256 hmac stringify salt i action s call = some (t, call')) :
    Inv sha256 salt t ∧ CallInv t call' ∧ Grows s t := by
  unfold act at hAct
  split at hAct
  · cases hAct
    exact ⟨h, trivial, .refl _⟩
  · obtain ⟨⟨t', phase⟩, hStep, hEq⟩ := Option.map_eq_some_iff.mp hAct
    cases hEq
    exact step_inv h hCall hStep
  · cases hAct

theorem backends_invariant {p : Pool Shared Call} (h : (backends sha256 hmac stringify salt).system.Reachable p) :
    Inv sha256 salt p.shared ∧ ∀ i, CallInv p.shared (p.calls i) := by
  refine Calls.invariant (Inv sha256 salt) (fun _ => CallInv) inv_start (fun _ => trivial) ?_ ?_ ?_ h
  · intro p i action shared l _ hInv hCall hAct
    obtain ⟨hInv', hCall', -⟩ := act_inv hInv hCall hAct
    exact ⟨hInv', hCall'⟩
  · intro p i j action shared l _ _ hInv hCall hOther hAct
    exact (act_inv hInv hCall hAct).2.2.callInv hOther
  · intro p event shared _ hInv hEnv
    obtain ⟨table, hSettle, rfl⟩ := Option.map_eq_some_iff.mp hEnv
    obtain ⟨hInv', hGrows⟩ := settle_inv hInv hSettle
    exact ⟨hInv', fun i hCall => hGrows.callInv hCall⟩

theorem next_grows {p q : Pool Shared Call} {label : Calls.Label Action RemoteTable.Event}
    (h : (backends sha256 hmac stringify salt).system.Reachable p)
    (hNext : (backends sha256 hmac stringify salt).system.next p label = some q) : Grows p.shared q.shared := by
  obtain ⟨hInv, hCalls⟩ := backends_invariant h
  cases label with
  | act i action =>
    obtain ⟨shared, l, hAct, rfl⟩ := Calls.system_next_act hNext
    exact (act_inv hInv (hCalls i) hAct).2.2
  | env event =>
    obtain ⟨shared, hEnv, rfl⟩ := Calls.system_next_env hNext
    obtain ⟨table, hSettle, rfl⟩ := Option.map_eq_some_iff.mp hEnv
    exact (settle_inv hInv hSettle).2

theorem run_grows {p q : Pool Shared Call} (labels : List (Calls.Label Action RemoteTable.Event))
    (h : (backends sha256 hmac stringify salt).system.Reachable p)
    (hRun : (backends sha256 hmac stringify salt).system.run p labels = some q) :
    (backends sha256 hmac stringify salt).system.Reachable q ∧ Grows p.shared q.shared := by
  induction labels generalizing p with
  | nil =>
    cases hRun
    exact ⟨h, .refl _⟩
  | cons label labels ih =>
    obtain ⟨r, hNext, hRest⟩ := Option.bind_eq_some_iff.mp hRun
    obtain ⟨hReached, hGrows⟩ := ih (.step h trivial hNext) hRest
    exact ⟨hReached, (next_grows h hNext).trans hGrows⟩

theorem Inv.same_fingerprint {s : Shared} (h : Inv sha256 salt s) {c d : Nat} (hc : c ∈ s.completed)
    (hd : d ∈ s.completed) : saltFingerprint sha256 salt c = saltFingerprint sha256 salt d := by
  obtain ⟨_, hRow⟩ := h.completed c hc
  obtain ⟨_, hRow'⟩ := h.completed d hd
  have hSame := Option.some.inj (hRow.symm.trans hRow')
  exact Entity.config.inj (Prod.mk.inj hSame).2

/-- Whoever gets through `initialize` has the fingerprint that the table stores, for ever; so all device rows are
read and written under one salt. -/
theorem one_salt_per_table {p : Pool Shared Call} (h : (backends sha256 hmac stringify salt).system.Reachable p) :
    (∀ c ∈ p.shared.completed, Stored p.shared (saltFingerprint sha256 salt c)) ∧
    (∀ c ∈ p.shared.completed, ∀ d ∈ p.shared.completed, saltFingerprint sha256 salt c = saltFingerprint sha256 salt d) ∧
    (∀ a ∈ p.shared.accesses, ∀ b ∈ p.shared.accesses, saltFingerprint sha256 salt a.1 = saltFingerprint sha256 salt b.1 ∧
      ((∀ c d, saltFingerprint sha256 salt c = saltFingerprint sha256 salt d → salt c = salt d) → salt a.1 = salt b.1)) ∧
    ∀ labels q, (backends sha256 hmac stringify salt).system.run p labels = some q →
      ∀ etag fingerprint, p.shared.azure.table.rows configKey = some (etag, .config fingerprint) →
        ∀ c ∈ q.shared.completed, saltFingerprint sha256 salt c = fingerprint := by
  have hInv := (backends_invariant h).1
  refine ⟨hInv.completed, fun c hc d hd => hInv.same_fingerprint hc hd, fun a ha b hb => ?_,
    fun labels q hRun etag fingerprint hRow c hc => ?_⟩
  · have hSame := hInv.same_fingerprint (hInv.accesses a ha) (hInv.accesses b hb)
    exact ⟨hSame, fun hInjective => hInjective _ _ hSame⟩
  · obtain ⟨hReached, hGrows⟩ := run_grows labels h hRun
    obtain ⟨_, hStored⟩ := (backends_invariant hReached).1.completed c hc
    rw [hGrows.config _ hRow] at hStored
    cases hStored
    rfl

end

def testSalt (instanceId : Nat) : Bytes := List.replicate 32 (if instanceId = 0 then 1 else 2)

def testSha (bytes : Bytes) : Digest := first32 bytes

def testHmac (_ : Bytes) (_ : Str) : Digest := zeroDigest

def timeout : RemoteError := ⟨none, false⟩

/-- The config row of instance 0 is created late and unseen, before that of instance 1; a second attempt of instance 0
reads its own fingerprint, instance 1 does not. -/
def rival : List (Calls.Label Action RemoteTable.Event) :=
  [.act 0 (.start ⟨0, str "device", .get⟩), .act 1 (.start ⟨1, str "device", .get⟩), .act 0 (.resume .none),
   .act 1 (.resume .none), .act 0 (.resume .none), .act 1 (.resume .none), .act 0 (.resume (.late timeout)),
   .act 0 (.resume .none), .env (.settle 0 true), .act 1 (.resume .none), .act 1 (.resume .none),
   .act 2 (.start ⟨0, str "device", .get⟩), .act 2 (.resume .none), .act 2 (.resume .none), .act 2 (.resume .none),
   .act 2 (.resume .none), .act 2 (.resume .none)]

theorem one_salt_per_table_rival :
    ((backends testSha testHmac (fun _ => []) testSalt).system.after rival).shared.completed = [0] ∧
    ((backends testSha testHmac (fun _ => []) testSalt).system.after rival).shared.accesses.length = 1 ∧
    ∀ labels q, (backends testSha testHmac (fun _ => []) testSalt).system.run
        ((backends testSha testHmac (fun _ => []) testSalt).system.after rival) labels = some q →
      ∀ etag fingerprint, ((backends testSha testHmac (fun _ => []) testSalt).system.after rival).shared.azure.table.rows
        configKey = some (etag, .config fingerprint) → ∀ c ∈ q.shared.completed,
          saltFingerprint testSha testSalt c = fingerprint :=
  ⟨by decide +kernel, by decide +kernel, (one_salt_per_table (System.reachable_after _ rival)).2.2.2⟩

end Columbia.Issuer.SaltGuard
