import Columbia.Issuer.Ledger
import Columbia.Lib.RemoteTable
import Columbia.Lib.Transition

/-! # `reserve` over the Azure device table

Every table operation of `initialize`, `get` and `put` is one step, and each may fail without effect, take
effect unseen, or take effect after its caller gave up. Deadlines and timeouts are such failures. A write
that can take effect never reports 409 or 412, because the client does not retry on its own.
Commit identifiers are unique: a used one cannot be drawn again.
-/
namespace Columbia.Issuer.AzureDevices
open Columbia.Js Columbia.Lib StateStore Ledger
set_option autoImplicit false

/-- The two kinds of row of the partition `issuer-state-v1`. -/
inductive Entity
  | config (saltFingerprint : Str)
  | device (state : DeviceRecord)

def Entity.saltFingerprint : Entity → Option Str
  | .config saltFingerprint => some saltFingerprint
  | .device _ => none

def configKey : Str := str "config"

structure Shared where
  table : RemoteTable Str Entity
  memo : Memo
  commitIDs : List (Nat × Str)

def Shared.empty : Shared := ⟨.empty, .empty, []⟩

inductive Init
  | entering
  | creatingTable (promise : Nat)
  | creatingConfig (promise : Nat)
  | readingConfig (promise : Nat)
  | awaiting (promise : Nat)
  deriving DecidableEq

/-- One step of `initialize`; at the end `true` is a return and `false` a thrown `StateUnavailable`. -/
def initializeStep (client call : Nat) (saltFingerprint : Str) (fault : Fault) (s : Shared) :
    Init → Option (Shared × (Init ⊕ Bool))
  | .entering =>
    match s.memo.ready client with
    | some promise => some (s, .inl (.awaiting promise))
    | none => some ({ s with memo := s.memo.arm client }, .inl (.creatingTable s.memo.next))
  | .creatingTable promise =>
    match s.table.createTable fault with
    | (table, .ok ()) => some ({ s with table := table }, .inl (.creatingConfig promise))
    | (table, .error error) =>
      if error.statusCode = some 409 then some ({ s with table := table }, .inl (.creatingConfig promise))
      else some ({ s with table := table, memo := s.memo.reject client promise }, .inr false)
  | .creatingConfig promise =>
    match s.table.write (fun _ => true) call ⟨configKey, none, .config saltFingerprint⟩ fault with
    | none => none
    | some (table, .ok ()) => some ({ s with table := table, memo := s.memo.fulfil promise }, .inr true)
    | some (table, .error _) => some ({ s with table := table }, .inl (.readingConfig promise))
  | .readingConfig promise =>
    match s.table.read configKey fault with
    | .ok (_, config) =>
      if config.saltFingerprint = some saltFingerprint then
        some ({ s with memo := s.memo.fulfil promise }, .inr true)
      else some ({ s with memo := s.memo.reject client promise }, .inr false)
    | .error _ => some ({ s with memo := s.memo.reject client promise }, .inr false)
  | .awaiting promise =>
    match s.memo.settled promise with
    | none => none
    | some fulfilled => some (s, .inr fulfilled)

/-- `read`; `none` is the thrown `StateUnavailable`. -/
def readDevice (s : Shared) (key : Str) (fault : Fault) : Option (Option (Nat × DeviceRecord)) :=
  match s.table.read key fault with
  | .ok (etag, .device state) => some (some (etag, state))
  | .ok (_, .config _) => none
  | .error error => if error.statusCode = some 404 ∧ error.tableNotFound = false then some none else none

def ambiguous (error : RemoteError) : Bool := error.statusCode ≠ some 409 ∧ error.statusCode ≠ some 412

inductive Operation
  | get (attempt : Nat)
  | put (attempt : Nat) (etag : Option Nat) (value : DeviceRecord)

inductive Phase
  | initializing (init : Init) (next : Operation)
  | reading (attempt : Nat)
  | writing (attempt : Nat) (etag : Option Nat) (value : DeviceRecord)
  | readingBack (attempt : Nat) (value : DeviceRecord) (error : RemoteError)
  | returned (outcome : Outcome)

/-- The loop of `reserve` calls the backend, whose operations begin with `initialize`. -/
def enter : StateStore.Phase Nat → Phase
  | .getting attempt => .initializing .entering (.get attempt)
  | .putting attempt etag value => .initializing .entering (.put attempt etag value)
  | .returned outcome => .returned outcome

def afterWrite (attempt : Nat) (value : DeviceRecord) : Except RemoteError Unit → Phase
  | .ok () => .returned .ok
  | .error error => .readingBack attempt value error

structure Request where
  client : Nat
  reservation : Reservation
  commitID : Str

section
variable (sha256 : Bytes → Digest) (hmac : Bytes → Str → Digest) (stringify : DeviceRecord → Str)
  (replica : Nat → IssuerState)

def saltFingerprint (client : Nat) : Str := hex (sha256 (replica client).salt).val

def rowKey (q : Request) : Str := keyFor hmac (replica q.client).salt q.reservation.keyId

def afterInitialize : Operation → Phase
  | .get attempt => .reading attempt
  | .put attempt etag value =>
    if 60000 < 2 * (stringify value).length then .returned .unavailable else .writing attempt etag value

def reserveStep (call : Nat) (q : Request) (fault : Fault) (s : Shared) : Phase → Option (Shared × Phase)
  | .initializing init next =>
    match initializeStep q.client call (saltFingerprint sha256 replica q.client) fault s init with
    | none => none
    | some (t, .inl init) => some (t, .initializing init next)
    | some (t, .inr true) => some (t, afterInitialize stringify next)
    | some (t, .inr false) => some (t, .returned .unavailable)
  | .reading attempt =>
    match readDevice s (rowKey hmac replica q) fault with
    | none => some (s, .returned .unavailable)
    | some prior =>
      some (s, enter (afterGet (replica q.client).quota q.reservation q.commitID attempt prior))
  | .writing attempt etag value =>
    match s.table.write ambiguous call ⟨rowKey hmac replica q, etag, .device value⟩ fault with
    | none => none
    | some (table, response) => some ({ s with table := table }, afterWrite attempt value response)
  | .readingBack attempt value error =>
    match readDevice s (rowKey hmac replica q) fault with
    | none => some (s, .returned .unavailable)
    | some current =>
      if value.commitID ≠ [] ∧ current.any (·.2.commitID = value.commitID) then some (s, .returned .ok)
      else if ambiguous error then some (s, .returned .unavailable)
      else some (s, enter (nextAttempt attempt))
  | .returned _ => none

inductive Call
  | idle
  | refused
  | running (q : Request) (phase : Phase)

inductive Action
  | start (client : Nat) (args : ReserveArgs) (commitID : Str)
  | resume (fault : Fault)

def act (i : Nat) : Action → Shared → Call → Option (Shared × Call)
  | .start client args commitID, s, .idle =>
    match validated args with
    | none => some (s, .refused)
    | some r =>
      if commitID ∈ s.commitIDs.map (·.2) then none
      else some ({ s with commitIDs := s.commitIDs ++ [(i, commitID)] },
        .running ⟨client, r, commitID⟩ (enter (.getting 0)))
  | .resume fault, s, .running q phase =>
    (reserveStep sha256 hmac stringify replica i q fault s phase).map fun x => (x.1, .running q x.2)
  | _, _, _ => none

def issuers : Calls Shared Call Action RemoteTable.Event where
  start := .empty
  idle := .idle
  act := act sha256 hmac stringify replica
  env event s := (s.table.settle event).map fun table => { s with table := table }

end

/-! ## What one table step does to the rows, the pending writes and the history -/

def charges (table : RemoteTable Str Entity) (i : Nat) : List (Effect Str Entity) :=
  table.effects.filter fun e => e.owner = i ∧ e.write.key ≠ configKey

def pending (table : RemoteTable Str Entity) (i : Nat) : List (Nat × Write Str Entity) :=
  table.inflight.filter fun w => w.1 = i ∧ w.2.key ≠ configKey

/-- A device write carries an identifier its call drew; everything else is a fingerprint. -/
def Legit (commitIDs : List (Nat × Str)) (owner : Nat) (w : Write Str Entity) : Prop :=
  w.key = configKey ∨ ∃ v, w.value = .device v ∧ (owner, v.commitID) ∈ commitIDs

structure SharedInv (s : Shared) : Prop where
  etags : s.table.Etags
  unique : (s.commitIDs.map (·.2)).Nodup
  rows : ∀ key row, key ≠ configKey → s.table.rows key = some row →
    ∃ e ∈ s.table.effects, e.write.key = key ∧ e.write.value = row.2
  effects : ∀ e ∈ s.table.effects, Legit s.commitIDs e.owner e.write
  inflight : ∀ w ∈ s.table.inflight, Legit s.commitIDs w.1 w.2

structure Rely (j : Nat) (s t : Shared) : Prop where
  commitIDs : ∀ c ∈ s.commitIDs, c ∈ t.commitIDs
  seen : ∀ key prior, s.table.Seen key prior → t.table.Seen key prior
  charges : charges t.table j = charges s.table j
  pending : pending t.table j = pending s.table j

theorem charges_performed (table : RemoteTable Str Entity) (owner i : Nat) (w : Write Str Entity) :
    charges (table.performed owner w) i =
      if owner = i ∧ w.key ≠ configKey then charges table i ++ [⟨owner, w, table.rows w.key⟩] else charges table i := by
  rw [charges, RemoteTable.performed, List.filter_append]
  split
  · rename_i h
    simp [charges, h]
  · rename_i h
    simp [charges, h]

theorem pending_enqueued (table : RemoteTable Str Entity) (owner i : Nat) (w : Write Str Entity) :
    pending { table with inflight := table.inflight ++ [(owner, w)] } i =
      if owner = i ∧ w.key ≠ configKey then pending table i ++ [(owner, w)] else pending table i := by
  rw [pending, List.filter_append]
  split
  · rename_i h
    simp [pending, h]
  · rename_i h
    simp [pending, h]

theorem Rely.refl (j : Nat) (s : Shared) : Rely j s s := ⟨fun _ h => h, fun _ _ h => h, rfl, rfl⟩

theorem SharedInv.still {s t : Shared} (h : SharedInv s) (hIDs : t.commitIDs = s.commitIDs)
    (hRows : t.table.rows = s.table.rows) (hRevision : t.table.revision = s.table.revision)
    (hEffects : t.table.effects = s.table.effects) (hInflight : t.table.inflight = s.table.inflight) :
    SharedInv t ∧ ∀ j, Rely j s t := by
  refine ⟨⟨?_, hIDs ▸ h.unique, ?_, ?_, ?_⟩, fun j => ⟨?_, ?_, ?_, ?_⟩⟩
  · intro key row hRow
    rw [hRevision]
    exact h.etags key row (hRows ▸ hRow)
  · rw [hRows, hEffects]
    exact h.rows
  · rw [hEffects, hIDs]
    exact h.effects
  · rw [hInflight, hIDs]
    exact h.inflight
  · rw [hIDs]
    exact fun _ hc => hc
  · exact fun key prior hSeen => hSeen.congr hRows hRevision
  · rw [AzureDevices.charges, hEffects, AzureDevices.charges]
  · rw [AzureDevices.pending, hInflight, AzureDevices.pending]

theorem SharedInv.performed {s : Shared} (h : SharedInv s) {owner : Nat} {w : Write Str Entity}
    (hLegit : Legit s.commitIDs owner w) (hAccepts : s.table.accepts w = true) :
    SharedInv { s with table := s.table.performed owner w } ∧
      ∀ j, ¬(owner = j ∧ w.key ≠ configKey) → Rely j s { s with table := s.table.performed owner w } := by
  have hCommit : s.table.performed owner w = s.table.commit owner w := by
    rw [RemoteTable.commit, if_pos hAccepts]
  refine ⟨⟨?_, h.unique, ?_, ?_, h.inflight⟩, fun j hj => ⟨fun _ hc => hc, ?_, ?_, rfl⟩⟩
  · rw [hCommit]
    exact h.etags.commit owner w
  · intro key row hKey hRow
    rw [RemoteTable.performed_rows] at hRow
    split at hRow
    · cases hRow
      exact ⟨_, List.mem_append_right _ List.mem_cons_self, ‹key = w.key›.symm, rfl⟩
    · obtain ⟨e, he, hEq⟩ := h.rows key row hKey hRow
      exact ⟨e, List.mem_append_left _ he, hEq⟩
  · intro e he
    rcases List.mem_append.mp he with hOld | hNew
    · exact h.effects e hOld
    · cases List.mem_singleton.mp hNew
      exact hLegit
  · rw [hCommit]
    exact fun key prior hSeen => hSeen.commit owner w
  · rw [charges_performed, if_neg hj]

theorem SharedInv.enqueued {s : Shared} (h : SharedInv s) {owner : Nat} {w : Write Str Entity}
    (hLegit : Legit s.commitIDs owner w) :
    SharedInv { s with table := { s.table with inflight := s.table.inflight ++ [(owner, w)] } } ∧
      ∀ j, ¬(owner = j ∧ w.key ≠ configKey) →
        Rely j s { s with table := { s.table with inflight := s.table.inflight ++ [(owner, w)] } } := by
  refine ⟨⟨h.etags, h.unique, h.rows, h.effects, ?_⟩, fun j hj => ⟨fun _ hc => hc, fun _ _ hs => hs, rfl, ?_⟩⟩
  · intro v hv
    rcases List.mem_append.mp hv with hOld | hNew
    · exact h.inflight v hOld
    · cases List.mem_singleton.mp hNew
      exact hLegit
  · rw [pending_enqueued, if_neg hj]

theorem SharedInv.commit {s : Shared} (h : SharedInv s) {owner : Nat} {w : Write Str Entity}
    (hLegit : Legit s.commitIDs owner w) :
    SharedInv { s with table := s.table.commit owner w } ∧
      ∀ j, ¬(owner = j ∧ w.key ≠ configKey) → Rely j s { s with table := s.table.commit owner w } := by
  rcases s.table.commit_cases owner w with ⟨-, hSame⟩ | ⟨hAccepts, -, hNew⟩
  · rw [hSame]
    exact ⟨h, fun j _ => .refl j s⟩
  · rw [hNew]
    exact h.performed hLegit hAccepts

theorem SharedInv.charges_ne_nil {s : Shared} (h : SharedInv s) {i : Nat} {key : Str} {etag : Nat}
    {v : DeviceRecord} (hKey : key ≠ configKey) (hRow : s.table.rows key = some (etag, .device v))
    (hDrew : (i, v.commitID) ∈ s.commitIDs) : charges s.table i ≠ [] := by
  obtain ⟨e, he, heKey, heValue⟩ := h.rows key _ hKey hRow
  rcases h.effects e he with hConfig | ⟨v', hv', hOwner⟩
  · exact absurd (heKey ▸ hConfig) hKey
  · rw [heValue] at hv'
    cases hv'
    have hSame := congrArg Prod.fst (List.inj_on_of_nodup_map h.unique hOwner hDrew rfl)
    refine List.ne_nil_of_mem (a := e) (List.mem_filter.mpr ⟨he, ?_⟩)
    simp only [decide_eq_true_eq]
    exact ⟨hSame, heKey ▸ hKey⟩

/-- What a step of `initialize` does. -/
inductive Initializes (client call : Nat) (fingerprint : Str) (fault : Fault) (s : Shared) :
    Init → Shared → Init ⊕ Bool → Prop
  | joined (promise : Nat) (hReady : s.memo.ready client = some promise) :
    Initializes client call fingerprint fault s .entering s (.inl (.awaiting promise))
  | armed : Initializes client call fingerprint fault s .entering { s with memo := s.memo.arm client }
      (.inl (.creatingTable s.memo.next))
  | createdTable (promise : Nat) : Initializes client call fingerprint fault s (.creatingTable promise)
      { s with table := (s.table.createTable fault).1 } (.inl (.creatingConfig promise))
  | missedTable (promise : Nat) : Initializes client call fingerprint fault s (.creatingTable promise)
      { s with table := (s.table.createTable fault).1, memo := s.memo.reject client promise } (.inr false)
  | createdConfig (promise : Nat) (table : RemoteTable Str Entity)
      (hWrite : s.table.write (fun _ => true) call ⟨configKey, none, .config fingerprint⟩ fault = some (table, .ok ())) :
    Initializes client call fingerprint fault s (.creatingConfig promise)
      { s with table := table, memo := s.memo.fulfil promise } (.inr true)
  | missedConfig (promise : Nat) (table : RemoteTable Str Entity) (error : RemoteError)
      (hWrite : s.table.write (fun _ => true) call ⟨configKey, none, .config fingerprint⟩ fault =
        some (table, .error error)) :
    Initializes client call fingerprint fault s (.creatingConfig promise) { s with table := table }
      (.inl (.readingConfig promise))
  | readConfig (promise etag : Nat) (hRead : s.table.read configKey fault = .ok (etag, .config fingerprint)) :
    Initializes client call fingerprint fault s (.readingConfig promise) { s with memo := s.memo.fulfil promise }
      (.inr true)
  | refused (promise : Nat) : Initializes client call fingerprint fault s (.readingConfig promise)
      { s with memo := s.memo.reject client promise } (.inr false)
  | awaited (promise : Nat) (fulfilled : Bool) (hSettled : s.memo.settled promise = some fulfilled) :
    Initializes client call fingerprint fault s (.awaiting promise) s (.inr fulfilled)

theorem initializeStep_initializes {client call : Nat} {fingerprint : Str} {fault : Fault} {s t : Shared} {init : Init}
    {next : Init ⊕ Bool} (hStep : initializeStep client call fingerprint fault s init = some (t, next)) :
    Initializes client call fingerprint fault s init t next := by
  cases init with
  | entering =>
    simp only [initializeStep] at hStep
    split at hStep <;> cases hStep
    · exact .joined _ ‹_›
    · exact .armed
  | creatingTable promise =>
    simp only [initializeStep] at hStep
    split at hStep
    · rename_i table hTable
      obtain rfl : (s.table.createTable fault).1 = table := by rw [hTable]
      cases hStep
      exact .createdTable promise
    · rename_i table error hTable
      obtain rfl : (s.table.createTable fault).1 = table := by rw [hTable]
      split at hStep <;> cases hStep
      · exact .createdTable promise
      · exact .missedTable promise
  | creatingConfig promise =>
    simp only [initializeStep] at hStep
    split at hStep
    · cases hStep
    · rename_i table hWrite
      cases hStep
      exact .createdConfig promise table hWrite
    · rename_i table error hWrite
      cases hStep
      exact .missedConfig promise table error hWrite
  | readingConfig promise =>
    simp only [initializeStep] at hStep
    split at hStep
    · rename_i etag config hRead
      split at hStep <;> cases hStep
      · rename_i hFingerprint
        cases config with
        | config own =>
          cases hFingerprint
          exact .readConfig promise etag hRead
        | device state => cases hFingerprint
      · exact .refused promise
    · cases hStep
      exact .refused promise
  | awaiting promise =>
    simp only [initializeStep] at hStep
    split at hStep <;> cases hStep
    exact .awaited promise _ ‹_›

theorem initializeStep_inv {client call : Nat} {fingerprint : Str} {fault : Fault} {s t : Shared} {init : Init}
    {next : Init ⊕ Bool} (h : SharedInv s)
    (hStep : initializeStep client call fingerprint fault s init = some (t, next)) :
    SharedInv t ∧ ∀ j, Rely j s t := by
  have hLegit : Legit s.commitIDs call ⟨configKey, none, .config fingerprint⟩ := .inl rfl
  have hNotCharge : ∀ j, ¬(call = j ∧ configKey ≠ configKey) := fun j hj => hj.2 rfl
  have hCreate : ∀ memo : Memo, SharedInv { s with table := (s.table.createTable fault).1, memo := memo } ∧
      ∀ j, Rely j s { s with table := (s.table.createTable fault).1, memo := memo } := by
    intro memo
    rcases s.table.createTable_eq fault with hEq | hEq <;> rw [hEq] <;> exact h.still rfl rfl rfl rfl rfl
  have hMemo : ∀ {u : Shared} (memo : Memo), SharedInv u ∧ (∀ j, Rely j s u) →
      SharedInv { u with memo := memo } ∧ ∀ j, Rely j s { u with memo := memo } := fun memo hu =>
    ⟨⟨hu.1.etags, hu.1.unique, hu.1.rows, hu.1.effects, hu.1.inflight⟩,
      fun j => ⟨(hu.2 j).commitIDs, (hu.2 j).seen, (hu.2 j).charges, (hu.2 j).pending⟩⟩
  cases initializeStep_initializes hStep with
  | joined promise hReady => exact ⟨h, fun j => .refl j s⟩
  | armed => exact h.still rfl rfl rfl rfl rfl
  | createdTable promise => exact hCreate s.memo
  | missedTable promise => exact hCreate _
  | createdConfig promise table hWrite =>
    rcases RemoteTable.write_cases hWrite with ⟨-, hAccepts, rfl⟩ | ⟨error, hError, -⟩
    · obtain ⟨hInv, hRely⟩ := h.performed hLegit hAccepts
      exact hMemo _ ⟨hInv, fun j => hRely j (hNotCharge j)⟩
    · cases hError
  | missedConfig promise table error hWrite =>
    rcases RemoteTable.write_cases hWrite with ⟨hOk, -⟩ | ⟨-, -, rfl | ⟨-, rfl | rfl⟩⟩
    · cases hOk
    · exact ⟨h, fun j => .refl j s⟩
    · obtain ⟨hInv, hRely⟩ := h.commit hLegit
      exact ⟨hInv, fun j => hRely j (hNotCharge j)⟩
    · obtain ⟨hInv, hRely⟩ := h.enqueued hLegit
      exact ⟨hInv, fun j => hRely j (hNotCharge j)⟩
  | readConfig promise etag hRead => exact h.still rfl rfl rfl rfl rfl
  | refused promise => exact h.still rfl rfl rfl rfl rfl
  | awaited promise fulfilled hSettled => exact ⟨h, fun j => .refl j s⟩

/-! ## A call and its charge -/

def asRow (prior : Option (Nat × DeviceRecord)) : Option (Nat × Entity) := prior.map fun p => (p.1, .device p.2)

theorem readDevice_eq_some {s : Shared} {key : Str} {fault : Fault} {prior : Option (Nat × DeviceRecord)}
    (h : readDevice s key fault = some prior) : s.table.rows key = asRow prior ∨ prior = none := by
  unfold readDevice at h
  split at h
  · cases h
    exact .inl (RemoteTable.read_eq_ok ‹_›)
  · cases h
  · split at h <;> cases h
    exact .inr rfl

section
variable (hmac : Bytes → Str → Digest) (replica : Nat → IssuerState)

def Decided (table : RemoteTable Str Entity) (q : Request) (w : Write Str Entity) : Prop :=
  ∃ prior etag value, w = ⟨rowKey hmac replica q, etag, .device value⟩ ∧
    table.Seen (rowKey hmac replica q) (asRow prior) ∧
    decideReservation (replica q.client).quota q.reservation q.commitID prior = .put etag value

/-- The effect is the charge of `q`, decided on exactly the row that it replaced. -/
def IsCharge (q : Request) (e : Effect Str Entity) : Prop :=
  ∃ prior etag value, e.write = ⟨rowKey hmac replica q, etag, .device value⟩ ∧ e.before = asRow prior ∧
    decideReservation (replica q.client).quota q.reservation q.commitID prior = .put etag value

def Quiet (table : RemoteTable Str Entity) (i : Nat) : Prop := charges table i = [] ∧ pending table i = []

def Applied (table : RemoteTable Str Entity) (i : Nat) : Prop :=
  (charges table i).length = 1 ∧ pending table i = []

def Undecided (table : RemoteTable Str Entity) (i : Nat) : Prop :=
  (charges table i).length + (pending table i).length ≤ 1

def Standing (table : RemoteTable Str Entity) (i : Nat) : Phase → Prop
  | .initializing _ _ | .reading _ | .writing _ _ _ => Quiet table i
  | .readingBack _ _ error => if ambiguous error then Undecided table i else Quiet table i
  | .returned .ok => Applied table i
  | .returned (.rejected _) => Quiet table i
  | .returned .unavailable => Undecided table i

def Intent (table : RemoteTable Str Entity) (q : Request) : Phase → Prop
  | .initializing _ (.put _ etag value) | .writing _ etag value =>
    Decided hmac replica table q ⟨rowKey hmac replica q, etag, .device value⟩
  | .readingBack _ value _ => value.commitID = q.commitID
  | _ => True

structure CallInv (i : Nat) (s : Shared) (q : Request) (phase : Phase) : Prop where
  drew : (i, q.commitID) ∈ s.commitIDs
  standing : Standing s.table i phase
  intent : Intent hmac replica s.table q phase
  charged : ∀ e ∈ charges s.table i, IsCharge hmac replica q e
  promised : ∀ w ∈ pending s.table i, Decided hmac replica s.table q w.2

variable {hmac replica}

theorem rowKey_ne_configKey (q : Request) : rowKey hmac replica q ≠ configKey := by
  intro h
  have hLength := congrArg List.length h
  rw [rowKey, keyFor, hex_digest_length] at hLength
  exact absurd hLength (by decide)

theorem Quiet.undecided {table : RemoteTable Str Entity} {i : Nat} (h : Quiet table i) : Undecided table i := by
  rw [Undecided, h.1, h.2]
  exact Nat.zero_le 1

theorem standing_undecided {table : RemoteTable Str Entity} {i : Nat} {attempt : Nat} {value : DeviceRecord}
    {error : RemoteError} (h : Standing table i (.readingBack attempt value error)) : Undecided table i := by
  simp only [Standing] at h
  split at h
  · exact h
  · exact Quiet.undecided h

theorem Decided.seen {table table' : RemoteTable Str Entity} {q : Request} {w : Write Str Entity}
    (h : Decided hmac replica table q w)
    (hSeen : ∀ key prior, table.Seen key prior → table'.Seen key prior) : Decided hmac replica table' q w := by
  obtain ⟨prior, etag, value, hw, hPrior, hDecide⟩ := h
  exact ⟨prior, etag, value, hw, hSeen _ _ hPrior, hDecide⟩

theorem Decided.commitID {table : RemoteTable Str Entity} {q : Request} {key : Str} {etag : Option Nat}
    {value : DeviceRecord} (h : Decided hmac replica table q ⟨key, etag, .device value⟩) :
    value.commitID = q.commitID := by
  obtain ⟨prior, etag', value', hw, -, hDecide⟩ := h
  cases hw
  rw [(decideReservation_eq_put hDecide).2.1]
  rfl

/-- The etag check turns a decision on an old row into a charge of the current one. -/
theorem Decided.isCharge {table : RemoteTable Str Entity} {q : Request} {w : Write Str Entity}
    (h : Decided hmac replica table q w) (hAccepts : table.accepts w = true) (owner : Nat) :
    IsCharge hmac replica q ⟨owner, w, table.rows w.key⟩ := by
  obtain ⟨prior, etag, value, rfl, hSeen, hDecide⟩ := h
  refine ⟨prior, etag, value, rfl, hSeen.eq_of_etag ?_, hDecide⟩
  simp only [RemoteTable.accepts, decide_eq_true_eq] at hAccepts
  rw [hAccepts.2, (decideReservation_eq_put hDecide).1, asRow, Option.map_map]
  rfl

theorem Decided.legit {s : Shared} {q : Request} {w : Write Str Entity} {i : Nat}
    (h : Decided hmac replica s.table q w) (hDrew : (i, q.commitID) ∈ s.commitIDs) :
    Legit s.commitIDs i w ∧ w.key ≠ configKey := by
  have hw := h
  obtain ⟨prior, etag, value, rfl, -, -⟩ := h
  exact ⟨.inr ⟨value, rfl, hw.commitID ▸ hDrew⟩, rowKey_ne_configKey q⟩

theorem Intent.seen {table table' : RemoteTable Str Entity} {q : Request} {phase : Phase}
    (h : Intent hmac replica table q phase)
    (hSeen : ∀ key prior, table.Seen key prior → table'.Seen key prior) : Intent hmac replica table' q phase := by
  cases phase with
  | initializing init next =>
    cases next with
    | get attempt => trivial
    | put attempt etag value => exact Decided.seen h hSeen
  | writing attempt etag value => exact Decided.seen h hSeen
  | reading attempt => trivial
  | readingBack attempt value error => exact h
  | returned outcome => trivial

theorem standing_congr {table table' : RemoteTable Str Entity} {i : Nat}
    (hCharges : charges table' i = charges table i) (hPending : pending table' i = pending table i)
    (phase : Phase) : Standing table' i phase = Standing table i phase := by
  have hQuiet : Quiet table' i = Quiet table i := by rw [Quiet, hCharges, hPending, Quiet]
  have hApplied : Applied table' i = Applied table i := by rw [Applied, hCharges, hPending, Applied]
  have hUndecided : Undecided table' i = Undecided table i := by rw [Undecided, hCharges, hPending, Undecided]
  unfold Standing
  rw [hQuiet, hApplied, hUndecided]

theorem CallInv.rely {i : Nat} {s t : Shared} {q : Request} {phase : Phase} (h : CallInv hmac replica i s q phase)
    (hRely : Rely i s t) : CallInv hmac replica i t q phase := by
  refine ⟨hRely.commitIDs _ h.drew, ?_, h.intent.seen hRely.seen, ?_, ?_⟩
  · rw [standing_congr hRely.charges hRely.pending]
    exact h.standing
  · rw [hRely.charges]
    exact h.charged
  · rw [hRely.pending]
    exact fun w hw => (h.promised w hw).seen hRely.seen

theorem CallInv.goto {i : Nat} {s : Shared} {q : Request} {phase phase' : Phase}
    (h : CallInv hmac replica i s q phase) (hStanding : Standing s.table i phase')
    (hIntent : Intent hmac replica s.table q phase') : CallInv hmac replica i s q phase' :=
  ⟨h.drew, hStanding, hIntent, h.charged, h.promised⟩

theorem standing_enter {table : RemoteTable Str Entity} {i : Nat} (h : Quiet table i)
    {phase : StateStore.Phase Nat} (hOk : phase ≠ .returned .ok) : Standing table i (enter phase) := by
  cases phase with
  | getting attempt => exact h
  | putting attempt etag value => exact h
  | returned outcome =>
    cases outcome with
    | ok => exact absurd rfl hOk
    | rejected reason => exact h
    | unavailable => exact h.undecided

theorem afterGet_ne_ok (q : Request) (attempt : Nat) (prior : Option (Nat × DeviceRecord)) :
    afterGet (replica q.client).quota q.reservation q.commitID attempt prior ≠ .returned .ok := by
  unfold afterGet
  split
  · rename_i outcome hDone
    intro hOk
    cases hOk
    exact decideReservation_ne_ok _ _ _ _ hDone
  · nofun

theorem nextAttempt_ne_ok (attempt : Nat) : (nextAttempt attempt : StateStore.Phase Nat) ≠ .returned .ok := by
  unfold nextAttempt
  split <;> nofun

theorem intent_enter_nextAttempt (table : RemoteTable Str Entity) (q : Request) (attempt : Nat) :
    Intent hmac replica table q (enter (nextAttempt attempt)) := by
  unfold nextAttempt
  split <;> trivial

theorem intent_afterGet {s : Shared} {q : Request} {attempt : Nat} {prior : Option (Nat × DeviceRecord)}
    (hSeen : s.table.Seen (rowKey hmac replica q) (asRow prior)) :
    Intent hmac replica s.table q
      (enter (afterGet (replica q.client).quota q.reservation q.commitID attempt prior)) := by
  unfold afterGet
  split
  · trivial
  · exact ⟨prior, _, _, rfl, hSeen, ‹_›⟩

theorem CallInv.performed {i : Nat} {s : Shared} {q : Request} {w : Write Str Entity} {phase phase' : Phase}
    (h : SharedInv s) (hCall : CallInv hmac replica i s q phase) (hQuiet : Quiet s.table i)
    (hDecided : Decided hmac replica s.table q w) (hAccepts : s.table.accepts w = true)
    (hStanding : Applied (s.table.performed i w) i → Standing (s.table.performed i w) i phase')
    (hIntent : Intent hmac replica (s.table.performed i w) q phase') :
    SharedInv { s with table := s.table.performed i w } ∧
      (∀ j, j ≠ i → Rely j s { s with table := s.table.performed i w }) ∧
      CallInv hmac replica i { s with table := s.table.performed i w } q phase' := by
  obtain ⟨hLegit, hKey⟩ := hDecided.legit hCall.drew
  obtain ⟨hInv, hRely⟩ := h.performed hLegit hAccepts
  have hCharges : charges (s.table.performed i w) i = [⟨i, w, s.table.rows w.key⟩] := by
    rw [charges_performed, if_pos ⟨rfl, hKey⟩, hQuiet.1]
    rfl
  have hPending : pending (s.table.performed i w) i = [] := hQuiet.2
  refine ⟨hInv, fun j hj => hRely j fun hSame => hj hSame.1.symm, hCall.drew,
    hStanding ⟨by rw [hCharges]; rfl, hPending⟩, hIntent, fun e he => ?_, fun v hv => ?_⟩
  · rw [hCharges] at he
    obtain rfl := List.mem_singleton.mp he
    exact hDecided.isCharge hAccepts i
  · rw [hPending] at hv
    cases hv

theorem CallInv.enqueued {i : Nat} {s : Shared} {q : Request} {w : Write Str Entity} {phase phase' : Phase}
    (h : SharedInv s) (hCall : CallInv hmac replica i s q phase) (hQuiet : Quiet s.table i)
    (hDecided : Decided hmac replica s.table q w)
    (hStanding : Undecided { s.table with inflight := s.table.inflight ++ [(i, w)] } i →
      Standing { s.table with inflight := s.table.inflight ++ [(i, w)] } i phase')
    (hIntent : Intent hmac replica { s.table with inflight := s.table.inflight ++ [(i, w)] } q phase') :
    SharedInv { s with table := { s.table with inflight := s.table.inflight ++ [(i, w)] } } ∧
      (∀ j, j ≠ i → Rely j s { s with table := { s.table with inflight := s.table.inflight ++ [(i, w)] } }) ∧
      CallInv hmac replica i
        { s with table := { s.table with inflight := s.table.inflight ++ [(i, w)] } } q phase' := by
  obtain ⟨hLegit, hKey⟩ := hDecided.legit hCall.drew
  obtain ⟨hInv, hRely⟩ := h.enqueued hLegit
  have hCharges : charges { s.table with inflight := s.table.inflight ++ [(i, w)] } i = [] := hQuiet.1
  have hPending : pending { s.table with inflight := s.table.inflight ++ [(i, w)] } i = [(i, w)] := by
    rw [pending_enqueued, if_pos ⟨rfl, hKey⟩, hQuiet.2]
    rfl
  refine ⟨hInv, fun j hj => hRely j fun hSame => hj hSame.1.symm, hCall.drew,
    hStanding (by rw [Undecided, hCharges, hPending]; rfl), hIntent, fun e he => ?_, fun v hv => ?_⟩
  · rw [hCharges] at he
    cases he
  · rw [hPending] at hv
    obtain rfl := List.mem_singleton.mp hv
    exact hDecided

theorem writing_inv {i : Nat} {s : Shared} {table : RemoteTable Str Entity} {q : Request} {attempt : Nat}
    {etag : Option Nat} {value : DeviceRecord} {fault : Fault} {response : Except RemoteError Unit}
    (h : SharedInv s) (hCall : CallInv hmac replica i s q (.writing attempt etag value))
    (hWrite : s.table.write ambiguous i ⟨rowKey hmac replica q, etag, .device value⟩ fault = some (table, response)) :
    SharedInv { s with table := table } ∧ (∀ j, j ≠ i → Rely j s { s with table := table }) ∧
      CallInv hmac replica i { s with table := table } q (afterWrite attempt value response) := by
  have hDecided : Decided hmac replica s.table q ⟨rowKey hmac replica q, etag, .device value⟩ := hCall.intent
  have hQuiet : Quiet s.table i := hCall.standing
  have hSame : ∀ error, Standing s.table i (.readingBack attempt value error) := by
    intro error
    simp only [Standing]
    split
    · exact hQuiet.undecided
    · exact hQuiet
  rcases RemoteTable.write_cases hWrite with ⟨rfl, hAccepts, rfl⟩ | ⟨error, rfl, rfl | ⟨hAmbiguous, rfl | rfl⟩⟩
  · exact hCall.performed h hQuiet hDecided hAccepts (fun hOk => hOk) trivial
  · exact ⟨h, fun j _ => .refl j s, hCall.goto (hSame error) hDecided.commitID⟩
  · rcases s.table.commit_cases i ⟨rowKey hmac replica q, etag, .device value⟩ with
      ⟨-, hRefused⟩ | ⟨hAccepts, -, hNew⟩
    · rw [hRefused]
      exact ⟨h, fun j _ => .refl j s, hCall.goto (hSame error) hDecided.commitID⟩
    · rw [hNew]
      refine hCall.performed h hQuiet hDecided hAccepts (fun hOk => ?_) hDecided.commitID
      simp only [afterWrite, Standing, hAmbiguous, if_true]
      rw [Undecided, hOk.1, hOk.2]
      rfl
  · refine hCall.enqueued h hQuiet hDecided (fun hOne => ?_) hDecided.commitID
    simp only [afterWrite, Standing, hAmbiguous, if_true]
    exact hOne

theorem initializing_inv {sha256 : Bytes → Digest} {stringify : DeviceRecord → Str} {i : Nat} {q : Request}
    {fault : Fault} {s t : Shared} {init : Init} {next : Operation} {phase : Phase} (h : SharedInv s)
    (hCall : CallInv hmac replica i s q (.initializing init next))
    (hStep : reserveStep sha256 hmac stringify replica i q fault s (.initializing init next) = some (t, phase)) :
    SharedInv t ∧ (∀ j, j ≠ i → Rely j s t) ∧ CallInv hmac replica i t q phase := by
  simp only [reserveStep] at hStep
  split at hStep
  · cases hStep
  all_goals
    rename_i hInit
    obtain ⟨hInv, hRely⟩ := initializeStep_inv h hInit
    have hKept := hCall.rely (hRely i)
    cases hStep
    refine ⟨hInv, fun j _ => hRely j, ?_⟩
  · exact hKept.goto hKept.standing (by cases next <;> exact hKept.intent)
  · cases next with
    | get attempt => exact hKept.goto hKept.standing trivial
    | put attempt etag value =>
      simp only [afterInitialize]
      split
      · exact hKept.goto (Quiet.undecided hKept.standing) trivial
      · exact hKept.goto hKept.standing hKept.intent
  · exact hKept.goto (Quiet.undecided hKept.standing) trivial

/-- The call finds its identifier in the row: its one charge was applied. -/
theorem CallInv.recognised {i : Nat} {s : Shared} {q : Request} {attempt : Nat} {value : DeviceRecord}
    {error : RemoteError} {fault : Fault} {current : Option (Nat × DeviceRecord)} (h : SharedInv s)
    (hCall : CallInv hmac replica i s q (.readingBack attempt value error))
    (hRead : readDevice s (rowKey hmac replica q) fault = some current)
    (hOwn : current.any (·.2.commitID = value.commitID)) : Applied s.table i := by
  obtain ⟨⟨etag, v⟩, rfl, hEq⟩ := (Option.any_eq_true _ _).mp hOwn
  have hv : v.commitID = value.commitID := of_decide_eq_true hEq
  have hRow : s.table.rows (rowKey hmac replica q) = some (etag, .device v) := by
    rcases readDevice_eq_some hRead with hRow | hNone
    · exact hRow
    · cases hNone
  have hID : v.commitID = q.commitID := hv.trans hCall.intent
  have hCharged := List.length_pos_iff.mpr
    (h.charges_ne_nil (rowKey_ne_configKey q) hRow (hID ▸ hCall.drew))
  have hUndecided := standing_undecided hCall.standing
  rw [Undecided] at hUndecided
  exact ⟨by omega, List.length_eq_zero_iff.mp (by omega)⟩

theorem reserveStep_inv {sha256 : Bytes → Digest} {stringify : DeviceRecord → Str} {i : Nat} {q : Request}
    {fault : Fault} {s t : Shared} {phase phase' : Phase} (h : SharedInv s)
    (hCall : CallInv hmac replica i s q phase)
    (hStep : reserveStep sha256 hmac stringify replica i q fault s phase = some (t, phase')) :
    SharedInv t ∧ (∀ j, j ≠ i → Rely j s t) ∧ CallInv hmac replica i t q phase' := by
  cases phase with
  | initializing init next => exact initializing_inv h hCall hStep
  | reading attempt =>
    have hQuiet : Quiet s.table i := hCall.standing
    simp only [reserveStep] at hStep
    split at hStep
    · cases hStep
      exact ⟨h, fun j _ => .refl j s, hCall.goto hQuiet.undecided trivial⟩
    · rename_i prior hRead
      cases hStep
      refine ⟨h, fun j _ => .refl j s, hCall.goto (standing_enter hQuiet (afterGet_ne_ok q attempt prior))
        (intent_afterGet ?_)⟩
      rcases readDevice_eq_some hRead with hRow | rfl
      · rw [← hRow]
        exact h.etags.seen _
      · exact RemoteTable.seen_none _ _
  | writing attempt etag value =>
    simp only [reserveStep] at hStep
    split at hStep
    · cases hStep
    · cases hStep
      exact writing_inv h hCall ‹_›
  | readingBack attempt value error =>
    have hUndecided := standing_undecided hCall.standing
    simp only [reserveStep] at hStep
    split at hStep
    · cases hStep
      exact ⟨h, fun j _ => .refl j s, hCall.goto hUndecided trivial⟩
    · rename_i current hRead
      split at hStep
      · rename_i hOwn
        cases hStep
        exact ⟨h, fun j _ => .refl j s, hCall.goto (hCall.recognised h hRead hOwn.2) trivial⟩
      · split at hStep
        · cases hStep
          exact ⟨h, fun j _ => .refl j s, hCall.goto hUndecided trivial⟩
        · rename_i hDefinite
          cases hStep
          have hQuiet : Quiet s.table i := by
            have hStanding := hCall.standing
            simpa [Standing, hDefinite] using hStanding
          exact ⟨h, fun j _ => .refl j s, hCall.goto (standing_enter hQuiet (nextAttempt_ne_ok attempt))
            (intent_enter_nextAttempt _ q attempt)⟩
  | returned outcome => cases hStep

/-- Only a call in doubt has a write in flight, and then any outcome of that write leaves it in doubt. -/
theorem standing_of_pending {table : RemoteTable Str Entity} {i : Nat} {phase : Phase}
    (h : Standing table i phase) (hPending : pending table i ≠ []) :
    Undecided table i ∧ ∀ table', Undecided table' i → Standing table' i phase := by
  cases phase with
  | initializing init next => exact absurd (And.right h) hPending
  | reading attempt => exact absurd (And.right h) hPending
  | writing attempt etag value => exact absurd (And.right h) hPending
  | readingBack attempt value error =>
    simp only [Standing] at h ⊢
    split at h
    · exact ⟨h, fun _ hOne => by rw [if_pos ‹_›]; exact hOne⟩
    · exact absurd h.2 hPending
  | returned outcome =>
    cases outcome with
    | ok => exact absurd (And.right h) hPending
    | rejected reason => exact absurd (And.right h) hPending
    | unavailable => exact ⟨h, fun _ hOne => hOne⟩

theorem pending_removed {table rest : RemoteTable Str Entity} {i owner : Nat} {w : Write Str Entity}
    (h : table.Removed rest owner w) :
    (¬(owner = i ∧ w.key ≠ configKey) → pending rest i = pending table i) ∧
    (owner = i ∧ w.key ≠ configKey → (owner, w) ∈ pending table i ∧
      (pending rest i).length + 1 = (pending table i).length) := by
  obtain ⟨before, after, hSplit, hRest⟩ := h.inflight
  unfold pending
  simp only [hSplit, hRest, List.filter_append, List.filter_cons]
  refine ⟨fun hOther => by simp [hOther], fun hOwn => ?_⟩
  simp [hOwn]
  omega

theorem mem_pending_of_removed {table rest : RemoteTable Str Entity} {i owner : Nat} {w : Write Str Entity}
    (h : table.Removed rest owner w) {v : Nat × Write Str Entity} (hv : v ∈ pending rest i) : v ∈ pending table i := by
  obtain ⟨hMem, hOwn⟩ := List.mem_filter.mp hv
  exact List.mem_filter.mpr ⟨h.subset hMem, hOwn⟩

theorem charges_removed {table rest : RemoteTable Str Entity} {owner : Nat} {w : Write Str Entity}
    (h : table.Removed rest owner w) (i : Nat) : charges rest i = charges table i := by
  rw [charges, h.effects, charges]

theorem SharedInv.removed {s : Shared} {rest : RemoteTable Str Entity} {owner : Nat} {w : Write Str Entity}
    (h : SharedInv s) (hRemoved : s.table.Removed rest owner w) : SharedInv { s with table := rest } := by
  refine ⟨fun key row hRow => ?_, h.unique, ?_, ?_, fun v hv => h.inflight v (hRemoved.subset hv)⟩
  · rw [hRemoved.revision]
    exact h.etags key row (hRemoved.rows ▸ hRow)
  · simp only [hRemoved.rows, hRemoved.effects]
    exact h.rows
  · simp only [hRemoved.effects]
    exact h.effects

theorem CallInv.removed {i : Nat} {s : Shared} {rest : RemoteTable Str Entity} {w : Write Str Entity} {q : Request}
    {phase : Phase} (hCall : CallInv hmac replica i s q phase) (hRemoved : s.table.Removed rest i w)
    (hKey : w.key ≠ configKey) : CallInv hmac replica i { s with table := rest } q phase := by
  obtain ⟨hMem, hLength⟩ := (pending_removed hRemoved).2 ⟨rfl, hKey⟩
  obtain ⟨hOne, hAny⟩ := standing_of_pending hCall.standing (List.ne_nil_of_mem hMem)
  have hSeen : ∀ key prior, s.table.Seen key prior → rest.Seen key prior :=
    fun key prior hPrior => hPrior.congr hRemoved.rows hRemoved.revision
  refine ⟨hCall.drew, hAny _ ?_, hCall.intent.seen hSeen, fun e he => hCall.charged e ?_,
    fun v hv => (hCall.promised v (mem_pending_of_removed hRemoved hv)).seen hSeen⟩
  · change Undecided rest i
    rw [Undecided] at hOne ⊢
    rw [charges_removed hRemoved]
    omega
  · rwa [← charges_removed hRemoved]

theorem CallInv.committed {i : Nat} {s : Shared} {rest : RemoteTable Str Entity} {w : Write Str Entity} {q : Request}
    {phase : Phase} (hCall : CallInv hmac replica i s q phase) (hRemoved : s.table.Removed rest i w)
    (hKey : w.key ≠ configKey) : CallInv hmac replica i { s with table := rest.commit i w } q phase := by
  rcases rest.commit_cases i w with ⟨-, hSame⟩ | ⟨hAccepts, -, hNew⟩
  · rw [hSame]
    exact hCall.removed hRemoved hKey
  obtain ⟨hMem, hLength⟩ := (pending_removed hRemoved).2 ⟨rfl, hKey⟩
  obtain ⟨hOne, hAny⟩ := standing_of_pending hCall.standing (List.ne_nil_of_mem hMem)
  have hRest : ∀ key prior, s.table.Seen key prior → rest.Seen key prior :=
    fun key prior hPrior => hPrior.congr hRemoved.rows hRemoved.revision
  have hSeen : ∀ key prior, s.table.Seen key prior → (rest.performed i w).Seen key prior := by
    intro key prior hPrior
    rw [← hNew]
    exact (hRest key prior hPrior).commit i w
  have hCharges : charges (rest.performed i w) i = charges s.table i ++ [⟨i, w, rest.rows w.key⟩] := by
    rw [charges_performed, if_pos ⟨rfl, hKey⟩, charges_removed hRemoved]
  have hPending : pending (rest.performed i w) i = pending rest i := rfl
  rw [hNew]
  refine ⟨hCall.drew, hAny _ ?_, hCall.intent.seen hSeen, fun e he => ?_,
    fun v hv => (hCall.promised v (mem_pending_of_removed hRemoved hv)).seen hSeen⟩
  · rw [Undecided] at hOne ⊢
    rw [hCharges, hPending, List.length_append, List.length_singleton]
    omega
  · rw [hCharges] at he
    rcases List.mem_append.mp he with hOld | hLast
    · exact hCall.charged e hOld
    · obtain rfl := List.mem_singleton.mp hLast
      exact ((hCall.promised _ hMem).seen hRest).isCharge hAccepts i

theorem Rely.quiet {i : Nat} {s t : Shared} (h : Rely i s t) (hQuiet : Quiet s.table i) : Quiet t.table i :=
  ⟨h.charges.trans hQuiet.1, h.pending.trans hQuiet.2⟩

variable (hmac replica) in
/-- Nobody waits for a pending write; whatever becomes of it, every call keeps its standing. -/
theorem settle_inv {s : Shared} {table : RemoteTable Str Entity} {event : RemoteTable.Event} (h : SharedInv s)
    (hSettle : s.table.settle event = some table) :
    SharedInv { s with table := table } ∧ (∀ i, Quiet s.table i → Quiet table i) ∧
      ∀ i q phase, CallInv hmac replica i s q phase → CallInv hmac replica i { s with table := table } q phase := by
  rcases RemoteTable.settle_cases hSettle with rfl | ⟨rest, owner, w, hRemoved, hTable⟩
  · obtain ⟨hInv, hRely⟩ := h.still (t := { s with table := { s.table with created := true } }) rfl rfl rfl rfl rfl
    exact ⟨hInv, fun i hQuiet => (hRely i).quiet hQuiet, fun i q phase hCall => hCall.rely (hRely i)⟩
  have hDrop : ∀ i, ¬(owner = i ∧ w.key ≠ configKey) → Rely i s { s with table := rest } := fun i hOther =>
    ⟨fun _ hc => hc, fun key prior hSeen => hSeen.congr hRemoved.rows hRemoved.revision,
      charges_removed hRemoved i, (pending_removed hRemoved).1 hOther⟩
  have hQuietOther : ∀ i, Quiet s.table i → ¬(owner = i ∧ w.key ≠ configKey) := by
    intro i hQuiet hMine
    have hMem := ((pending_removed hRemoved).2 hMine).1
    rw [hQuiet.2] at hMem
    cases hMem
  rcases hTable with rfl | rfl
  · refine ⟨h.removed hRemoved, fun i hQuiet => (hDrop i (hQuietOther i hQuiet)).quiet hQuiet, fun i q phase hCall => ?_⟩
    by_cases hMine : owner = i ∧ w.key ≠ configKey
    · obtain ⟨rfl, hKey⟩ := hMine
      exact hCall.removed hRemoved hKey
    · exact hCall.rely (hDrop i hMine)
  · obtain ⟨hInv, hRely⟩ := (h.removed hRemoved).commit (h.inflight _ hRemoved.mem)
    have hBoth : ∀ i, ¬(owner = i ∧ w.key ≠ configKey) → Rely i s { s with table := rest.commit owner w } :=
      fun i hOther => ⟨fun _ hc => hc,
        fun key prior hSeen => (hRely i hOther).seen key prior ((hDrop i hOther).seen key prior hSeen),
        (hRely i hOther).charges.trans (hDrop i hOther).charges,
        (hRely i hOther).pending.trans (hDrop i hOther).pending⟩
    refine ⟨hInv, fun i hQuiet => (hBoth i (hQuietOther i hQuiet)).quiet hQuiet, fun i q phase hCall => ?_⟩
    by_cases hMine : owner = i ∧ w.key ≠ configKey
    · obtain ⟨rfl, hKey⟩ := hMine
      exact hCall.committed hRemoved hKey
    · exact hCall.rely (hBoth i hMine)

variable (hmac replica) in
def LocalInv (i : Nat) (s : Shared) : Call → Prop
  | .idle | .refused => Quiet s.table i
  | .running q phase => CallInv hmac replica i s q phase

theorem Standing.undecided {table : RemoteTable Str Entity} {i : Nat} {phase : Phase}
    (h : Standing table i phase) : Undecided table i := by
  by_cases hPending : pending table i = []
  · have hQuiet : Quiet table i → Undecided table i := Quiet.undecided
    cases phase with
    | initializing init next => exact hQuiet h
    | reading attempt => exact hQuiet h
    | writing attempt etag value => exact hQuiet h
    | readingBack attempt value error => exact standing_undecided h
    | returned outcome =>
      cases outcome with
      | ok => rw [Undecided, And.left h, hPending]; rfl
      | rejected reason => exact hQuiet h
      | unavailable => exact h
  · exact (standing_of_pending h hPending).1

theorem LocalInv.undecided {i : Nat} {s : Shared} {call : Call} (h : LocalInv hmac replica i s call) :
    Undecided s.table i := by
  cases call with
  | idle => exact Quiet.undecided h
  | refused => exact Quiet.undecided h
  | running q phase => exact (CallInv.standing h).undecided

theorem LocalInv.rely {i : Nat} {s t : Shared} {call : Call} (h : LocalInv hmac replica i s call)
    (hRely : Rely i s t) : LocalInv hmac replica i t call := by
  cases call with
  | idle => exact hRely.quiet h
  | refused => exact hRely.quiet h
  | running q phase => exact CallInv.rely h hRely

variable {sha256 : Bytes → Digest} {stringify : DeviceRecord → Str}

theorem start_inv {i : Nat} {s : Shared} {client : Nat} {r : Reservation} {commitID : Str} (h : SharedInv s)
    (hQuiet : Quiet s.table i) (hFresh : commitID ∉ s.commitIDs.map (·.2)) :
    SharedInv { s with commitIDs := s.commitIDs ++ [(i, commitID)] } ∧
      (∀ j, Rely j s { s with commitIDs := s.commitIDs ++ [(i, commitID)] }) ∧
      CallInv hmac replica i { s with commitIDs := s.commitIDs ++ [(i, commitID)] } ⟨client, r, commitID⟩
        (enter (.getting 0)) := by
  have hKeep : ∀ c ∈ s.commitIDs, c ∈ s.commitIDs ++ [(i, commitID)] := fun c hc => List.mem_append_left _ hc
  have hLegit : ∀ {owner w}, Legit s.commitIDs owner w → Legit (s.commitIDs ++ [(i, commitID)]) owner w := by
    rintro owner w (hConfig | ⟨v, hv, hOwner⟩)
    · exact .inl hConfig
    · exact .inr ⟨v, hv, hKeep _ hOwner⟩
  refine ⟨⟨h.etags, ?_, h.rows, fun e he => hLegit (h.effects e he), fun w hw => hLegit (h.inflight w hw)⟩,
    fun j => ⟨hKeep, fun _ _ hSeen => hSeen, rfl, rfl⟩,
    List.mem_append_right _ List.mem_cons_self, hQuiet, trivial, fun e he => ?_, fun w hw => ?_⟩
  · rw [List.map_append, List.nodup_append]
    refine ⟨h.unique, List.nodup_singleton _, fun a ha b hb hab => hFresh ?_⟩
    obtain rfl : b = commitID := List.mem_singleton.mp hb
    exact hab ▸ ha
  · have hNone : e ∈ charges s.table i := he
    rw [hQuiet.1] at hNone
    cases hNone
  · have hNone : w ∈ pending s.table i := hw
    rw [hQuiet.2] at hNone
    cases hNone

theorem act_inv {i : Nat} {action : Action} {s t : Shared} {call call' : Call} (h : SharedInv s)
    (hCall : LocalInv hmac replica i s call)
    (hAct : act sha256 hmac stringify replica i action s call = some (t, call')) :
    SharedInv t ∧ (∀ j, j ≠ i → Rely j s t) ∧ LocalInv hmac replica i t call' := by
  unfold act at hAct
  split at hAct
  · split at hAct
    · cases hAct
      exact ⟨h, fun j _ => .refl j s, hCall⟩
    · split at hAct
      · cases hAct
      · rename_i hFresh
        cases hAct
        obtain ⟨hInv, hRely, hRunning⟩ := start_inv h hCall hFresh
        exact ⟨hInv, fun j _ => hRely j, hRunning⟩
  · obtain ⟨⟨t', phase'⟩, hStep, hEq⟩ := Option.map_eq_some_iff.mp hAct
    cases hEq
    exact reserveStep_inv h hCall hStep
  · cases hAct

theorem sharedInv_empty : SharedInv .empty where
  etags := nofun
  unique := List.nodup_nil
  rows := nofun
  effects := nofun
  inflight := nofun

theorem localInv_idle (i : Nat) : LocalInv hmac replica i .empty .idle := ⟨rfl, rfl⟩

theorem issuers_invariant {p : Pool Shared Call}
    (h : (issuers sha256 hmac stringify replica).system.Reachable p) :
    SharedInv p.shared ∧ ∀ i, LocalInv hmac replica i p.shared (p.calls i) := by
  refine Calls.invariant SharedInv (LocalInv hmac replica) sharedInv_empty localInv_idle ?_ ?_ ?_ h
  · intro p i action s l _ hG hL hAct
    obtain ⟨hInv, -, hOwn⟩ := act_inv hG hL hAct
    exact ⟨hInv, hOwn⟩
  · intro p i j action s l _ hij hG hL hLj hAct
    obtain ⟨-, hRely, -⟩ := act_inv hG hL hAct
    exact hLj.rely (hRely j hij)
  · intro p event s _ hG hEnv
    obtain ⟨table, hTable, rfl⟩ := Option.map_eq_some_iff.mp hEnv
    obtain ⟨hInv, hQuiet, hCalls⟩ := settle_inv hmac replica hG hTable
    refine ⟨hInv, fun i hL => ?_⟩
    cases hCall : p.calls i with
    | idle => rw [hCall] at hL; exact hQuiet i hL
    | refused => rw [hCall] at hL; exact hQuiet i hL
    | running q phase => rw [hCall] at hL; exact hCalls i q phase hL

theorem returned_run {labels : List (Calls.Label Action RemoteTable.Event)} {p p' : Pool Shared Call} {i : Nat}
    {q : Request} {outcome : Outcome} (hCall : p.calls i = .running q (.returned outcome))
    (hRun : (issuers sha256 hmac stringify replica).system.run p labels = some p') :
    p'.calls i = .running q (.returned outcome) := by
  induction labels generalizing p with
  | nil =>
    cases hRun
    exact hCall
  | cons label labels ih =>
    obtain ⟨u, hNext, hRest⟩ := Option.bind_eq_some_iff.mp hRun
    refine ih ?_ hRest
    cases label with
    | env event =>
      obtain ⟨shared, -, rfl⟩ := Calls.system_next_env hNext
      exact hCall
    | act j action =>
      obtain ⟨shared, l, hAct, rfl⟩ := Calls.system_next_act hNext
      rcases eq_or_ne i j with rfl | hij
      · rw [hCall] at hAct
        cases action with
        | start client args commitID => cases hAct
        | resume fault => cases hAct
      · exact (Function.update_of_ne hij _ _).trans hCall

def Returned (p : Pool Shared Call) (i : Nat) (q : Request) (outcome : Outcome) : Prop :=
  p.calls i = .running q (.returned outcome)

/-- At-most-once charging, whatever fails, is lost or comes late: a call changes its row once at most and
only by its own charge of the row as it stood, `ok` says that it did, a rejection that it never will. -/
theorem reserve_charges_at_most_once {p : Pool Shared Call}
    (h : (issuers sha256 hmac stringify replica).system.Reachable p) (i : Nat) :
    (charges p.shared.table i).length ≤ 1 ∧
    (∀ q phase, p.calls i = .running q phase → ∀ e ∈ charges p.shared.table i, IsCharge hmac replica q e) ∧
    (∀ q, Returned p i q .unavailable →
      (charges p.shared.table i).length + (pending p.shared.table i).length ≤ 1) ∧
    ∀ labels p', (issuers sha256 hmac stringify replica).system.run p labels = some p' →
      (∀ q, Returned p i q .ok → (charges p'.shared.table i).length = 1 ∧ pending p'.shared.table i = []) ∧
      (∀ q reason, Returned p i q (.rejected reason) →
        charges p'.shared.table i = [] ∧ pending p'.shared.table i = []) := by
  have hOne := ((issuers_invariant h).2 i).undecided
  rw [Undecided] at hOne
  refine ⟨by omega, fun q phase hCall => ?_, fun _ _ => hOne, fun labels p' hRun => ?_⟩
  · have hLocal := (issuers_invariant h).2 i
    rw [hCall] at hLocal
    exact CallInv.charged hLocal
  · have hStanding : ∀ q outcome, Returned p i q outcome → Standing p'.shared.table i (.returned outcome) := by
      intro q outcome hReturned
      have hLocal := (issuers_invariant (h.of_run labels (fun _ _ _ => trivial) hRun)).2 i
      rw [returned_run hReturned hRun] at hLocal
      exact CallInv.standing hLocal
    exact ⟨fun q hOk => hStanding q .ok hOk, fun q reason hRejected => hStanding q _ hRejected⟩

end

def testState : IssuerState := smallState

def testDigest : Digest := zeroDigest

def testArgs : ReserveArgs :=
  ⟨str "canonical-key", .str (str "attestation"), .str (str "public-key-fixture"), int 0, int 10, int 2⟩

def timeout : RemoteError := ⟨none, false⟩

/-- A registration whose write is applied but not acknowledged, and is recognised by its identifier. -/
def lostAck : List (Calls.Label Action RemoteTable.Event) :=
  .act 0 (.start 0 testArgs (str "a")) :: List.replicate 6 (.act 0 (.resume .none)) ++
    [.act 0 (.resume (.lost timeout)), .act 0 (.resume .none)]

def testStringify (_ : DeviceRecord) : Str :=
  str "\x7b\"version\":1,\"commitID\":\"a\",\"publicKeyPem\":\"public-key-fixture\",\"signCount\":0," ++
    str "\"latestEpoch\":10,\"quota\":\x7b\"10\":2\x7d\x7d"

def testIssuers : Calls Shared Call Action RemoteTable.Event :=
  issuers (fun _ => testDigest) (fun _ _ => testDigest) testStringify fun _ => testState

set_option maxRecDepth 4000 in
theorem reserve_charges_at_most_once_lostAck :
    (∃ q, Returned (testIssuers.system.after lostAck) 0 q .ok) ∧
    (charges (testIssuers.system.after lostAck).shared.table 0).length = 1 := by
  have hOk : ∃ q, Returned (testIssuers.system.after lostAck) 0 q .ok := ⟨_, by rfl⟩
  obtain ⟨q, hReturned⟩ := hOk
  have hCharged := (reserve_charges_at_most_once (System.reachable_after testIssuers.system lostAck) 0).2.2.2 [] _ rfl
  exact ⟨⟨q, hReturned⟩, (hCharged.1 q hReturned).1⟩

end Columbia.Issuer.AzureDevices
