import Columbia.Relay.AccessToken

/-! # What reaches the spend set

The relay runs over the redemption store of its own process. A call reaches `redeem` with a key that `get` has returned
in one of its turns, before the expiry, and with a signature that verifies under it. `owners` names, for every entry of
the set, the call that added it.
-/
namespace Columbia.Relay.SpendSet
open Columbia.Js Columbia.Lib
open Columbia.Relay.IssuerKeyCache Columbia.Relay.AccessToken
open Columbia.Relay.RedemptionStore (Request Result)
set_option autoImplicit false

variable (platform : Platform) (config : Config) (maxKeys : Nat) (maxKeys_pos : 1 ≤ maxKeys)

abbrev MemoryShared := Shared (Redeemer.memory maxKeys maxKeys_pos)
abbrev MemoryCall := Call (Redeemer.memory maxKeys maxKeys_pos)
abbrev Label := Calls.Label (Action (Redeemer.memory maxKeys maxKeys_pos)) (Event (Redeemer.memory maxKeys maxKeys_pos))

abbrev MemoryPool := Pool (MemoryShared maxKeys maxKeys_pos) (MemoryCall maxKeys maxKeys_pos)

def relay : System (MemoryPool maxKeys maxKeys_pos) (Label maxKeys maxKeys_pos) :=
  (verifyAccessToken platform config (Redeemer.memory maxKeys maxKeys_pos)).system

variable {maxKeys maxKeys_pos}

def memoryOf (s : MemoryShared maxKeys maxKeys_pos) : Redeemer.Memory := s.store

/-- The labels lead from the start to this state. -/
def Runs (labels : List (Label maxKeys maxKeys_pos)) (p : MemoryPool maxKeys maxKeys_pos) : Prop :=
  (relay platform config maxKeys maxKeys_pos).run (relay platform config maxKeys maxKeys_pos).start labels = some p

/-- The entries that a call has added. -/
def addedBy (s : MemoryShared maxKeys maxKeys_pos) (i : Nat) : List (Nat × Str) :=
  (memoryOf s).owners.filter (·.1 = i)

/-- The entry for a key and a signature. -/
def spendKey (entry : Entry) (signature : Bytes) : Str :=
  entry.fingerprint ++ str ":" ++ nullifierFor platform signature

/-- What a call of `redeem` adds. -/
def added (i : Nat) (entry : Entry) (signature : Bytes) : Result → List (Nat × Str)
  | .verdict true => [(i, spendKey platform entry signature)]
  | _ => []

/-- In one of the turns of the call, `get` returned this entry for this key, unexpired. -/
def Returned (labels : List (Label maxKeys maxKeys_pos)) (i client : Nat) (keyId : Str) (entry : Entry) : Prop :=
  ∃ before label after p now, labels = before ++ label :: after ∧
    Runs platform config before p ∧
    ((∃ presented, label = .act i (.start client presented now)) ∨ label = .act i (.resumeGet now)) ∧
    answer now (p.shared.caches client) keyId = .entry entry ∧ now 4 < entry.expiresAt

def Presented (labels : List (Label maxKeys maxKeys_pos)) (i client : Nat) (token : Token) : Prop :=
  ∃ presented now, .act i (.start client presented now) ∈ labels ∧ readToken platform presented = some token

/-- What `redeem` may be called for. -/
def Redeemable (labels : List (Label maxKeys maxKeys_pos)) (i : Nat) (entry : Entry) (signature : Bytes) : Prop :=
  ∃ client token, Presented platform labels i client token ∧
    Returned platform config labels i client token.keyId entry ∧
    base64Decode token.tokenInput ≠ [] ∧ base64Decode token.signature = signature ∧ signature ≠ [] ∧
    platform.verify entry.publicKey (base64Decode token.tokenInput) signature = true

def CallInv (labels : List (Label maxKeys maxKeys_pos)) (i : Nat) (s : MemoryShared maxKeys maxKeys_pos) :
    MemoryCall maxKeys maxKeys_pos → Prop
  | .idle | .returned .refused | .returned .unavailable => addedBy s i = []
  | .awaitingKey client token _ => Presented platform labels i client token ∧ addedBy s i = []
  | .gotKey client token a => Presented platform labels i client token ∧ addedBy s i = [] ∧
      ∀ entry, a = .entry entry → Returned platform config labels i client token.keyId entry
  | .redeeming entry signature request result => Redeemable platform config labels i entry signature ∧
      Redeemer.memoryKey request = spendKey platform entry signature ∧
      addedBy s i = added platform i entry signature result
  | .returned (.admitted entry signature) => Redeemable platform config labels i entry signature ∧
      addedBy s i = [(i, spendKey platform entry signature)]

variable {platform config} {labels before before' : List (Label maxKeys maxKeys_pos)} {label : Label maxKeys maxKeys_pos}
  {action : Action (Redeemer.memory maxKeys maxKeys_pos)} {p q r q' r' : MemoryPool maxKeys maxKeys_pos}
  {s t : MemoryShared maxKeys maxKeys_pos} {call call' : MemoryCall maxKeys maxKeys_pos}
  {i j client : Nat} {token : Token} {entry : Entry} {signature : Bytes} {key keyId : Str}

theorem Presented.extend (h : Presented platform labels i client token) (label : Label maxKeys maxKeys_pos) :
    Presented platform (labels ++ [label]) i client token := by
  obtain ⟨presented, now, hMem, hRead⟩ := h
  exact ⟨presented, now, List.mem_append_left _ hMem, hRead⟩

theorem Returned.extend (h : Returned platform config labels i client keyId entry) (label : Label maxKeys maxKeys_pos) :
    Returned platform config (labels ++ [label]) i client keyId entry := by
  obtain ⟨before, turn, after, p, now, rfl, hRest⟩ := h
  exact ⟨before, turn, after ++ [label], p, now, by rw [List.append_assoc, List.cons_append], hRest⟩

theorem Redeemable.extend
    (h : Redeemable platform config labels i entry signature) (label : Label maxKeys maxKeys_pos) :
    Redeemable platform config (labels ++ [label]) i entry signature := by
  obtain ⟨client, token, hPresented, hReturned, hVerified⟩ := h
  exact ⟨client, token, hPresented.extend label, hReturned.extend label, hVerified⟩

/-- A call is not concerned by the steps of others that leave its entries alone. -/
theorem CallInv.extend (h : CallInv platform config labels i s call)
    (hSame : addedBy t i = addedBy s i) (label : Label maxKeys maxKeys_pos) :
    CallInv platform config (labels ++ [label]) i t call := by
  unfold CallInv at h ⊢
  rw [hSame]
  split at h
  · exact h
  · exact h
  · exact h
  · exact ⟨h.1.extend label, h.2⟩
  · exact ⟨h.1.extend label, h.2.1, fun entry hEntry => (h.2.2 entry hEntry).extend label⟩
  · exact ⟨h.1.extend label, h.2⟩
  · exact ⟨h.1.extend label, h.2⟩

theorem addedBy_of_memory (h : memoryOf t = memoryOf s) (i : Nat) :
    addedBy t i = addedBy s i := by rw [addedBy, addedBy, h]

/-- The spend of a call, as the store sees it. -/
structure Adds (i : Nat) (s t : Redeemer.Memory) (key : Str) : Prop where
  fresh : key ∉ s.store.spent
  room : s.store.spent.length < s.store.maxKeys
  after : t = ⟨{ s.store with spent := s.store.spent ++ [key] }, s.owners ++ [(i, key)]⟩

theorem Adds.addedBy_self (h : Adds i (memoryOf s) (memoryOf t) key) : addedBy t i = addedBy s i ++ [(i, key)] := by
  rw [addedBy, addedBy, h.after, List.filter_append]
  simp

theorem Adds.length_addedBy (h : Adds i (memoryOf s) (memoryOf t) key) :
    (addedBy t i).length = (addedBy s i).length + 1 := by
  rw [h.addedBy_self, List.length_append, List.length_singleton]

theorem Adds.addedBy_other (h : Adds i (memoryOf s) (memoryOf t) key) (hj : j ≠ i) : addedBy t j = addedBy s j := by
  rw [addedBy, addedBy, h.after, List.filter_append]
  simp [Ne.symm hj]

theorem startCall_memory {presented : Value} {now : Nat → Int}
    (h : startCall platform config client presented now s = (t, call)) :
    memoryOf t = memoryOf s ∧ (call = .returned .refused ∨ ∃ token, readToken platform presented = some token ∧
      ((∃ promise, call = .awaitingKey client token promise) ∨
        call = .gotKey client token (answer now (s.caches client) token.keyId))) := by
  unfold startCall at h
  split at h
  · cases h
    exact ⟨rfl, .inl rfl⟩
  · rename_i token hToken
    unfold IssuerKeyCache.get at h
    split at h
    · rename_i cache a hGet
      split at hGet
      · cases hGet
      · cases hGet
        cases h
        exact ⟨rfl, .inr ⟨token, hToken, .inr rfl⟩⟩
    · cases h
      exact ⟨rfl, .inr ⟨token, hToken, .inl ⟨_, rfl⟩⟩⟩

/-- `redeem` is reached with a verified signature only, and adds its entry when it answers `true`. -/
theorem checkCall_cases {a : Answer} {claimID : Str}
    (h : checkCall platform i client token a claimID s = some (t, call)) :
    (memoryOf t = memoryOf s ∧ (call = .returned .refused ∨ call = .returned .unavailable)) ∨
    ∃ entry signature request, ∃ result : Result, a = .entry entry ∧
      verified platform entry.publicKey token = some signature ∧
      Redeemer.memoryKey request = spendKey platform entry signature ∧ call = .redeeming entry signature request result ∧
      ((result ≠ .verdict true ∧ memoryOf t = memoryOf s) ∨
        (result = .verdict true ∧ Adds i (memoryOf s) (memoryOf t) (spendKey platform entry signature))) := by
  unfold checkCall at h
  split at h
  · cases h
    exact .inl ⟨rfl, .inl rfl⟩
  · cases h
    exact .inl ⟨rfl, .inr rfl⟩
  · rename_i entry
    split at h
    · cases h
      exact .inl ⟨rfl, .inl rfl⟩
    · rename_i signature hVerified
      obtain ⟨⟨store, result⟩, hStart, hEq⟩ := Option.map_eq_some_iff.mp h
      cases hEq
      right
      refine ⟨entry, signature, _, result, rfl, hVerified, rfl, rfl, ?_⟩
      rcases Redeemer.memoryStart_cases hStart with ⟨hNot, hSame⟩ | ⟨hWon, hFresh, hRoom, hAfter⟩
      · exact .inl ⟨hNot, hSame⟩
      · exact .inr ⟨hWon, hFresh, hRoom, hAfter⟩

/-- What a step of a call does to the store. -/
theorem act_memory (h : act platform config i action s call = some (t, call')) :
    memoryOf t = memoryOf s ∨ ∃ claimID entry signature request, action = .check claimID ∧
      call' = .redeeming entry signature request (Result.verdict true) ∧
      Adds i (memoryOf s) (memoryOf t) (spendKey platform entry signature) := by
  unfold act at h
  split at h
  · exact .inl (startCall_memory (Option.some.inj h)).1
  · obtain ⟨a, -, hEq⟩ := Option.map_eq_some_iff.mp h
    cases hEq
    exact .inl rfl
  · rename_i claimID client token a
    rcases checkCall_cases h with ⟨hSame, -⟩ | ⟨entry, signature, request, result, -, -, -, rfl, hStore⟩
    · exact .inl hSame
    · rcases hStore with ⟨-, hSame⟩ | ⟨rfl, hAdds⟩
      · exact .inl hSame
      · exact .inr ⟨claimID, entry, signature, request, rfl, rfl, hAdds⟩
  · obtain ⟨x, hResume, -⟩ := Option.map_eq_some_iff.mp h
    cases hResume
  · obtain ⟨result, -, hEq⟩ := Option.map_eq_some_iff.mp h
    cases hEq
    exact .inl rfl
  · cases h

theorem env_memory {event : Event (Redeemer.memory maxKeys maxKeys_pos)}
    (h : env platform event s = some t) : memoryOf t = memoryOf s := by
  cases event with
  | fetched client now doc =>
    obtain ⟨cache, -, rfl⟩ := Option.map_eq_some_iff.mp h
    rfl
  | cleared client =>
    obtain ⟨cache, -, rfl⟩ := Option.map_eq_some_iff.mp h
    rfl
  | store event => exact nomatch event

/-! ## Runs -/

theorem Returned.now {now : Nat → Int} (hRun : Runs platform config labels p)
    (hLabel : (∃ presented, label = .act i (.start client presented now)) ∨ label = .act i (.resumeGet now)) :
    ∀ entry, answer now (p.shared.caches client) keyId = .entry entry →
      Returned platform config (labels ++ [label]) i client keyId entry :=
  fun _ hAnswer => ⟨labels, label, [], p, now, rfl, hRun, hLabel, hAnswer, (answer_entry hAnswer).2⟩

theorem act_own (hRun : Runs platform config labels p)
    (hCall : CallInv platform config labels i p.shared (p.calls i))
    (h : act platform config i action p.shared (p.calls i) = some (t, call')) :
    CallInv platform config (labels ++ [.act i action]) i t call' := by
  generalize p.calls i = call at hCall h
  unfold act at h
  split at h
  · rename_i client presented now
    obtain ⟨hSame, hNext⟩ := startCall_memory (Option.some.inj h)
    have hNone : addedBy t i = [] := (addedBy_of_memory hSame i).trans hCall
    rcases hNext with rfl | ⟨token, hToken, ⟨promise, rfl⟩ | rfl⟩
    · exact hNone
    · exact ⟨⟨presented, now, by simp, hToken⟩, hNone⟩
    · exact ⟨⟨presented, now, by simp, hToken⟩, hNone, Returned.now hRun (.inl ⟨presented, rfl⟩)⟩
  · rename_i now client token promise
    obtain ⟨hPresented, hNone⟩ := hCall
    obtain ⟨a, hResume, hEq⟩ := Option.map_eq_some_iff.mp h
    cases hEq
    unfold getResume at hResume
    split at hResume
    · cases hResume
    · cases hResume
      exact ⟨hPresented.extend _, hNone, Returned.now hRun (.inr rfl)⟩
  · rename_i claimID client token a
    obtain ⟨hPresented, hNone, hReturned⟩ := hCall
    rcases checkCall_cases h with ⟨hSame, hNext⟩ | ⟨entry, signature, request, result, rfl, hVerified, hKey, rfl, hStore⟩
    · have hStill : addedBy t i = [] := (addedBy_of_memory hSame i).trans hNone
      rcases hNext with rfl | rfl
      · exact hStill
      · exact hStill
    · have hRedeemable : Redeemable platform config labels i entry signature :=
        ⟨client, token, hPresented, hReturned entry rfl, verified_eq_some hVerified⟩
      refine ⟨hRedeemable.extend _, hKey, ?_⟩
      rcases hStore with ⟨hNot, hSame⟩ | ⟨rfl, hAdds⟩
      · rw [addedBy_of_memory hSame, hNone]
        match result with
        | .verdict true => exact absurd rfl hNot
        | .verdict false => rfl
        | .unavailable => rfl
      · rw [hAdds.addedBy_self, hNone]
        rfl
  · obtain ⟨x, hResume, -⟩ := Option.map_eq_some_iff.mp h
    cases hResume
  · rename_i entry signature request phase
    obtain ⟨result, hResult, hEq⟩ := Option.map_eq_some_iff.mp h
    obtain rfl : phase = result := Option.some.inj hResult
    cases hEq
    obtain ⟨hRedeemable, -, hAdded⟩ := hCall
    match phase, hAdded with
    | .verdict true, hAdded => exact ⟨hRedeemable.extend _, hAdded⟩
    | .verdict false, hAdded => exact hAdded
    | .unavailable, hAdded => exact hAdded
  · cases h

/-- What a step does to the store, whoever takes it. -/
theorem next_memory (h : (relay platform config maxKeys maxKeys_pos).next p label = some q) :
    memoryOf q.shared = memoryOf p.shared ∨ ∃ i claimID entry signature request, label = .act i (.check claimID) ∧
      q.calls i = .redeeming entry signature request (Result.verdict true) ∧
      Adds i (memoryOf p.shared) (memoryOf q.shared) (spendKey platform entry signature) := by
  cases label with
  | act i action =>
    obtain ⟨t, call, hAct, rfl⟩ := Calls.system_next_act h
    rcases act_memory hAct with hSame | ⟨claimID, entry, signature, request, rfl, rfl, hAdds⟩
    · exact .inl hSame
    · exact .inr ⟨i, claimID, entry, signature, request, rfl, Function.update_self _ _ _, hAdds⟩
  | env event =>
    obtain ⟨t, hEnv, rfl⟩ := Calls.system_next_env h
    exact .inl (env_memory hEnv)

variable (platform config) in
structure Inv (labels : List (Label maxKeys maxKeys_pos))
    (p : MemoryPool maxKeys maxKeys_pos) : Prop where
  run : Runs platform config labels p
  memory : Redeemer.MemoryInv (memoryOf p.shared)
  capacity : (memoryOf p.shared).store.maxKeys = maxKeys
  room : (memoryOf p.shared).store.spent.length ≤ maxKeys
  calls : ∀ i, CallInv platform config labels i p.shared (p.calls i)

theorem Inv.next_calls (h : Inv platform config labels p)
    (hNext : (relay platform config maxKeys maxKeys_pos).next p label = some q) (j : Nat) :
    CallInv platform config (labels ++ [label]) j q.shared (q.calls j) := by
  cases label with
  | act i action =>
    obtain ⟨t, call, hAct, rfl⟩ := Calls.system_next_act hNext
    by_cases hj : j = i
    · subst hj
      simpa using act_own h.run (h.calls j) hAct
    · have hOther : addedBy t j = addedBy p.shared j := by
        rcases act_memory hAct with hSame | ⟨_, _, _, _, -, -, hAdds⟩
        · exact addedBy_of_memory hSame j
        · exact hAdds.addedBy_other hj
      simpa [Function.update_of_ne hj] using (h.calls j).extend hOther (.act i action)
  | env event =>
    obtain ⟨t, hEnv, rfl⟩ := Calls.system_next_env hNext
    exact (h.calls j).extend (addedBy_of_memory (env_memory hEnv) j) (.env event)

theorem Inv.next (h : Inv platform config labels p)
    (hNext : (relay platform config maxKeys maxKeys_pos).next p label = some q) :
    Inv platform config (labels ++ [label]) q := by
  have hRun : Runs platform config (labels ++ [label]) q :=
    System.run_append.mpr ⟨p, h.run, Option.bind_eq_some_iff.mpr ⟨q, hNext, rfl⟩⟩
  rcases next_memory hNext with hSame | ⟨i, _, entry, signature, _, -, -, hAdds⟩
  · refine ⟨hRun, ?_, ?_, ?_, h.next_calls hNext⟩
    · exact hSame ▸ h.memory
    · exact hSame ▸ h.capacity
    · exact hSame ▸ h.room
  · have hFull := hAdds.room
    rw [h.capacity] at hFull
    refine ⟨hRun, ?_, ?_, ?_, h.next_calls hNext⟩
    · rw [hAdds.after]
      exact h.memory.add i hAdds.fresh
    · rw [hAdds.after]
      exact h.capacity
    · rw [hAdds.after, List.length_append]
      exact hFull

theorem relay_invariant (hRun : Runs platform config labels p) : Inv platform config labels p := by
  refine System.run_invariant (Inv platform config) ?_ (fun _ _ _ _ h hNext => h.next hNext) hRun
  exact ⟨rfl, ⟨rfl, List.nodup_nil⟩, rfl, Nat.zero_le _, fun _ => rfl⟩

/-! ## The additions of one call -/

/-- Along a run entries are appended, and nothing else happens to them. -/
theorem owners_grow {more : List (Label maxKeys maxKeys_pos)}
    (h : (relay platform config maxKeys maxKeys_pos).run p more = some q) :
    (memoryOf p.shared).owners <+: (memoryOf q.shared).owners := by
  induction more generalizing p with
  | nil =>
    cases h
    exact List.prefix_rfl
  | cons label more ih =>
    obtain ⟨r, hNext, hRest⟩ := Option.bind_eq_some_iff.mp h
    have hStep : (memoryOf p.shared).owners <+: (memoryOf r.shared).owners := by
      rcases next_memory hNext with hSame | ⟨_, _, _, _, _, -, -, hAdds⟩
      · exact hSame ▸ List.prefix_rfl
      · rw [hAdds.after]
        exact List.prefix_append _ _
    exact hStep.trans (ih hRest)

theorem addedBy_length_le {more : List (Label maxKeys maxKeys_pos)}
    (h : (relay platform config maxKeys maxKeys_pos).run p more = some q) (i : Nat) :
    (addedBy p.shared i).length ≤ (addedBy q.shared i).length :=
  ((owners_grow h).filter _).length_le

variable (platform config) in
/-- The run takes a step of call `i` from `q` to `r`, after these labels. -/
def StepOf (labels : List (Label maxKeys maxKeys_pos)) (i : Nat) (before : List (Label maxKeys maxKeys_pos))
    (q r : MemoryPool maxKeys maxKeys_pos) : Prop :=
  ∃ action after, labels = before ++ .act i action :: after ∧ Runs platform config before q ∧
    (relay platform config maxKeys maxKeys_pos).next q (.act i action) = some r

theorem StepOf.extend (h : StepOf platform config labels i before q r) (label : Label maxKeys maxKeys_pos) :
    StepOf platform config (labels ++ [label]) i before q r := by
  obtain ⟨action, after, rfl, hRest⟩ := h
  exact ⟨action, after ++ [label], by rw [List.append_assoc, List.cons_append], hRest⟩

theorem StepOf.later (h : StepOf platform config labels i before q r)
    (hRun : Runs platform config labels p) :
    ∃ after, (relay platform config maxKeys maxKeys_pos).run r after = some p := by
  obtain ⟨action, after, rfl, hBefore, hNext⟩ := h
  obtain ⟨q', hBefore', hAfter⟩ := System.run_append.mp hRun
  obtain rfl : q' = q := Option.some.inj (hBefore'.symm.trans hBefore)
  obtain ⟨r', hNext', hRest⟩ := Option.bind_eq_some_iff.mp hAfter
  obtain rfl : r' = r := Option.some.inj (hNext'.symm.trans hNext)
  exact ⟨after, hRest⟩

theorem StepOf.eq_of_length (h : StepOf platform config labels i before q r)
    (h' : StepOf platform config labels i before' q' r') (hLength : before.length = before'.length) :
    before = before' := by
  obtain ⟨_, _, rfl, -⟩ := h
  obtain ⟨_, _, hLabels, -⟩ := h'
  exact (List.append_inj hLabels hLength).1

/-- A step of a call leaves the store alone or adds one to its entries. -/
theorem StepOf.adds (h : StepOf platform config labels i before q r) :
    memoryOf r.shared = memoryOf q.shared ∨
      (addedBy r.shared i).length = (addedBy q.shared i).length + 1 := by
  obtain ⟨action, after, -, -, hNext⟩ := h
  rcases next_memory hNext with hSame | ⟨j, _, _, _, _, hLabel, -, hAdds⟩
  · exact .inl hSame
  · cases hLabel
    exact .inr hAdds.length_addedBy

/-- An entry was added by a step of its owner. -/
theorem exists_step_of_owner (hRun : Runs platform config labels p) (hOwner : (i, key) ∈ (memoryOf p.shared).owners) :
    ∃ before q r, StepOf platform config labels i before q r ∧ Adds i (memoryOf q.shared) (memoryOf r.shared) key := by
  have hInv := System.run_invariant (S := relay platform config maxKeys maxKeys_pos)
    (fun labels p => Runs platform config labels p ∧ ((i, key) ∈ (memoryOf p.shared).owners → ∃ before q r,
      StepOf platform config labels i before q r ∧ Adds i (memoryOf q.shared) (memoryOf r.shared) key))
    ⟨rfl, fun h => nomatch h⟩ ?_ hRun
  · exact hInv.2 hOwner
  · rintro labels p label q ⟨hBefore, hOld⟩ hNext
    refine ⟨System.run_append.mpr ⟨p, hBefore, Option.bind_eq_some_iff.mpr ⟨q, hNext, rfl⟩⟩, fun hMem => ?_⟩
    have hKept : (i, key) ∈ (memoryOf p.shared).owners → ∃ before q r,
        StepOf platform config (labels ++ [label]) i before q r ∧ Adds i (memoryOf q.shared) (memoryOf r.shared) key := by
      intro hMem
      obtain ⟨before, q, r, hStep, hAdds⟩ := hOld hMem
      exact ⟨before, q, r, hStep.extend label, hAdds⟩
    rcases next_memory hNext with hSame | ⟨j, claimID, entry, signature, _, rfl, -, hAdds⟩
    · exact hKept (hSame ▸ hMem)
    · rw [hAdds.after] at hMem
      rcases List.mem_append.mp hMem with hMem | hNew
      · exact hKept hMem
      · cases List.mem_singleton.mp hNew
        exact ⟨labels, p, q, ⟨.check claimID, [], rfl, hBefore, hNext⟩, hAdds⟩

/-- Two steps of a call that both add leave two entries. -/
theorem two_le_addedBy (hRun : Runs platform config labels p)
    (h : StepOf platform config labels i before q r) (h' : StepOf platform config labels i before' q' r')
    (hAdds : (addedBy r.shared i).length = (addedBy q.shared i).length + 1)
    (hAdds' : (addedBy r'.shared i).length = (addedBy q'.shared i).length + 1)
    (hEarlier : before.length < before'.length) : 2 ≤ (addedBy p.shared i).length := by
  obtain ⟨after', hAfter'⟩ := h'.later hRun
  have hEnd := addedBy_length_le hAfter' i
  obtain ⟨action, after, rfl, hBefore, hNext⟩ := h
  obtain ⟨action', rest', hLabels, hBefore', -⟩ := h'
  -- the later step finds the state that the earlier one left, or a later one
  have hStep : before ++ [.act i action] <+: before ++ .act i action :: after := ⟨after, by simp⟩
  have hPrefix : before ++ [.act i action] <+: before' := by
    apply List.prefix_of_prefix_length_le hStep ⟨_, hLabels.symm⟩
    rw [List.length_append]
    exact hEarlier
  obtain ⟨between, rfl⟩ := hPrefix
  obtain ⟨s, hUpTo, hBetween⟩ := System.run_append.mp hBefore'
  obtain ⟨q₁, hBefore₁, hLast⟩ := System.run_append.mp hUpTo
  obtain rfl : q₁ = q := Option.some.inj (hBefore₁.symm.trans hBefore)
  obtain ⟨r₁, hNext₁, hEq⟩ := Option.bind_eq_some_iff.mp hLast
  obtain rfl : r₁ = r := Option.some.inj (hNext₁.symm.trans hNext)
  cases hEq
  have hMiddle := addedBy_length_le hBetween i
  omega

/-- The only entry of a call is added by one of its steps, and the others leave the store alone. -/
theorem StepOf.alone (hStep : StepOf platform config labels i before q r) (hRun : Runs platform config labels p)
    (hGrows : (addedBy r.shared i).length = (addedBy q.shared i).length + 1) (hOne : (addedBy p.shared i).length ≤ 1)
    (hStep' : StepOf platform config labels i before' q' r') (hOther : before' ≠ before) :
    memoryOf r'.shared = memoryOf q'.shared := by
  apply hStep'.adds.resolve_right
  intro hGrows'
  rcases lt_trichotomy before.length before'.length with hLt | hEq | hGt
  · have hTwo := two_le_addedBy hRun hStep hStep' hGrows hGrows' hLt
    omega
  · exact hOther (hStep'.eq_of_length hStep hEq.symm)
  · have hTwo := two_le_addedBy hRun hStep' hStep hGrows' hGrows hGt
    omega

/-- A call has added nothing, or the entry of a signature that verified. -/
theorem CallInv.added_cases (h : CallInv platform config labels i s call) :
    addedBy s i = [] ∨ ∃ entry signature, Redeemable platform config labels i entry signature ∧
      addedBy s i = [(i, spendKey platform entry signature)] := by
  match call, h with
  | .idle, h => exact .inl h
  | .awaitingKey _ _ _, h => exact .inl h.2
  | .gotKey _ _ _, h => exact .inl h.2.1
  | .redeeming entry signature _ (.verdict true), h => exact .inr ⟨entry, signature, h.1, h.2.2⟩
  | .redeeming _ _ _ (.verdict false), h => exact .inl h.2.2
  | .redeeming _ _ _ .unavailable, h => exact .inl h.2.2
  | .returned (.admitted entry signature), h => exact .inr ⟨entry, signature, h.1, h.2⟩
  | .returned .refused, h => exact .inl h
  | .returned .unavailable, h => exact .inl h

/-- The owner of an entry presented a signature that verified. -/
theorem Inv.owner (h : Inv platform config labels p) (hOwner : (i, key) ∈ (memoryOf p.shared).owners) :
    ∃ entry signature, Redeemable platform config labels i entry signature ∧
      key = spendKey platform entry signature := by
  have hMem : (i, key) ∈ addedBy p.shared i := List.mem_filter.mpr ⟨hOwner, by simp⟩
  rcases (h.calls i).added_cases with hNone | ⟨entry, signature, hRedeemable, hAdded⟩
  · rw [hNone] at hMem
    cases hMem
  · rw [hAdded] at hMem
    cases List.mem_singleton.mp hMem
    exact ⟨entry, signature, hRedeemable, rfl⟩

theorem Inv.owners_nodup (h : Inv platform config labels p) : ((memoryOf p.shared).owners.map Prod.fst).Nodup := by
  apply List.nodup_iff_count_le_one.mpr
  intro i
  rw [List.count, List.countP_map, List.countP_eq_length_filter]
  change (addedBy p.shared i).length ≤ 1
  rcases (h.calls i).added_cases with hNone | ⟨_, _, -, hAdded⟩
  · simp [hNone]
  · simp [hAdded]

variable (platform config) in
/-- What a run leaves in the spend set, and how it came there. -/
structure Safe (labels : List (Label maxKeys maxKeys_pos)) (p : MemoryPool maxKeys maxKeys_pos) : Prop where
  /-- `redeem` is called for signatures that verify under a key that was live. -/
  redeems : ∀ i entry signature request result, p.calls i = .redeeming entry signature request result →
    Redeemable platform config labels i entry signature ∧
      Redeemer.memoryKey request = spendKey platform entry signature
  /-- A call that returned `true` added one entry, in one step. -/
  admitted : ∀ i entry signature, (p.calls i).outcome? = some (.admitted entry signature) →
    ∃ before q r, StepOf platform config labels i before q r ∧
      Adds i (memoryOf q.shared) (memoryOf r.shared) (spendKey platform entry signature) ∧
      ∀ before' q' r', StepOf platform config labels i before' q' r' → before' ≠ before →
        memoryOf r'.shared = memoryOf q'.shared
  /-- A call that returned `false` or threw left the store as it was, in all of its steps. -/
  refused : ∀ i, (p.calls i).outcome? = some .refused ∨ (p.calls i).outcome? = some .unavailable →
    ∀ before q r, StepOf platform config labels i before q r → memoryOf r.shared = memoryOf q.shared
  verified : ∀ key ∈ (memoryOf p.shared).store.spent, ∃ i entry signature,
    Redeemable platform config labels i entry signature ∧ key = spendKey platform entry signature
  nodup : (memoryOf p.shared).store.spent.Nodup
  room : (memoryOf p.shared).store.spent.length ≤ maxKeys
  kept : ∀ more q, (relay platform config maxKeys maxKeys_pos).run p more = some q →
    (memoryOf p.shared).store.spent <+: (memoryOf q.shared).store.spent
  /-- Only calls with a signature that verifies take up room. -/
  filled : ∀ valid : List Nat, (∀ i entry signature, Redeemable platform config labels i entry signature → i ∈ valid) →
    (memoryOf p.shared).store.spent.length ≤ valid.length

theorem Inv.admitted (h : Inv platform config labels p)
    (hOutcome : (p.calls i).outcome? = some (.admitted entry signature)) :
    addedBy p.shared i = [(i, spendKey platform entry signature)] := by
  have hCall := h.calls i
  generalize p.calls i = call at hCall hOutcome
  match call, hOutcome with
  | .returned (.admitted _ _), rfl => exact hCall.2

theorem Inv.refused (h : Inv platform config labels p)
    (hOutcome : (p.calls i).outcome? = some .refused ∨ (p.calls i).outcome? = some .unavailable) :
    addedBy p.shared i = [] := by
  have hCall := h.calls i
  generalize p.calls i = call at hCall hOutcome
  match call, hOutcome with
  | .returned .refused, _ => exact hCall
  | .returned .unavailable, _ => exact hCall

/-- Garbage cannot reach the spend set, let alone fill it. -/
theorem forged_tokens_never_spend {labels : List (Label maxKeys maxKeys_pos)} {p : MemoryPool maxKeys maxKeys_pos}
    (hRun : Runs platform config labels p) : Safe platform config labels p := by
  have hInv := relay_invariant hRun
  have hSpent : (memoryOf p.shared).owners.map Prod.snd = (memoryOf p.shared).store.spent := hInv.memory.owned
  constructor
  case redeems =>
    intro i entry signature request result hCall
    have hOwn := hInv.calls i
    rw [hCall] at hOwn
    exact ⟨hOwn.1, hOwn.2.1⟩
  case admitted =>
    intro i entry signature hOutcome
    have hAdded := hInv.admitted hOutcome
    have hOwner : (i, spendKey platform entry signature) ∈ addedBy p.shared i := by
      rw [hAdded]
      exact List.mem_singleton.mpr rfl
    obtain ⟨before, q, r, hStep, hAdds⟩ := exists_step_of_owner hRun (List.mem_filter.mp hOwner).1
    refine ⟨before, q, r, hStep, hAdds, fun before' q' r' hStep' hOther => ?_⟩
    have hOne : (addedBy p.shared i).length ≤ 1 := by rw [hAdded, List.length_singleton]
    exact hStep.alone hRun hAdds.length_addedBy hOne hStep' hOther
  case refused =>
    intro i hOutcome before q r hStep
    apply hStep.adds.resolve_right
    intro hGrows
    obtain ⟨after, hAfter⟩ := hStep.later hRun
    have hEnd := addedBy_length_le hAfter i
    rw [hInv.refused hOutcome, List.length_nil] at hEnd
    omega
  case verified =>
    intro key hKey
    rw [← hSpent] at hKey
    obtain ⟨⟨i, _⟩, hOwner, rfl⟩ := List.mem_map.mp hKey
    obtain ⟨entry, signature, hRedeemable, hEq⟩ := hInv.owner hOwner
    exact ⟨i, entry, signature, hRedeemable, hEq⟩
  case nodup => exact hInv.memory.nodup
  case room => exact hInv.room
  case kept =>
    intro more q hMore
    have hLater := relay_invariant (System.run_append.mpr ⟨p, hRun, hMore⟩)
    rw [← hSpent, ← hLater.memory.owned]
    exact (owners_grow hMore).map _
  case filled =>
    intro valid hValid
    have hSub : (memoryOf p.shared).owners.map Prod.fst ⊆ valid := by
      intro i hi
      obtain ⟨⟨i, key⟩, hOwner, rfl⟩ := List.mem_map.mp hi
      obtain ⟨entry, signature, hRedeemable, -⟩ := hInv.owner hOwner
      exact hValid i entry signature hRedeemable
    rw [← hSpent, List.length_map, ← List.length_map (f := Prod.fst)]
    exact (List.subperm_of_subset hInv.owners_nodup hSub).length_le

/-! ## A forged token next to a genuine one -/

def forgedSignature : Bytes := List.replicate 256 2

def testPlatform : Platform :=
  { AccessToken.testPlatform with
    jsonParse := fun bytes => ([fullSignature, forgedSignature].find? fun s => tokenText s = bytes).map tokenValue }

def genuineAndForged : List (Label 5 one_le_five) :=
  [.act 0 (.start 0 (header fullSignature) fun _ => 1000), .env (.fetched 0 (fun _ => 1001) (some testDocument)),
   .env (.cleared 0), .act 0 (.resumeGet fun _ => 1002), .act 1 (.start 0 (header forgedSignature) fun _ => 1003),
   .act 1 (.check []), .act 0 (.check []), .act 0 .finish]

def testPool : MemoryPool 5 one_le_five := (relay testPlatform testConfig 5 one_le_five).after genuineAndForged

theorem forged_tokens_never_spend_forged : (testPool.calls 0).outcome? = some (.admitted testEntry fullSignature) ∧
    (testPool.calls 1).outcome? = some .refused ∧ (memoryOf testPool.shared).store.spent.length = 1 ∧
    ∀ before q r, StepOf testPlatform testConfig genuineAndForged 1 before q r →
      memoryOf r.shared = memoryOf q.shared := by
  obtain ⟨hGenuine, hForged, hSpent⟩ : (testPool.calls 0).outcome? = some (.admitted testEntry fullSignature) ∧
      (testPool.calls 1).outcome? = some .refused ∧ (memoryOf testPool.shared).store.spent.length = 1 := by
    decide +kernel
  have hRun : Runs testPlatform testConfig genuineAndForged testPool :=
    (relay testPlatform testConfig 5 one_le_five).run_after (by decide +kernel)
  exact ⟨hGenuine, hForged, hSpent, (forged_tokens_never_spend hRun).refused 1 (.inl hForged)⟩

end Columbia.Relay.SpendSet
