import Columbia.Lib.Transition
import Columbia.Issuer.EpochKeys

/-! # Calls of `keysForEpoch` over one import

The import is started by the first call that finds its epoch live, is kept, and is awaited by every later call.
Each configured key settles on its own. A call reads the clock again when it resumes.
-/
namespace Columbia.Issuer.KeyProvider
open Columbia.Js Columbia.Lib
open Columbia.Issuer.EpochKeys hiding keysForEpoch
open Columbia.Issuer.Issue (SigningKey Imported)
set_option autoImplicit false

/-! ## Promises -/

inductive Promise (α : Type)
  | pending
  | rejected
  | fulfilled (value : α)

section
variable {α β : Type}

/-- `Promise.all`: rejected with the first rejection, fulfilled with the last fulfilment. -/
def Promise.all : List (Promise α) → Promise (List α)
  | [] => .fulfilled []
  | p :: ps =>
    match p, Promise.all ps with
    | .fulfilled a, .fulfilled as => .fulfilled (a :: as)
    | .rejected, _ => .rejected
    | _, .rejected => .rejected
    | _, _ => .pending

/-- The continuation may throw. -/
def Promise.andThen (f : α → Option β) : Promise α → Promise β
  | .pending => .pending
  | .rejected => .rejected
  | .fulfilled a => (f a).elim .rejected .fulfilled

theorem Promise.all_eq_fulfilled {ps : List (Promise α)} {as : List α} (h : Promise.all ps = .fulfilled as) :
    ps = as.map .fulfilled := by
  induction ps generalizing as with
  | nil =>
    cases h
    rfl
  | cons p ps ih =>
    cases hRest : Promise.all ps with
    | pending => cases p <;> simp [Promise.all, hRest] at h
    | rejected => cases p <;> simp [Promise.all, hRest] at h
    | fulfilled rest =>
      cases p with
      | pending => simp [Promise.all, hRest] at h
      | rejected => simp [Promise.all] at h
      | fulfilled a =>
        simp only [Promise.all, hRest, fulfilled.injEq] at h
        subst h
        rw [ih hRest]
        rfl

theorem Promise.andThen_eq_fulfilled {f : α → Option β} {p : Promise α} {b : β}
    (h : p.andThen f = .fulfilled b) : ∃ a, p = .fulfilled a ∧ f a = some b := by
  cases p with
  | pending => cases h
  | rejected => cases h
  | fulfilled a =>
    refine ⟨a, rfl, ?_⟩
    cases hf : f a with
    | none =>
      rw [Promise.andThen, hf] at h
      cases h
    | some c =>
      rw [Promise.andThen, hf] at h
      cases h
      rfl

end

/-! ## The provider's calls -/

/-- What `currentEpoch()` gives; `none` when it throws. -/
abbrev Reading := Option Value

def readEpoch (clock : Reading) : Option Int := clock.bind (safeIntegerFrom? 0)

/-- A clock that cannot be read rejects the call, as an epoch that is not live does. -/
def isLive (clock : Reading) (epoch : Value) : Prop :=
  ∃ now e, readEpoch clock = some now ∧ safeIntegerFrom? 0 epoch = some e ∧ (e = now ∨ e = now - 1)

instance (clock : Reading) (epoch : Value) : Decidable (isLive clock epoch) :=
  match hNow : readEpoch clock, hEpoch : safeIntegerFrom? 0 epoch with
  | some now, some e => decidable_of_iff (e = now ∨ e = now - 1) (by simp [isLive, hNow, hEpoch])
  | none, _ => isFalse (by simp [isLive, hNow])
  | some _, none => isFalse (by simp [isLive, hEpoch])

section
variable (platform : Platform)

/-- The clock is read when there is a manifest, and only then. -/
def create (legacySigningKeyB64 : Str) (manifestJSON : Value) (clock : Reading) : Option Provider :=
  match manifestJSON with
  | .undefined => createEpochKeyProvider platform legacySigningKeyB64 .undefined 0
  | _ => (readEpoch clock).bind (createEpochKeyProvider platform legacySigningKeyB64 manifestJSON)

/-- What `load` makes of the keys, in the order in which they are configured. -/
def keysOf : Provider → List (Str × SigningKey) → Option Imported
  | .manifest records, keys =>
    if (keys.map Prod.fst).Nodup then some (.manifest ((records.map Prod.fst).zip (keys.map Prod.snd))) else none
  | .legacy _, keys => keys.head?.map fun key => .legacy key.2

/-- `imported`: nothing before the first `load`, then one promise for each configured key. -/
abbrev Shared := Option (List (Promise (Str × SigningKey)))

def loaded (provider : Provider) (imports : List (Promise (Str × SigningKey))) : Promise Imported :=
  (Promise.all imports).andThen (keysOf provider)

def load (provider : Provider) (imported : Shared) : Shared :=
  some (imported.getD (provider.materials.map fun _ => .pending))

inductive Call
  | idle
  | awaiting (epoch : Value)
  | resolved (epoch : Value) (clock : Reading) (entry : SigningKey)
  | rejected

inductive Action
  | call (epoch : Value) (clock : Reading)
  | resume (clock : Reading)

/-- A resumed call, once what it awaits has settled. -/
def resumed (keys : Option Imported) (epoch : Value) (clock : Reading) : Call :=
  match keys with
  | none => .rejected
  | some imported =>
    if isLive clock epoch then
      (((safeIntegerFrom? 0 epoch).bind (keyAt imported)).map (.resolved epoch clock)).getD .rejected
    else .rejected

def keysForEpoch (provider : Provider) : Action → Shared → Call → Option (Shared × Call)
  | .call epoch clock, imported, .idle =>
    if isLive clock epoch then some (load provider imported, .awaiting epoch) else some (imported, .rejected)
  | .resume clock, some imports, .awaiting epoch =>
    match loaded provider imports with
    | .pending => none
    | .rejected => some (some imports, resumed none epoch clock)
    | .fulfilled keys => some (some imports, resumed (some keys) epoch clock)
  | _, _, _ => none

/-- An import of key `index` comes to its end; `fails` when the platform throws without a reason in the key. -/
structure Settle where
  index : Nat
  fails : Bool

def importOf (material : Str) (fails : Bool) : Promise (Str × SigningKey) :=
  if fails then .rejected else (importKey platform material).elim .rejected .fulfilled

def settle (provider : Provider) (event : Settle) : Shared → Option Shared
  | none => none
  | some imports =>
    match provider.materials[event.index]?, imports[event.index]? with
    | some material, some .pending => some (some (imports.set event.index (importOf platform material event.fails)))
    | _, _ => none

def calls (provider : Provider) : Calls Shared Call Action Settle where
  start := none
  idle := .idle
  act _ := keysForEpoch provider
  env := settle platform provider

end

/-! ## What the provider has read -/

def epochOf (record : Value) : Option Int := safeIntegerFrom? 0 (record.field "epoch")

def privateKeyOf (record : Value) : Option Str := string? (record.field "privateKey")

/-- A record of the manifest as it was read. -/
def ReadAs (value : Value) (record : Int × Str) : Prop :=
  epochOf value = some record.1 ∧ privateKeyOf value = some record.2

/-- The records of the manifest, as its text has them. -/
def ManifestRecords (platform : Platform) (manifestJSON : Value) (values : List Value) : Prop :=
  ∃ text manifest, manifestJSON = .str text ∧ platform.jsonParse text = some manifest ∧
    manifest.field "keys" = .arr values

section
variable {platform : Platform} {provider : Provider}

theorem readRecords_eq_some {now : Int} {values : List Value} {before records : List (Int × Str)}
    (h : values.foldlM (readRecord now) before = some records) :
    ∃ new, records = before ++ new ∧
      List.Forall₂ ReadAs values new ∧
      ((before.map Prod.fst).Nodup → (records.map Prod.fst).Nodup) := by
  induction values generalizing before with
  | nil =>
    cases h
    exact ⟨[], by simp, .nil, id⟩
  | cons value values ih =>
    rw [List.foldlM_cons, Option.bind_eq_bind, Option.bind_eq_some_iff] at h
    obtain ⟨next, hRead, hRest⟩ := h
    simp only [readRecord, Option.bind_eq_bind, Option.bind_eq_some_iff, Option.guard_eq_some', exists_const,
      Option.some.injEq] at hRead
    obtain ⟨epoch, hEpoch, ⟨-, hNew⟩, privateKey, hKey, -, rfl⟩ := hRead
    obtain ⟨new, rfl, hAll, hNodup⟩ := ih hRest
    refine ⟨(epoch, privateKey) :: new, by simp, .cons ⟨hEpoch, hKey⟩ hAll, fun hBefore => hNodup ?_⟩
    rw [List.map_append]
    exact hBefore.append (List.nodup_singleton _) (List.disjoint_singleton.mpr hNew)

/-- With a manifest the legacy key is not looked at. -/
theorem create_manifest {legacySigningKeyB64 : Str} {manifestJSON : Value} {clock : Reading}
    (hManifest : manifestJSON ≠ .undefined)
    (h : create platform legacySigningKeyB64 manifestJSON clock = some provider) :
    (∃ values records, ManifestRecords platform manifestJSON values ∧ provider = .manifest records ∧
      List.Forall₂ ReadAs values records ∧ (records.map Prod.fst).Nodup) ∧
    ∀ other, create platform other manifestJSON clock = some provider := by
  have hCreate : ∀ other, create platform other manifestJSON clock =
      (readEpoch clock).bind (createEpochKeyProvider platform other manifestJSON) := by
    intro other
    cases manifestJSON with
    | undefined => exact absurd rfl hManifest
    | _ => rfl
  rw [hCreate] at h
  obtain ⟨now, hNow, hProvider⟩ := Option.bind_eq_some_iff.mp h
  cases manifestJSON with
  | str text =>
    refine ⟨?_, fun other => by rw [hCreate, hNow]; exact hProvider⟩
    simp only [createEpochKeyProvider, Option.bind_eq_bind, Option.bind_eq_some_iff, Option.guard_eq_some',
      exists_const] at hProvider
    obtain ⟨-, manifest, hText, -, hKeys⟩ := hProvider
    cases hField : manifest.field "keys" with
    | arr values =>
      simp only [hField, Option.bind_eq_some_iff, Option.guard_eq_some', exists_const, Option.map_eq_some_iff] at hKeys
      obtain ⟨-, records, hRecords, rfl⟩ := hKeys
      obtain ⟨new, hNew, hAll, hNodup⟩ := readRecords_eq_some hRecords
      rw [List.nil_append] at hNew
      subst hNew
      exact ⟨values, records, ⟨text, manifest, rfl, hText, hField⟩, rfl, hAll, hNodup .nil⟩
    | _ => simp [hField] at hKeys
  | undefined => exact absurd rfl hManifest
  | _ => cases hProvider

/-! ## What every run keeps -/

/-- A fulfilled promise holds the key that its own material imports to. -/
def Faithful (platform : Platform) (provider : Provider) (imported : Shared) : Prop :=
  ∀ imports, imported = some imports → List.Forall₂ (fun material promise => ∀ key, promise = .fulfilled key →
    importKey platform material = some key) provider.materials imports

/-- A call was answered from the whole import, at a moment when its epoch was live. -/
def Answered (provider : Provider) (imported : Shared) : Call → Prop
  | .resolved epoch clock entry => isLive clock epoch ∧ ∃ imports keys e, imported = some imports ∧
      loaded provider imports = .fulfilled keys ∧ safeIntegerFrom? 0 epoch = some e ∧ keyAt keys e = some entry
  | _ => True

theorem loaded_eq_fulfilled {imports : List (Promise (Str × SigningKey))} {imported : Imported}
    (h : loaded provider imports = .fulfilled imported) :
    ∃ keys, imports = keys.map .fulfilled ∧ keysOf provider keys = some imported := by
  obtain ⟨keys, hKeys, hImported⟩ := Promise.andThen_eq_fulfilled h
  exact ⟨keys, Promise.all_eq_fulfilled hKeys, hImported⟩

theorem resumed_answered {imports : List (Promise (Str × SigningKey))} {keys : Imported} {epoch : Value}
    {clock : Reading} (h : loaded provider imports = .fulfilled keys) :
    Answered provider (some imports) (resumed (some keys) epoch clock) := by
  simp only [resumed]
  split
  · rename_i hLive
    cases hEntry : (safeIntegerFrom? 0 epoch).bind (keyAt keys) with
    | none => trivial
    | some entry =>
      obtain ⟨e, hEpoch, hKey⟩ := Option.bind_eq_some_iff.mp hEntry
      exact ⟨hLive, imports, keys, e, rfl, h, hEpoch, hKey⟩
  · trivial

theorem load_faithful {imported : Shared} (h : Faithful platform provider imported) :
    Faithful platform provider (load provider imported) := by
  cases imported with
  | some imports => exact h
  | none =>
    rintro imports ⟨rfl⟩
    rw [Option.getD_none, List.forall₂_map_right_iff, List.forall₂_same]
    rintro material _ key ⟨⟩

theorem answered_load {imported : Shared} {call : Call} (h : Answered provider imported call) :
    Answered provider (load provider imported) call := by
  cases imported with
  | some imports => exact h
  | none =>
    cases call with
    | resolved epoch clock entry =>
      obtain ⟨-, imports, -, -, hNone, -⟩ := h
      cases hNone
    | _ => trivial

/-- What a call's step can do: nothing to the import but start it, and it is answered from it. -/
theorem keysForEpoch_cases {action : Action} {imported next : Shared} {call call' : Call}
    (h : keysForEpoch provider action imported call = some (next, call')) :
    (next = imported ∨ next = load provider imported) ∧ Answered provider next call' := by
  cases action with
  | call epoch clock =>
    cases call with
    | idle =>
      simp only [keysForEpoch] at h
      split at h
      · cases h
        exact ⟨.inr rfl, trivial⟩
      · cases h
        exact ⟨.inl rfl, trivial⟩
    | _ => simp [keysForEpoch] at h
  | resume clock =>
    cases imported with
    | none => simp [keysForEpoch] at h
    | some imports =>
      cases call with
      | awaiting epoch =>
        cases hLoaded : loaded provider imports with
        | pending => simp [keysForEpoch, hLoaded] at h
        | rejected =>
          simp only [keysForEpoch, hLoaded, Option.some.injEq, Prod.mk.injEq] at h
          obtain ⟨rfl, rfl⟩ := h
          exact ⟨.inl rfl, trivial⟩
        | fulfilled keys =>
          simp only [keysForEpoch, hLoaded, Option.some.injEq, Prod.mk.injEq] at h
          obtain ⟨rfl, rfl⟩ := h
          exact ⟨.inl rfl, resumed_answered hLoaded⟩
      | _ => simp [keysForEpoch] at h

theorem settle_eq_some {event : Settle} {imported next : Shared}
    (h : settle platform provider event imported = some next) :
    ∃ imports material, imported = some imports ∧ provider.materials[event.index]? = some material ∧
      imports[event.index]? = some .pending ∧
      next = some (imports.set event.index (importOf platform material event.fails)) := by
  cases imported with
  | none => cases h
  | some imports =>
    simp only [settle] at h
    split at h
    · rename_i material hMaterial hPending
      cases h
      exact ⟨imports, material, rfl, hMaterial, hPending, rfl⟩
    · cases h

theorem importOf_eq_fulfilled {material : Str} {fails : Bool} {key : Str × SigningKey}
    (h : importOf platform material fails = .fulfilled key) : importKey platform material = some key := by
  unfold importOf at h
  split at h
  · cases h
  · cases hKey : importKey platform material with
    | none => simp [hKey] at h
    | some found =>
      simp only [hKey, Option.elim_some, Promise.fulfilled.injEq] at h
      rw [h]

theorem settle_faithful {event : Settle} {imported next : Shared}
    (h : settle platform provider event imported = some next) (hFaithful : Faithful platform provider imported) :
    Faithful platform provider next := by
  obtain ⟨imports, material, rfl, hMaterial, hPending, rfl⟩ := settle_eq_some h
  rintro _ ⟨rfl⟩
  have hAll := List.forall₂_iff_get.mp (hFaithful imports rfl)
  refine List.forall₂_iff_get.mpr ⟨by simpa using hAll.1, fun index hLeft hRight key hKey => ?_⟩
  simp only [List.get_eq_getElem, List.getElem_set] at hKey ⊢
  split at hKey
  · rename_i hIndex
    subst hIndex
    rw [List.getElem?_eq_getElem hLeft] at hMaterial
    cases hMaterial
    exact importOf_eq_fulfilled hKey
  · exact hAll.2 index hLeft (by simpa using hRight) key hKey

/-- Once a call has been answered nothing is left to settle. -/
theorem settle_answered {event : Settle} {imported next : Shared}
    (h : settle platform provider event imported = some next) {call : Call} (hCall : Answered provider imported call) :
    Answered provider next call := by
  cases call with
  | resolved epoch clock entry =>
    obtain ⟨imports, material, rfl, -, hPending, rfl⟩ := settle_eq_some h
    obtain ⟨-, imports', keys, -, hSame, hLoaded, -⟩ := hCall
    cases hSame
    obtain ⟨found, rfl, -⟩ := loaded_eq_fulfilled hLoaded
    rw [List.getElem?_map, Option.map_eq_some_iff] at hPending
    obtain ⟨key, -, hKey⟩ := hPending
    cases hKey
  | _ => trivial

theorem reachable_answered {p : Pool Shared Call} (h : (calls platform provider).system.Reachable p) :
    Faithful platform provider p.shared ∧ ∀ i, Answered provider p.shared (p.calls i) := by
  refine Calls.invariant (Faithful platform provider) (fun _ => Answered provider) ?_ ?_ ?_ ?_ ?_ h
  · intro imports hNone
    cases hNone
  · intro i
    trivial
  · intro p i action shared call _ hFaithful _ hAct
    obtain ⟨hShared, hCall⟩ := keysForEpoch_cases hAct
    refine ⟨?_, hCall⟩
    rcases hShared with rfl | rfl
    · exact hFaithful
    · exact load_faithful hFaithful
  · intro p i j action shared call _ _ _ _ hOther hAct
    rcases (keysForEpoch_cases hAct).1 with rfl | rfl
    · exact hOther
    · exact answered_load hOther
  · intro p event shared _ hFaithful hEnv
    exact ⟨settle_faithful hEnv hFaithful, fun i hCall => settle_answered hEnv hCall⟩

/-! ## What is released -/

def Imports (platform : Platform) (record : Value) (key : Str × SigningKey) : Prop :=
  ∃ material, privateKeyOf record = some material ∧ importKey platform material = some key

/-- The same RSA modulus and exponent, under any encoding. -/
def SameMaterial (platform : Platform) (a b : Value) : Prop :=
  ∃ material material' jwk jwk' spki spki', privateKeyOf a = some material ∧ privateKeyOf b = some material' ∧
    importSpki platform material = some (jwk, spki) ∧ importSpki platform material' = some (jwk', spki') ∧
    jwk.n = jwk'.n ∧ jwk.e = jwk'.e

theorem SameMaterial.fingerprint_eq {a b : Value} {key key' : Str × SigningKey} (h : SameMaterial platform a b)
    (ha : Imports platform a key) (hb : Imports platform b key') : key.1 = key'.1 := by
  obtain ⟨material, material', jwk, jwk', spki, spki', hMaterial, hMaterial', hSpki, hSpki', hn, he⟩ := h
  obtain ⟨_, hFirst, hKey⟩ := ha
  obtain ⟨_, hSecond, hKey'⟩ := hb
  rw [hMaterial] at hFirst
  cases hFirst
  rw [hMaterial'] at hSecond
  cases hSecond
  rw [importKey, hSpki] at hKey
  cases hKey
  rw [importKey, hSpki'] at hKey'
  cases hKey'
  simp only [materialFingerprint, hn, he]

theorem pairwise_not_sameMaterial {values : List Value} {keys : List (Str × SigningKey)}
    (h : List.Forall₂ (Imports platform) values keys) (hNodup : (keys.map Prod.fst).Nodup) :
    values.Pairwise fun a b => ¬ SameMaterial platform a b := by
  induction h with
  | nil => exact .nil
  | @cons value key values keys hHead hTail ih =>
    rw [List.map_cons, List.nodup_cons] at hNodup
    refine .cons (fun other hOther hSame => hNodup.1 ?_) (ih hNodup.2)
    obtain ⟨key', hMem, hImports⟩ := exists_of_forall₂ hTail.flip hOther
    rw [hSame.fingerprint_eq hHead hImports]
    exact List.mem_map_of_mem hMem

theorem imports_of_reads {values : List Value} {records : List (Int × Str)} {keys : List (Str × SigningKey)}
    (hRead : List.Forall₂ ReadAs values records)
    (hImport : List.Forall₂ (fun record key => importKey platform record.2 = some key) records keys) :
    List.Forall₂ (Imports platform) values keys := by
  induction hRead generalizing keys with
  | nil =>
    cases hImport
    exact .nil
  | cons hHead _ ih =>
    obtain ⟨key, rest, hKey, hRest, rfl⟩ := List.forall₂_cons_left_iff.mp hImport
    exact .cons ⟨_, hHead.2, hKey⟩ (ih hRest)

theorem filter_of_reads {values : List Value} {records : List (Int × Str)} {e : Int} {material : Str}
    (hRead : List.Forall₂ ReadAs values records) (hNodup : (records.map Prod.fst).Nodup)
    (hMem : (e, material) ∈ records) :
    ∃ record, values.filter (fun value => epochOf value = some e) = [record] ∧ privateKeyOf record = some material := by
  induction hRead with
  | nil => cases hMem
  | @cons value record values records hHead hTail ih =>
    rw [List.map_cons, List.nodup_cons] at hNodup
    rcases List.mem_cons.mp hMem with rfl | hMem
    · refine ⟨value, ?_, hHead.2⟩
      have hNone : ∀ other ∈ values, epochOf other ≠ some e := by
        intro other hOther hEpoch
        obtain ⟨record, hRecord, hReads⟩ := exists_of_forall₂ hTail.flip hOther
        rw [hReads.1] at hEpoch
        cases hEpoch
        exact hNodup.1 (List.mem_map.mpr ⟨record, hRecord, rfl⟩)
      rw [List.filter_cons_of_pos (by simpa using hHead.1), List.filter_eq_nil_iff.mpr (by simpa using hNone)]
    · obtain ⟨found, hFilter, hKey⟩ := ih hNodup.2 hMem
      refine ⟨found, ?_, hKey⟩
      have hOther : epochOf value ≠ some e := by
        rw [hHead.1]
        rintro ⟨rfl⟩
        exact hNodup.1 (List.mem_map.mpr ⟨_, hMem, rfl⟩)
      rw [List.filter_cons_of_neg (by simpa using hOther), hFilter]

theorem exists_record_of_mem_zip {records : List (Int × Str)} {keys : List (Str × SigningKey)} {e : Int}
    {entry : SigningKey} (hImport : List.Forall₂ (fun record key => importKey platform record.2 = some key) records keys)
    (hMem : (e, entry) ∈ (records.map Prod.fst).zip (keys.map Prod.snd)) :
    ∃ material fingerprint, (e, material) ∈ records ∧ importKey platform material = some (fingerprint, entry) := by
  induction hImport with
  | nil => cases hMem
  | @cons record key records keys hHead _ ih =>
    rw [List.map_cons, List.map_cons, List.zip_cons_cons, List.mem_cons] at hMem
    rcases hMem with hEq | hMem
    · cases hEq
      exact ⟨record.2, key.1, List.mem_cons_self, hHead⟩
    · obtain ⟨material, fingerprint, hRecord, hKey⟩ := ih hMem
      exact ⟨material, fingerprint, List.mem_cons_of_mem _ hRecord, hKey⟩

/-- Of a fulfilled import of a manifest, every record's key has been imported, no two alike. -/
theorem loaded_manifest {records : List (Int × Str)} {imports : List (Promise (Str × SigningKey))} {imported : Imported}
    (hFaithful : Faithful platform (.manifest records) (some imports))
    (h : loaded (.manifest records) imports = .fulfilled imported) :
    ∃ keys, imports = keys.map .fulfilled ∧ (keys.map Prod.fst).Nodup ∧
      imported = .manifest ((records.map Prod.fst).zip (keys.map Prod.snd)) ∧
      List.Forall₂ (fun record key => importKey platform record.2 = some key) records keys := by
  obtain ⟨keys, rfl, hKeys⟩ := loaded_eq_fulfilled h
  rw [keysOf] at hKeys
  split at hKeys
  · rename_i hNodup
    cases hKeys
    refine ⟨keys, rfl, hNodup, rfl, ?_⟩
    have hAll := hFaithful _ rfl
    rw [Provider.materials, List.forall₂_map_left_iff, List.forall₂_map_right_iff] at hAll
    exact hAll.imp fun _ key hKey => hKey key rfl
  · cases hKeys

theorem mapM_of_imports {records : List (Int × Str)} {keys : List (Str × SigningKey)}
    (h : List.Forall₂ (fun record key => importKey platform record.2 = some key) records keys) :
    ∃ all, records.mapM (fun record => (importKey platform record.2).map fun key => (record.1, key)) = some all ∧
      (all.map fun key => key.2.1) = keys.map Prod.fst ∧
      (all.map fun key => (key.1, key.2.2)) = (records.map Prod.fst).zip (keys.map Prod.snd) := by
  induction h with
  | nil => exact ⟨[], rfl, rfl, rfl⟩
  | @cons record key records keys hHead _ ih =>
    obtain ⟨all, hAll, hFingerprints, hEntries⟩ := ih
    refine ⟨(record.1, key) :: all, ?_, ?_, ?_⟩
    · rw [List.mapM_cons, hHead, hAll]
      rfl
    · rw [List.map_cons, hFingerprints, List.map_cons]
    · rw [List.map_cons, hEntries, List.map_cons, List.map_cons, List.zip_cons_cons]

/-- The import that the calls await comes, if it comes, to what importing the configuration at once gives. -/
theorem loaded_eq_load {imports : List (Promise (Str × SigningKey))} {imported : Imported}
    (hFaithful : Faithful platform provider (some imports)) (h : loaded provider imports = .fulfilled imported) :
    EpochKeys.load platform provider = some imported := by
  cases provider with
  | manifest records =>
    obtain ⟨keys, -, hNodup, rfl, hImport⟩ := loaded_manifest hFaithful h
    obtain ⟨all, hAll, hFingerprints, hEntries⟩ := mapM_of_imports hImport
    rw [EpochKeys.load, hAll]
    simp [hFingerprints, hNodup, hEntries]
  | legacy material =>
    obtain ⟨keys, rfl, hKeys⟩ := loaded_eq_fulfilled h
    obtain ⟨key, hHead, rfl⟩ := Option.map_eq_some_iff.mp hKeys
    have hAll := hFaithful _ rfl
    rw [Provider.materials, List.forall₂_map_right_iff] at hAll
    obtain ⟨only, rest, hKey, hRest, rfl⟩ := List.forall₂_cons_left_iff.mp hAll
    cases hHead
    rw [EpochKeys.load, hKey key rfl]
    rfl

theorem answer_of_load {p : Pool Shared Call} (hReach : (calls platform provider).system.Reachable p) {i : Nat}
    {epoch : Value} {clock : Reading} {entry : SigningKey} (hCall : p.calls i = .resolved epoch clock entry) :
    ∃ imported e, EpochKeys.load platform provider = some imported ∧ safeIntegerFrom? 0 epoch = some e ∧
      keyAt imported e = some entry := by
  obtain ⟨hFaithful, hAnswered⟩ := reachable_answered hReach
  have hAnswer := hAnswered i
  rw [hCall] at hAnswer
  obtain ⟨-, imports, imported, e, hShared, hLoaded, hEpoch, hKey⟩ := hAnswer
  rw [hShared] at hFaithful
  exact ⟨imported, e, loaded_eq_load hFaithful hLoaded, hEpoch, hKey⟩

/-- A call that resolves asks for the epoch the clock then shows, or for the one before. With a manifest it gets
the key of the one record for that epoch, every record has been imported, no two records hold the same key, and the
provider is the one that any other legacy key gives. -/
theorem released_live_manifest_key {legacySigningKeyB64 : Str} {manifestJSON : Value} {first : Reading}
    (hCreate : create platform legacySigningKeyB64 manifestJSON first = some provider) {p : Pool Shared Call}
    (hReach : (calls platform provider).system.Reachable p) {i : Nat} {epoch : Value} {clock : Reading}
    {entry : SigningKey} (hCall : p.calls i = .resolved epoch clock entry) :
    ∃ e n, safeIntegerFrom? 0 epoch = some e ∧ readEpoch clock = some n ∧ (e = n ∨ e = n - 1) ∧
      (manifestJSON ≠ .undefined → ∃ values imports,
        ManifestRecords platform manifestJSON values ∧ p.shared = some imports ∧
        (∃ record fingerprint, values.filter (fun value => epochOf value = some e) = [record] ∧
          Imports platform record (fingerprint, entry)) ∧
        List.Forall₂ (fun value promise => ∃ key, promise = .fulfilled key ∧ Imports platform value key)
          values imports ∧
        (values.Pairwise fun a b => ¬ SameMaterial platform a b) ∧
        ∀ other, create platform other manifestJSON first = some provider) := by
  obtain ⟨hFaithful, hAnswered⟩ := reachable_answered hReach
  have hAnswer := hAnswered i
  rw [hCall] at hAnswer
  obtain ⟨⟨n, e, hClock, hEpoch, hLive⟩, imports, imported, e', hShared, hLoaded, hEpoch', hKey⟩ := hAnswer
  obtain rfl := Option.some.inj (hEpoch.symm.trans hEpoch')
  refine ⟨e, n, hEpoch, hClock, hLive, fun hManifest => ?_⟩
  obtain ⟨⟨values, records, hRecords, rfl, hRead, hNodup⟩, hOther⟩ := create_manifest hManifest hCreate
  rw [hShared] at hFaithful
  obtain ⟨keys, rfl, hDistinct, rfl, hImport⟩ := loaded_manifest hFaithful hLoaded
  have hImports := imports_of_reads hRead hImport
  obtain ⟨⟨_, found⟩, hFind, rfl⟩ := Option.map_eq_some_iff.mp hKey
  have hEq := List.find?_some hFind
  rw [decide_eq_true_eq] at hEq
  subst hEq
  obtain ⟨material, fingerprint, hMem, hMaterial⟩ := exists_record_of_mem_zip hImport (List.mem_of_find?_eq_some hFind)
  obtain ⟨record, hFilter, hPrivate⟩ := filter_of_reads hRead hNodup hMem
  refine ⟨values, _, hRecords, hShared, ⟨record, fingerprint, hFilter, material, hPrivate, hMaterial⟩, ?_,
    pairwise_not_sameMaterial hImports hDistinct, hOther⟩
  rw [List.forall₂_map_right_iff]
  exact hImports.imp fun _ key hKey => ⟨key, rfl, hKey⟩

end

/-! ## Two calls that wait while epoch 2 ends -/

def testManifestText : Str :=
  str "\x7b\"version\":1,\"keys\":[\x7b\"epoch\":2,\"privateKey\":\"Ag==\"\x7d," ++
    str "\x7b\"epoch\":1,\"privateKey\":\"AQ==\"\x7d]\x7d"

def testRecord (epoch : Int) (privateKey : Str) : Value :=
  .obj [(str "epoch", int epoch), (str "privateKey", .str privateKey)]

def testManifestPlatform : Platform := { testKeys with
  jsonParse text := if text = testManifestText then some (.obj [(str "version", int 1),
    (str "keys", .arr [testRecord 2 (str "Ag=="), testRecord 1 (str "AQ==")])]) else none }

def testRecords : Provider := .manifest [(2, str "Ag=="), (1, str "AQ==")]

def testRollover : Pool Shared Call :=
  (calls testManifestPlatform testRecords).system.after [.act 0 (.call (int 1) (some (int 2))),
    .act 1 (.call (int 2) (some (int 2))), .env ⟨1, false⟩, .env ⟨0, false⟩, .act 0 (.resume (some (int 3))),
    .act 1 (.resume (some (int 3)))]

theorem released_live_manifest_key_rollover :
    testRollover.calls 0 = .rejected ∧
    testRollover.calls 1 = .resolved (int 2) (some (int 3)) (publicEntry testManifestPlatform [48, 50]) ∧
    (∃ e n, safeIntegerFrom? 0 (int 2) = some e ∧ readEpoch (some (int 3)) = some n ∧ (e = n ∨ e = n - 1)) ∧
    ∀ other, create testManifestPlatform other (.str testManifestText) (some (int 2)) = some testRecords := by
  have hCreate : create testManifestPlatform (str "AQ==") (.str testManifestText) (some (int 2)) = some testRecords := by
    rfl
  have hCall : testRollover.calls 1 =
      .resolved (int 2) (some (int 3)) (publicEntry testManifestPlatform [48, 50]) := by
    rfl
  obtain ⟨e, n, hEpoch, hClock, hLive, hManifest⟩ := released_live_manifest_key hCreate
    ((calls testManifestPlatform testRecords).system.reachable_after _) hCall
  obtain ⟨values, imports, -, -, -, -, -, hOther⟩ := hManifest nofun
  exact ⟨by rfl, hCall, ⟨e, n, hEpoch, hClock, hLive⟩, hOther⟩

end Columbia.Issuer.KeyProvider
