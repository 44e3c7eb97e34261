import Columbia.Lib.Reader

/-! # Computations that keep a log

An entry stays in the log when a later step throws. Without its log a computation is one in `Except`; for readers
the log of a sequence is said in terms of the front parts that were taken before each read.
-/
namespace Columbia.Lib
set_option autoImplicit false

structure Logged (ω ε α : Type) where
  log : List ω
  result : Except ε α

namespace Logged
variable {ω ε α β : Type}

def quiet (result : Except ε α) : Logged ω ε α := ⟨[], result⟩

def note (entry : ω) : Logged ω ε Unit := ⟨[entry], .ok ()⟩

def bind (x : Logged ω ε α) (f : α → Logged ω ε β) : Logged ω ε β :=
  match x.result with
  | .error e => ⟨x.log, .error e⟩
  | .ok a => ⟨x.log ++ (f a).log, (f a).result⟩

instance : Monad (Logged ω ε) where
  pure a := ⟨[], .ok a⟩
  bind := bind

@[simp] theorem result_pure (a : α) : (pure a : Logged ω ε α).result = .ok a := rfl

@[simp] theorem log_pure (a : α) : (pure a : Logged ω ε α).log = [] := rfl

theorem result_bind (x : Logged ω ε α) (f : α → Logged ω ε β) :
    (x >>= f).result = x.result >>= fun a => (f a).result := by
  change (bind x f).result = _
  unfold bind
  cases x.result <;> rfl

theorem mem_log_bind {x : Logged ω ε α} {f : α → Logged ω ε β} {entry : ω} :
    entry ∈ (x >>= f).log ↔ entry ∈ x.log ∨ ∃ a, x.result = .ok a ∧ entry ∈ (f a).log := by
  change entry ∈ (bind x f).log ↔ _
  unfold bind
  cases x.result with
  | error e => simp
  | ok a => simp

theorem mem_log_quiet {x : Except ε α} {f : α → Logged ω ε β} {entry : ω} :
    entry ∈ (quiet x >>= f).log ↔ ∃ a, x = .ok a ∧ entry ∈ (f a).log := by
  rw [mem_log_bind]
  exact or_iff_right List.not_mem_nil

end Logged

variable {ω ε Byte α β : Type}

def readPairLogged (first : List Byte → Logged ω ε (α × List Byte)) (second : List Byte → Logged ω ε (β × List Byte))
    (input : List Byte) : Logged ω ε ((α × β) × List Byte) := do
  let (a, input) ← first input
  let (b, input) ← second input
  pure ((a, b), input)

def readManyLogged (read : List Byte → Logged ω ε (α × List Byte)) : Nat → List Byte → Logged ω ε (List α × List Byte)
  | 0, input => pure ([], input)
  | n + 1, input => do
    let (item, input) ← read input
    let (items, input) ← readManyLogged read n input
    pure (item :: items, input)

variable {logged : List Byte → Logged ω ε (α × List Byte)} {read : List Byte → Except ε (α × List Byte)}

theorem result_readPair (h : ∀ input, (logged input).result = read input) (input : List Byte) :
    (readPairLogged logged logged input).result = readPair read read input := by
  simp only [readPairLogged, readPair, Logged.result_bind, Logged.result_pure, h]

theorem result_readMany (h : ∀ input, (logged input).result = read input) (n : Nat) (input : List Byte) :
    (readManyLogged logged n input).result = readMany read n input := by
  induction n generalizing input with
  | zero => rfl
  | succ n ih => simp only [readManyLogged, readMany, Logged.result_bind, Logged.result_pure, h, ih]

/-- A sequence of reads logs what the first one logs, and what the others log after it. -/
theorem mem_log_readMany_succ {n : Nat} {input : List Byte} {entry : ω} :
    entry ∈ (readManyLogged logged (n + 1) input).log ↔ entry ∈ (logged input).log ∨
      ∃ item rest, (logged input).result = .ok (item, rest) ∧ entry ∈ (readManyLogged logged n rest).log := by
  simp only [readManyLogged, Logged.mem_log_bind, Logged.log_pure, List.not_mem_nil, and_false, exists_false, or_false,
    Prod.exists]

theorem mem_log_readPair {input : List Byte} {entry : ω} :
    entry ∈ (readPairLogged logged logged input).log ↔ entry ∈ (logged input).log ∨
      ∃ item rest, (logged input).result = .ok (item, rest) ∧ entry ∈ (logged rest).log := by
  simp only [readPairLogged, Logged.mem_log_bind, Logged.log_pure, List.not_mem_nil, and_false, exists_false, or_false,
    Prod.exists]

/-- Pairs are read as twice as many items. -/
theorem mem_log_readMany_pair (h : ∀ input, (logged input).result = read input) {n : Nat} {input : List Byte}
    {entry : ω} : entry ∈ (readManyLogged (readPairLogged logged logged) n input).log ↔
      entry ∈ (readManyLogged logged (2 * n) input).log := by
  induction n generalizing input with
  | zero => rfl
  | succ n ih =>
    rw [mem_log_readMany_succ, mem_log_readPair, result_readPair h, Nat.mul_succ, mem_log_readMany_succ,
      or_assoc]
    simp only [mem_log_readMany_succ, ih, h]
    apply or_congr_right
    constructor
    · rintro (⟨item, mid, hFirst, hEntry⟩ | ⟨pair, rest, hPair, hEntry⟩)
      · exact ⟨item, mid, hFirst, .inl hEntry⟩
      · obtain ⟨⟨a, mid⟩, hFirst, hPair⟩ := bind_eq_ok.mp hPair
        obtain ⟨⟨b, rest'⟩, hSecond, hPair⟩ := bind_eq_ok.mp hPair
        cases hPair
        exact ⟨a, mid, hFirst, .inr ⟨b, rest, hSecond, hEntry⟩⟩
    · rintro ⟨a, mid, hFirst, hEntry | ⟨b, rest, hSecond, hEntry⟩⟩
      · exact .inl ⟨a, mid, hFirst, hEntry⟩
      · refine .inr ⟨(a, b), rest, ?_, hEntry⟩
        exact bind_eq_ok.mpr ⟨(a, mid), hFirst, bind_eq_ok.mpr ⟨(b, rest), hSecond, rfl⟩⟩

/-- What holds of all entries of a read that succeeds holds of all entries of a sequence that succeeds. -/
theorem forall_log_readMany {Q : ω → Prop} (h : ∀ input, (logged input).result = read input)
    (hQ : ∀ input item rest, read input = .ok (item, rest) → ∀ entry ∈ (logged input).log, Q entry)
    {n : Nat} {input rest : List Byte} {items : List α} (hMany : readMany read n input = .ok (items, rest)) :
    ∀ entry ∈ (readManyLogged logged n input).log, Q entry := by
  induction n generalizing input items with
  | zero => exact fun entry hEntry => absurd hEntry List.not_mem_nil
  | succ n ih =>
    obtain ⟨⟨item, mid⟩, hItem, hMany⟩ := bind_eq_ok.mp hMany
    obtain ⟨⟨items', rest'⟩, hItems, hMany⟩ := bind_eq_ok.mp hMany
    cases hMany
    intro entry hEntry
    rcases mem_log_readMany_succ.mp hEntry with hEntry | ⟨item', mid', hItem', hEntry⟩
    · exact hQ input item mid hItem entry hEntry
    · rw [h, hItem] at hItem'
      cases hItem'
      exact ih hItems entry hEntry

theorem forall_log_readPair {Q : ω → Prop} (h : ∀ input, (logged input).result = read input)
    (hQ : ∀ input item rest, read input = .ok (item, rest) → ∀ entry ∈ (logged input).log, Q entry)
    {input rest : List Byte} {pair : α × α} (hPair : readPair read read input = .ok (pair, rest)) :
    ∀ entry ∈ (readPairLogged logged logged input).log, Q entry := by
  obtain ⟨⟨a, mid⟩, hFirst, hPair⟩ := bind_eq_ok.mp hPair
  obtain ⟨⟨b, rest'⟩, hSecond, hPair⟩ := bind_eq_ok.mp hPair
  intro entry hEntry
  rcases mem_log_readPair.mp hEntry with hEntry | ⟨a', mid', hFirst', hEntry⟩
  · exact hQ input a mid hFirst entry hEntry
  · rw [h, hFirst] at hFirst'
    cases hFirst'
    exact hQ mid b rest' hSecond entry hEntry

/-- An entry comes from a read that starts after less than `n` whole items. -/
theorem mem_log_readMany {P : α → List Byte → Prop} (h : ∀ input, (logged input).result = read input)
    (hReads : Reads read P) {n : Nat} {input : List Byte} {entry : ω} :
    entry ∈ (readManyLogged logged n input).log ↔
      ∃ (parts : List (List Byte)) (after : List Byte), input = parts.flatten ++ after ∧
      (∀ part ∈ parts, ∃ value, P value part) ∧ parts.length < n ∧ entry ∈ (logged after).log := by
  induction n generalizing input with
  | zero =>
    refine ⟨fun hEntry => absurd hEntry List.not_mem_nil, ?_⟩
    rintro ⟨parts, after, -, -, hLength, -⟩
    cases hLength
  | succ n ih =>
    rw [mem_log_readMany_succ]
    simp only [h, ih, hReads _ _ _]
    constructor
    · rintro (hEntry | ⟨item, rest, ⟨front, rfl, hFront⟩, parts, after, rfl, hParts, hLength, hEntry⟩)
      · exact ⟨[], input, rfl, by simp, Nat.succ_pos n, hEntry⟩
      · refine ⟨front :: parts, after, by simp, ?_, Nat.succ_lt_succ hLength, hEntry⟩
        exact List.forall_mem_cons.mpr ⟨⟨item, hFront⟩, hParts⟩
    · rintro ⟨parts, after, rfl, hParts, hLength, hEntry⟩
      cases parts with
      | nil => exact .inl hEntry
      | cons front parts =>
        obtain ⟨⟨item, hFront⟩, hRest⟩ := List.forall_mem_cons.mp hParts
        refine .inr ⟨item, parts.flatten ++ after, ⟨front, by simp, hFront⟩, parts, after, rfl, hRest, ?_, hEntry⟩
        exact Nat.lt_of_succ_lt_succ hLength

end Columbia.Lib
