import Mathlib.Data.List.Forall2
import Mathlib.Data.List.Basic

/-! # Checks in sequence, and readers that take a front part of their input

`require` is a check that throws. A reader returns a value and the rest of its input; `Reads` says which
front parts it takes for which value, in both directions, so a reader's grammar is read off its parts.
-/
namespace Columbia.Lib
set_option autoImplicit false

section Checks
variable {ε α β : Type}

def require (p : Prop) [Decidable p] (error : ε) : Except ε Unit := if p then .ok () else .error error

def orThrow (x : Option α) (error : ε) : Except ε α := x.elim (.error error) .ok

@[simp] theorem require_eq_ok {p : Prop} [Decidable p] {error : ε} {u : Unit} : require p error = .ok u ↔ p := by
  unfold require
  split <;> simp [*]

@[simp] theorem orThrow_eq_ok {x : Option α} {error : ε} {a : α} : orThrow x error = .ok a ↔ x = some a := by
  cases x <;> simp [orThrow]

theorem require_bind {p : Prop} [Decidable p] {error : ε} {f : Unit → Except ε β} (h : p) :
    (require p error >>= f) = f () := by
  rw [require, if_pos h]
  rfl

theorem bind_eq_ok {x : Except ε α} {f : α → Except ε β} {b : β} :
    (x >>= f) = .ok b ↔ ∃ a, x = .ok a ∧ f a = .ok b := by
  cases x with
  | error e => exact ⟨nofun, fun ⟨_, h, _⟩ => nomatch h⟩
  | ok a => exact ⟨fun h => ⟨a, rfl, h⟩, fun ⟨_, h, hf⟩ => by cases h; exact hf⟩

theorem require_eq_error {p : Prop} [Decidable p] {error e : ε} : require p error = .error e ↔ ¬p ∧ error = e := by
  unfold require
  split <;> simp [*]

theorem orThrow_eq_error {x : Option α} {error e : ε} : orThrow x error = .error e ↔ x = none ∧ error = e := by
  cases x <;> simp [orThrow]

theorem bind_eq_error {x : Except ε α} {f : α → Except ε β} {e : ε} :
    (x >>= f) = .error e ↔ x = .error e ∨ ∃ a, x = .ok a ∧ f a = .error e := by
  cases x with
  | error e' => exact ⟨fun h => .inl (by cases h; rfl), fun h => h.elim (fun h => by cases h; rfl) nofun⟩
  | ok a => exact ⟨fun h => .inr ⟨a, rfl, h⟩, fun h => h.elim nofun fun ⟨_, h, hf⟩ => by cases h; exact hf⟩

theorem map_eq_ok {x : Except ε α} {f : α → β} {b : β} : x.map f = .ok b ↔ ∃ a, x = .ok a ∧ f a = b := by
  cases x <;> simp [Except.map]

/-- Every error of `x` is one that `S` allows. -/
def Raises (x : Except ε α) (S : ε → Prop) : Prop := ∀ e, x = .error e → S e

variable {S : ε → Prop}

theorem raises_ok {a : α} : Raises (.ok a) S := nofun

theorem raises_error {e : ε} (h : S e) : Raises (.error e : Except ε α) S := by
  rintro _ ⟨⟩
  exact h

theorem raises_require {p : Prop} [Decidable p] {error : ε} (h : S error) : Raises (require p error) S := by
  intro e hError
  obtain ⟨-, rfl⟩ := require_eq_error.mp hError
  exact h

theorem Raises.mono {x : Except ε α} {T : ε → Prop} (hx : Raises x S) (h : ∀ e, S e → T e) : Raises x T :=
  fun e hError => h e (hx e hError)

theorem Raises.bind {x : Except ε α} {f : α → Except ε β} (hx : Raises x S)
    (hf : ∀ a, x = .ok a → Raises (f a) S) : Raises (x >>= f) S := by
  intro e hError
  rcases bind_eq_error.mp hError with h | ⟨a, ha, h⟩
  · exact hx e h
  · exact hf a ha e h

def forAll (check : α → Except ε Unit) : List α → Except ε Unit
  | [] => .ok ()
  | a :: rest => do
    check a
    forAll check rest

theorem forAll_eq_ok {check : α → Except ε Unit} {xs : List α} {u : Unit} :
    forAll check xs = .ok u ↔ ∀ a ∈ xs, check a = .ok () := by
  induction xs with
  | nil => simp [forAll]
  | cons a rest ih =>
    rw [forAll, bind_eq_ok, List.forall_mem_cons, ← ih]
    exact ⟨fun ⟨(), hA, hRest⟩ => ⟨hA, hRest⟩, fun ⟨hA, hRest⟩ => ⟨(), hA, hRest⟩⟩

def mapAll (f : α → Except ε β) : List α → Except ε (List β)
  | [] => .ok []
  | a :: rest => do
    let b ← f a
    let bs ← mapAll f rest
    .ok (b :: bs)

theorem mapAll_eq_ok {f : α → Except ε β} {xs : List α} {ys : List β} :
    mapAll f xs = .ok ys ↔ List.Forall₂ (fun x y => f x = .ok y) xs ys := by
  induction xs generalizing ys with
  | nil => simp [mapAll, eq_comm]
  | cons a rest ih =>
    simp only [mapAll, bind_eq_ok, ih, List.forall₂_cons_left_iff, Except.ok.injEq]
    constructor
    · rintro ⟨b, hb, bs, hbs, rfl⟩
      exact ⟨b, bs, hb, hbs, rfl⟩
    · rintro ⟨b, bs, hb, hbs, rfl⟩
      exact ⟨b, hb, bs, hbs, rfl⟩

theorem mapAll_raises {f : α → Except ε β} {xs : List α} (h : ∀ a ∈ xs, Raises (f a) S) : Raises (mapAll f xs) S := by
  induction xs with
  | nil => exact raises_ok
  | cons a rest ih =>
    rw [List.forall_mem_cons] at h
    apply h.1.bind
    intro _ _
    apply (ih h.2).bind
    intro _ _
    exact raises_ok

theorem mapM_eq_some {f : α → Option β} {xs : List α} {ys : List β} :
    xs.mapM f = some ys ↔ List.Forall₂ (fun x y => f x = some y) xs ys := by
  induction xs generalizing ys with
  | nil => simp [eq_comm]
  | cons a rest ih =>
    simp only [List.mapM_cons, Option.bind_eq_bind, Option.pure_def, Option.bind_eq_some_iff, ih,
      List.forall₂_cons_left_iff, Option.some.injEq]
    constructor
    · rintro ⟨b, hb, bs, hbs, rfl⟩
      exact ⟨b, bs, hb, hbs, rfl⟩
    · rintro ⟨b, bs, hb, hbs, rfl⟩
      exact ⟨b, hb, bs, hbs, rfl⟩

theorem exists_of_forall₂ {R : α → β → Prop} {xs : List α} {ys : List β} (h : List.Forall₂ R xs ys) {y : β}
    (hMem : y ∈ ys) : ∃ x ∈ xs, R x y := by
  induction h with
  | nil => cases hMem
  | cons hHead _ ih =>
    rcases List.mem_cons.mp hMem with rfl | hMem
    · exact ⟨_, List.mem_cons_self, hHead⟩
    · obtain ⟨x, hx, hy⟩ := ih hMem
      exact ⟨x, List.mem_cons_of_mem _ hx, hy⟩

theorem exists_of_mapM_eq_some {f : α → Option β} {xs : List α} {ys : List β} (h : xs.mapM f = some ys) {y : β}
    (hMem : y ∈ ys) : ∃ x ∈ xs, f x = some y := exists_of_forall₂ (mapM_eq_some.mp h) hMem

theorem forall_of_mapM_eq_some {f : α → Option β} {xs : List α} {ys : List β} {P : β → Prop}
    (hf : ∀ x y, f x = some y → P y) (h : xs.mapM f = some ys) : ∀ y ∈ ys, P y := by
  intro y hMem
  obtain ⟨x, -, hItem⟩ := exists_of_mapM_eq_some h hMem
  exact hf x y hItem

end Checks

variable {ε Byte α β : Type}

/-- `read` takes exactly the front parts that `P` describes. -/
def Reads (read : List Byte → Except ε (α × List Byte)) (P : α → List Byte → Prop) : Prop :=
  ∀ input value rest, read input = .ok (value, rest) ↔ ∃ front, input = front ++ rest ∧ P value front

def readExactly (n : Nat) (error : ε) (input : List Byte) : Except ε (List Byte × List Byte) :=
  if input.length < n then .error error else .ok (input.take n, input.drop n)

def readPair (first : List Byte → Except ε (α × List Byte)) (second : List Byte → Except ε (β × List Byte))
    (input : List Byte) : Except ε ((α × β) × List Byte) := do
  let (a, input) ← first input
  let (b, input) ← second input
  .ok ((a, b), input)

def readMany (read : List Byte → Except ε (α × List Byte)) : Nat → List Byte → Except ε (List α × List Byte)
  | 0, input => .ok ([], input)
  | n + 1, input => do
    let (item, input) ← read input
    let (items, input) ← readMany read n input
    .ok (item :: items, input)

/-- Items until the input is used up; `stuck` when the fuel is used up before. -/
def readAll (read : List Byte → Except ε (α × List Byte)) (stuck : ε) : Nat → List Byte → Except ε (List α)
  | _, [] => .ok []
  | 0, _ :: _ => .error stuck
  | fuel + 1, byte :: input => do
    let (item, input) ← read (byte :: input)
    let items ← readAll read stuck fuel input
    .ok (item :: items)

theorem reads_exactly (n : Nat) (error : ε) :
    Reads (readExactly n error) (fun (value front : List Byte) => value = front ∧ front.length = n) := by
  intro input value rest
  unfold readExactly
  split
  · rename_i hShort
    refine ⟨nofun, ?_⟩
    rintro ⟨front, rfl, -, hLength⟩
    rw [List.length_append] at hShort
    omega
  · constructor
    · intro h
      cases h
      exact ⟨input.take n, (List.take_append_drop n input).symm, rfl, List.length_take_of_le (by omega)⟩
    · rintro ⟨front, rfl, rfl, hLength⟩
      rw [List.take_left' hLength, List.drop_left' hLength]

theorem readExactly_eq_ok {n : Nat} {error : ε} {input value rest : List Byte} :
    readExactly n error input = .ok (value, rest) ↔ input = value ++ rest ∧ value.length = n := by
  refine (reads_exactly n error input value rest).trans ⟨?_, ?_⟩
  · rintro ⟨front, rfl, rfl, hLength⟩
    exact ⟨rfl, hLength⟩
  · rintro ⟨rfl, hLength⟩
    exact ⟨value, rfl, rfl, hLength⟩

theorem Reads.pair {first : List Byte → Except ε (α × List Byte)} {second : List Byte → Except ε (β × List Byte)}
    {P : α → List Byte → Prop} {Q : β → List Byte → Prop} (hFirst : Reads first P) (hSecond : Reads second Q) :
    Reads (readPair first second) fun x front => ∃ a b, front = a ++ b ∧ P x.1 a ∧ Q x.2 b := by
  intro input x rest
  simp only [readPair, bind_eq_ok, Prod.exists]
  constructor
  · rintro ⟨a, mid, ha, b, rest', hb, hEq⟩
    cases hEq
    obtain ⟨front, rfl, hP⟩ := (hFirst _ _ _).mp ha
    obtain ⟨front', rfl, hQ⟩ := (hSecond _ _ _).mp hb
    exact ⟨front ++ front', (List.append_assoc ..).symm, front, front', rfl, hP, hQ⟩
  · rintro ⟨-, rfl, front, front', rfl, hP, hQ⟩
    refine ⟨x.1, front' ++ rest, (hFirst _ _ _).mpr ⟨front, List.append_assoc .., hP⟩, x.2, rest, ?_, rfl⟩
    exact (hSecond _ _ _).mpr ⟨front', rfl, hQ⟩

theorem Reads.many {read : List Byte → Except ε (α × List Byte)} {P : α → List Byte → Prop} (h : Reads read P)
    (n : Nat) : Reads (readMany read n) fun items front =>
      items.length = n ∧ ∃ parts, front = parts.flatten ∧ List.Forall₂ P items parts := by
  induction n with
  | zero =>
    intro input items rest
    constructor
    · intro hRead
      cases hRead
      exact ⟨[], rfl, rfl, [], rfl, .nil⟩
    · rintro ⟨front, rfl, hLength, parts, rfl, hParts⟩
      obtain rfl := List.eq_nil_of_length_eq_zero hLength
      cases hParts
      rfl
  | succ n ih =>
    intro input items rest
    simp only [readMany, bind_eq_ok, Prod.exists]
    constructor
    · rintro ⟨item, mid, hItem, items', rest', hItems, hEq⟩
      cases hEq
      obtain ⟨front, rfl, hP⟩ := (h _ _ _).mp hItem
      obtain ⟨front', rfl, rfl, parts, rfl, hParts⟩ := (ih _ _ _).mp hItems
      exact ⟨front ++ parts.flatten, (List.append_assoc ..).symm, rfl, front :: parts, rfl, .cons hP hParts⟩
    · rintro ⟨-, rfl, hLength, parts, rfl, hParts⟩
      cases hParts with
      | nil => cases hLength
      | @cons item part items parts hP hParts =>
        refine ⟨item, parts.flatten ++ rest, (h _ _ _).mpr ⟨part, List.append_assoc .., hP⟩, items, rest, ?_, rfl⟩
        exact (ih _ _ _).mpr ⟨parts.flatten, rfl, Nat.succ.inj hLength, parts, rfl, hParts⟩

theorem rest_le_fuel {input front rest : List Byte} {fuel : Nat} (hInput : input = front ++ rest) (hSome : front ≠ [])
    (hFuel : input.length ≤ fuel + 1) : rest.length ≤ fuel := by
  have hLength := congrArg List.length hInput
  have hPos := List.length_pos_iff.mpr hSome
  rw [List.length_append] at hLength
  omega

theorem readAll_nil {read : List Byte → Except ε (α × List Byte)} {P : α → List Byte → Prop}
    (hSome : ∀ a front, P a front → front ≠ []) (stuck : ε) (fuel : Nat) (items : List α) :
    readAll read stuck fuel [] = .ok items ↔ ∃ parts, [] = parts.flatten ∧ List.Forall₂ P items parts := by
  have hNil : readAll read stuck fuel [] = .ok [] := by cases fuel <;> rfl
  rw [hNil, Except.ok.injEq]
  constructor
  · rintro rfl
    exact ⟨[], rfl, .nil⟩
  · rintro ⟨parts, hParts, hItems⟩
    cases hItems with
    | nil => rfl
    | cons hP _ => exact absurd (List.append_eq_nil_iff.mp hParts.symm).1 (hSome _ _ hP)

/-- Fuel for each byte is enough for items that take at least one. -/
theorem Reads.all {read : List Byte → Except ε (α × List Byte)} {P : α → List Byte → Prop} (h : Reads read P)
    (hSome : ∀ a front, P a front → front ≠ []) (stuck : ε) {fuel : Nat} {input : List Byte}
    (hFuel : input.length ≤ fuel) (items : List α) :
    readAll read stuck fuel input = .ok items ↔ ∃ parts, input = parts.flatten ∧ List.Forall₂ P items parts := by
  induction fuel generalizing input items with
  | zero =>
    obtain rfl := List.eq_nil_of_length_eq_zero (Nat.le_zero.mp hFuel)
    exact readAll_nil hSome stuck 0 items
  | succ fuel ih =>
    cases input with
    | nil => exact readAll_nil hSome stuck (fuel + 1) items
    | cons byte input =>
      simp only [readAll, bind_eq_ok, Prod.exists]
      constructor
      · rintro ⟨item, mid, hItem, items', hItems, hEq⟩
        cases hEq
        obtain ⟨front, hInput, hP⟩ := (h _ _ _).mp hItem
        obtain ⟨parts, rfl, hParts⟩ := (ih (rest_le_fuel hInput (hSome _ _ hP) hFuel) items').mp hItems
        exact ⟨front :: parts, hInput, .cons hP hParts⟩
      · rintro ⟨parts, hInput, hParts⟩
        cases hParts with
        | nil => cases hInput
        | @cons item part items parts hP hParts =>
          refine ⟨item, parts.flatten, (h _ _ _).mpr ⟨part, hInput, hP⟩, items, ?_, rfl⟩
          exact (ih (rest_le_fuel hInput (hSome _ _ hP) hFuel) items).mpr ⟨parts, rfl, hParts⟩

theorem Reads.all_raises {read : List Byte → Except ε (α × List Byte)} {P : α → List Byte → Prop} (h : Reads read P)
    (hSome : ∀ a front, P a front → front ≠ []) {S : ε → Prop} (hRaises : ∀ input, Raises (read input) S) (stuck : ε)
    {fuel : Nat} {input : List Byte} (hFuel : input.length ≤ fuel) : Raises (readAll read stuck fuel input) S := by
  induction fuel generalizing input with
  | zero =>
    obtain rfl := List.eq_nil_of_length_eq_zero (Nat.le_zero.mp hFuel)
    exact raises_ok
  | succ fuel ih =>
    cases input with
    | nil => exact raises_ok
    | cons byte input =>
      apply (hRaises _).bind
      rintro ⟨item, rest⟩ hItem
      obtain ⟨front, hInput, hP⟩ := (h _ _ _).mp hItem
      apply (ih (rest_le_fuel hInput (hSome _ _ hP) hFuel)).bind
      intro items _
      exact raises_ok

end Columbia.Lib
