import Mathlib.Data.Int.ConditionallyCompleteOrder
import Mathlib.Data.List.Induction
import Mathlib.Logic.Relation
import Mathlib.Logic.Function.Basic
import Mathlib.Order.ConditionallyCompleteLattice.Indexed
import Mathlib.Order.Monotone.Basic

/-! # Runs of a labelled system, and calls interleaved over a shared state

A system computes the next state from a state and a label; everything the code does not
decide (schedules, faults, clocks) is part of the label, so every run is executable.
Runs may be restricted to steps that meet a condition on the label and the state before it.
A pool runs any number of calls over one shared state, one atomic step of one call at a time.
Its invariants follow from what a call's own step keeps and what the other calls' steps leave alone.
A turn is what an atomic step sees of a clock that never goes back.
-/
namespace Columbia.Lib
set_option autoImplicit false

structure System (State Label : Type) where
  start : State
  next : State → Label → Option State

namespace System
variable {State Label : Type} (S : System State Label)

inductive ReachedBy (ok : State → Label → Prop) : State → Prop
  | start : ReachedBy ok S.start
  | step {s t : State} {label : Label} : ReachedBy ok s → ok s label → S.next s label = some t → ReachedBy ok t

def Reachable : State → Prop := S.ReachedBy fun _ _ => True

def run : State → List Label → Option State
  | s, [] => some s
  | s, label :: labels => (S.next s label).bind fun t => run t labels

variable {S}

theorem ReachedBy.invariant {ok : State → Label → Prop} (Inv : State → Prop) (hStart : Inv S.start)
    (hStep : ∀ s label t, Inv s → ok s label → S.next s label = some t → Inv t)
    {s : State} (h : S.ReachedBy ok s) : Inv s := by
  induction h with
  | start => exact hStart
  | step _ hOk hNext ih => exact hStep _ _ _ ih hOk hNext

theorem ReachedBy.follow {ok : State → Label → Prop} {s t : State} (h : S.ReachedBy ok s) (label : Label)
    (hOk : ok s label) (hNext : S.next s label = some t) : S.ReachedBy ok t := .step h hOk hNext

theorem ReachedBy.reachable {ok : State → Label → Prop} {s : State} (h : S.ReachedBy ok s) : S.Reachable s := by
  induction h with
  | start => exact .start
  | step _ _ hNext ih => exact .step ih trivial hNext

theorem Reachable.invariant (Inv : State → Prop) (hStart : Inv S.start)
    (hStep : ∀ s label t, Inv s → S.next s label = some t → Inv t)
    {s : State} (h : S.Reachable s) : Inv s :=
  ReachedBy.invariant Inv hStart (fun s label t hInv _ => hStep s label t hInv) h

theorem ReachedBy.of_run {ok : State → Label → Prop} {s t : State} (hs : S.ReachedBy ok s) (labels : List Label)
    (hOk : ∀ label ∈ labels, ∀ u, ok u label) (h : S.run s labels = some t) : S.ReachedBy ok t := by
  induction labels generalizing s with
  | nil => cases h; exact hs
  | cons label labels ih =>
    obtain ⟨u, hNext, hRest⟩ := Option.bind_eq_some_iff.mp h
    exact ih (.step hs (hOk label List.mem_cons_self s) hNext)
      (fun l hl => hOk l (List.mem_cons_of_mem _ hl)) hRest

/-- A system whose steps are steps of another one, or invisible to it, only reaches states of that other one. -/
theorem Reachable.simulate {State' Label' : Type} {T : System State' Label'} (f : State → State')
    (hStart : f S.start = T.start)
    (hStep : ∀ s label t, S.next s label = some t → f t = f s ∨ ∃ label', T.next (f s) label' = some (f t))
    {s : State} (h : S.Reachable s) : T.Reachable (f s) := by
  refine h.invariant (fun s => T.Reachable (f s)) (hStart ▸ .start) fun s label t hs hNext => ?_
  rcases hStep s label t hNext with hSame | ⟨label', hLabel⟩
  · exact hSame ▸ hs
  · exact .step hs trivial hLabel

theorem run_append {s u : State} {first rest : List Label} :
    S.run s (first ++ rest) = some u ↔ ∃ t, S.run s first = some t ∧ S.run t rest = some u := by
  induction first generalizing s with
  | nil => simp [run]
  | cons label first ih =>
    cases hNext : S.next s label with
    | none => simp [run, hNext]
    | some t => simpa [run, hNext] using ih

theorem run_concat {s t u : State} {labels : List Label} {label : Label} (h : S.run s labels = some t)
    (hNext : S.next t label = some u) : S.run s (labels ++ [label]) = some u :=
  run_append.mpr ⟨t, h, Option.bind_eq_some_iff.mpr ⟨u, hNext, rfl⟩⟩

theorem Reachable.exists_run {s : State} (h : S.Reachable s) : ∃ labels, S.run S.start labels = some s := by
  apply h.invariant fun s => ∃ labels, S.run S.start labels = some s
  · exact ⟨[], rfl⟩
  · rintro s label t ⟨labels, hRun⟩ hNext
    exact ⟨labels ++ [label], run_concat hRun hNext⟩

/-- The runs of a part of a system are runs of the system. -/
theorem run_map {State' Label' : Type} {T : System State' Label'} (embed : State' → State)
    (inject : Label' → Label) {s t : State'} {labels : List Label'}
    (hStep : ∀ label ∈ labels, ∀ s t, T.next s label = some t → S.next (embed s) (inject label) = some (embed t))
    (h : T.run s labels = some t) : S.run (embed s) (labels.map inject) = some (embed t) := by
  induction labels generalizing s with
  | nil =>
    cases h
    rfl
  | cons label labels ih =>
    obtain ⟨u, hNext, hRest⟩ := Option.bind_eq_some_iff.mp h
    have hFirst := hStep label List.mem_cons_self s u hNext
    have hTail := ih (fun l hl => hStep l (List.mem_cons_of_mem _ hl)) hRest
    exact Option.bind_eq_some_iff.mpr ⟨embed u, hFirst, hTail⟩

/-- The rule for a state together with the labels that led to it. -/
theorem run_invariant (Inv : List Label → State → Prop) (hStart : Inv [] S.start)
    (hStep : ∀ labels s label t, Inv labels s → S.next s label = some t → Inv (labels ++ [label]) t)
    {labels : List Label} {s : State} (h : S.run S.start labels = some s) : Inv labels s := by
  induction labels using List.reverseRecOn generalizing s with
  | nil =>
    cases h
    exact hStart
  | append_singleton labels label ih =>
    obtain ⟨t, hBefore, hLast⟩ := run_append.mp h
    obtain ⟨u, hNext, hEnd⟩ := Option.bind_eq_some_iff.mp hLast
    cases hEnd
    exact hStep labels t label s (ih hBefore) hNext

/-- What every step from a reachable state relates, a run relates. -/
theorem Reachable.related_of_run {R : State → State → Prop} (hRefl : ∀ s, R s s)
    (hTrans : ∀ s t u, R s t → R t u → R s u)
    (hStep : ∀ s label t, S.Reachable s → S.next s label = some t → R s t)
    {s t : State} (hs : S.Reachable s) {labels : List Label} (h : S.run s labels = some t) : R s t := by
  induction labels generalizing s with
  | nil =>
    cases h
    exact hRefl _
  | cons label labels ih =>
    obtain ⟨u, hNext, hRest⟩ := Option.bind_eq_some_iff.mp h
    exact hTrans s u t (hStep s label u hs hNext) (ih (.step hs trivial hNext) hRest)

variable (S)

def after (labels : List Label) : State := (S.run S.start labels).getD S.start

theorem run_after {labels : List Label} (h : (S.run S.start labels).isSome) :
    S.run S.start labels = some (S.after labels) := by
  obtain ⟨s, hRun⟩ := Option.isSome_iff_exists.mp h
  rw [after, hRun]
  rfl

theorem reachedBy_after {ok : State → Label → Prop} (labels : List Label) (hOk : ∀ label ∈ labels, ∀ u, ok u label) :
    S.ReachedBy ok (S.after labels) := by
  cases h : S.run S.start labels with
  | none => rw [after, h]; exact .start
  | some t => rw [after, h]; exact .of_run .start labels hOk h

theorem reachedBy_after_concat {ok : State → Label → Prop} {labels : List Label} {label : Label}
    (h : S.ReachedBy ok (S.after labels)) (hOk : ok (S.after labels) label) :
    S.ReachedBy ok (S.after (labels ++ [label])) := by
  cases hRun : S.run S.start (labels ++ [label]) with
  | none => rw [after, hRun]; exact .start
  | some u =>
    obtain ⟨t, hBefore, hLast⟩ := run_append.mp hRun
    obtain ⟨v, hNext, hEnd⟩ := Option.bind_eq_some_iff.mp hLast
    cases hEnd
    have hAfter : S.after labels = t := by rw [after, hBefore]; rfl
    rw [hAfter] at h hOk
    rw [after, hRun]
    exact .step h hOk hNext

theorem reachable_after (labels : List Label) : S.Reachable (S.after labels) :=
  S.reachedBy_after labels fun _ _ _ => trivial

end System

structure Pool (Shared Local : Type) where
  shared : Shared
  calls : Nat → Local

/-- `act` is one atomic step of a call; `env` is what happens to the shared state on its own. -/
structure Calls (Shared Local Action Env : Type) where
  start : Shared
  idle : Local
  act : Nat → Action → Shared → Local → Option (Shared × Local)
  env : Env → Shared → Option Shared

namespace Calls
variable {Shared Local Action Env : Type} (C : Calls Shared Local Action Env)

inductive Label (Action Env : Type)
  | act (i : Nat) (action : Action)
  | env (event : Env)

def system : System (Pool Shared Local) (Label Action Env) where
  start := ⟨C.start, fun _ => C.idle⟩
  next
    | p, .act i action =>
      (C.act i action p.shared (p.calls i)).map fun r => ⟨r.1, Function.update p.calls i r.2⟩
    | p, .env event => (C.env event p.shared).map fun shared => ⟨shared, p.calls⟩

variable {C}

theorem system_next_act {p q : Pool Shared Local} {i : Nat} {action : Action}
    (h : C.system.next p (.act i action) = some q) :
    ∃ shared l, C.act i action p.shared (p.calls i) = some (shared, l) ∧
      q = ⟨shared, Function.update p.calls i l⟩ := by
  obtain ⟨⟨shared, l⟩, hAct, rfl⟩ := Option.map_eq_some_iff.mp h
  exact ⟨shared, l, hAct, rfl⟩

theorem system_next_env {p q : Pool Shared Local} {event : Env}
    (h : C.system.next p (.env event) = some q) :
    ∃ shared, C.env event p.shared = some shared ∧ q = ⟨shared, p.calls⟩ := by
  obtain ⟨shared, hEnv, rfl⟩ := Option.map_eq_some_iff.mp h
  exact ⟨shared, hEnv, rfl⟩

theorem system_next_of_act {p : Pool Shared Local} {i : Nat} {action : Action} {shared : Shared} {l : Local}
    (h : C.act i action p.shared (p.calls i) = some (shared, l)) :
    C.system.next p (.act i action) = some ⟨shared, Function.update p.calls i l⟩ := by
  change Option.map _ (C.act i action p.shared (p.calls i)) = _
  rw [h]
  rfl

theorem system_next_of_env {p : Pool Shared Local} {event : Env} {shared : Shared}
    (h : C.env event p.shared = some shared) : C.system.next p (.env event) = some ⟨shared, p.calls⟩ := by
  change Option.map _ (C.env event p.shared) = _
  rw [h]
  rfl

theorem run_act {p : Pool Shared Local} {i : Nat} {action : Action} {shared : Shared} {l : Local}
    (h : C.act i action p.shared (p.calls i) = some (shared, l)) (labels : List (Label Action Env)) :
    C.system.run p (.act i action :: labels) = C.system.run ⟨shared, Function.update p.calls i l⟩ labels := by
  rw [System.run, system_next_of_act h]
  rfl

/-- The interference rule. `G` is about the shared state, `L i` about call `i`; a step of call `i`
has to keep `G` and its own `L i`, and may not break the `L j` of another call. -/
theorem invariant {ok : Pool Shared Local → Label Action Env → Prop}
    (G : Shared → Prop) (L : Nat → Shared → Local → Prop)
    (hStart : G C.start) (hIdle : ∀ i, L i C.start C.idle)
    (hOwn : ∀ p i action shared l, ok p (.act i action) → G p.shared → L i p.shared (p.calls i) →
      C.act i action p.shared (p.calls i) = some (shared, l) → G shared ∧ L i shared l)
    (hOther : ∀ p i j action shared l, ok p (.act i action) → j ≠ i → G p.shared →
      L i p.shared (p.calls i) → L j p.shared (p.calls j) →
      C.act i action p.shared (p.calls i) = some (shared, l) → L j shared (p.calls j))
    (hEnv : ∀ p event shared, ok p (.env event) → G p.shared → C.env event p.shared = some shared →
      G shared ∧ ∀ i, L i p.shared (p.calls i) → L i shared (p.calls i))
    {p : Pool Shared Local} (h : C.system.ReachedBy ok p) : G p.shared ∧ ∀ i, L i p.shared (p.calls i) := by
  refine System.ReachedBy.invariant (fun q => G q.shared ∧ ∀ i, L i q.shared (q.calls i))
    ⟨hStart, hIdle⟩ ?_ h
  rintro s label t ⟨hG, hL⟩ hOk hNext
  cases label with
  | act i action =>
    obtain ⟨shared, l, hAct, rfl⟩ := system_next_act hNext
    obtain ⟨hG', hL'⟩ := hOwn s i action shared l hOk hG (hL i) hAct
    refine ⟨hG', fun j => ?_⟩
    by_cases hji : j = i
    · subst hji
      simpa using hL'
    · simpa [Function.update_of_ne hji] using hOther s i j action shared l hOk hji hG (hL i) (hL j) hAct
  | env event =>
    obtain ⟨shared, hShared, rfl⟩ := system_next_env hNext
    obtain ⟨hG', hL'⟩ := hEnv s event shared hOk hG hShared
    exact ⟨hG', fun i => hL' i (hL i)⟩

/-- Calls that are, in part, calls of another pool: that part of a run is a run there. -/
theorem reachable_project {Shared' Local' Action' Env' : Type} {C' : Calls Shared' Local' Action' Env'}
    (g : Shared → Shared') (f : Local → Local') (hStart : g C.start = C'.start) (hIdle : f C.idle = C'.idle)
    (hAct : ∀ i action s l t l', C.act i action s l = some (t, l') →
      (g t = g s ∧ f l' = f l) ∨ ∃ action', C'.act i action' (g s) (f l) = some (g t, f l'))
    (hEnv : ∀ event s t, C.env event s = some t → g t = g s ∨ ∃ event', C'.env event' (g s) = some (g t))
    {p : Pool Shared Local} (h : C.system.Reachable p) :
    C'.system.Reachable ⟨g p.shared, fun i => f (p.calls i)⟩ := by
  let part (p : Pool Shared Local) : Pool Shared' Local' := ⟨g p.shared, fun i => f (p.calls i)⟩
  have hFirst : part C.system.start = C'.system.start := by
    change (⟨g C.start, fun _ => f C.idle⟩ : Pool Shared' Local') = _
    rw [hStart, hIdle]
    rfl
  refine h.simulate part hFirst fun p label q hNext => ?_
  cases label with
  | act i action =>
    obtain ⟨t, l, hStep, rfl⟩ := system_next_act hNext
    have hAfter : (fun j => f (Function.update p.calls i l j)) = Function.update (fun j => f (p.calls j)) i (f l) :=
      Function.comp_update f p.calls i l
    change (⟨g t, fun j => f (Function.update p.calls i l j)⟩ : Pool Shared' Local') = part p ∨ ∃ label',
      C'.system.next (part p) label' = some ⟨g t, fun j => f (Function.update p.calls i l j)⟩
    rw [hAfter]
    rcases hAct i action _ _ _ _ hStep with ⟨hShared, hSame⟩ | ⟨action', hStep'⟩
    · left
      rw [hShared, hSame, Function.update_eq_self]
    · right
      have hNext' : C'.act i action' (part p).shared ((part p).calls i) = some (g t, f l) := hStep'
      exact ⟨.act i action', system_next_of_act hNext'⟩
  | env event =>
    obtain ⟨t, hStep, rfl⟩ := system_next_env hNext
    rcases hEnv event _ _ hStep with hShared | ⟨event', hStep'⟩
    · left
      change (⟨g t, fun j => f (p.calls j)⟩ : Pool Shared' Local') = part p
      rw [hShared]
    · right
      have hNext' : C'.env event' (part p).shared = some (g t) := hStep'
      exact ⟨.env event', system_next_of_env hNext'⟩

/-- One step of a call: the shared state and the call before it, and after it. -/
structure OwnStep (Shared Local : Type) where
  before : Shared × Local
  after : Shared × Local

variable (C) in
/-- `p` is reached by a run in which call `i` made these steps, in this order. -/
inductive ReachedWith (i : Nat) : Pool Shared Local → List (OwnStep Shared Local) → Prop
  | start : ReachedWith i C.system.start []
  | own {p : Pool Shared Local} {steps : List (OwnStep Shared Local)} {action : Action} {shared : Shared} {l : Local} :
    ReachedWith i p steps → C.act i action p.shared (p.calls i) = some (shared, l) →
    ReachedWith i ⟨shared, Function.update p.calls i l⟩ (steps ++ [⟨(p.shared, p.calls i), (shared, l)⟩])
  | other {p : Pool Shared Local} {steps : List (OwnStep Shared Local)} {j : Nat} {action : Action} {shared : Shared}
    {l : Local} : ReachedWith i p steps → j ≠ i → C.act j action p.shared (p.calls j) = some (shared, l) →
    ReachedWith i ⟨shared, Function.update p.calls j l⟩ steps
  | env {p : Pool Shared Local} {steps : List (OwnStep Shared Local)} {event : Env} {shared : Shared} :
    ReachedWith i p steps → C.env event p.shared = some shared → ReachedWith i ⟨shared, p.calls⟩ steps

theorem ReachedWith.reachable {i : Nat} {p : Pool Shared Local} {steps : List (OwnStep Shared Local)}
    (h : C.ReachedWith i p steps) : C.system.Reachable p := by
  induction h with
  | start => exact .start
  | own _ hAct ih => exact .step ih trivial (system_next_of_act hAct)
  | other _ _ hAct ih => exact .step ih trivial (system_next_of_act hAct)
  | @env p steps event shared _ hEnv ih =>
    have hNext : C.system.next p (.env event) = some ⟨shared, p.calls⟩ := system_next_of_env hEnv
    exact .step ih trivial hNext

theorem exists_reachedWith (i : Nat) {p : Pool Shared Local} (h : C.system.Reachable p) :
    ∃ steps, C.ReachedWith i p steps := by
  induction h with
  | start => exact ⟨[], .start⟩
  | @step p q label _ _ hNext ih =>
    obtain ⟨steps, hSteps⟩ := ih
    cases label with
    | env event =>
      obtain ⟨shared, hEnv, rfl⟩ := system_next_env hNext
      exact ⟨steps, .env hSteps hEnv⟩
    | act j action =>
      obtain ⟨shared, l, hAct, rfl⟩ := system_next_act hNext
      by_cases hij : i = j
      · subst hij
        exact ⟨_, .own hSteps hAct⟩
      · exact ⟨steps, .other hSteps (Ne.symm hij) hAct⟩

/-- The history rule: `H` relates a call to the steps that it has made. -/
theorem ReachedWith.history {i : Nat} (H : Local → List (OwnStep Shared Local) → Prop) (hIdle : H C.idle [])
    (hOwn : ∀ p steps action shared l, C.system.Reachable p → H (p.calls i) steps →
      C.act i action p.shared (p.calls i) = some (shared, l) →
      H l (steps ++ [⟨(p.shared, p.calls i), (shared, l)⟩]))
    {p : Pool Shared Local} {steps : List (OwnStep Shared Local)} (h : C.ReachedWith i p steps) :
    H (p.calls i) steps := by
  induction h with
  | start => exact hIdle
  | own hBefore hAct ih => simpa using hOwn _ _ _ _ _ hBefore.reachable ih hAct
  | other _ hji _ ih => simpa [Function.update_of_ne (Ne.symm hji)] using ih
  | env _ _ ih => exact ih

end Calls

/-- One turn of an event loop: the clock at each place where it is read, and at its end. -/
structure Turn where
  time : Nat → Int
  last : Int
  monotone : Monotone time
  le_last : ∀ n, time n ≤ last

/-- The clock stands still. -/
def Turn.still (t : Int) : Turn := ⟨fun _ => t, t, monotone_const, fun _ => le_rfl⟩

end Columbia.Lib
