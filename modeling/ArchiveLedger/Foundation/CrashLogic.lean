import Mathlib

/-!
# Programs that may be stopped

A program goes through states, one after each of its writes, and it may be stopped in any of them.  `Runs C p s Q`
says that the program `p` from the state `s` only goes through states in which `C` holds, and that its result and its last
state satisfy `Q`.  There is one rule for each way to build a program (`runs_pure`, `runs_lift`, `runs_get`,
`runs_write`, `runs_bind`).
-/

namespace CrashLogic

variable {σ ε α β : Type}

/-- What a program does in a state: the states after its writes, and its result. -/
def Prog (σ ε α : Type) : Type := σ → List σ × Except ε α

namespace Prog

def run (p : Prog σ ε α) (s : σ) : List σ × Except ε α := p s

/-- The last state of some. -/
def last (s : σ) (states : List σ) : σ := states.getLast?.getD s

def ret (a : α) : Prog σ ε α := fun _ => ([], .ok a)

def lift (r : Except ε α) : Prog σ ε α := fun _ => ([], r)

def get : Prog σ ε σ := fun s => ([], .ok s)

/-- A write goes through states of which the last stays. -/
def write (f : σ → List σ) : Prog σ ε Unit := fun s => (f s, .ok ())

def seq (p : Prog σ ε α) (f : α → Prog σ ε β) : Prog σ ε β := fun s =>
  match p s with
  | (states, .ok a) => (states ++ (f a (last s states)).1, (f a (last s states)).2)
  | (states, .error e) => (states, .error e)

instance : Monad (Prog σ ε) where
  pure := ret
  bind := seq

instance : MonadLift (Except ε) (Prog σ ε) := ⟨lift⟩

@[simp] theorem last_nil (s : σ) : last s [] = s := rfl

theorem last_append (s : σ) (states more : List σ) : last s (states ++ more) = last (last s states) more := by
  rcases List.eq_nil_or_concat more with rfl | ⟨more, t, rfl⟩
  · rw [List.append_nil, last_nil]
  · rw [List.concat_eq_append, ← List.append_assoc]
    simp [last]

end Prog

open Prog

/-- The program only goes through states of the condition, and ends as it should. -/
structure Runs (C : σ → Prop) (p : Prog σ ε α) (s : σ) (Q : Except ε α → σ → Prop) : Prop where
  stopped : ∀ t ∈ (p.run s).1, C t
  ended : Q (p.run s).2 (last s (p.run s).1)

section

variable {C : σ → Prop} {s : σ}

theorem runs_pure {Q : Except ε α → σ → Prop} {a : α} (h : Q (.ok a) s) : Runs C (pure a) s Q := ⟨nofun, h⟩

theorem runs_lift {Q : Except ε α → σ → Prop} {r : Except ε α} (h : Q r s) : Runs C (liftM r : Prog σ ε α) s Q := ⟨nofun, h⟩

theorem runs_get {Q : Except ε σ → σ → Prop} (h : Q (.ok s) s) : Runs C Prog.get s Q := ⟨nofun, h⟩

theorem runs_write {Q : Except ε Unit → σ → Prop} {f : σ → List σ} (hstates : ∀ t ∈ f s, C t)
    (h : Q (.ok ()) (last s (f s))) : Runs C (Prog.write f) s Q := ⟨hstates, h⟩

theorem runs_bind {p : Prog σ ε α} {f : α → Prog σ ε β} {R : Except ε α → σ → Prop} {Q : Except ε β → σ → Prop}
    (hp : Runs C p s R) (hok : ∀ a t, R (.ok a) t → Runs C (f a) t Q) (herror : ∀ e t, R (.error e) t → Q (.error e) t) :
    Runs C (p >>= f) s Q := by
  have hbind : (p >>= f).run s = (match p.run s with
      | (states, .ok a) => (states ++ ((f a).run (last s states)).1, ((f a).run (last s states)).2)
      | (states, .error e) => (states, .error e)) := rfl
  obtain ⟨hstopped, hended⟩ := hp
  rcases hrun : p.run s with ⟨states, r⟩
  rw [hrun] at hstopped hended
  cases r with
  | error e =>
    have hbind : (p >>= f).run s = (states, .error e) := by rw [hbind, hrun]
    refine ⟨?_, ?_⟩
    · rw [hbind]
      exact hstopped
    · rw [hbind]
      exact herror e _ hended
  | ok a =>
    have hbind : (p >>= f).run s = (states ++ ((f a).run (last s states)).1, ((f a).run (last s states)).2) := by
      rw [hbind, hrun]
    have hrest := hok a _ hended
    refine ⟨?_, ?_⟩
    · rw [hbind]
      intro t ht
      rcases List.mem_append.mp ht with ht | ht
      · exact hstopped t ht
      · exact hrest.stopped t ht
    · rw [hbind, last_append]
      exact hrest.ended

theorem Runs.mono {C' : σ → Prop} {p : Prog σ ε α} {Q Q' : Except ε α → σ → Prop} (h : Runs C p s Q)
    (hC : ∀ t, C t → C' t) (hQ : ∀ r t, Q r t → Q' r t) : Runs C' p s Q' :=
  ⟨fun t ht => hC t (h.stopped t ht), hQ _ _ h.ended⟩

/-- A program that succeeds, and another after it. -/
theorem runs_then {p : Prog σ ε α} {f : α → Prog σ ε β} {P : α → σ → Prop} {Q : Except ε β → σ → Prop}
    (hp : Runs C p s fun r t => ∃ a, r = .ok a ∧ P a t) (h : ∀ a t, P a t → Runs C (f a) t Q) : Runs C (p >>= f) s Q := by
  refine runs_bind hp ?_ ?_
  · rintro a t ⟨b, hb, ht⟩
    cases hb
    exact h a t ht
  · rintro e t ⟨b, hb, -⟩
    cases hb

/-- A check that passes. -/
theorem runs_check {r : Except ε α} {f : α → Prog σ ε β} {Q : Except ε β → σ → Prop} {a : α} (hr : r = .ok a)
    (h : Runs C (f a) s Q) : Runs C ((liftM r : Prog σ ε α) >>= f) s Q := by
  refine runs_then (P := fun b t => b = a ∧ t = s) (runs_lift ⟨a, hr, rfl, rfl⟩) ?_
  rintro b t ⟨rfl, rfl⟩
  exact h

/-- A check that may fail. -/
theorem runs_case {r : Except ε α} {f : α → Prog σ ε β} {Q : Except ε β → σ → Prop}
    (hok : ∀ a, r = .ok a → Runs C (f a) s Q) (herror : ∀ e, r = .error e → Q (.error e) s) :
    Runs C ((liftM r : Prog σ ε α) >>= f) s Q := by
  refine runs_bind (R := fun r' t => r' = r ∧ t = s) (runs_lift ⟨rfl, rfl⟩) ?_ ?_
  · rintro a t ⟨ha, rfl⟩
    exact hok a ha.symm
  · rintro e t ⟨he, rfl⟩
    exact herror e he.symm

/-- Reading the state. -/
theorem runs_get_bind {f : σ → Prog σ ε β} {Q : Except ε β → σ → Prop} (h : Runs C (f s) s Q) :
    Runs C (Prog.get >>= f) s Q := by
  refine runs_then (P := fun b t => b = s ∧ t = s) (runs_get ⟨s, rfl, rfl, rfl⟩) ?_
  rintro b t ⟨rfl, rfl⟩
  exact h

end

end CrashLogic
