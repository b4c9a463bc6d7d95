namespace AddonWatch

/-- Tasks that share one state and one clock. A task takes the next step of its own if it need not
wait; otherwise it names the moments at which it may go on. -/
structure Clockwork (τ σ : Type) where
  tasks : σ → List τ
  step : σ → τ → Option σ
  timers : σ → List Nat
  now : σ → Nat
  setNow : Nat → σ → σ

namespace Clockwork

variable {τ σ κ ρ : Type} (m : Clockwork τ σ)

/-- One task goes on until it has to wait. -/
def burst : Nat → σ → τ → σ
  | 0, s, _ => s
  | fuel + 1, s, task =>
    match m.step s task with
    | some s => burst fuel s task
    | none => s

/-- The first task that need not wait goes on until it has to. -/
def turn (fuel : Nat) (s : σ) : Option σ :=
  (m.tasks s).findSome? fun task => (m.step s task).map fun s => m.burst fuel s task

/-- All tasks go on until every one of them waits. -/
def settle (patience : Nat) : Nat → σ → σ
  | 0, s => s
  | fuel + 1, s =>
    match m.turn patience s with
    | some s => settle patience fuel s
    | none => s

/-- The first of the given moments that is still to come. -/
def nextMoment (now : Nat) (moments : List Nat) : Option Nat :=
  (moments.filter (now < ·)).min?

/-- Lets time pass until `moment`; the clock stands still while any task can go on, and stops at
every timer on the way. -/
def sleepUntil (patience moment : Nat) : Nat → σ → σ
  | 0, s => s
  | fuel + 1, s =>
    let s := m.settle patience patience s
    match nextMoment (m.now s) (m.timers s) with
    | some timer =>
      if timer < moment then sleepUntil patience moment fuel (m.setNow timer s)
      else m.setNow (max moment (m.now s)) s
    | none => m.setNow (max moment (m.now s)) s

/-- Does one piece of work in the foreground. While it waits the tasks go on, and when they all
wait too, time passes. -/
def await (patience : Nat) (work : κ → σ → Option (σ × (κ ⊕ ρ))) (timers : κ → List Nat) :
    Nat → κ → σ → σ × Option ρ
  | 0, _, s => (s, none)
  | fuel + 1, k, s =>
    match work k s with
    | some (s, .inl k) => await patience work timers fuel k s
    | some (s, .inr result) => (s, some result)
    | none =>
      match m.turn patience s with
      | some s => await patience work timers fuel k s
      | none =>
        match nextMoment (m.now s) (timers k ++ m.timers s) with
        | some moment => await patience work timers fuel k (m.setNow moment s)
        | none => (s, none)

end Clockwork

end AddonWatch
