namespace AddonWatch

/-- A key that is to be looked at again at a set moment, counted from the start of its clock. The
level tells how coarse the slot is that it lies in: a slot of the lowest level is one moment, and
every level above has slots of 64 times the length. -/
structure Alarm where
  id : Nat
  key : String
  due : Nat
  level : Nat
deriving DecidableEq, Repr, Inhabited

namespace Alarm

/-- The moment at which the slot of the alarm begins. -/
def slot (alarm : Alarm) : Nat :=
  alarm.due - alarm.due % Nat.pow 64 alarm.level

/-- Whether two alarms lie in one slot. -/
def shares (a b : Alarm) : Bool :=
  a.level = b.level && a.slot = b.slot

/-- The order of the slots: the finer ones come first, of one level the earlier ones. -/
def precedes (a b : Alarm) : Bool :=
  a.level < b.level || (a.level = b.level && a.slot < b.slot)

/-- The alarm in a slot of the next finer level. -/
def lowered (alarm : Alarm) : Alarm :=
  { alarm with level := alarm.level - 1 }

/-- The coarsest level. -/
def topLevel : Nat := 5

/-- The level for a moment: the finest one with a slot that begins behind `elapsed`. -/
def levelFor (elapsed due : Nat) : Nat :=
  min topLevel ((Nat.lor (Nat.xor elapsed due) 63).log2 / 6)

end Alarm

/-- Alarms that have not gone off yet, the latest placed first, on a clock that was started at a
moment. The slots up to `elapsed` are empty, and the alarms set for no later than that are
`overdue`. The clock wakes at a set moment, and `reached` is the last one at which it did. -/
structure Alarms where
  start : Nat := 0
  fresh : Nat := 0
  elapsed : Nat := 0
  reached : Nat := 0
  wakeAt : Option Nat := none
  pending : List Alarm := []
  overdue : List Alarm := []
deriving DecidableEq, Repr, Inhabited

namespace Alarms

/-- No alarm is set further ahead than this. -/
def horizon : Nat := 68719476735

/-- The alarm that was placed last into the first slot. -/
def foremost : List Alarm → Option Alarm
  | [] => none
  | alarm :: rest =>
    match foremost rest with
    | some other => if other.precedes alarm then some other else some alarm
    | none => some alarm

/-- The moment at which the first slot begins. -/
def nextSlot (pending : List Alarm) : Option Nat :=
  (foremost pending).map Alarm.slot

/-- Takes the alarms of one slot one by one, the latest placed first, and places them into finer
slots. -/
def spread (front : Alarm) (pending : List Alarm) : List Alarm :=
  (pending.filter fun alarm => alarm.shares front).foldl (fun found alarm => alarm.lowered :: found)
    (pending.filter fun alarm => !alarm.shares front)

/-- How many times alarms can still be placed into finer slots. -/
def effort (pending : List Alarm) : Nat :=
  pending.foldr (fun alarm rest => alarm.level + rest) 0

theorem effort_foldl_lowered (moved rest : List Alarm) (h : ∀ alarm ∈ moved, 0 < alarm.level) :
    effort (moved.foldl (fun found alarm => alarm.lowered :: found) rest) + moved.length =
      effort moved + effort rest := by
  induction moved generalizing rest with
  | nil => simp [effort]
  | cons alarm moved ih =>
    have hpos := h alarm (by simp)
    have hstep := ih (alarm.lowered :: rest) fun other ho => h other (by simp [ho])
    simp only [effort, List.foldr_cons, List.foldl_cons, List.length_cons, Alarm.lowered] at *
    omega

theorem effort_filter (p : Alarm → Bool) (pending : List Alarm) :
    effort (pending.filter p) + effort (pending.filter fun alarm => !p alarm) = effort pending := by
  induction pending with
  | nil => rfl
  | cons alarm rest ih =>
    by_cases h : p alarm <;> simp only [effort, List.filter_cons, h, Bool.not_true,
      Bool.not_false, Bool.false_eq_true, if_true, if_false, List.foldr_cons] at * <;> omega

theorem mem_of_foremost {pending : List Alarm} {front : Alarm} (h : foremost pending = some front) :
    front ∈ pending := by
  induction pending generalizing front with
  | nil => simp [foremost] at h
  | cons alarm rest ih =>
    simp only [foremost] at h
    split at h
    · next other ho =>
      split at h
      · exact List.mem_cons_of_mem _ (Option.some.inj h ▸ ih ho)
      · simp [← Option.some.inj h]
    · simp [← Option.some.inj h]

theorem effort_spread_lt {pending : List Alarm} {front : Alarm} (h : front ∈ pending)
    (hlevel : 0 < front.level) : effort (spread front pending) < effort pending := by
  have hmoved : ∀ alarm ∈ pending.filter (fun alarm => alarm.shares front), 0 < alarm.level := by
    intro alarm ha
    have hs := (List.mem_filter.mp ha).2
    simp only [Alarm.shares, Bool.and_eq_true, decide_eq_true_eq] at hs
    omega
  have hfront : front ∈ pending.filter (fun alarm => alarm.shares front) :=
    List.mem_filter.mpr ⟨h, by simp [Alarm.shares]⟩
  have hlength := List.length_pos_of_mem hfront
  have hsum := effort_foldl_lowered _ (pending.filter fun alarm => !alarm.shares front) hmoved
  have hfilter := effort_filter (fun alarm => alarm.shares front) pending
  simp only [spread]
  omega

/-- Empties the slots that begin by `limit` into finer ones, until an alarm lies in a slot of the
lowest level and goes off, or no slot is left. Gives the moment up to which the slots are empty. -/
def sift (limit elapsed : Nat) (pending : List Alarm) : Option Alarm × Nat × List Alarm :=
  match h : foremost pending with
  | none => (none, max elapsed limit, pending)
  | some front =>
    if limit < front.slot then (none, max elapsed limit, pending)
    else if hlevel : front.level = 0 then
      (some front, elapsed, pending.filter fun alarm => alarm.id ≠ front.id)
    else
      have := effort_spread_lt (mem_of_foremost h) (Nat.pos_of_ne_zero hlevel)
      sift limit front.slot (spread front pending)
termination_by effort pending

/-- The slots are looked through up to the moment that has been reached, and the next slot sets the
moment to wake at. -/
def turn (alarms : Alarms) : Option Alarm × Alarms :=
  let (found, elapsed, pending) := sift alarms.reached alarms.elapsed alarms.pending
  (found, { alarms with elapsed := elapsed, wakeAt := nextSlot pending, pending := pending })

/-- Takes turns until an alarm goes off, or until the moment to wake at is still to come. -/
def turns (now : Nat) : Nat → Alarms → Option Alarm × Alarms
  | 0, alarms => (none, alarms)
  | fuel + 1, alarms =>
    match alarms.wakeAt with
    | none => alarms.turn
    | some moment =>
      if now < alarms.start + moment then (none, alarms)
      else
        match { alarms with reached := moment }.turn with
        | (some alarm, alarms) => (some alarm, alarms)
        | (none, alarms) => if alarms.wakeAt.isNone then (none, alarms) else turns now fuel alarms

/-- The next alarm that goes off by `now`: the latest of those that were overdue when they were
set, and then what the slots bring. Every turn but the first one places an alarm into a finer
slot. -/
def pop (alarms : Alarms) (now : Nat) : Option Alarm × Alarms :=
  match alarms.overdue with
  | alarm :: rest => (some alarm, { alarms with overdue := rest })
  | [] => turns now (effort alarms.pending + 2) alarms

/-- Puts an alarm into its slot, unless it is too far ahead. -/
def place? (alarms : Alarms) (id : Nat) (key : String) (due : Nat) : Option Alarms :=
  let alarm : Alarm := ⟨id, key, due, Alarm.levelFor alarms.elapsed due⟩
  if due ≤ alarms.elapsed then some { alarms with overdue := alarm :: alarms.overdue }
  else if horizon < due - alarms.elapsed then none
  else some { alarms with pending := alarm :: alarms.pending }

/-- A moment as the clock counts it; one that has passed counts as the last one that has. -/
def onClock (alarms : Alarms) (moment : Nat) : Nat :=
  max (moment - alarms.start) alarms.elapsed

/-- The moment to wake at comes forward if the given one is earlier. -/
def wakeBy (alarms : Alarms) (due : Nat) : Alarms :=
  match alarms.wakeAt with
  | some moment =>
    if due < max moment alarms.elapsed then { alarms with wakeAt := some due } else alarms
  | none => { alarms with wakeAt := some due }

/-- Sets a new alarm, and gives its number. -/
def insert? (alarms : Alarms) (key : String) (moment : Nat) : Option (Nat × Alarms) := do
  let due := alarms.onClock moment
  let next ← { alarms with fresh := alarms.fresh + 1 }.place? alarms.fresh key due
  return (alarms.fresh, next.wakeBy due)

def find? (alarms : Alarms) (id : Nat) : Option Alarm :=
  (alarms.overdue ++ alarms.pending).find? fun alarm => alarm.id = id

def without (alarms : Alarms) (id : Nat) : Alarms :=
  { alarms with
    pending := alarms.pending.filter fun alarm => alarm.id ≠ id
    overdue := alarms.overdue.filter fun alarm => alarm.id ≠ id }

/-- What is said of an alarm that should be there and is not. -/
def missing : String :=
  "invalid key"

/-- What is said of an alarm that is set too far ahead. -/
def tooFar : String :=
  "invalid deadline; err=Invalid"

/-- Puts an alarm off or forward; there is none to move if it has gone off. -/
def reset? (alarms : Alarms) (id moment : Nat) : Option Alarms := do
  let alarm ← alarms.find? id
  let next ← (alarms.without id).place? id alarm.key (alarms.onClock moment)
  return { next with wakeAt := next.wakeAt.map (nextSlot next.pending).getD }

/-- Why an alarm cannot be put off or forward. -/
def resetFault (alarms : Alarms) (id : Nat) : String :=
  if (alarms.find? id).isNone then missing else tooFar

/-- Takes an alarm out; there is none to take if it has gone off. -/
def remove? (alarms : Alarms) (id : Nat) : Option Alarms :=
  (alarms.find? id).map fun _ =>
    let next := alarms.without id
    if nextSlot next.pending = nextSlot alarms.pending then next
    else { next with wakeAt := nextSlot next.pending }

/-- The moment at which the clock has to be looked at again. -/
def timers (alarms : Alarms) : List Nat :=
  (alarms.wakeAt.map (alarms.start + ·)).toList

end Alarms

end AddonWatch
