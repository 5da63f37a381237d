import SmartDns.Lib.Runs
import SmartDns.Lib.Wheel

/-!
# The timer wheel

`lib/timer_wheel.c`.  Timers stand in the lists of five rings.  A tick empties one
list of the first ring and calls the functions of its timers; when the low digits
of the clock are zero it first moves the timers of one list of the next ring down.

The list heads are kept as lists of timers; `pending` is the pointer of an entry,
which is set while the entry stands in a list.  To add a timer that is pending
breaks the lists, which is recorded and not followed any further.
-/

namespace SmartDns.Timer

/-- The rings `tv1` to `tv5`. -/
inductive Level
  | tv1
  | tv2
  | tv3
  | tv4
  | tv5
deriving DecidableEq, Repr

namespace Level

/-- The low bits that a ring does not look at: none, and from `TVR_BITS` on another
`TVN_BITS` for every ring. -/
def shift : Level → UInt64
  | tv1 => 0
  | tv2 => 10
  | tv3 => 16
  | tv4 => 22
  | tv5 => 28

/-- `TVR_MASK` and `TVN_MASK`. -/
def mask : Level → UInt64
  | tv1 => 1023
  | _ => 63

/-- The list of a time in a ring.  For `base->jiffies` and the rings from `tv2` on this
is the macro `INDEX`. -/
def index (level : Level) (time : UInt64) : Nat :=
  ((time >>> level.shift) &&& level.mask).toNat

end Level

def maxTval : UInt64 := 0x3FFFFFFFF

/-- `struct tw_timer_list`; `function` says that the pointer is not `NULL`. -/
structure TwTimer where
  expires : UInt64 := 0
  function : Bool := false
  pending : Bool := false
deriving DecidableEq

/-- `struct tw_base`, with the timers and with the `work_list` of `run_timers`. -/
structure TwBase where
  jiffies : UInt64
  vec : Level → Nat → List Nat := fun _ _ => []
  timers : Nat → TwTimer := fun _ => {}
  workList : List Nat := []

/-- The list that `_tw_add_timer` chooses. -/
def twSlot (jiffies expires : UInt64) : Level × Nat :=
  let idx := expires - jiffies
  if idx.toNat < 2 ^ 10 then (.tv1, Level.tv1.index expires)
  else if idx.toNat < 2 ^ 16 then (.tv2, Level.tv2.index expires)
  else if idx.toNat < 2 ^ 22 then (.tv3, Level.tv3.index expires)
  else if idx.toNat < 2 ^ 28 then (.tv4, Level.tv4.index expires)
  else if 2 ^ 63 ≤ idx.toNat then
    -- `(signed long)idx < 0`: the time has passed
    (.tv1, Level.tv1.index jiffies)
  else if maxTval < idx then (.tv5, Level.tv5.index (maxTval + jiffies))
  else (.tv5, Level.tv5.index expires)

namespace TwBase

variable (b : TwBase)

/-- Where `_tw_add_timer` puts a timer. -/
def slotOf (t : Nat) : Level × Nat :=
  twSlot b.jiffies (b.timers t).expires

def setVec (level : Level) (i : Nat) (list : List Nat) : TwBase :=
  { b with vec := fun l j => if (l, j) = (level, i) then list else b.vec l j }

def setTimer (t : Nat) (timer : TwTimer) : TwBase :=
  { b with timers := Function.update b.timers t timer }

/-- `list_add_tail` to the list that `_tw_add_timer` chooses. -/
def enqueue (t : Nat) : TwBase :=
  b.setVec (b.slotOf t).1 (b.slotOf t).2 (b.vec (b.slotOf t).1 (b.slotOf t).2 ++ [t])

/-- `_tw_add_timer`. -/
def twAddTimerAt (t : Nat) : TwBase :=
  (b.enqueue t).setTimer t { b.timers t with pending := true }

def twDetachTimer (t : Nat) : TwBase :=
  { b.setTimer t { b.timers t with pending := false } with
    vec := fun l i => (b.vec l i).filter (fun x => x ≠ t)
    workList := b.workList.filter (fun x => x ≠ t) }

/-- `_tw_cascade`.  The entries stay in a list all the time. -/
def twCascade (level : Level) (i : Nat) : TwBase :=
  (b.vec level i).foldl enqueue (b.setVec level i [])

def twAddTimer (t : Nat) : TwBase :=
  let timer := b.timers t
  if timer.function then
    (b.setTimer t { timer with expires := timer.expires + (b.jiffies - 1) }).twAddTimerAt t
  else b

def twDelTimer (t : Nat) : TwBase :=
  if (b.timers t).pending then b.twDetachTimer t else b

def twModTimerPending (t : Nat) (delay : UInt64) : TwBase :=
  let b := b.setTimer t { b.timers t with expires := delay + b.jiffies - 1 }
  if (b.timers t).pending then (b.twDetachTimer t).twAddTimerAt t else b

/-- The chain of `_tw_cascade` calls in `run_timers`. -/
def cascades : TwBase :=
  let i2 := Level.tv2.index b.jiffies
  let i3 := Level.tv3.index b.jiffies
  let i4 := Level.tv4.index b.jiffies
  let i5 := Level.tv5.index b.jiffies
  if Level.tv1.index b.jiffies = 0 then
    let b := b.twCascade .tv2 i2
    if i2 = 0 then
      let b := b.twCascade .tv3 i3
      if i3 = 0 then
        let b := b.twCascade .tv4 i4
        if i4 = 0 then b.twCascade .tv5 i5 else b
      else b
    else b
  else b

/-- `run_timers` up to its loop. -/
def runTimers : TwBase :=
  let index := Level.tv1.index b.jiffies
  let b := b.cascades
  { b.setVec .tv1 index [] with
    jiffies := b.jiffies + 1
    workList := b.vec .tv1 index }

end TwBase

/-- The wheel and its runner: the ticks that have been processed, whether the loop of
`run_timers` is running, and the calls of timer functions, each with the number of
its tick. -/
structure TimerSystem where
  base : TwBase
  ticks : Nat := 0
  running : Bool := false
  fired : List (Nat × Nat) := []
  broken : Bool := false

/-- Calls from outside and from timer functions, and the steps of the runner. -/
inductive TimerEvent
  /-- A timer is set up with a delay and a function, and added. -/
  | add (t : Nat) (delay : UInt64) (function : Bool)
  | del (t : Nat)
  | mod (t : Nat) (delay : UInt64)
  | tick
  | fire
deriving DecidableEq

namespace TimerSystem

def init (jiffies : UInt64) : TimerSystem where
  base := { jiffies := jiffies }

/-- The loop of `run_timers`: the function of the first timer is called, or the tick is
over. -/
def fire (s : TimerSystem) : TimerSystem :=
  match s.base.workList with
  | [] => { s with running := false }
  | t :: _ => { s with base := s.base.twDetachTimer t, fired := s.fired ++ [(s.ticks, t)] }

def step (s : TimerSystem) : TimerEvent → TimerSystem
  | .add t delay function =>
    if (s.base.timers t).pending then { s with broken := true }
    else { s with base := (s.base.setTimer t ⟨delay, function, false⟩).twAddTimer t }
  | .del t => { s with base := s.base.twDelTimer t }
  | .mod t delay => { s with base := s.base.twModTimerPending t delay }
  | .tick =>
    if s.running then s
    else { s with base := s.base.runTimers, ticks := s.ticks + 1, running := true }
  | .fire => if s.running then s.fire else s

end TimerSystem

end SmartDns.Timer
