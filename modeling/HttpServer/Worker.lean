import HttpServer.Lib.Slots.Returns
import HttpServer.Lib.Slots.Work
import HttpServer.Lib.Slots.Destroy
import HttpServer.Bytes

/-! `http::TaskManager` and `http::Worker`: a thread for each key, replaced under a mutex.

Both are slots. What a call does while it has the mutex is its list of operations, and
what the threads run is their behaviour; who takes the next step, a caller or a thread, is the
input. A call that does not get the mutex waits, so that it is no step at all; whoever makes
it, a task's function too, is meanwhile where it was. -/
namespace HttpServer
open Lib Slots

/-- What a thread that calls a function logs. -/
inductive Calling (φ ρ : Type) where
  | called (fn : φ)
  | returned (fn : φ) (result : ρ)
  deriving DecidableEq

def Calling.begins {φ ρ : Type} : Calling φ ρ → Bool
  | called _ => true
  | returned _ _ => false

namespace TaskManager
variable {φ : Type}

/-- What the thread of a task has captured. -/
structure Task (φ : Type) where
  interval : Int
  fn : φ
  deriving DecidableEq

/-- Where it is in its loops. -/
inductive Phase where
  /-- At `while (!stop.stop_requested())`. -/
  | checking
  /-- Behind that test, in front of `fn()`. -/
  | entering
  /-- In `fn()`. -/
  | calling
  /-- At `while (std::chrono::steady_clock::now() < next_tick)`. -/
  | waiting (nextTick : Int)
  | done
  deriving DecidableEq

/-- What a step meets: the time of `steady_clock`, and whether `fn`, if this is where the thread
is, has come to its end. It may take any time, and may never come to it. -/
structure Turn where
  now : Int
  returns : Bool

/-- One step. What `fn` returns does not matter. -/
def advance (task : Task φ) (phase : Phase) (stop : Bool) (turn : Turn) :
    Phase × Option (Calling φ Unit) :=
  match phase with
  | .checking => (if stop then .done else .entering, none)
  | .entering => (.calling, some (.called task.fn))
  | .calling =>
    if turn.returns then (.waiting (turn.now + task.interval), some (.returned task.fn ()))
    else (.calling, none)
  | .waiting nextTick =>
    if turn.now < nextTick then (if stop then .done else .waiting nextTick, none)
    else (.checking, none)
  | .done => (.done, none)

def behaviour (φ : Type) : Behaviour (Task φ) Phase Turn (Calling φ Unit) where
  start _ := .checking
  advance := advance
  ended phase := phase == .done
  rests := by
    intro task phase stop now hended
    rw [beq_iff_eq.mp hended]
    rfl

/-- `tasks.erase(key)`, which takes the thread out, asks it to stop and joins it, and
`tasks[key] = std::jthread(...)`, which starts the other one before it is assigned. -/
def repeatEvery (key : Bytes) (interval : Int) (fn : φ) : List (Op Bytes (Task φ)) :=
  [.unlink key, .requestStop, .join, .spawn key {interval := interval, fn := fn}, .publish key]

inductive Input (φ : Type) where
  | repeatEvery (key : Bytes) (interval : Int) (fn : φ)
  /-- The caller that has the mutex goes on. -/
  | proceed
  /-- A thread goes on. -/
  | run (t : Nat) (turn : Turn)

def Input.slots : Input φ → Slots.Input Bytes (Task φ) Turn
  | .repeatEvery key interval fn => .call (TaskManager.repeatEvery key interval fn)
  | .proceed => .proceed
  | .run t turn => .run t turn

abbrev State (φ : Type) : Type := Slots.State Bytes (Task φ) Phase (Calling φ Unit)

def step (s : State φ) (i : Input φ) : State φ := Slots.step (behaviour φ) s i.slots

end TaskManager

namespace Worker
variable {π δ ω ε : Type}

/-- `enqueue`: the thread that is found is joined where it is, and taken out when the new one
is running. -/
def enqueue (id : Int) (fn : π) : List (Op Int π) :=
  [.find id, .requestStop, .join, .spawn id fn, .erase id, .publish id]

inductive Input (π ω : Type) where
  | enqueue (id : Int) (fn : π)
  | proceed
  | run (t : Nat) (o : ω)

def Input.slots : Input π ω → Slots.Input Int π ω
  | .enqueue id fn => .call (Worker.enqueue id fn)
  | .proceed => .proceed
  | .run t o => .run t o

/-- `enqueue` takes any invocable, which gets the stop token: what it does is a parameter. -/
def step (B : Behaviour π δ ω ε) (s : Slots.State Int π δ ε) (i : Input π ω) :
    Slots.State Int π δ ε :=
  Slots.step B s i.slots

/-- The destructor begins: the map's threads are stopped and joined in some order. -/
def destruct (B : Behaviour π δ ω ε) (s : Slots.State Int π δ ε) (keys : List Int) :
    Slots.State Int π δ ε :=
  Slots.step B s (.call (destroy keys))

end Worker

namespace Server
variable {φ : Type}

/-- Where the function that `Server::repeatEvery` enqueues is in its loop. -/
inductive Phase where
  /-- At `while (!stop.stop_requested())`. -/
  | checking
  /-- Behind that test, in front of `fn()`. -/
  | entering
  /-- In `fn()`. -/
  | calling
  /-- In `std::this_thread::sleep_for(interval)`, which nothing interrupts. -/
  | sleeping
  | done
  deriving DecidableEq

/-- One step; `result` is what `fn` returns, if this is where it comes to its end. -/
def advance (fn : φ) (phase : Phase) (stop : Bool) (result : Option Bool) :
    Phase × Option (Calling φ Bool) :=
  match phase with
  | .checking => (if stop then .done else .entering, none)
  | .entering => (.calling, some (.called fn))
  | .calling =>
    match result with
    | none => (.calling, none)
    | some result => (if result then .sleeping else .done, some (.returned fn result))
  | .sleeping => (.checking, none)
  | .done => (.done, none)

def repeatLoop (φ : Type) : Behaviour φ Phase (Option Bool) (Calling φ Bool) where
  start _ := .checking
  advance := advance
  ended phase := phase == .done
  rests := by
    intro fn phase stop result hended
    rw [beq_iff_eq.mp hended]
    rfl

/-- `Server::repeatEvery(id, interval, fn)` enqueues its loop with `taskQueue_`. -/
def repeatStep (s : Slots.State Int φ Phase (Calling φ Bool)) (i : Worker.Input φ (Option Bool)) :
    Slots.State Int φ Phase (Calling φ Bool) :=
  Worker.step (repeatLoop φ) s i

end Server
end HttpServer
