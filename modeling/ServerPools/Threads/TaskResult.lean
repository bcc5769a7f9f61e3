import ServerPools.Threads.ThreadPool
import Mathlib.Logic.Function.Basic

/- threadpool.h and the lower half of threadpool.cpp: Any, Semaphore, Result and Task. A
   Result is named by the submission that constructed it, a Task by its object. -/
namespace TaskResult
open ThreadPool

/-- Any is a unique_ptr to the stored value; none is the empty one. -/
abbrev Any (α : Type) := Option α

/-- What base_ points to: the stored data with the type it was stored as. -/
abbrev Derive {ι : Type} (data : ι → Type) := Σ t, data t

/-- dynamic_cast gives null for another type and for an empty Any. -/
def cast_ {ι : Type} [DecidableEq ι] {data : ι → Type} (t : ι) : Any (Derive data) → Except String (data t)
  | none => .error "type is unmatch"
  | some ⟨u, stored⟩ => if same : u = t then .ok (same ▸ stored) else .error "type is unmatch"

structure Semaphore where
  resLimit : Int
  isExit : Bool
  deriving DecidableEq, Repr

def Semaphore.new (limit : Int) : Semaphore := ⟨limit, false⟩

/-- live is cleared by the destructor, setVals counts the calls of setVal; no code reads them. -/
structure Result (α : Type) where
  any : Any α
  sem : Semaphore
  isValid : Bool
  live : Bool
  setVals : Nat
  deriving DecidableEq, Repr

/-- Where a call of Result::get is; blocked is the wait on the semaphore's cond. -/
inductive GetPc (α : Type) where
  | entering
  | blocked
  | woken
  | acquired
  | returned (any : Any α)
  deriving DecidableEq, Repr

structure Get (α : Type) where
  result : Nat
  pc : GetPc α
  deriving DecidableEq, Repr

/-- result is the field Task::result_ of every task, produced what run() returned for a
    submission; the latter is read by no code. -/
structure Side (τ α : Type) where
  result : τ → Option Nat
  objects : Nat → Option (Result α)
  gets : List (Get α)
  produced : Nat → Option (Any α)

variable {τ α : Type} [DecidableEq τ]

def emptySide : Side τ α := ⟨fun _ => none, fun _ => none, [], fun _ => none⟩

def setObject (s : Side τ α) (i : Nat) (r : Result α) : Side τ α :=
  { s with objects := Function.update s.objects i (some r) }

def setResult (s : Side τ α) (task : τ) (i : Nat) : Side τ α :=
  { s with result := Function.update s.result task (some i) }

/-- The constructor, run where the return statement of subMitTask stands. -/
def construct (isValid : Bool) (s : Side τ α) (i : Nat) (task : τ) : Side τ α :=
  setResult (setObject s i ⟨none, .new 0, isValid, true, 0⟩) task i

def Get.wake (i : Nat) (g : Get α) : Get α :=
  match g.pc with
  | .blocked => if g.result = i then { g with pc := .woken } else g
  | _ => g

/-- Semaphore::post on the semaphore of one Result. -/
def post (s : Side τ α) (i : Nat) : Option (Side τ α) :=
  match s.objects i with
  | none => none
  | some r =>
    if r.sem.isExit then some s
    else
      let posted := setObject s i { r with sem := { r.sem with resLimit := r.sem.resLimit + 1 } }
      some { posted with gets := s.gets.map (Get.wake i) }

/-- Task::exec, named by what comes next: the test of result_, its second read, run(), and
    in setVal the store to any_ and the post. -/
inductive Stage (α : Type) where
  | test
  | load
  | runTask (i : Nat)
  | store (i : Nat) (any : Any α)
  | post (i : Nat)
  deriving DecidableEq, Repr

/-- One step of Task::exec; value is what run() returns. Loading a null result_ and writing
    to an object that was never constructed are undefined and have no step. -/
def exec (s : Side τ α) (e : Entry τ) (stage : Stage α) (value : Any α) :
    Option (Side τ α × Option (Stage α)) :=
  match stage with
  | .test =>
    match s.result e.task with
    | none => some (s, none)
    | some _ => some (s, some .load)
  | .load => (s.result e.task).map fun i => (s, some (.runTask i))
  | .runTask i =>
    some ({ s with produced := Function.update s.produced e.sub (some value) },
      some (.store i value))
  | .store i any =>
    (s.objects i).map fun r =>
      (setObject s i { r with any := any, setVals := r.setVals + 1 }, some (.post i))
  | .post i => (post s i).map fun s => (s, none)

/-- What clients do with their Results; use after destruction and destruction under a
    pending get are left out. -/
inductive ClientAction where
  | get (i : Nat)
  | getNext (g : Nat)
  | getStir (g : Nat)
  | drop (i : Nat)
  deriving DecidableEq, Repr

def setGet (s : Side τ α) (g : Nat) (get : Get α) (pc : GetPc α) : Side τ α :=
  { s with gets := s.gets.set g { get with pc := pc } }

/-- Semaphore::wait with the lock held, up to the wait or the return. -/
def semWait (s : Side τ α) (g : Nat) (get : Get α) (r : Result α) : Side τ α :=
  if 0 < r.sem.resLimit then
    setGet (setObject s get.result { r with sem := { r.sem with resLimit := r.sem.resLimit - 1 } })
      g get .acquired
  else setGet s g get .blocked

/-- One step of Result::get. -/
def getNext (s : Side τ α) (g : Nat) : Option (Side τ α) :=
  match s.gets[g]? with
  | none => none
  | some get =>
    match s.objects get.result with
    | none => none
    | some r =>
      match get.pc with
      | .entering =>
        if r.isValid then
          if r.sem.isExit then some (setGet s g get .acquired) else some (semWait s g get r)
        else some (setGet s g get (.returned none))
      | .woken => some (semWait s g get r)
      | .acquired =>
        some (setGet (setObject s get.result { r with any := none }) g get (.returned r.any))
      | _ => none

def GetPc.active : GetPc α → Bool
  | .returned _ => false
  | _ => true

def client (s : Side τ α) : ClientAction → Option (Side τ α)
  | .get i =>
    match s.objects i with
    | none => none
    | some r => if r.live then some { s with gets := s.gets ++ [⟨i, .entering⟩] } else none
  | .getNext g => getNext s g
  | .getStir g =>
    match s.gets[g]? with
    | none => none
    | some get => if get.pc matches .blocked then some (setGet s g get .woken) else none
  | .drop i =>
    match s.objects i with
    | none => none
    | some r =>
      if r.live ∧ ∀ g ∈ s.gets, g.result = i → g.pc.active = false then
        some (setObject s i { r with live := false, sem := { r.sem with isExit := true } })
      else none

def resultBackend : Backend τ (Side τ α) (Stage α) (Any α) ClientAction where
  accept := construct true
  reject := construct false
  first := .test
  exec := exec
  client := client

abbrev ResultPool (τ α : Type) := Pool τ (Side τ α) (Stage α)

/-- ThreadPool::subMitTask and ThreadPool::threadFunc of threadpool.cpp. -/
def subMitTask (p : ResultPool τ α) (i : Nat) : Option (ResultPool τ α) :=
  submit resultBackend p i

def threadFunc (p : ResultPool τ α) (w : Nat) (idleLong : Bool) : Option (ResultPool τ α) :=
  ThreadPool.threadFunc resultBackend p w idleLong

end TaskResult
