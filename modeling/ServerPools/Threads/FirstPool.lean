import ServerPools.Threads.TaskResult

/- The first ThreadPool, threadpool.cpp and threadpool.h beside main.cpp: a vector of threads
   that never grows or shrinks, no shutdown, and a Semaphore without isExit. Steps are cut as for
   the second pool, whose queue entries, submissions and calls of get are used here. -/
namespace FirstPool
open ThreadPool (Entry Submit SubmitPc PoolMode Backend asSize)

/-- Where a thread is in threadFunc; blocked is a wait on noEmpty. -/
inductive WorkerPc (τ σ : Type) where
  | entering
  | blocked
  | woken
  | running (e : Entry τ) (stage : σ)
  deriving DecidableEq, Repr

/-- thread is the element of threads whose start() launched it and is read by no code. -/
structure Worker (τ σ : Type) where
  thread : Nat
  pc : WorkerPc τ σ
  deriving DecidableEq, Repr

/-- Where start(n) is, named by the statement that comes next. -/
inductive StartPc where
  | notCalled
  | setInit (n : Int)
  | creating (i : Nat)
  | launching (i : Nat)
  | returned
  deriving DecidableEq, Repr

/-- The fields of the class, the threads of control and the history. threads counts the elements
    of the vector: they are all alike. -/
structure Pool (τ ρ σ : Type) where
  threads : Nat
  initThreadSize : Int
  taskQue : List (Entry τ)
  taskSize : Nat
  taskQueMaxThreadHold : Int
  mode : PoolMode
  workers : List (Worker τ σ)
  submits : List (Submit τ)
  startCall : StartPc
  results : ρ
  accepted : List (Entry τ)
  popped : List (Entry τ)
  executed : List (Entry τ)

variable {τ ρ σ χ κ : Type}

def newPool (results : ρ) : Pool τ ρ σ where
  threads := 0
  initThreadSize := 0
  taskQue := []
  taskSize := 0
  taskQueMaxThreadHold := 1024
  mode := .modeFixd
  workers := []
  submits := []
  startCall := .notCalled
  results := results
  accepted := []
  popped := []
  executed := []

def setMode (p : Pool τ ρ σ) (mode : PoolMode) : Pool τ ρ σ := { p with mode := mode }

def setTaskQueueMaxThreadHold (p : Pool τ ρ σ) (threadhold : Int) : Pool τ ρ σ :=
  { p with taskQueMaxThreadHold := threadhold }

/-- A pool as its owner configures it before anything else happens. -/
def configured (results : ρ) (mode : PoolMode) (threadhold : Int) : Pool τ ρ σ :=
  setTaskQueueMaxThreadHold (setMode (newPool results) mode) threadhold

def Worker.wake (w : Worker τ σ) : Worker τ σ :=
  match w.pc with
  | .blocked => { w with pc := .woken }
  | _ => w

def notifyNoEmpty (p : Pool τ ρ σ) : Pool τ ρ σ := { p with workers := p.workers.map Worker.wake }
def notifyNotFull (p : Pool τ ρ σ) : Pool τ ρ σ := { p with submits := p.submits.map Submit.wake }

def setWorker (p : Pool τ ρ σ) (w : Nat) (worker : Worker τ σ) (pc : WorkerPc τ σ) : Pool τ ρ σ :=
  { p with workers := p.workers.set w { worker with pc := pc } }

def setSubmit (p : Pool τ ρ σ) (i : Nat) (c : Submit τ) (pc : SubmitPc) : Pool τ ρ σ :=
  { p with submits := p.submits.set i { c with pc := pc } }

/-- The predicate of the wait on notFull. -/
def hasRoom (p : Pool τ ρ σ) : Prop := p.taskQue.length < asSize p.taskQueMaxThreadHold

instance (p : Pool τ ρ σ) : Decidable (hasRoom p) := Nat.decLt _ _

def enqueue (p : Pool τ ρ σ) (e : Entry τ) : Pool τ ρ σ :=
  notifyNoEmpty { p with
    taskQue := p.taskQue ++ [e]
    taskSize := (p.taskSize + 1) % 2 ^ 32
    accepted := p.accepted ++ [e] }

def acceptTask (B : Backend τ ρ σ χ κ) (p : Pool τ ρ σ) (i : Nat) (c : Submit τ) : Pool τ ρ σ :=
  setSubmit { enqueue p ⟨c.task, i⟩ with results := B.accept p.results i c.task } i c .accepted

def rejectTask (B : Backend τ ρ σ χ κ) (p : Pool τ ρ σ) (i : Nat) (c : Submit τ) : Pool τ ρ σ :=
  setSubmit { p with results := B.reject p.results i c.task } i c .rejected

/-- A submission from taking the lock to the wait or the return. -/
def subMitTask (B : Backend τ ρ σ χ κ) (p : Pool τ ρ σ) (i : Nat) : Option (Pool τ ρ σ) :=
  match p.submits[i]? with
  | none => none
  | some c =>
    match c.pc with
    | .entering | .woken =>
      if hasRoom p then some (acceptTask B p i c) else some (setSubmit p i c .blocked)
    | .timedOut =>
      if hasRoom p then some (acceptTask B p i c) else some (rejectTask B p i c)
    | _ => none

/-- The deadline of a wait_for on notFull passes before the call has the lock back, also one
    that was notified. -/
def submitTimeout (p : Pool τ ρ σ) (i : Nat) : Option (Pool τ ρ σ) :=
  match p.submits[i]? with
  | none => none
  | some c =>
    match c.pc with
    | .blocked | .woken => some (setSubmit p i c .timedOut)
    | _ => none

/-- A spurious wake-up of a submission blocked on notFull. -/
def submitStir (p : Pool τ ρ σ) (i : Nat) : Option (Pool τ ρ σ) :=
  match p.submits[i]? with
  | none => none
  | some c =>
    match c.pc with
    | .blocked => some (setSubmit p i c .woken)
    | _ => none

def takeTask (B : Backend τ ρ σ χ κ) (p : Pool τ ρ σ) (w : Nat) (worker : Worker τ σ)
    (e : Entry τ) (rest : List (Entry τ)) : Pool τ ρ σ :=
  let taken := setWorker { p with
    taskQue := rest
    taskSize := (p.taskSize + 2 ^ 32 - 1) % 2 ^ 32
    popped := p.popped ++ [e] } w worker (.running e B.first)
  notifyNotFull (if rest ≠ [] then notifyNoEmpty taken else taken)

/-- The test of the wait on noEmpty with the lock held, up to the wait or the end of the section. -/
def loopTest (B : Backend τ ρ σ χ κ) (p : Pool τ ρ σ) (w : Nat) (worker : Worker τ σ) : Pool τ ρ σ :=
  match p.taskQue with
  | [] => setWorker p w worker .blocked
  | e :: rest => takeTask B p w worker e rest

def threadFunc (B : Backend τ ρ σ χ κ) (p : Pool τ ρ σ) (w : Nat) : Option (Pool τ ρ σ) :=
  match p.workers[w]? with
  | none => none
  | some worker =>
    match worker.pc with
    | .entering | .woken => some (loopTest B p w worker)
    | _ => none

def workerStir (p : Pool τ ρ σ) (w : Nat) : Option (Pool τ ρ σ) :=
  match p.workers[w]? with
  | none => none
  | some worker =>
    if worker.pc matches .blocked then some (setWorker p w worker .woken) else none

/-- One atomic step of the task a thread runs; after the last one the loop begins again. -/
def execTask (B : Backend τ ρ σ χ κ) (p : Pool τ ρ σ) (w : Nat) (x : χ) : Option (Pool τ ρ σ) :=
  match p.workers[w]? with
  | none => none
  | some worker =>
    match worker.pc with
    | .running e stage =>
      match B.exec p.results e stage x with
      | none => none
      | some (results, some next) =>
        some (setWorker { p with results := results } w worker (.running e next))
      | some (results, none) =>
        some (setWorker { p with results := results, executed := p.executed ++ [e] } w worker .entering)
    | _ => none

/-- The next statement of start. Reading the vector past its end is undefined and has no step. -/
def startNext (p : Pool τ ρ σ) : Option (Pool τ ρ σ) :=
  match p.startCall with
  | .setInit n => some { p with initThreadSize := n, startCall := .creating 0 }
  | .creating i =>
    if (i : Int) < p.initThreadSize then
      some { p with threads := p.threads + 1, startCall := .creating (i + 1) }
    else some { p with startCall := .launching 0 }
  | .launching i =>
    if (i : Int) < p.initThreadSize then
      if i < p.threads then
        some { p with workers := p.workers ++ [⟨i, .entering⟩], startCall := .launching (i + 1) }
      else none
    else some { p with startCall := .returned }
  | .notCalled | .returned => none

inductive Action (τ χ κ : Type) where
  | call (task : τ)
  | submit (i : Nat)
  | submitTimeout (i : Nat)
  | submitStir (i : Nat)
  | callStart (n : Int)
  | start
  | worker (w : Nat)
  | workerStir (w : Nat)
  | exec (w : Nat) (x : χ)
  | client (k : κ)
  deriving DecidableEq, Repr

/-- No start call is in progress. -/
def startSettled (p : Pool τ ρ σ) : Prop := p.startCall = .notCalled ∨ p.startCall = .returned

instance (p : Pool τ ρ σ) : Decidable (startSettled p) := instDecidableOr

def step (B : Backend τ ρ σ χ κ) (p : Pool τ ρ σ) : Action τ χ κ → Option (Pool τ ρ σ)
  | .call task => some { p with submits := p.submits ++ [⟨task, .entering⟩] }
  | .submit i => subMitTask B p i
  | .submitTimeout i => submitTimeout p i
  | .submitStir i => submitStir p i
  | .callStart n => if startSettled p then some { p with startCall := .setInit n } else none
  | .start => startNext p
  | .worker w => threadFunc B p w
  | .workerStir w => workerStir p w
  | .exec w x => execTask B p w x
  | .client k => (B.client p.results k).map fun results => { p with results := results }

end FirstPool

namespace FirstPool
open ThreadPool (Entry Backend)
open TaskResult (Any Get GetPc Stage ClientAction)

structure Semaphore where
  resLimit : Int
  deriving DecidableEq, Repr

/-- live is cleared by the destructor, setVals counts the calls of setVal; no code reads them. -/
structure Result (α : Type) where
  any : Any α
  sem : Semaphore
  isValid : Bool
  live : Bool
  setVals : Nat
  deriving DecidableEq, Repr

structure Side (τ α : Type) where
  result : τ → Option Nat
  objects : Nat → Option (Result α)
  gets : List (Get α)
  produced : Nat → Option (Any α)

variable {τ α : Type} [DecidableEq τ]

def emptySide : Side τ α := ⟨fun _ => none, fun _ => none, [], fun _ => none⟩

/-- The Result at an address, while it lives. -/
def Side.object (s : Side τ α) (i : Nat) : Option (Result α) :=
  match s.objects i with
  | some r => if r.live then some r else none
  | none => none

def setObject (s : Side τ α) (i : Nat) (r : Result α) : Side τ α :=
  { s with objects := Function.update s.objects i (some r) }

def setResult (s : Side τ α) (task : τ) (i : Nat) : Side τ α :=
  { s with result := Function.update s.result task (some i) }

def construct (isValid : Bool) (s : Side τ α) (i : Nat) (task : τ) : Side τ α :=
  setResult (setObject s i ⟨none, ⟨0⟩, isValid, true, 0⟩) task i

/-- Semaphore::post on the semaphore of one Result. -/
def post (s : Side τ α) (i : Nat) : Option (Side τ α) :=
  (s.object i).map fun r =>
    { setObject s i { r with sem := ⟨r.sem.resLimit + 1⟩ } with gets := s.gets.map (Get.wake i) }

/-- One step of Task::exec. Loading a null result_ and writing to an object that is not there or
    no longer lives are undefined and have no step. -/
def exec (s : Side τ α) (e : Entry τ) (stage : Stage α) (value : Any α) :
    Option (Side τ α × Option (Stage α)) :=
  match stage with
  | .test =>
    match s.result e.task with
    | none => some (s, none)
    | some _ => some (s, some .load)
  | .load => (s.result e.task).map fun i => (s, some (.runTask i))
  | .runTask i =>
    some ({ s with produced := Function.update s.produced e.sub (some value) },
      some (.store i value))
  | .store i any =>
    (s.object i).map fun r =>
      (setObject s i { r with any := any, setVals := r.setVals + 1 }, some (.post i))
  | .post i => (post s i).map fun s => (s, none)

def setGet (s : Side τ α) (g : Nat) (get : Get α) (pc : GetPc α) : Side τ α :=
  { s with gets := s.gets.set g { get with pc := pc } }

/-- Semaphore::wait with the lock held, up to the wait or the return. -/
def semWait (s : Side τ α) (g : Nat) (get : Get α) (r : Result α) : Side τ α :=
  if 0 < r.sem.resLimit then
    setGet (setObject s get.result { r with sem := ⟨r.sem.resLimit - 1⟩ }) g get .acquired
  else setGet s g get .blocked

/-- One step of Result::get. -/
def getNext (s : Side τ α) (g : Nat) : Option (Side τ α) :=
  match s.gets[g]? with
  | none => none
  | some get =>
    match s.object get.result with
    | none => none
    | some r =>
      match get.pc with
      | .entering => if r.isValid then some (semWait s g get r) else some (setGet s g get (.returned none))
      | .woken => some (semWait s g get r)
      | .acquired =>
        some (setGet (setObject s get.result { r with any := none }) g get (.returned r.any))
      | _ => none

def client (s : Side τ α) : ClientAction → Option (Side τ α)
  | .get i => (s.object i).map fun _ => { s with gets := s.gets ++ [⟨i, .entering⟩] }
  | .getNext g => getNext s g
  | .getStir g =>
    match s.gets[g]? with
    | none => none
    | some get => if get.pc matches .blocked then some (setGet s g get .woken) else none
  | .drop i =>
    match s.object i with
    | none => none
    | some r =>
      if ∀ g ∈ s.gets, g.result = i → g.pc.active = false then
        some (setObject s i { r with live := false })
      else none

def firstBackend : Backend τ (Side τ α) (Stage α) (Any α) ClientAction where
  accept := construct true
  reject := construct false
  first := .test
  exec := exec
  client := client

abbrev ResultPool (τ α : Type) := Pool τ (Side τ α) (Stage α)

end FirstPool
