import Mathlib.Algebra.Order.Ring.Int
import ServerPools.Support.Machine
import ServerPools.Support.Agents

/- The ThreadPool class of threadpool.cpp and of threadpool_new as one machine. A step is
   one critical section under taskQueMtx, from taking the lock to the next wait or return,
   or one atomic action outside the lock. The two versions differ in what a submission
   returns and in what running a task does; that part is the Backend. -/
namespace ThreadPool

inductive PoolMode where
  | modeFixd
  | modeCachd
  deriving DecidableEq, Repr

/-- An element of taskQue. sub is the submission that put it there and is read by no code. -/
structure Entry (τ : Type) where
  task : τ
  sub : Nat
  deriving DecidableEq, Repr

/-- Where a thread is in threadFunc. blocked is a wait on noEmpty that has been neither
    notified nor timed out, woken one that was notified and does not have the lock back; timed
    tells wait_for from wait. exited and retired are the two returns. -/
inductive WorkerPc (τ σ : Type) where
  | entering
  | blocked (timed : Bool)
  | woken (timed : Bool)
  | timedOut
  | running (e : Entry τ) (stage : σ)
  | ran
  | exited
  | retired
  deriving DecidableEq, Repr

structure Worker (τ σ : Type) where
  threadid : Nat
  pc : WorkerPc τ σ
  deriving DecidableEq, Repr

/-- Where a call of subMitTask is; blocked is a wait on notFull. -/
inductive SubmitPc where
  | entering
  | blocked
  | woken
  | timedOut
  | accepted
  | rejected
  deriving DecidableEq, Repr

structure Submit (τ : Type) where
  task : τ
  pc : SubmitPc
  deriving DecidableEq, Repr

/-- Where start(n) is, named by the statement that comes next. -/
inductive StartPc where
  | notCalled
  | setRunning (n : Int)
  | setInit (n : Int)
  | setCur (n : Int)
  | creating (i : Nat)
  | launching (i : Nat)
  | counting (i : Nat)
  | returned
  deriving DecidableEq, Repr

/-- Where the destructor is; blocked is the wait on exitCond. -/
inductive DestroyPc where
  | notCalled
  | flagged
  | blocked
  | woken
  | returned
  deriving DecidableEq, Repr

/-- The fields of the class, the process-wide generateID, the threads of control, and the
    history of accepted, popped and finished tasks. threads holds the keys of the map; the
    Thread stored under a key is the one constructed with that id. nullThread records that
    start dereferenced a missing entry. -/
structure Pool (τ ρ σ : Type) where
  initThreadSize : Int
  threadSizeThreshHold : Int
  curThreadSize : Int
  taskQue : List (Entry τ)
  taskSize : Nat
  taskQueMaxThreadHold : Int
  mode : PoolMode
  isPoolRunning : Bool
  idleThreadSize : Int
  threads : List Nat
  generateID : Nat
  workers : List (Worker τ σ)
  submits : List (Submit τ)
  startCall : StartPc
  destroyCall : DestroyPc
  nullThread : Bool
  results : ρ
  accepted : List (Entry τ)
  popped : List (Entry τ)
  executed : List (Entry τ)

/-- What the two versions do not share: what acceptance and rejection build, the atomic
    steps of running a task (none ends it), and what clients do with what they got. -/
structure Backend (τ ρ σ χ κ : Type) where
  accept : ρ → Nat → τ → ρ
  reject : ρ → Nat → τ → ρ
  first : σ
  exec : ρ → Entry τ → σ → χ → Option (ρ × Option σ)
  client : ρ → κ → Option ρ

variable {τ ρ σ χ κ : Type}

def taskMaxThreshhold : Int := 1024
def threadMaxThreshhold : Int := 10

/-- The constructor; the counter of thread ids belongs to the process. -/
def newPool (generateID : Nat) (results : ρ) : Pool τ ρ σ where
  initThreadSize := 0
  threadSizeThreshHold := threadMaxThreshhold
  curThreadSize := 0
  taskQue := []
  taskSize := 0
  taskQueMaxThreadHold := taskMaxThreshhold
  mode := .modeFixd
  isPoolRunning := false
  idleThreadSize := 0
  threads := []
  generateID := generateID
  workers := []
  submits := []
  startCall := .notCalled
  destroyCall := .notCalled
  nullThread := false
  results := results
  accepted := []
  popped := []
  executed := []

def checkRunningStat (p : Pool τ ρ σ) : Bool := p.isPoolRunning

def setMode (p : Pool τ ρ σ) (mode : PoolMode) : Pool τ ρ σ :=
  if checkRunningStat p then p else { p with mode := mode }

def setTaskQueueMaxThreadHold (p : Pool τ ρ σ) (threadhold : Int) : Pool τ ρ σ :=
  if checkRunningStat p then p else { p with taskQueMaxThreadHold := threadhold }

def setThreadSizeThreshHold (p : Pool τ ρ σ) (threshold : Int) : Pool τ ρ σ :=
  if p.isPoolRunning then p
  else if p.mode = .modeCachd then { p with threadSizeThreshHold := threshold }
  else p

/-- An int compared with a size_t, and an int compared with an unsigned int. -/
def asSize (x : Int) : Nat := (x % 2 ^ 64).toNat
def asUnsigned (x : Int) : Nat := (x % 2 ^ 32).toNat

def Worker.wake (w : Worker τ σ) : Worker τ σ :=
  match w.pc with
  | .blocked timed => { w with pc := .woken timed }
  | _ => w

def Submit.wake (c : Submit τ) : Submit τ :=
  match c.pc with
  | .blocked => { c with pc := .woken }
  | _ => c

def DestroyPc.wake : DestroyPc → DestroyPc
  | .blocked => .woken
  | pc => pc

def notifyNoEmpty (p : Pool τ ρ σ) : Pool τ ρ σ := { p with workers := p.workers.map Worker.wake }
def notifyNotFull (p : Pool τ ρ σ) : Pool τ ρ σ := { p with submits := p.submits.map Submit.wake }
def notifyExit (p : Pool τ ρ σ) : Pool τ ρ σ := { p with destroyCall := p.destroyCall.wake }

def setWorker (p : Pool τ ρ σ) (w : Nat) (worker : Worker τ σ) (pc : WorkerPc τ σ) : Pool τ ρ σ :=
  { p with workers := p.workers.set w { worker with pc := pc } }

def setSubmit (p : Pool τ ρ σ) (i : Nat) (c : Submit τ) (pc : SubmitPc) : Pool τ ρ σ :=
  { p with submits := p.submits.set i { c with pc := pc } }

/-- The predicate of the wait on notFull. -/
def hasRoom (p : Pool τ ρ σ) : Prop := p.taskQue.length < asSize p.taskQueMaxThreadHold

instance (p : Pool τ ρ σ) : Decidable (hasRoom p) := Nat.decLt _ _

/-- threads.emplace of the Thread with this id; an existing key is kept. -/
def emplace (threads : List Nat) (id : Nat) : List Nat :=
  if id ∈ threads then threads else threads ++ [id]

def enqueue (p : Pool τ ρ σ) (e : Entry τ) : Pool τ ρ σ :=
  notifyNoEmpty { p with
    taskQue := p.taskQue ++ [e]
    taskSize := (p.taskSize + 1) % 2 ^ 32
    accepted := p.accepted ++ [e] }

/-- The growth of the cached mode at the end of a submission. -/
def grow (p : Pool τ ρ σ) : Pool τ ρ σ :=
  if p.mode = .modeCachd ∧ asUnsigned p.idleThreadSize < p.taskSize ∧
      p.curThreadSize < p.threadSizeThreshHold then
    { p with
      generateID := p.generateID + 1
      threads := emplace p.threads p.generateID
      workers := p.workers ++ [⟨p.generateID, .entering⟩]
      curThreadSize := p.curThreadSize + 1
      idleThreadSize := p.idleThreadSize + 1 }
  else p

def acceptTask (B : Backend τ ρ σ χ κ) (p : Pool τ ρ σ) (i : Nat) (c : Submit τ) : Pool τ ρ σ :=
  setSubmit { grow (enqueue p ⟨c.task, i⟩) with results := B.accept p.results i c.task } i c .accepted

def rejectTask (B : Backend τ ρ σ χ κ) (p : Pool τ ρ σ) (i : Nat) (c : Submit τ) : Pool τ ρ σ :=
  setSubmit { p with results := B.reject p.results i c.task } i c .rejected

/-- A submission from taking the lock to the wait or the return. The timed wait with a
    predicate returns the predicate's value after a timeout. -/
def submit (B : Backend τ ρ σ χ κ) (p : Pool τ ρ σ) (i : Nat) : Option (Pool τ ρ σ) :=
  match p.submits[i]? with
  | none => none
  | some c =>
    match c.pc with
    | .entering | .woken =>
      if hasRoom p then some (acceptTask B p i c) else some (setSubmit p i c .blocked)
    | .timedOut =>
      if hasRoom p then some (acceptTask B p i c) else some (rejectTask B p i c)
    | _ => none

/-- threadFunc after the while loop: the task leaves the queue. -/
def popTask (B : Backend τ ρ σ χ κ) (p : Pool τ ρ σ) (w : Nat) (worker : Worker τ σ)
    (e : Entry τ) (rest : List (Entry τ)) : Pool τ ρ σ :=
  setWorker { p with
    idleThreadSize := p.idleThreadSize - 1
    taskQue := rest
    taskSize := (p.taskSize + 2 ^ 32 - 1) % 2 ^ 32
    popped := p.popped ++ [e] } w worker (.running e B.first)

def takeTask (B : Backend τ ρ σ χ κ) (p : Pool τ ρ σ) (w : Nat) (worker : Worker τ σ)
    (e : Entry τ) (rest : List (Entry τ)) : Pool τ ρ σ :=
  let taken := popTask B p w worker e rest
  notifyNotFull (if rest ≠ [] then notifyNoEmpty taken else taken)

/-- The return of the shutdown path. -/
def exitThread (p : Pool τ ρ σ) (w : Nat) (worker : Worker τ σ) : Pool τ ρ σ :=
  notifyExit (setWorker { p with threads := p.threads.filter (· ≠ worker.threadid) } w worker .exited)

/-- The return of the idle path. -/
def retireThread (p : Pool τ ρ σ) (w : Nat) (worker : Worker τ σ) : Pool τ ρ σ :=
  setWorker { p with
    threads := p.threads.filter (· ≠ worker.threadid)
    curThreadSize := p.curThreadSize - 1
    idleThreadSize := p.idleThreadSize - 1 } w worker .retired

/-- The test of the while loop with the lock held, up to the next wait or return. -/
def loopTest (B : Backend τ ρ σ χ κ) (p : Pool τ ρ σ) (w : Nat) (worker : Worker τ σ) :
    Pool τ ρ σ :=
  match p.taskQue with
  | [] =>
    if p.isPoolRunning then setWorker p w worker (.blocked (p.mode = .modeCachd))
    else exitThread p w worker
  | e :: rest => takeTask B p w worker e rest

/-- threadFunc from taking the lock to the wait, the return or the end of the section.
    idleLong is the outcome of dur.count() >= THREAD_MAX_IDLE_TIME. -/
def threadFunc (B : Backend τ ρ σ χ κ) (p : Pool τ ρ σ) (w : Nat) (idleLong : Bool) :
    Option (Pool τ ρ σ) :=
  match p.workers[w]? with
  | none => none
  | some worker =>
    match worker.pc with
    | .entering | .woken _ => some (loopTest B p w worker)
    | .timedOut =>
      if idleLong ∧ p.initThreadSize < p.curThreadSize then some (retireThread p w worker)
      else some (loopTest B p w worker)
    | _ => none

/-- One atomic step of the task a thread runs. -/
def execTask (B : Backend τ ρ σ χ κ) (p : Pool τ ρ σ) (w : Nat) (x : χ) : Option (Pool τ ρ σ) :=
  match p.workers[w]? with
  | none => none
  | some worker =>
    match worker.pc with
    | .running e stage =>
      match B.exec p.results e stage x with
      | none => none
      | some (results, some next) =>
        some (setWorker { p with results := results } w worker (.running e next))
      | some (results, none) =>
        some (setWorker { p with results := results, executed := p.executed ++ [e] } w worker .ran)
    | _ => none

/-- idleThreadSize++ after the task, outside the lock. -/
def becomeIdle (p : Pool τ ρ σ) (w : Nat) : Option (Pool τ ρ σ) :=
  match p.workers[w]? with
  | none => none
  | some worker =>
    if worker.pc matches .ran then
      some (setWorker { p with idleThreadSize := p.idleThreadSize + 1 } w worker .entering)
    else none

/-- The deadline of a wait_for on noEmpty passes before the thread has the lock back, also one
    that was notified: wait_for looks at the clock when it has the lock and returns timeout. -/
def workerTimeout (p : Pool τ ρ σ) (w : Nat) : Option (Pool τ ρ σ) :=
  match p.workers[w]? with
  | none => none
  | some worker =>
    match worker.pc with
    | .blocked true | .woken true => some (setWorker p w worker .timedOut)
    | _ => none

/-- A spurious wake-up of a thread blocked on noEmpty. -/
def workerStir (p : Pool τ ρ σ) (w : Nat) : Option (Pool τ ρ σ) :=
  match p.workers[w]? with
  | none => none
  | some worker =>
    match worker.pc with
    | .blocked timed => some (setWorker p w worker (.woken timed))
    | _ => none

/-- The same two for a submission that waits on notFull, always with wait_for. -/
def submitTimeout (p : Pool τ ρ σ) (i : Nat) : Option (Pool τ ρ σ) :=
  match p.submits[i]? with
  | none => none
  | some c =>
    match c.pc with
    | .blocked | .woken => some (setSubmit p i c .timedOut)
    | _ => none

def submitStir (p : Pool τ ρ σ) (i : Nat) : Option (Pool τ ρ σ) :=
  match p.submits[i]? with
  | none => none
  | some c =>
    match c.pc with
    | .blocked => some (setSubmit p i c .woken)
    | _ => none

/-- The next statement of start. The Thread constructor and the emplace are one step:
    the new object is not shared before the emplace. -/
def startNext (p : Pool τ ρ σ) : Option (Pool τ ρ σ) :=
  match p.startCall with
  | .setRunning n => some { p with isPoolRunning := true, startCall := .setInit n }
  | .setInit n => some { p with initThreadSize := n, startCall := .setCur n }
  | .setCur n => some { p with curThreadSize := n, startCall := .creating 0 }
  | .creating i =>
    if (i : Int) < p.initThreadSize then
      some { p with
        generateID := p.generateID + 1
        threads := emplace p.threads p.generateID
        startCall := .creating (i + 1) }
    else some { p with startCall := .launching 0 }
  | .launching i =>
    if (i : Int) < p.initThreadSize then
      if i ∈ p.threads then
        some { p with workers := p.workers ++ [⟨i, .entering⟩], startCall := .counting i }
      else some { p with nullThread := true }
    else some { p with startCall := .returned }
  | .counting i =>
    some { p with idleThreadSize := p.idleThreadSize + 1, startCall := .launching (i + 1) }
  | _ => none

/-- The test of exitCond.wait with the lock held. -/
def exitTest (p : Pool τ ρ σ) : Pool τ ρ σ :=
  if p.threads = [] then { p with destroyCall := .returned } else { p with destroyCall := .blocked }

theorem exitTest_eq (p : Pool τ ρ σ) :
    exitTest p = { p with destroyCall := if p.threads = [] then .returned else .blocked } := by
  unfold exitTest
  split <;> rfl

/-- The destructor from taking the lock to the wait or the return. -/
def destroyNext (p : Pool τ ρ σ) : Option (Pool τ ρ σ) :=
  match p.destroyCall with
  | .flagged => some (exitTest (notifyNoEmpty p))
  | .woken => some (exitTest p)
  | _ => none

inductive Action (τ χ κ : Type) where
  | call (task : τ)
  | submit (i : Nat)
  | submitTimeout (i : Nat)
  | submitStir (i : Nat)
  | callStart (n : Int)
  | start
  | worker (w : Nat) (idleLong : Bool)
  | workerTimeout (w : Nat)
  | workerStir (w : Nat)
  | exec (w : Nat) (x : χ)
  | idle (w : Nat)
  | destroy
  | destroyNext
  | destroyStir
  | otherThread
  | client (k : κ)
  deriving DecidableEq, Repr

/-- No start call is in progress. -/
def startSettled (p : Pool τ ρ σ) : Prop := p.startCall = .notCalled ∨ p.startCall = .returned

instance (p : Pool τ ρ σ) : Decidable (startSettled p) := instDecidableOr

def perform (B : Backend τ ρ σ χ κ) (p : Pool τ ρ σ) : Action τ χ κ → Option (Pool τ ρ σ)
  | .call task => some { p with submits := p.submits ++ [⟨task, .entering⟩] }
  | .submit i => submit B p i
  | .submitTimeout i => submitTimeout p i
  | .submitStir i => submitStir p i
  | .callStart n =>
    if startSettled p ∧ p.destroyCall = .notCalled then
      some { p with startCall := .setRunning n }
    else none
  | .start => startNext p
  | .worker w idleLong => threadFunc B p w idleLong
  | .workerTimeout w => workerTimeout p w
  | .workerStir w => workerStir p w
  | .exec w x => execTask B p w x
  | .idle w => becomeIdle p w
  | .destroy =>
    if startSettled p ∧ p.destroyCall = .notCalled then
      some { p with isPoolRunning := false, destroyCall := .flagged }
    else none
  | .destroyNext => destroyNext p
  | .destroyStir =>
    if p.destroyCall = .blocked then some { p with destroyCall := .woken } else none
  | .otherThread => some { p with generateID := p.generateID + 1 }
  | .client k => (B.client p.results k).map fun results => { p with results := results }

/-- After the destructor has returned only the clients' own objects are left. -/
def enabled (p : Pool τ ρ σ) : Action τ χ κ → Prop
  | .client _ => True
  | _ => p.destroyCall ≠ .returned

instance (p : Pool τ ρ σ) (a : Action τ χ κ) : Decidable (enabled p a) := by
  cases a <;> simp only [enabled] <;> infer_instance

def step (B : Backend τ ρ σ χ κ) (p : Pool τ ρ σ) (a : Action τ χ κ) : Option (Pool τ ρ σ) :=
  if p.nullThread = false ∧ enabled p a then perform B p a else none

/-- A pool as its owner configures it before anything else happens. -/
def configured (generateID : Nat) (results : ρ) (mode : PoolMode) (threadhold threshold : Int) :
    Pool τ ρ σ :=
  setThreadSizeThreshHold
    (setTaskQueueMaxThreadHold (setMode (newPool generateID results) mode) threadhold) threshold

theorem configured_fields (generateID : Nat) (results : ρ) (mode : PoolMode)
    (threadhold threshold : Int) :
    (configured generateID results mode threadhold threshold : Pool τ ρ σ) =
      { (newPool generateID results : Pool τ ρ σ) with
        mode := mode
        taskQueMaxThreadHold := threadhold
        threadSizeThreshHold :=
          if mode = .modeCachd then threshold else threadMaxThreshhold } := by
  cases mode <;> rfl

end ThreadPool
