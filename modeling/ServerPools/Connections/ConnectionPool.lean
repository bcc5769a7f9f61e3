import ServerPools.Support.Machine
import Mathlib.Algebra.Order.Ring.Int
import ServerPools.Support.Agents

/- CommonConnectionPool.cpp and Connection.h as a machine. A step is one critical
   section under queueMutex: from taking the lock to the next wait, sleep or return.
   Times are in microseconds. The wall clock drives wait_for and sleep_for, the
   processor clock is what clock() returns. -/
namespace ConnectionPool

abbrev Addr := Nat

/-- A Connection object. connected is the result of connect(), which the pool drops;
    queuedAt is the wall time of its last push and is read by no code. -/
structure Connection where
  aliveTime : Int
  connected : Bool
  queuedAt : Int
  deriving DecidableEq, Repr

/-- The settings the pool reads; a static pool whose file cannot be opened keeps zeros. -/
structure Config where
  initSize : Int
  maxSize : Int
  maxIdleTime : Int
  connectionTimeout : Int
  deriving DecidableEq, Repr

def unloaded : Config := ⟨0, 0, 0, 0⟩

inductive ConstructorPc where
  | creating (i : Int)
  | finished
  deriving DecidableEq, Repr

inductive ProducerPc where
  | absent
  | entering
  | blocked
  | woken
  deriving DecidableEq, Repr

/-- stopped: the break of the scan left the for(;;) loop. -/
inductive ScannerPc where
  | absent
  | sleeping (wakeAt : Int)
  | stopped
  deriving DecidableEq, Repr

/-- One getConnection call and the shared_ptr it returned. blocked is a wait_for that has
    been neither notified nor timed out, woken one that was notified and does not have the lock
    back; holding lasts until the last copy is gone. -/
inductive BorrowerPc where
  | entering
  | blocked (deadline : Int)
  | woken (deadline : Int)
  | timedOut
  | holding (c : Addr)
  | released
  | refused
  deriving DecidableEq, Repr

structure Borrower where
  pc : BorrowerPc
  firstWait : Option Int
  deriving DecidableEq, Repr

structure Pool where
  config : Config
  connectionCnt : Int
  connetionQueue : List Addr
  connections : Addr → Option Connection
  now : Int
  clock : Int
  constructor : ConstructorPc
  producer : ProducerPc
  scanner : ScannerPc
  borrowers : List Borrower
  frontOfEmpty : Bool

def Connection.getAliveTime (c : Connection) (clock : Int) : Int := clock - c.aliveTime

def Connection.refreshAliveTime (c : Connection) (clock : Int) : Connection :=
  { c with aliveTime := clock }

/-- The product of two ints, reduced as two's complement hardware does. -/
def intMul (a b : Int) : Int := Int.bmod (a * b) (2 ^ 32)

def ProducerPc.wake : ProducerPc → ProducerPc
  | .blocked => .woken
  | pc => pc

def Borrower.wake (b : Borrower) : Borrower :=
  match b.pc with
  | .blocked deadline => { b with pc := .woken deadline }
  | _ => b

def notifyAll (p : Pool) : Pool :=
  { p with producer := p.producer.wake, borrowers := p.borrowers.map Borrower.wake }

def setBorrower (p : Pool) (i : Nat) (b : Borrower) : Pool :=
  { p with borrowers := p.borrowers.set i b }

/-- new Connection, connect, refreshAliveTime, push and the counter, as the constructor
    and the producer both do them. The address is one no undeleted object has. -/
def createConnection (p : Pool) (addr : Addr) (connected : Bool) : Option Pool :=
  if p.connections addr = none then
    let fresh : Connection := ⟨p.clock, connected, p.now⟩
    some { p with
      connections := Function.update p.connections addr (some fresh)
      connetionQueue := p.connetionQueue ++ [addr]
      connectionCnt := p.connectionCnt + 1 }
  else none

def sleepUntil (p : Pool) : Int := p.now + p.config.maxIdleTime * 1000000

/-- One round of the constructor's loop, or its end, which starts the two threads. -/
def construct (p : Pool) (addr : Addr) (connected : Bool) : Option Pool :=
  match p.constructor with
  | .finished => none
  | .creating i =>
    if i < p.config.initSize then
      (createConnection p addr connected).map fun q => { q with constructor := .creating (i + 1) }
    else some { p with
      constructor := .finished
      producer := .entering
      scanner := .sleeping (sleepUntil p) }

/-- produceConnectionTask from taking the lock to the wait or the end of the round. -/
def produceConnectionTask (p : Pool) (addr : Addr) (connected : Bool) : Option Pool :=
  if p.producer = .entering ∨ p.producer = .woken then
    if p.connetionQueue ≠ [] then some { p with producer := .blocked }
    else if p.connectionCnt < p.config.maxSize then
      (createConnection p addr connected).map fun q => notifyAll { q with producer := .entering }
    else some (notifyAll { p with producer := .entering })
  else none

/-- getConnection after the while loop: front, pop, notify_all. -/
def takeFront (p : Pool) (i : Nat) (b : Borrower) : Option Pool :=
  match p.connetionQueue with
  | [] => none
  | c :: rest =>
    some (notifyAll (setBorrower { p with connetionQueue := rest } i { b with pc := .holding c }))

def waitFor (p : Pool) (i : Nat) (b : Borrower) : Pool :=
  setBorrower p i ⟨.blocked (p.now + p.config.connectionTimeout * 1000),
    some (b.firstWait.getD p.now)⟩

def refuse (p : Pool) (i : Nat) (b : Borrower) : Pool := setBorrower p i { b with pc := .refused }

/-- getConnection from taking the lock to the wait or the return. wait_for looks at the clock
    when it has the lock back, so a caller notified too late gets the timeout as well. -/
def getConnection (p : Pool) (i : Nat) : Option Pool :=
  match p.borrowers[i]? with
  | none => none
  | some b =>
    match b.pc with
    | .entering =>
      if p.connetionQueue = [] then some (waitFor p i b) else takeFront p i b
    | .woken deadline =>
      if p.connetionQueue = [] then
        if deadline ≤ p.now then some (refuse p i b) else some (waitFor p i b)
      else takeFront p i b
    | .timedOut =>
      if p.connetionQueue = [] then some (refuse p i b) else takeFront p i b
    | _ => none

/-- wait_for reports a timeout; the caller still has to take the lock again. -/
def expire (p : Pool) (i : Nat) : Option Pool :=
  match p.borrowers[i]? with
  | none => none
  | some b =>
    match b.pc with
    | .blocked deadline =>
      if deadline ≤ p.now then some (setBorrower p i { b with pc := .timedOut }) else none
    | _ => none

/-- A spurious wake-up of a waiting caller. -/
def stir (p : Pool) (i : Nat) : Option Pool :=
  match p.borrowers[i]? with
  | none => none
  | some b =>
    match b.pc with
    | .blocked deadline => some (setBorrower p i { b with pc := .woken deadline })
    | _ => none

/-- The deleter passed to the shared_ptr, run when the last copy is gone. -/
def deleter (p : Pool) (i : Nat) : Option Pool :=
  match p.borrowers[i]? with
  | none => none
  | some b =>
    match b.pc with
    | .holding c =>
      let refresh (old : Connection) : Connection :=
        { old.refreshAliveTime p.clock with queuedAt := p.now }
      some (setBorrower { p with
        connections := Function.update p.connections c ((p.connections c).map refresh)
        connetionQueue := p.connetionQueue ++ [c] } i { b with pc := .released })
    | _ => none

/-- scannerConnectionTask from the end of the sleep to the next sleep or the end of the
    thread. front() of an empty queue is undefined; the machine stops there. -/
def scannerConnectionTask (p : Pool) : Option Pool :=
  match p.scanner with
  | .sleeping wakeAt =>
    if wakeAt ≤ p.now then
      if p.config.initSize < p.connectionCnt then
        match p.connetionQueue with
        | [] => some { p with frontOfEmpty := true }
        | c :: rest =>
          match p.connections c with
          | none => none
          | some conn =>
            if intMul p.config.maxIdleTime 1000 ≤ conn.getAliveTime p.clock then
              some { p with
                connetionQueue := rest
                connections := Function.update p.connections c none
                connectionCnt := p.connectionCnt - 1
                scanner := .sleeping (sleepUntil p) }
            else some { p with scanner := .stopped }
      else some { p with scanner := .sleeping (sleepUntil p) }
    else none
  | _ => none

inductive Action where
  | construct (addr : Addr) (connected : Bool)
  | call
  | getConnection (i : Nat)
  | expire (i : Nat)
  | stir (i : Nat)
  | deleter (i : Nat)
  | produce (addr : Addr) (connected : Bool)
  | stirProducer
  | scan
  | pass (wall : Nat) (cpu : Int)
  deriving DecidableEq, Repr

def perform (p : Pool) : Action → Option Pool
  | .construct addr connected => construct p addr connected
  | .call =>
    if p.constructor = .finished then
      some { p with borrowers := p.borrowers ++ [⟨.entering, none⟩] }
    else none
  | .getConnection i => getConnection p i
  | .expire i => expire p i
  | .stir i => stir p i
  | .deleter i => deleter p i
  | .produce addr connected => produceConnectionTask p addr connected
  | .stirProducer =>
    if p.producer = .blocked then some { p with producer := .woken } else none
  | .scan => scannerConnectionTask p
  | .pass wall cpu => some { p with now := p.now + wall, clock := p.clock + cpu }

def step (p : Pool) (a : Action) : Option Pool := if p.frontOfEmpty then none else perform p a

/-- The pool as the constructor enters it; settings is none when loadConfigFile fails,
    and then the constructor returns before it starts any thread. -/
def start (settings : Option Config) (now clock : Int) : Pool where
  config := settings.getD unloaded
  connectionCnt := 0
  connetionQueue := []
  connections := fun _ => none
  now := now
  clock := clock
  constructor := if settings.isSome then .creating 0 else .finished
  producer := .absent
  scanner := .absent
  borrowers := []
  frontOfEmpty := false

def Borrower.held (b : Borrower) : Option Addr :=
  match b.pc with
  | .holding c => some c
  | _ => none

/-- The pointers clients hold. -/
def Pool.held (p : Pool) : List Addr := p.borrowers.filterMap Borrower.held

def Borrower.waiting (b : Borrower) : Bool :=
  match b.pc with
  | .blocked _ => true
  | _ => false

@[simp] theorem notifyAll_queue (p : Pool) : (notifyAll p).connetionQueue = p.connetionQueue := rfl
@[simp] theorem notifyAll_config (p : Pool) : (notifyAll p).config = p.config := rfl
@[simp] theorem notifyAll_count (p : Pool) : (notifyAll p).connectionCnt = p.connectionCnt := rfl
@[simp] theorem notifyAll_connections (p : Pool) :
    (notifyAll p).connections = p.connections := rfl
@[simp] theorem notifyAll_constructor (p : Pool) :
    (notifyAll p).constructor = p.constructor := rfl
@[simp] theorem notifyAll_error (p : Pool) : (notifyAll p).frontOfEmpty = p.frontOfEmpty := rfl

@[simp] theorem wake_held (b : Borrower) : b.wake.held = b.held := by
  rcases b with ⟨pc, first⟩
  cases pc <;> rfl

@[simp] theorem wake_not_waiting (b : Borrower) : b.wake.waiting = false := by
  rcases b with ⟨pc, first⟩
  cases pc <;> rfl

@[simp] theorem notifyAll_held (p : Pool) : (notifyAll p).held = p.held := by
  simp [Pool.held, notifyAll, List.filterMap_map]

end ConnectionPool
