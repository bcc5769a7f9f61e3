import ServerPools.Threads.ThreadPool
import Mathlib.Logic.Function.Basic

/- threadpool_new.h: every submission makes a packaged_task of its own and returns the
   future of it. A future is named by its submission. -/
namespace TaskFuture
open ThreadPool

/-- values is the shared state of each returned future; called lists the submissions whose
    function has been entered and is read by no code. -/
structure Side (α : Type) where
  values : Nat → Option α
  called : List Nat

variable {τ α : Type}

def emptySide : Side α := ⟨fun _ => none, []⟩

/-- The queued closure calls the packaged_task, which enters the function and then stores
    what it returned in the shared state. -/
inductive Stage (α : Type) where
  | invoke
  | fulfil (value : α)
  deriving DecidableEq, Repr

def exec (s : Side α) (e : Entry τ) (stage : Stage α) (value : α) :
    Option (Side α × Option (Stage α)) :=
  match stage with
  | .invoke => some ({ s with called := s.called ++ [e.sub] }, some (.fulfil value))
  | .fulfil value => some ({ s with values := Function.update s.values e.sub (some value) }, none)

/-- dflt is RType(). On rejection a second packaged_task that returns it is run at once and
    its future is returned in place of the first. -/
def futureBackend (dflt : α) : Backend τ (Side α) (Stage α) α Empty where
  accept s i _ := { s with values := Function.update s.values i none }
  reject s i _ := { s with values := Function.update s.values i (some dflt) }
  first := .invoke
  exec := exec
  client _ k := nomatch k

abbrev FuturePool (τ α : Type) := Pool τ (Side α) (Stage α)

/-- ThreadPool::submitTask and ThreadPool::threadFunc of threadpool_new. -/
def submitTask (dflt : α) (p : FuturePool τ α) (i : Nat) : Option (FuturePool τ α) :=
  submit (futureBackend dflt) p i

def threadFunc (dflt : α) (p : FuturePool τ α) (w : Nat) (idleLong : Bool) :
    Option (FuturePool τ α) :=
  ThreadPool.threadFunc (futureBackend dflt) p w idleLong

end TaskFuture
