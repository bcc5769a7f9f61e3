import ServerPools.Threads.Queue
import ServerPools.Threads.Roster

/- How much a pool still has to do for the requests it has. Every step that serves a request
   lowers the figure, so a pool that gets no new request and whose waits neither time out nor
   end by themselves comes to rest. -/
namespace ThreadPool
variable {τ ρ σ χ κ : Type} {B : Backend τ ρ σ χ κ} {p q : Pool τ ρ σ}

/-- The steps that serve what was asked for; helps picks the steps of clients that do. -/
def Calm (helps : κ → Prop) : Action τ χ κ → Prop
  | .submit _ | .start | .worker _ false | .exec _ _ | .idle _ | .destroyNext => True
  | .client k => helps k
  | _ => False

/-- The share of a backend: what a started task still costs, and what the clients' own calls
    still cost. fits bounds the calls that finishing a task can wake. -/
structure Effort (B : Backend τ ρ σ χ κ) where
  rank : σ → Nat
  load : ρ → Nat
  fits : ρ → Prop
  helps : κ → Prop
  accept : ∀ {r : ρ} (i : Nat) (task : τ), fits r →
    fits (B.accept r i task) ∧ load (B.accept r i task) ≤ load r
  reject : ∀ {r : ρ} (i : Nat) (task : τ), fits r →
    fits (B.reject r i task) ∧ load (B.reject r i task) ≤ load r
  execs : ∀ {r r' : ρ} {e : Entry τ} {stage next : σ} {x : χ}, fits r →
    B.exec r e stage x = some (r', some next) → fits r' ∧ load r' + rank next < load r + rank stage
  finishes : ∀ {r r' : ρ} {e : Entry τ} {stage : σ} {x : χ}, fits r →
    B.exec r e stage x = some (r', none) → fits r' ∧ load r' ≤ load r + rank stage
  clients : ∀ {r r' : ρ} {k : κ}, fits r → helps k → B.client r k = some r' →
    fits r' ∧ load r' < load r

def WorkerPc.cost (rank : σ → Nat) : WorkerPc τ σ → Nat
  | .entering | .woken _ | .timedOut => 2
  | .running _ stage => 4 + rank stage
  | .ran => 3
  | .blocked _ | .exited | .retired => 0

def SubmitPc.cost (each : Nat) : SubmitPc → Nat
  | .entering | .woken | .timedOut => each + 1
  | .blocked => each
  | .accepted | .rejected => 0

def launchCost (init i : Nat) : Nat := 5 * (init - i) + 1

def createCost (init i : Nat) : Nat := init - i + 1 + launchCost init 0

def StartPc.cost (init : Nat) : StartPc → Nat
  | .notCalled | .returned => 0
  | .setRunning m => createCost m.toNat 0 + 3
  | .setInit m => createCost m.toNat 0 + 2
  | .setCur _ => createCost init 0 + 1
  | .creating i => createCost init i
  | .launching i => launchCost init i
  | .counting i => 5 * (init - (i + 1)) + 2

/-- The threads that start has still to launch. -/
def StartPc.toLaunch (init : Nat) : StartPc → Nat
  | .notCalled | .returned => 0
  | .setRunning m | .setInit m => m.toNat
  | .setCur _ | .creating _ => init
  | .launching i => init - i
  | .counting i => init - (i + 1)

def DestroyPc.cost (n : Nat) : DestroyPc → Nat
  | .flagged => 2 * n + 1
  | .woken => 1
  | .notCalled | .blocked | .returned => 0

def Pool.workload (rank : σ → Nat) (p : Pool τ ρ σ) : Nat :=
  (p.workers.map fun w => w.pc.cost rank).sum

def Pool.callload (each : Nat) (p : Pool τ ρ σ) : Nat := (p.submits.map fun c => c.pc.cost each).sum

/-- The threads the pool has, and those that start and the pending submissions may add. -/
def Pool.manpower (p : Pool τ ρ σ) : Nat :=
  p.workers.length + p.startCall.toLaunch p.initThreadSize.toNat +
    p.submits.countP (·.pc.pending)

section Loads
variable (rank : σ → Nat) (each : Nat)

theorem awake_cost {rank : σ → Nat} {pc : WorkerPc τ σ} (awake : pc.awake) : pc.cost rank = 2 := by
  cases pc <;> simp_all [WorkerPc.awake, WorkerPc.cost]

theorem submit_awake_cost {each : Nat} {pc : SubmitPc} (awake : pc.awake) : pc.cost each = each + 1 := by
  cases pc <;> simp_all [SubmitPc.awake, SubmitPc.cost]

theorem setWorker_workload {w : Nat} {worker : Worker τ σ} (here : p.workers[w]? = some worker)
    (pc : WorkerPc τ σ) : (setWorker p w worker pc).workload rank + worker.pc.cost rank =
      p.workload rank + pc.cost rank :=
  Agents.sum_set here { worker with pc := pc }

theorem setSubmit_callload {i : Nat} {c : Submit τ} (here : p.submits[i]? = some c) (pc : SubmitPc) :
    (setSubmit p i c pc).callload each + c.pc.cost each = p.callload each + pc.cost each :=
  Agents.sum_set here { c with pc := pc }

theorem notifyNoEmpty_workload (p : Pool τ ρ σ) :
    (notifyNoEmpty p).workload rank ≤ p.workload rank + 2 * p.workers.length := by
  refine Agents.sum_broadcast (f := fun w : Worker τ σ => w.pc.cost rank) (fun worker => ?_) p.workers
  rcases worker with ⟨threadid, pc⟩
  cases pc <;> simp [Worker.wake, WorkerPc.cost]

theorem notifyNotFull_callload (p : Pool τ ρ σ) :
    (notifyNotFull p).callload each ≤ p.callload each + p.submits.length := by
  have gain (c : Submit τ) : c.wake.pc.cost each ≤ c.pc.cost each + 1 := by
    rcases c with ⟨task, pc⟩
    cases pc <;> simp [Submit.wake, SubmitPc.cost]
  have all := Agents.sum_broadcast (f := fun c : Submit τ => c.pc.cost each) gain p.submits
  rw [Nat.one_mul] at all
  exact all

/-- Growing adds at most one thread, which has the lock before it. -/
theorem grow_workload (p : Pool τ ρ σ) : (grow p).workload rank ≤ p.workload rank + 2 ∧
    (grow p).workers.length ≤ p.workers.length + 1 := by
  unfold grow Pool.workload
  split <;> simp [WorkerPc.cost]

theorem takeTask_workload (B : Backend τ ρ σ χ κ) (p : Pool τ ρ σ) {w : Nat} {worker : Worker τ σ}
    (e : Entry τ) (rest : List (Entry τ)) (here : p.workers[w]? = some worker)
    (awake : worker.pc.awake) :
    (takeTask B p w worker e rest).workload rank + 2 ≤
        p.workload rank + (4 + rank B.first) + 2 * p.workers.length ∧
      (takeTask B p w worker e rest).callload each ≤ p.callload each + p.submits.length ∧
      (takeTask B p w worker e rest).workers.length = p.workers.length := by
  have moved : (popTask B p w worker e rest).workload rank + worker.pc.cost rank =
      p.workload rank + (4 + rank B.first) := setWorker_workload rank here (.running e B.first)
  rw [awake_cost awake] at moved
  have same : (popTask B p w worker e rest).workers.length = p.workers.length := List.length_set
  have told := notifyNoEmpty_workload rank (popTask B p w worker e rest)
  have calls := notifyNotFull_callload each p
  unfold takeTask
  split
  · refine ⟨?_, calls, ?_⟩
    · change (notifyNoEmpty (popTask B p w worker e rest)).workload rank + 2 ≤ _
      omega
    · change ((popTask B p w worker e rest).workers.map Worker.wake).length = _
      rw [List.length_map, same]
  · refine ⟨?_, calls, same⟩
    change (popTask B p w worker e rest).workload rank + 2 ≤ _
    omega

end Loads

/-- A statement of start makes what is left of start cheaper by more than it gives the threads. -/
theorem startNext_cost (rank : σ → Nat) (next : StartStep p q) (found : q.nullThread = false) :
    q.startCall.cost q.initThreadSize.toNat + q.workload rank <
        p.startCall.cost p.initThreadSize.toNat + p.workload rank ∧
      q.workers.length + q.startCall.toLaunch q.initThreadSize.toNat ≤
        p.workers.length + p.startCall.toLaunch p.initThreadSize.toNat := by
  cases next with
  | launches i place more present =>
    simp only [place, StartPc.cost, StartPc.toLaunch, launchCost, Pool.workload, List.map_append,
      List.map_cons, List.map_nil, List.sum_append, List.sum_cons, List.sum_nil, WorkerPc.cost,
      List.length_append, List.length_cons, List.length_nil]
    omega
  | dereferencesNull => simp at found
  | setsRunning _ place | setsInit _ place | setsCur _ place | creates _ place | created _ place
  | launched _ place | counts _ place =>
    simp only [place, StartPc.cost, StartPc.toLaunch, createCost, launchCost, Pool.workload]
    omega

namespace Effort
variable (E : Effort B) (n k : Nat)

/-- A queued task: the thread that takes it may wake n threads and k submissions. -/
def perTask : Nat := E.rank B.first + 2 * n + k + 3

/-- A submission: it may queue a task, wake n threads and add one. -/
def perCall : Nat := E.perTask n k + 2 * n + 2

def total (p : Pool τ ρ σ) : Nat :=
  p.workload E.rank + p.callload (E.perCall n k) + E.perTask n k * p.taskQue.length +
    p.startCall.cost p.initThreadSize.toNat + p.destroyCall.cost n + E.load p.results

/-- n bounds the threads the pool can come to have, k its submissions. -/
structure Within (p : Pool τ ρ σ) : Prop where
  manpower : p.manpower ≤ n
  calls : p.submits.length ≤ k
  fits : E.fits p.results

end Effort

section Falls
variable {E : Effort B} {n k : Nat}

theorem submit_pending {i : Nat} {c : Submit τ} (here : p.submits[i]? = some c) (pc : SubmitPc) :
    (p.submits.set i { c with pc := pc }).countP (·.pc.pending) + c.pc.pending.toNat =
      p.submits.countP (·.pc.pending) + pc.pending.toNat :=
  Agents.countP_set here { c with pc := pc }

theorem accepts_falls (within : E.Within n k p) {i : Nat} {c : Submit τ}
    (here : p.submits[i]? = some c) (awake : c.pc.awake) :
    E.Within n k (acceptTask B p i c) ∧ E.total n k (acceptTask B p i c) < E.total n k p := by
  obtain ⟨queue, _, _, submits, _⟩ := acceptTask_fields B p i c
  obtain ⟨fits, load⟩ := E.accept i c.task within.fits
  obtain ⟨_, init, start, destroy, _⟩ := grow_same (enqueue p ⟨c.task, i⟩)
  obtain ⟨grown, more⟩ := grow_workload E.rank (enqueue p ⟨c.task, i⟩)
  have told : (enqueue p ⟨c.task, i⟩).workload E.rank ≤ p.workload E.rank + 2 * p.workers.length :=
    notifyNoEmpty_workload E.rank p
  have same : (enqueue p ⟨c.task, i⟩).workers.length = p.workers.length := List.length_map ..
  have settled := submit_pending here .accepted
  have paid := setSubmit_callload (E.perCall n k) here .accepted
  have manpower := within.manpower
  rw [awake_pending awake] at settled
  rw [submit_awake_cost awake] at paid
  have workers : (acceptTask B p i c).workers = (grow (enqueue p ⟨c.task, i⟩)).workers := rfl
  have start' : (acceptTask B p i c).startCall = p.startCall := start
  have init' : (acceptTask B p i c).initThreadSize = p.initThreadSize := init
  have destroy' : (acceptTask B p i c).destroyCall = p.destroyCall := destroy
  have results : (acceptTask B p i c).results = B.accept p.results i c.task := rfl
  constructor
  · refine ⟨?_, ?_, results ▸ fits⟩
    · unfold Pool.manpower at manpower ⊢
      rw [workers, start', init', submits]
      have none_left : SubmitPc.accepted.pending.toNat = 0 := rfl
      have one_before : true.toNat = 1 := rfl
      omega
    · rw [submits, List.length_set]
      exact within.calls
  · have called : (acceptTask B p i c).callload (E.perCall n k) + (E.perCall n k + 1) =
        p.callload (E.perCall n k) := by
      unfold Pool.callload
      rw [submits]
      exact paid
    have worked : (acceptTask B p i c).workload E.rank ≤ p.workload E.rank + 2 * p.workers.length + 2 := by
      unfold Pool.workload at grown told ⊢
      rw [workers]
      omega
    unfold Pool.manpower at manpower
    unfold Effort.total
    rw [start', init', destroy', results, queue, List.length_append, List.length_singleton,
      Nat.mul_succ]
    have price : E.perCall n k = E.perTask n k + 2 * n + 2 := rfl
    omega

/-- A submission that goes back to wait, or gives up. -/
theorem setSubmit_falls (within : E.Within n k p) {i : Nat} {c : Submit τ} {results : ρ}
    (here : p.submits[i]? = some c) (awake : c.pc.awake) {pc : SubmitPc}
    (cheaper : pc.cost (E.perCall n k) ≤ E.perCall n k)
    (fits : E.fits results) (load : E.load results ≤ E.load p.results) :
    E.Within n k (setSubmit { p with results := results } i c pc) ∧
      E.total n k (setSubmit { p with results := results } i c pc) < E.total n k p := by
  have settled := submit_pending here pc
  have paid := setSubmit_callload (E.perCall n k) here pc
  have manpower := within.manpower
  rw [awake_pending awake] at settled
  rw [submit_awake_cost awake] at paid
  have most : pc.pending.toNat ≤ 1 := Bool.toNat_le pc.pending
  constructor
  · refine ⟨?_, ?_, fits⟩
    · unfold Pool.manpower at manpower ⊢
      simp only [setSubmit, Bool.toNat_true] at settled ⊢
      omega
    · simp only [setSubmit, List.length_set]
      exact within.calls
  · unfold Effort.total
    simp only [Pool.workload, Pool.callload, setSubmit] at paid ⊢
    omega

theorem takes_falls (within : E.Within n k p) {w : Nat} {worker : Worker τ σ} {e : Entry τ}
    {rest : List (Entry τ)} (here : p.workers[w]? = some worker) (awake : worker.pc.awake)
    (queue : p.taskQue = e :: rest) :
    E.Within n k (takeTask B p w worker e rest) ∧
      E.total n k (takeTask B p w worker e rest) < E.total n k p := by
  obtain ⟨_, _, _, init, _, start, destroy, _, submits, queue'⟩ := takeTask_same B p w worker e rest
  obtain ⟨worked, called, length⟩ :=
    takeTask_workload E.rank (E.perCall n k) B p e rest here awake
  have results := (takeTask_quiet B p w worker e rest).2
  have manpower := within.manpower
  have calls := within.calls
  constructor
  · refine ⟨?_, ?_, results ▸ within.fits⟩
    · have same : (p.submits.map Submit.wake).countP (·.pc.pending) =
          p.submits.countP (·.pc.pending) := by
        rw [List.countP_map]
        refine List.countP_congr fun c _ => ?_
        rcases c with ⟨task, pc⟩
        cases pc <;> rfl
      unfold Pool.manpower at manpower ⊢
      rw [length, start, init, submits, same]
      exact manpower
    · rw [submits, List.length_map]
      exact calls
  · unfold Pool.manpower at manpower
    unfold Effort.total
    rw [start, init, destroy, results, queue', queue, List.length_cons, Nat.mul_succ]
    have price : E.perTask n k = E.rank B.first + 2 * n + k + 3 := rfl
    omega

/-- A step in which only the threads, the destructor and the backend move. -/
theorem work_falls (within : E.Within n k p) (submits : q.submits = p.submits)
    (queue : q.taskQue = p.taskQue) (start : q.startCall = p.startCall)
    (init : q.initThreadSize = p.initThreadSize) (length : q.workers.length = p.workers.length)
    (fits : E.fits q.results)
    (less : q.workload E.rank + q.destroyCall.cost n + E.load q.results <
      p.workload E.rank + p.destroyCall.cost n + E.load p.results) :
    E.Within n k q ∧ E.total n k q < E.total n k p := by
  constructor
  · refine ⟨?_, submits ▸ within.calls, fits⟩
    have manpower := within.manpower
    unfold Pool.manpower at manpower ⊢
    rwa [length, start, init, submits]
  · unfold Effort.total Pool.callload
    rw [submits, queue, start, init]
    omega

theorem exitTest_falls (within : E.Within n k p) (told : q = p ∨ q = notifyNoEmpty p)
    (paid : q.workload E.rank < p.workload E.rank + p.destroyCall.cost n) :
    E.Within n k (exitTest q) ∧ E.total n k (exitTest q) < E.total n k p := by
  have same : q.submits = p.submits ∧ q.taskQue = p.taskQue ∧ q.startCall = p.startCall ∧
      q.initThreadSize = p.initThreadSize ∧ q.workers.length = p.workers.length ∧
      q.results = p.results := by
    rcases told with rfl | rfl
    · exact ⟨rfl, rfl, rfl, rfl, rfl, rfl⟩
    · exact ⟨rfl, rfl, rfl, rfl, List.length_map .., rfl⟩
  obtain ⟨submits, queue, start, init, length, results⟩ := same
  unfold exitTest
  split
  all_goals
    refine work_falls within submits queue start init length (results ▸ within.fits) ?_
    change q.workload E.rank + 0 + E.load q.results < _
    rw [results]
    omega

/-- A step that serves a request keeps the bounds and lowers the effort that is left. -/
theorem calm_falls {a : Action τ χ κ} (within : E.Within n k p) (calm : Calm E.helps a)
    (found : q.nullThread = false) (outcome : Outcome B p a q) :
    E.Within n k q ∧ E.total n k q < E.total n k p := by
  have fits := within.fits
  cases outcome with
  | accepts here awake room => exact accepts_falls within here awake
  | @rejects i c here pc full =>
    obtain ⟨fits', load⟩ := E.reject i c.task fits
    exact setSubmit_falls within here (by simp [pc, SubmitPc.awake]) (Nat.zero_le _) fits' load
  | submitWaits here awake full =>
    exact setSubmit_falls within here awake (Nat.le_refl _) fits (Nat.le_refl _)
  | submitAwakes here blocked how => rcases how with ⟨rfl, _⟩ | ⟨rfl, _⟩ <;> exact calm.elim
  | workerAwakes here blocked how => rcases how with ⟨rfl, _⟩ | ⟨rfl, _⟩ <;> exact calm.elim
  | called | submitLate | startCalled | retires | workerLate | flagged | destroyStirred | others =>
    exact calm.elim
  | starts next =>
    obtain ⟨cheaper, fewer⟩ := startNext_cost E.rank next found
    obtain ⟨quiet, results⟩ := startNext_quiet next
    obtain ⟨destroy, submits, _⟩ : q.destroyCall = p.destroyCall ∧ q.submits = p.submits ∧ True := by
      cases next <;> exact ⟨rfl, rfl, trivial⟩
    constructor
    · refine ⟨?_, submits ▸ within.calls, results ▸ fits⟩
      have manpower := within.manpower
      unfold Pool.manpower at manpower ⊢
      rw [submits]
      omega
    · unfold Effort.total Pool.callload
      rw [submits, quiet.taskQue, destroy, results]
      omega
  | takes here awake queue => exact takes_falls within here awake queue
  | @exits w idleLong worker here awake empty stopped =>
    have moved := setWorker_workload E.rank here .exited
    rw [awake_cost awake] at moved
    refine work_falls within rfl rfl rfl rfl List.length_set fits ?_
    have woken : (p.destroyCall.wake).cost n ≤ p.destroyCall.cost n + 1 := by
      cases p.destroyCall <;> simp [DestroyPc.wake, DestroyPc.cost]
    change (setWorker p w worker .exited).workload E.rank + (p.destroyCall.wake).cost n + E.load p.results < _
    simp only [WorkerPc.cost] at moved
    omega
  | @waits w idleLong worker here awake empty running =>
    have moved := setWorker_workload E.rank here (.blocked (p.mode = .modeCachd))
    rw [awake_cost awake] at moved
    refine work_falls within rfl rfl rfl rfl List.length_set fits ?_
    simp only [WorkerPc.cost] at moved
    change (setWorker p w worker _).workload E.rank + p.destroyCall.cost n + E.load p.results < _
    omega
  | @execs w x worker e stage next results here pc ran =>
    obtain ⟨fits', less⟩ := E.execs fits ran
    have moved := setWorker_workload E.rank here (.running e next)
    rw [pc] at moved
    refine work_falls within rfl rfl rfl rfl List.length_set fits' ?_
    simp only [WorkerPc.cost] at moved
    change (setWorker p w worker _).workload E.rank + p.destroyCall.cost n + E.load results < _
    omega
  | @finishes w x worker e stage results here pc ran =>
    obtain ⟨fits', less⟩ := E.finishes fits ran
    have moved := setWorker_workload E.rank here .ran
    rw [pc] at moved
    refine work_falls within rfl rfl rfl rfl List.length_set fits' ?_
    simp only [WorkerPc.cost] at moved
    change (setWorker p w worker _).workload E.rank + p.destroyCall.cost n + E.load results < _
    omega
  | @idles w worker here pc =>
    have moved := setWorker_workload E.rank here .entering
    rw [pc] at moved
    refine work_falls within rfl rfl rfl rfl List.length_set fits ?_
    simp only [WorkerPc.cost] at moved
    change (setWorker p w worker _).workload E.rank + p.destroyCall.cost n + E.load p.results < _
    omega
  | destroyTests flagged =>
    have told := notifyNoEmpty_workload E.rank p
    have manpower := within.manpower
    unfold Pool.manpower at manpower
    refine exitTest_falls within (Or.inr rfl) ?_
    simp only [flagged, DestroyPc.cost]
    omega
  | destroyRetests woken =>
    refine exitTest_falls within (Or.inl rfl) ?_
    simp [woken, DestroyPc.cost]
  | @clients k' results done =>
    obtain ⟨fits', less⟩ := E.clients fits calm done
    refine work_falls within rfl rfl rfl rfl rfl fits' ?_
    change p.workload E.rank + p.destroyCall.cost n + E.load results < _
    omega

end Falls

end ThreadPool
