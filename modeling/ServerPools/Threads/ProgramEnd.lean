import ServerPools.Threads.Program
import ServerPools.Threads.Service

/- main comes to its end: when no wait times out and no wake-up is spurious, every way of
   scheduling main and the threads of the pool leads through all calls, all gets and the
   destructor. -/
namespace ThreadPool
variable {τ ρ σ χ κ ν : Type} {B : Backend τ ρ σ χ κ} {G : Getter B ν} {p q : Pool τ ρ σ}

/-- What the gets of main cost, within an effort of the backend. -/
structure Fees (E : Effort B) (G : Getter B ν) where
  fee : Nat
  call : ∀ {r r' : ρ} {i : Nat}, E.fits r → G.call r i = some r' → E.load r' ≤ E.load r + fee
  next : ∀ {r r' : ρ} {i : Nat}, E.fits r → G.next r i = some (r', none) → E.load r' < E.load r
  value : ∀ {r r' : ρ} {i : Nat} {v : ν}, E.fits r → G.next r i = some (r', some v) →
    E.load r' ≤ E.load r
  drop : ∀ {r r' : ρ} {i : Nat}, E.fits r → G.drop r i = some r' → E.load r' ≤ E.load r

/-- Main goes on, and beside it threads take the lock, run their tasks and become idle. -/
def Brisk (G : Getter B ν) (script : Script τ χ) (s : Program τ ρ σ ν) : Turn τ χ κ → Prop
  | .main => True
  | .env a => Ambient G script s.pool a ∧ Calm (fun _ => False) a

theorem brisk_scheduled {script : Script τ χ} {s : Program τ ρ σ ν} {turn : Turn τ χ κ}
    (brisk : Brisk G script s turn) : Scheduled G script s turn := by
  cases turn with
  | main => trivial
  | env a => exact brisk.1

section Cost
variable {E : Effort B} (F : Fees E G) (n all : Nat)

def dropping (left : Nat) : Nat := left + (2 * (n + all) + 3)

def Fees.getting (left : Nat) : Nat := left * (F.fee + 3) + dropping n all all + 1

def Fees.submitting (left : Nat) : Nat :=
  left * (E.perCall (n + all) all + 4) + F.getting n all all + 1

/-- What main still has to ask of the pool. -/
def MainPc.cost : MainPc → Nat
  | .entered => F.submitting n all all + createCost n 0 + 5
  | .starting => F.submitting n all all + 1
  | .submitting i => F.submitting n all (all - i)
  | .awaiting i => F.submitting n all (all - (i + 1)) + 1
  | .asking i => F.getting n all (all - i)
  | .getting i => F.getting n all (all - (i + 1)) + 1
  | .dropping left => ThreadPool.dropping n all left
  | .leaving => 1
  | .returned => 0

/-- The threads that main's further calls may still bring about. -/
def MainPc.ahead : MainPc → Nat
  | .entered => n + all
  | .starting => all
  | .submitting i => all - i
  | .awaiting i => all - (i + 1)
  | .asking _ | .getting _ | .dropping _ | .leaving | .returned => 0

def Fees.total (s : Program τ ρ σ ν) : Nat := s.main.cost F n all + E.total (n + all) all s.pool

end Cost

section Falls
variable {E : Effort B} {F : Fees E G} {script : Script τ χ} {n : Nat} {s s' : Program τ ρ σ ν}

/-- main, its calls and its pool together stay within the threads that were to be expected. -/
def Planned (n all : Nat) (s : Program τ ρ σ ν) : Prop :=
  s.pool.manpower + s.main.ahead n all ≤ n + all

theorem Tracks.within (tracks : Tracks script s) (planned : Planned n script.tasks.length s)
    (fits : E.fits s.pool.results) :
    E.Within (n + script.tasks.length) script.tasks.length s.pool := by
  refine ⟨Nat.le_trans (Nat.le_add_right _ _) planned, ?_, fits⟩
  have length := congrArg List.length tracks.tasks
  rw [List.length_map, List.length_take] at length
  omega

/-- A calm step never makes more threads possible. -/
theorem calm_manpower {a : Action τ χ κ} (calm : Calm E.helps a) (fits : E.fits p.results)
    (found : q.nullThread = false) (outcome : Outcome B p a q) : q.manpower ≤ p.manpower :=
  (calm_falls (k := p.submits.length) ⟨Nat.le_refl _, Nat.le_refl _, fits⟩ calm found
    outcome).1.manpower

theorem main_falls (size : script.initThreadSize = n) (tracks : Tracks script s)
    (planned : Planned n script.tasks.length s) (fits : E.fits s.pool.results)
    (found : s'.pool.nullThread = false) (taken : MainStep B G script s s') :
    Planned n script.tasks.length s' ∧
      F.total n script.tasks.length s' < F.total n script.tasks.length s := by
  have within := tracks.within planned fits
  have inside := tracks.inside
  have calm {a : Action τ χ κ} {pool : Pool τ ρ σ} (calm : Calm E.helps a)
      (found : pool.nullThread = false) (stepped : step B s.pool a = some pool) :
      pool.manpower ≤ s.pool.manpower ∧ E.total (n + script.tasks.length) script.tasks.length pool <
        E.total (n + script.tasks.length) script.tasks.length s.pool := by
    have outcome := (step_outcome stepped).2
    exact ⟨calm_manpower calm fits found outcome, (calm_falls within calm found outcome).2⟩
  unfold Planned at planned ⊢
  unfold Fees.total
  cases taken with
  | calls place stepped =>
    have idle : s.pool.startCall = .notCalled := by
      have start := tracks.start
      rwa [place] at start
    obtain rfl := step_callStart stepped
    rw [place] at planned ⊢
    simp only [Effort.total, Pool.manpower, Pool.workload, Pool.callload, MainPc.ahead, MainPc.cost,
      StartPc.toLaunch, StartPc.cost, idle, size, Int.toNat_natCast] at planned ⊢
    omega
  | starts place running stepped =>
    obtain ⟨fewer, less⟩ := calm (a := .start) trivial found stepped
    rw [place] at planned ⊢
    simp only at fewer less ⊢
    omega
  | started place done =>
    rw [place] at planned ⊢
    simp only [MainPc.ahead, MainPc.cost, Nat.sub_zero] at planned ⊢
    omega
  | @submits i task pool place more stepped =>
    obtain rfl := step_call stepped
    have short : i < script.tasks.length := (List.getElem?_eq_some_iff.mp more).1
    have left : script.tasks.length - i = script.tasks.length - (i + 1) + 1 := by omega
    rw [place] at planned ⊢
    simp only [Effort.total, Pool.manpower, Pool.workload, Pool.callload, MainPc.ahead, MainPc.cost,
      Fees.submitting, left, Nat.succ_mul, List.map_append, List.map_cons, List.map_nil,
      List.sum_append, List.sum_cons, List.sum_nil, List.countP_append, List.countP_cons,
      List.countP_nil, SubmitPc.pending, SubmitPc.cost, if_true] at planned ⊢
    omega
  | submitted place all =>
    rw [place] at planned ⊢
    simp only [MainPc.ahead, MainPc.cost, Nat.sub_zero, Fees.submitting] at planned ⊢
    omega
  | waits place here open_ stepped =>
    obtain ⟨fewer, less⟩ := calm (a := .submit _) trivial found stepped
    rw [place] at planned ⊢
    simp only at fewer less ⊢
    omega
  | settles place here final =>
    rw [place] at planned ⊢
    simp only [MainPc.ahead, MainPc.cost] at planned ⊢
    omega
  | @asks i results place more called =>
    have load := F.call fits called
    have left : script.tasks.length - i = script.tasks.length - (i + 1) + 1 := by omega
    rw [place] at planned ⊢
    simp only [Effort.total, Pool.manpower, Pool.workload, Pool.callload, MainPc.ahead, MainPc.cost,
      Fees.getting, left, Nat.succ_mul] at planned ⊢
    omega
  | asked place all =>
    rw [place] at planned ⊢
    simp only [MainPc.ahead, MainPc.cost, Fees.getting] at planned ⊢
    omega
  | drops place dropped =>
    have load := F.drop fits dropped
    rw [place] at planned ⊢
    simp only [Effort.total, Pool.manpower, Pool.workload, Pool.callload, MainPc.ahead, MainPc.cost,
      ThreadPool.dropping] at planned ⊢
    omega
  | leaves place stepped =>
    have standing : s.pool.destroyCall = .notCalled := by
      have destroy := tracks.destroy
      rw [place] at destroy
      by_contra begun
      simpa [MainPc.closing] using destroy.mpr begun
    obtain rfl := step_destroy stepped
    rw [place] at planned ⊢
    simp only [Effort.total, Pool.manpower, Pool.workload, Pool.callload, MainPc.ahead, MainPc.cost,
      ThreadPool.dropping, DestroyPc.cost, standing] at planned ⊢
    omega
  | gets place next =>
    have load := F.next fits next
    simp only [Effort.total, Pool.manpower, Pool.workload, Pool.callload] at planned ⊢
    omega
  | answers place next =>
    have load := F.value fits next
    rw [place] at planned ⊢
    simp only [Effort.total, Pool.manpower, Pool.workload, Pool.callload, MainPc.ahead,
      MainPc.cost] at planned ⊢
    omega
  | destroys place alive stepped =>
    obtain ⟨fewer, less⟩ := calm (a := .destroyNext) trivial found stepped
    rw [place] at planned ⊢
    simp only at fewer less ⊢
    omega
  | returns place gone =>
    rw [place] at planned ⊢
    simp only [MainPc.ahead, MainPc.cost] at planned ⊢
    omega

end Falls

section End
variable {script : Script τ χ} {n : Nat} {mode : PoolMode} {t threshold : Int} {results : ρ}
  {s s' : Program τ ρ σ ν}

theorem brisk_pool (size : script.initThreadSize = n)
    (reached : Machine.Reach (programStep B G script) (Brisk G script)
      (launch mode t threshold results) s) :
    Tracks script s ∧ Machine.Reach (step B) (Driven G script)
      (configured 0 results mode t threshold) s.pool :=
  program_pool size (reached.weaken fun _ _ => brisk_scheduled)

theorem brisk_orderly (size : script.initThreadSize = n)
    (reached : Machine.Reach (programStep B G script) (Brisk G script)
      (launch mode t threshold results) s) :
    Machine.Reach (step B) (Orderly n) (configured 0 results mode t threshold) s.pool :=
  (brisk_pool size reached).2.weaken fun _ _ driven => size ▸ driven_orderly driven

/-- No thread retires in such runs, so the destructor is told of the last one. -/
theorem brisk_free (size : script.initThreadSize = n)
    (reached : Machine.Reach (programStep B G script) (Brisk G script)
      (launch mode t threshold results) s) : ¬ Stuck s.pool := by
  induction reached with
  | start =>
    unfold launch
    rw [configured_fields]
    simp [Stuck, newPool]
  | @next s s' turn before permit taken free =>
    cases turn with
    | main =>
      have found := (reachable_manned (by omega) (brisk_orderly size before)).found
      rcases main_pool (brisk_pool size before).1 found (mainNext_step taken) with
        same | ⟨a, _, own, stepped⟩
      · rwa [same]
      · refine outcome_not_stuck free ?_ (step_outcome stepped).2
        rintro w worker rfl
        exact own.elim
    | env a =>
      obtain ⟨q, stepped, rfl⟩ := Option.map_eq_some_iff.mp taken
      refine outcome_not_stuck free ?_ (step_outcome stepped).2
      rintro w worker rfl
      exact permit.2.elim

theorem brisk_planned {E : Effort B} (F : Fees E G) (size : script.initThreadSize = n)
    (fits : ∀ s, Machine.Reach (programStep B G script) (Brisk G script)
      (launch mode t threshold results) s → E.fits s.pool.results)
    (reached : Machine.Reach (programStep B G script) (Brisk G script)
      (launch mode t threshold results) s) (planned : Planned n script.tasks.length s) {turn : Turn τ χ κ}
    (permit : Brisk G script s turn) (taken : programStep B G script s turn = some s') :
    Planned n script.tasks.length s' ∧
      F.total n script.tasks.length s' < F.total n script.tasks.length s := by
  have found := (reachable_manned (by omega) (brisk_orderly size (reached.next permit taken))).found
  have tracks := (brisk_pool size reached).1
  cases turn with
  | main => exact main_falls size tracks planned (fits s reached) found (mainNext_step taken)
  | env a =>
    obtain ⟨q, stepped, rfl⟩ := Option.map_eq_some_iff.mp taken
    have outcome := (step_outcome stepped).2
    have calm : Calm E.helps a := calm_helps permit.2
    have fewer := calm_manpower calm (fits s reached) found outcome
    have less := (calm_falls (tracks.within planned (fits s reached)) calm found outcome).2
    constructor
    · unfold Planned at planned ⊢
      simp only at fewer ⊢
      omega
    · unfold Fees.total
      simp only at less ⊢
      omega

/-- Where neither main nor a thread can go on, the pool is at rest. -/
theorem brisk_rest (size : script.initThreadSize = n)
    (reached : Machine.Reach (programStep B G script) (Brisk G script)
      (launch mode t threshold results) s)
    (still : ¬ Machine.CanStep (programStep B G script) (Brisk G script) s) : AtRest B s.pool := by
  have tracks := (brisk_pool size reached).1
  have start := tracks.start
  have destroy := tracks.destroy
  have stuck : mainNext B G script s = none := by
    cases taken : mainNext B G script s with
    | none => rfl
    | some s' => exact absurd ⟨.main, s', trivial, taken⟩ still
  have env {a : Action τ χ κ} (ambient : Ambient G script s.pool a) (calm : Calm (fun _ => False) a) :
      step B s.pool a = none := by
    cases taken : step B s.pool a with
    | none => rfl
    | some q =>
      refine absurd ⟨.env a, { s with pool := q }, ⟨ambient, calm⟩, ?_⟩ still
      simp [programStep, taken]
  have quiet {a : Action τ χ κ} (none_there : perform B s.pool a = none) : step B s.pool a = none := by
    unfold step
    split
    · exact none_there
    · rfl
  intro a calm other
  cases a with
  | worker w idleLong => exact env trivial calm
  | idle w => exact env trivial calm
  | exec w x => exact absurd rfl (other w x)
  | start =>
    cases place : s.main with
    | starting =>
      simp only [mainNext, place] at stuck
      split at stuck
      · contradiction
      · cases taken : step B s.pool .start with
        | none => rfl
        | some q => simp [onPool, taken] at stuck
    | entered =>
      rw [place] at start
      exact quiet (by simp only [perform, startNext, show s.pool.startCall = .notCalled from start])
    | submitting | awaiting | asking | getting | dropping | leaving | returned =>
      rw [place] at start
      exact quiet (by simp only [perform, startNext, show s.pool.startCall = .returned from start])
  | submit i =>
    cases here : s.pool.submits[i]? with
    | none => exact quiet (by simp only [perform, submit, here])
    | some c =>
      by_cases own : s.main = .awaiting i
      · simp only [mainNext, own, here] at stuck
        split at stuck
        · contradiction
        · cases taken : step B s.pool (.submit i) with
          | none => rfl
          | some q => simp [onPool, taken] at stuck
      · have short : i < s.main.settled script.tasks.length := by
          have inside := (List.getElem?_eq_some_iff.mp here).1
          rw [tracks.calls_length] at inside
          cases place : s.main <;> rw [place] at inside own <;>
            simp only [MainPc.called, MainPc.settled] at inside ⊢
          case awaiting j =>
            have apart : i ≠ j := fun same => own (same ▸ rfl)
            omega
          all_goals omega
        have final := tracks.final i c short here
        refine quiet ?_
        simp only [perform, submit, here]
        cases pc : c.pc <;> simp_all [SubmitPc.final]
  | destroyNext =>
    by_cases own : s.main = .leaving
    · by_cases gone : s.pool.destroyCall = .returned
      · exact quiet (by simp only [perform, destroyNext, gone])
      · simp only [mainNext, own, if_neg gone] at stuck
        cases taken : step B s.pool .destroyNext with
        | none => rfl
        | some q => simp [onPool, taken] at stuck
    · by_cases ended : s.main = .returned
      · exact quiet (by simp only [perform, destroyNext, tracks.gone ended])
      · have standing : s.pool.destroyCall = .notCalled := by
          by_contra begun
          have closing := destroy.mpr begun
          cases place : s.main <;> simp_all [MainPc.closing]
        exact quiet (by simp only [perform, destroyNext, standing])
  | _ => exact calm.elim

/-- What the value side has to provide: it stays within its effort, a running task can go on with
    the value it computes, and main's gets are served once the pool has served everything. -/
structure Provides (E : Effort B) (G : Getter B ν) (script : Script τ χ) (start : Program τ ρ σ ν) :
    Prop where
  fits : ∀ s, Machine.Reach (programStep B G script) (Brisk G script) start s → E.fits s.pool.results
  able : ∀ s, Machine.Reach (programStep B G script) (Brisk G script) start s →
    ∀ job ∈ s.pool.jobs, (B.exec s.pool.results job.1 job.2 (script.run job.1.task)).isSome
  calls : ∀ s i, Machine.Reach (programStep B G script) (Brisk G script) start s →
    s.main = .asking i → i < script.tasks.length → G.call s.pool.results i ≠ none
  answers : ∀ s i, Machine.Reach (programStep B G script) (Brisk G script) start s →
    s.main = .getting i → AllServed s.pool → G.next s.pool.results i ≠ none
  drops : ∀ s left, Machine.Reach (programStep B G script) (Brisk G script) start s →
    s.main = .dropping (left + 1) → G.drop s.pool.results left ≠ none

/-- main rests only after its last statement. -/
theorem brisk_done {E : Effort B} (positive : 1 ≤ n) (bounded : 1 ≤ t ∧ t < 2 ^ 31)
    (size : script.initThreadSize = n)
    (provides : Provides E G script (launch mode t threshold results))
    (reached : Machine.Reach (programStep B G script) (Brisk G script)
      (launch mode t threshold results) s)
    (still : ¬ Machine.CanStep (programStep B G script) (Brisk G script) s) :
    s.main = .returned ∧ AllServed s.pool := by
  have tracks := (brisk_pool size reached).1
  have orderly := brisk_orderly size reached
  have found := (reachable_manned (by omega) orderly).found
  have start := tracks.start
  have destroy := tracks.destroy
  have rest := brisk_rest size reached still
  have stuck : mainNext B G script s = none := by
    cases taken : mainNext B G script s with
    | none => rfl
    | some s' => exact absurd ⟨.main, s', trivial, taken⟩ still
  have standing (open_ : s.main.closing = false) : s.pool.destroyCall = .notCalled := by
    by_contra begun
    rw [destroy.mpr begun] at open_
    contradiction
  have idle (alive : s.pool.destroyCall ≠ .returned) : s.pool.jobs = [] := by
    apply List.eq_nil_iff_forall_not_mem.mpr
    rintro ⟨e, stage⟩ member
    obtain ⟨worker, there, own⟩ := List.mem_filterMap.mp member
    obtain ⟨w, here⟩ := List.getElem?_of_mem there
    have pc : worker.pc = .running e stage := by
      cases place : worker.pc <;> simp_all [Worker.job]
    obtain ⟨⟨after, next⟩, ran⟩ := Option.isSome_iff_exists.mp (provides.able s reached _ member)
    have goes : (step B s.pool (.exec w (script.run e.task))).isSome := by
      simp only [step, found, enabled, perform, execTask, here, pc, ran]
      rw [if_pos ⟨trivial, alive⟩]
      cases next <;> rfl
    obtain ⟨q, stepped⟩ := Option.isSome_iff_exists.mp goes
    refine still ⟨.env (.exec w (script.run e.task)), { s with pool := q }, ⟨?_, trivial⟩, ?_⟩
    · intro worker' e' stage' here' pc'
      obtain rfl : worker = worker' := Option.some.inj (here.symm.trans here')
      rw [pc] at pc'
      cases pc'
      rfl
    · simp [programStep, stepped]
  by_cases entered : s.main = .entered
  · rw [entered] at start
    have settled : startSettled s.pool ∧ s.pool.destroyCall = .notCalled :=
      ⟨Or.inl start, standing (by simp [entered, MainPc.closing])⟩
    simp [mainNext, entered, onPool, step, found, enabled, perform, settled] at stuck
  · have begun : s.pool.startCall ≠ .notCalled := by
      cases place : s.main <;> simp_all [MainPc.startsAt]
    have served := rest_served positive bounded ⟨orderly, begun, brisk_free size reached⟩ rest idle
    refine ⟨?_, served⟩
    cases place : s.main with
    | entered => exact absurd place entered
    | starting =>
      have off : s.pool.destroyCall = .notCalled := standing (by simp [place, MainPc.closing])
      have done := rest_start found (by simp [off]) rest begun
      simp [mainNext, place, done] at stuck
    | submitting i =>
      have off : s.pool.destroyCall = .notCalled := standing (by simp [place, MainPc.closing])
      simp only [mainNext, place] at stuck
      split at stuck
      · simp [onPool, step, found, enabled, perform, off] at stuck
      · contradiction
    | awaiting i =>
      have length := tracks.calls_length
      rw [place] at length
      have inside : i < s.pool.submits.length := by
        rw [length]
        exact Nat.lt_succ_self i
      have final := served.answered _ (List.getElem_mem inside)
      simp [mainNext, place, List.getElem?_eq_getElem inside, final] at stuck
    | asking i =>
      simp only [mainNext, place] at stuck
      split at stuck
      · rename_i more
        exact absurd (Option.map_eq_none_iff.mp stuck) (provides.calls s i reached place more)
      · contradiction
    | getting i =>
      have answered := provides.answers s i reached place served
      simp only [mainNext, place] at stuck
      split at stuck
      · rename_i blocked
        exact absurd blocked answered
      · contradiction
      · contradiction
    | dropping left =>
      cases left with
      | zero =>
        have off : s.pool.destroyCall = .notCalled := standing (by simp [place, MainPc.closing])
        rw [place] at start
        have settled : startSettled s.pool ∧ s.pool.destroyCall = .notCalled := ⟨Or.inr start, off⟩
        simp [mainNext, place, onPool, step, found, enabled, perform, settled] at stuck
      | succ left =>
        simp only [mainNext, place] at stuck
        exact absurd (Option.map_eq_none_iff.mp stuck) (provides.drops s left reached place)
    | leaving =>
      have closed := served.closed (destroy.mp (by simp [place, MainPc.closing]))
      simp [mainNext, place, closed.1] at stuck
    | returned => rfl

theorem launch_planned (n all : Nat) : Planned n all (launch mode t threshold results : Program τ ρ σ ν) := by
  unfold Planned launch
  rw [configured_fields]
  simp [newPool, Pool.manpower, MainPc.ahead, StartPc.toLaunch]

/-- However main and the threads are scheduled, main returns, and then everything it asked of the
    pool has been served. -/
theorem main_ends {E : Effort B} (F : Fees E G) (positive : 1 ≤ n) (bounded : 1 ≤ t ∧ t < 2 ^ 31)
    (size : script.initThreadSize = n)
    (provides : Provides E G script (launch mode t threshold results)) :
    Machine.Inevitable (programStep B G script) (Brisk G script)
      (fun s => s.main = .returned ∧ AllServed s.pool ∧
        Machine.Reach (programStep B G script) (Brisk G script) (launch mode t threshold results) s)
      (launch mode t threshold results) := by
  apply Machine.inevitable_of_measure
    (fun s => Machine.Reach (programStep B G script) (Brisk G script)
      (launch mode t threshold results) s ∧ Planned n script.tasks.length s)
    (F.total n script.tasks.length)
  · rintro s turn s' ⟨reached, planned⟩ permit taken
    exact ⟨reached.next permit taken,
      (brisk_planned F size provides.fits reached planned permit taken).1⟩
  · rintro s turn s' ⟨reached, planned⟩ permit taken
    exact (brisk_planned F size provides.fits reached planned permit taken).2
  · rintro s ⟨reached, _⟩ still
    obtain ⟨done, served⟩ := brisk_done positive bounded size provides reached still
    exact ⟨done, served, reached⟩
  · exact ⟨.start, launch_planned n _⟩

end End

end ThreadPool
