import ServerPools.Threads.Outcomes

/- The threads of a pool as the map and the counters see them: which ids were launched
   and which have left. What a thread does in between does not show. -/
namespace ThreadPool
variable {τ ρ σ χ κ : Type} {B : Backend τ ρ σ χ κ} {p q : Pool τ ρ σ}

inductive Status where
  | active
  | exited
  | retired
  deriving DecidableEq, Repr

def WorkerPc.status : WorkerPc τ σ → Status
  | .exited => .exited
  | .retired => .retired
  | _ => .active

def Worker.view (w : Worker τ σ) : Nat × Status := (w.threadid, w.pc.status)

def Pool.roster (p : Pool τ ρ σ) : List (Nat × Status) := p.workers.map Worker.view

@[simp] theorem wake_view (w : Worker τ σ) : w.wake.view = w.view := by
  rcases w with ⟨threadid, pc⟩
  cases pc <;> rfl

@[simp] theorem notifyNoEmpty_roster (p : Pool τ ρ σ) : (notifyNoEmpty p).roster = p.roster := by
  simp [Pool.roster, notifyNoEmpty]

theorem setWorker_roster (w : Nat) (worker : Worker τ σ) (pc : WorkerPc τ σ) :
    (setWorker p w worker pc).roster = p.roster.set w (worker.threadid, pc.status) := by
  simp [Pool.roster, setWorker, List.map_set, Worker.view]

theorem roster_here {w : Nat} {worker : Worker τ σ} (here : p.workers[w]? = some worker) :
    p.roster[w]? = some worker.view := by
  simp [Pool.roster, here]

theorem setWorker_same_roster {w : Nat} {worker : Worker τ σ} {pc : WorkerPc τ σ}
    (here : p.workers[w]? = some worker) (same : pc.status = worker.pc.status) :
    (setWorker p w worker pc).roster = p.roster := by
  apply Agents.map_set_same here
  simp [Worker.view, same]

section Ids
variable {roster : List (Nat × Status)} {id i w : Nat} {status : Status}

theorem ids_launch : id ∈ (roster ++ [(i, status)]).map Prod.fst ↔
    id ∈ roster.map Prod.fst ∨ id = i := by
  simp only [List.map_append, List.mem_append, List.map_cons, List.map_nil, List.mem_singleton]

theorem unlaunched_launch (idle : id ∉ roster.map Prod.fst) (other : id ≠ i) :
    id ∉ (roster ++ [(i, status)]).map Prod.fst := by
  rw [ids_launch]
  rintro (old | same)
  · exact idle old
  · exact other same

theorem distinct_launch (distinct : (roster.map Prod.fst).Nodup) (fresh : i ∉ roster.map Prod.fst) :
    ((roster ++ [(i, status)]).map Prod.fst).Nodup := by
  rw [List.map_append, List.nodup_append]
  refine ⟨distinct, by simp, ?_⟩
  intro id old new last same
  have eq : new = i := List.mem_singleton.mp last
  exact fresh (eq ▸ same ▸ old)

/-- A thread that leaves keeps its place. -/
theorem ids_leave {before : Status} (here : roster[w]? = some (i, before)) :
    (roster.set w (i, status)).map Prod.fst = roster.map Prod.fst :=
  Agents.map_set_same here rfl

end Ids

theorem awake_active {worker : Worker τ σ} (awake : worker.pc.awake) :
    worker.pc.status = .active := by
  rcases worker with ⟨threadid, pc⟩
  cases pc <;> simp_all [WorkerPc.awake, WorkerPc.status]

/-- A submission that can still be accepted. -/
def SubmitPc.pending : SubmitPc → Bool
  | .accepted | .rejected => false
  | _ => true

theorem awake_pending {pc : SubmitPc} (awake : pc.awake) : pc.pending := by
  cases pc <;> simp_all [SubmitPc.awake, SubmitPc.pending]

/-- A step as the roster sees it. -/
inductive RosterMove (p q : Pool τ ρ σ) : Action τ χ κ → Prop where
  | quiet {a : Action τ χ κ} (roster : q.roster = p.roster) (threads : q.threads = p.threads)
      (cur : q.curThreadSize = p.curThreadSize) (init : q.initThreadSize = p.initThreadSize)
      (ids : p.generateID ≤ q.generateID) (start : q.startCall = p.startCall)
      (queue : q.taskQue ≠ [] → p.taskQue ≠ [] ∨ ∃ c ∈ p.submits, c.pc.pending) : RosterMove p q a
  | called (n : Int) (settled : startSettled p) (standing : p.destroyCall = .notCalled)
      (after : q = { p with startCall := .setRunning n }) : RosterMove p q (.callStart n)
  | grows {a : Action τ χ κ} (mode : p.mode = .modeCachd) (below : p.curThreadSize < p.threadSizeThreshHold)
      (caller : ∃ c ∈ p.submits, c.pc.pending)
      (roster : q.roster = p.roster ++ [(p.generateID, .active)])
      (threads : q.threads = emplace p.threads p.generateID)
      (cur : q.curThreadSize = p.curThreadSize + 1) (init : q.initThreadSize = p.initThreadSize)
      (ids : q.generateID = p.generateID + 1) (start : q.startCall = p.startCall) : RosterMove p q a
  | exits {a : Action τ χ κ} {w id : Nat} (here : p.roster[w]? = some (id, .active)) (empty : p.taskQue = [])
      (stopped : p.isPoolRunning = false) (roster : q.roster = p.roster.set w (id, .exited))
      (threads : q.threads = p.threads.filter (· ≠ id))
      (cur : q.curThreadSize = p.curThreadSize) (init : q.initThreadSize = p.initThreadSize)
      (ids : q.generateID = p.generateID) (start : q.startCall = p.startCall)
      (queue : q.taskQue = []) : RosterMove p q a
  | retires {a : Action τ χ κ} {w id : Nat} (here : p.roster[w]? = some (id, .active))
      (expired : ∃ worker ∈ p.workers, worker.pc = .timedOut)
      (surplus : p.initThreadSize < p.curThreadSize)
      (roster : q.roster = p.roster.set w (id, .retired))
      (threads : q.threads = p.threads.filter (· ≠ id))
      (cur : q.curThreadSize = p.curThreadSize - 1) (init : q.initThreadSize = p.initThreadSize)
      (ids : q.generateID = p.generateID) (start : q.startCall = p.startCall)
      (queue : q.taskQue = p.taskQue) : RosterMove p q a
  | starts (next : StartStep p q) : RosterMove p q .start

theorem acceptTask_roster {a : Action τ χ κ} {i : Nat} {c : Submit τ}
    (here : p.submits[i]? = some c) (awake : c.pc.awake) : RosterMove p (acceptTask B p i c) a := by
  have caller : ∃ c ∈ p.submits, c.pc.pending := ⟨c, Agents.mem_of_position here, awake_pending awake⟩
  have woken : (p.workers.map Worker.wake).map Worker.view = p.roster :=
    notifyNoEmpty_roster p
  by_cases growing : p.mode = .modeCachd ∧ asUnsigned p.idleThreadSize < (p.taskSize + 1) % 2 ^ 32 ∧
      p.curThreadSize < p.threadSizeThreshHold
  · have grown : grow (enqueue p ⟨c.task, i⟩) = { enqueue p ⟨c.task, i⟩ with
        generateID := p.generateID + 1
        threads := emplace p.threads p.generateID
        workers := p.workers.map Worker.wake ++ [⟨p.generateID, .entering⟩]
        curThreadSize := p.curThreadSize + 1
        idleThreadSize := p.idleThreadSize + 1 } := if_pos growing
    unfold acceptTask
    rw [grown]
    refine .grows growing.1 growing.2.2 caller ?_ rfl rfl rfl rfl rfl
    simp only [Pool.roster, setSubmit, List.map_append, woken]
    rfl
  · have kept : grow (enqueue p ⟨c.task, i⟩) = enqueue p ⟨c.task, i⟩ := if_neg growing
    unfold acceptTask
    rw [kept]
    exact .quiet woken rfl rfl rfl (Nat.le_refl _) rfl fun _ => Or.inr caller

/-- Growing adds a thread and counts it. -/
theorem grow_same (p : Pool τ ρ σ) :
    (grow p).taskQue = p.taskQue ∧ (grow p).initThreadSize = p.initThreadSize ∧
      (grow p).startCall = p.startCall ∧ (grow p).destroyCall = p.destroyCall ∧
      (grow p).nullThread = p.nullThread ∧
      ((grow p).workers = p.workers ∨ ∃ new, (grow p).workers = p.workers ++ [new]) := by
  unfold grow
  split
  · exact ⟨rfl, rfl, rfl, rfl, rfl, Or.inr ⟨_, rfl⟩⟩
  · exact ⟨rfl, rfl, rfl, rfl, rfl, Or.inl rfl⟩

theorem takeTask_same (B : Backend τ ρ σ χ κ) (p : Pool τ ρ σ) (w : Nat) (worker : Worker τ σ)
    (e : Entry τ) (rest : List (Entry τ)) :
    (takeTask B p w worker e rest).roster = (popTask B p w worker e rest).roster ∧
      (takeTask B p w worker e rest).threads = p.threads ∧
      (takeTask B p w worker e rest).curThreadSize = p.curThreadSize ∧
      (takeTask B p w worker e rest).initThreadSize = p.initThreadSize ∧
      (takeTask B p w worker e rest).generateID = p.generateID ∧
      (takeTask B p w worker e rest).startCall = p.startCall ∧
      (takeTask B p w worker e rest).destroyCall = p.destroyCall ∧
      (takeTask B p w worker e rest).isPoolRunning = p.isPoolRunning ∧
      (takeTask B p w worker e rest).submits = p.submits.map Submit.wake ∧
      (takeTask B p w worker e rest).taskQue = rest := by
  unfold takeTask
  split
  · exact ⟨notifyNoEmpty_roster _, rfl, rfl, rfl, rfl, rfl, rfl, rfl, rfl, rfl⟩
  · exact ⟨rfl, rfl, rfl, rfl, rfl, rfl, rfl, rfl, rfl, rfl⟩

theorem outcome_roster {a : Action τ χ κ} (outcome : Outcome B p a q) : RosterMove p q a := by
  have calm {r : Pool τ ρ σ} {a : Action τ χ κ} (roster : r.roster = p.roster) (threads : r.threads = p.threads)
      (cur : r.curThreadSize = p.curThreadSize) (init : r.initThreadSize = p.initThreadSize)
      (ids : r.generateID = p.generateID) (start : r.startCall = p.startCall)
      (queue : r.taskQue = p.taskQue) : RosterMove p r a :=
    .quiet roster threads cur init (Nat.le_of_eq ids.symm) start
      fun stocked => Or.inl (queue ▸ stocked)
  cases outcome with
  | accepts here awake room => exact acceptTask_roster here awake
  | startCalled n settled standing => exact .called n settled standing rfl
  | starts next => exact .starts next
  | @takes w idleLong worker e rest here awake queue =>
    obtain ⟨roster, threads, cur, init, ids, start, _, _, _, _⟩ := takeTask_same B p w worker e rest
    have same : (popTask B p w worker e rest).roster = p.roster :=
      setWorker_same_roster here (awake_active awake).symm
    exact .quiet (roster.trans same) threads cur init (Nat.le_of_eq ids.symm) start
      fun _ => Or.inl (by simp [queue])
  | @exits w idleLong worker here awake empty stopped =>
    have seen := roster_here here
    rw [Worker.view, awake_active awake] at seen
    exact .exits seen empty stopped (setWorker_roster w worker .exited) rfl rfl rfl rfl rfl empty
  | waits here awake empty running =>
    exact calm (setWorker_same_roster here (awake_active awake).symm) rfl rfl rfl rfl rfl rfl
  | @retires w worker here pc surplus =>
    have seen := roster_here here
    rw [Worker.view, awake_active (by simp [pc, WorkerPc.awake])] at seen
    exact .retires seen ⟨worker, Agents.mem_of_position here, pc⟩ surplus
      (setWorker_roster w worker .retired) rfl rfl rfl rfl rfl rfl
  | workerAwakes here blocked how =>
    refine calm (setWorker_same_roster here ?_) rfl rfl rfl rfl rfl rfl
    rcases how with ⟨_, _, rfl⟩ | ⟨_, rfl⟩ <;> simp [blocked, WorkerPc.status]
  | workerLate here woken =>
    exact calm (setWorker_same_roster here (by simp [woken, WorkerPc.status])) rfl rfl rfl rfl rfl
      rfl
  | execs here pc ran =>
    exact calm (setWorker_same_roster here (by simp [pc, WorkerPc.status])) rfl rfl rfl rfl rfl rfl
  | finishes here pc ran =>
    exact calm (setWorker_same_roster here (by simp [pc, WorkerPc.status])) rfl rfl rfl rfl rfl rfl
  | idles here pc =>
    exact calm (setWorker_same_roster here (by simp [pc, WorkerPc.status])) rfl rfl rfl rfl rfl rfl
  | destroyTests flagged =>
    rw [exitTest_eq]
    exact calm (notifyNoEmpty_roster p) rfl rfl rfl rfl rfl rfl
  | destroyRetests woken =>
    rw [exitTest_eq]
    exact calm rfl rfl rfl rfl rfl rfl rfl
  | others =>
    exact .quiet rfl rfl rfl rfl (Nat.le_succ _) rfl Or.inl
  | called | rejects | submitWaits | submitAwakes | submitLate | flagged | destroyStirred
  | clients =>
    exact calm rfl rfl rfl rfl rfl rfl rfl

end ThreadPool
