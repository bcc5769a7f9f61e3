import ServerPools.Threads.Roster

/- The threads that wait on noEmpty and those whose wait_for has run out, and what a step does
   to them: only a thread that finds the queue empty goes to sleep, and only a deadline makes
   an expired thread. -/
namespace ThreadPool
variable {τ ρ σ χ κ : Type} {B : Backend τ ρ σ χ κ} {p q : Pool τ ρ σ}

def WorkerPc.asleep : WorkerPc τ σ → Bool
  | .blocked _ => true
  | _ => false

def WorkerPc.expired : WorkerPc τ σ → Bool
  | .timedOut => true
  | _ => false

/-- Some thread is at a place of this kind. -/
def Pool.anyAt (p : Pool τ ρ σ) (kind : WorkerPc τ σ → Bool) : Prop :=
  ∃ worker ∈ p.workers, kind worker.pc

/-- The destructor has taken the lock and notified noEmpty. -/
def DestroyPc.notified : DestroyPc → Bool
  | .blocked | .woken | .returned => true
  | _ => false

section Places
variable {kind : WorkerPc τ σ → Bool}

theorem setWorker_anyAt {w : Nat} {worker : Worker τ σ} {pc : WorkerPc τ σ}
    (some_at : (setWorker p w worker pc).anyAt kind) : kind pc ∨ p.anyAt kind := by
  obtain ⟨other, member, there⟩ := some_at
  rcases List.mem_or_eq_of_mem_set member with old | rfl
  · exact Or.inr ⟨other, old, there⟩
  · exact Or.inl there

theorem wake_kind (woken : ∀ timed, kind (.woken timed) = false) (worker : Worker τ σ)
    (there : kind worker.wake.pc) : kind worker.pc := by
  rcases worker with ⟨threadid, pc⟩
  cases pc with
  | blocked timed => simp [Worker.wake, woken] at there
  | _ => exact there

theorem notifyNoEmpty_anyAt (woken : ∀ timed, kind (.woken timed) = false)
    (some_at : (notifyNoEmpty p).anyAt kind) : p.anyAt kind := by
  obtain ⟨other, member, there⟩ := some_at
  obtain ⟨worker, old, rfl⟩ := List.mem_map.mp member
  exact ⟨worker, old, wake_kind woken worker there⟩

theorem notifyNoEmpty_none_asleep (p : Pool τ ρ σ) : ¬ (notifyNoEmpty p).anyAt WorkerPc.asleep := by
  rintro ⟨other, member, there⟩
  obtain ⟨worker, old, rfl⟩ := List.mem_map.mp member
  rcases worker with ⟨threadid, pc⟩
  cases pc <;> simp [Worker.wake, WorkerPc.asleep] at there

theorem grow_anyAt (entering : kind .entering = false) (some_at : (grow p).anyAt kind) :
    p.anyAt kind := by
  unfold grow at some_at
  split at some_at
  · obtain ⟨worker, member, there⟩ := some_at
    rcases List.mem_append.mp member with old | new
    · exact ⟨worker, old, there⟩
    · obtain rfl := List.mem_singleton.mp new
      simp [entering] at there
  · exact some_at

theorem takeTask_anyAt {w : Nat} {worker : Worker τ σ} {e : Entry τ} {rest : List (Entry τ)}
    (woken : ∀ timed, kind (.woken timed) = false) (running : ∀ stage, kind (.running e stage) = false)
    (some_at : (takeTask B p w worker e rest).anyAt kind) : p.anyAt kind := by
  have popped : (popTask B p w worker e rest).anyAt kind := by
    unfold takeTask at some_at
    split at some_at
    · exact notifyNoEmpty_anyAt woken some_at
    · exact some_at
  rcases setWorker_anyAt popped with new | old
  · simp [running] at new
  · exact old

theorem startNext_anyAt (entering : kind .entering = false) (next : StartStep p q)
    (some_at : q.anyAt kind) : p.anyAt kind := by
  cases next with
  | launches i place more present =>
    obtain ⟨worker, member, there⟩ := some_at
    rcases List.mem_append.mp member with old | new
    · exact ⟨worker, old, there⟩
    · obtain rfl := List.mem_singleton.mp new
      simp [entering] at there
  | setsRunning | setsInit | setsCur | creates | created | dereferencesNull | launched | counts =>
    exact some_at

end Places

theorem destroyCall_wake (pc : DestroyPc) : pc.wake.notified = pc.notified := by
  cases pc <;> rfl

/-- Where the expired threads of a state come from: they were expired before, or a deadline
    has just passed. -/
theorem outcome_expired {a : Action τ χ κ} (outcome : Outcome B p a q)
    (expired : q.anyAt WorkerPc.expired) :
    p.anyAt WorkerPc.expired ∨ ∃ w, a = .workerTimeout w := by
  have moved {r : Pool τ ρ σ} {w : Nat} {worker : Worker τ σ} {pc : WorkerPc τ σ}
      (fresh : pc.expired = false) (some_at : (setWorker r w worker pc).anyAt WorkerPc.expired) :
      r.anyAt WorkerPc.expired := by
    rcases setWorker_anyAt some_at with new | old
    · simp [fresh] at new
    · exact old
  cases outcome with
  | @accepts i c here awake room =>
    have before : (enqueue p ⟨c.task, i⟩).anyAt WorkerPc.expired := grow_anyAt rfl expired
    exact Or.inl (notifyNoEmpty_anyAt (fun _ => rfl) before)
  | starts next => exact Or.inl (startNext_anyAt rfl next expired)
  | takes here awake queue =>
    exact Or.inl (takeTask_anyAt (fun _ => rfl) (fun _ => rfl) expired)
  | exits | waits | retires | execs | finishes | idles => exact Or.inl (moved rfl expired)
  | workerAwakes here blocked how =>
    rcases how with ⟨rfl, rfl, rfl⟩ | ⟨rfl, rfl⟩
    · exact Or.inr ⟨_, rfl⟩
    · exact Or.inl (moved rfl expired)
  | workerLate here woken => exact Or.inr ⟨_, rfl⟩
  | destroyTests flagged =>
    rw [exitTest_eq] at expired
    exact Or.inl (notifyNoEmpty_anyAt (fun _ => rfl) expired)
  | destroyRetests woken =>
    rw [exitTest_eq] at expired
    exact Or.inl expired
  | called | rejects | submitWaits | submitAwakes | submitLate | startCalled | flagged
  | destroyStirred | others | clients => exact Or.inl expired

theorem startNext_unsettled (next : StartStep p q) : ¬ startSettled p := by
  cases next <;> simp [startSettled, *]

/-- A called destructor finds every start call over and lets none begin. -/
theorem outcome_stopped {a : Action τ χ κ}
    (stopped : p.destroyCall ≠ .notCalled → p.isPoolRunning = false ∧ startSettled p)
    (outcome : Outcome B p a q) :
    q.destroyCall ≠ .notCalled → q.isPoolRunning = false ∧ startSettled q := by
  intro called
  cases outcome with
  | @accepts i c here awake room =>
    have running : (grow (enqueue p ⟨c.task, i⟩)).isPoolRunning = p.isPoolRunning := by
      unfold grow
      split <;> rfl
    obtain ⟨_, _, start, destroy, _, _⟩ := grow_same (enqueue p ⟨c.task, i⟩)
    obtain ⟨off, settled⟩ := stopped fun not => called (destroy.trans not)
    have settled' : startSettled (grow (enqueue p ⟨c.task, i⟩)) := by
      unfold startSettled
      rw [start]
      exact settled
    exact ⟨running.trans off, settled'⟩
  | startCalled n settled standing => exact absurd standing called
  | flagged settled standing => exact ⟨rfl, settled⟩
  | starts next =>
    -- a statement of start is running, so the destructor has not been called
    have running := startNext_unsettled next
    cases next <;> exact absurd (stopped called).2 running
  | @takes w idleLong worker e rest here awake queue =>
    obtain ⟨_, _, _, _, _, start, destroy, running, _, _⟩ := takeTask_same B p w worker e rest
    rw [destroy] at called
    rw [startSettled, running, start]
    exact stopped called
  | exits here awake empty off =>
    apply stopped
    intro not
    exact called (congrArg DestroyPc.wake not)
  | destroyTests flagged =>
    have before := stopped (by simp [flagged])
    rw [exitTest_eq]
    exact before
  | destroyRetests woken =>
    have before := stopped (by simp [woken])
    rw [exitTest_eq]
    exact before
  | destroyStirred blocked => exact stopped (by simp [blocked])
  | called | rejects | submitWaits | submitAwakes | submitLate | waits | retires | workerAwakes
  | workerLate | execs | finishes | idles | others | clients => exact stopped called

end ThreadPool
