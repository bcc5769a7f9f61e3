import ServerPools.Threads.TaskResult

/- The Semaphore of threadpool.h by itself, for any number of calls. A step is the test of
   isExit, or one critical section under mtx from taking the lock to the wait or the return. -/
namespace TaskResult.Semaphore

/-- Where a call of wait or post is. blocked is a wait on cond that has been neither notified
    nor stirred; dismissed is the return that isExit causes. -/
inductive CallPc where
  | waitCalled
  | waitLocking
  | blocked
  | woken
  | waited
  | postCalled
  | postLocking
  | posted
  | dismissed
  deriving DecidableEq, Repr

structure Calls where
  sem : Semaphore
  calls : List CallPc
  deriving DecidableEq, Repr

def construct (limit : Int) : Calls := ⟨.new limit, []⟩

def CallPc.wake : CallPc → CallPc
  | .blocked => .woken
  | pc => pc

def setCall (s : Calls) (i : Nat) (pc : CallPc) : Calls := { s with calls := s.calls.set i pc }

/-- The test of isExit at the head of both functions. -/
def check (s : Calls) (i : Nat) : Option Calls :=
  match s.calls[i]? with
  | some .waitCalled => some (setCall s i (if s.sem.isExit then .dismissed else .waitLocking))
  | some .postCalled => some (setCall s i (if s.sem.isExit then .dismissed else .postLocking))
  | _ => none

/-- wait with the lock held, up to the wait on cond or the return. -/
def wait (s : Calls) (i : Nat) : Option Calls :=
  match s.calls[i]? with
  | some .waitLocking | some .woken =>
    if 0 < s.sem.resLimit then
      some (setCall { s with sem := { s.sem with resLimit := s.sem.resLimit - 1 } } i .waited)
    else some (setCall s i .blocked)
  | _ => none

/-- post with the lock held: the increment and notify_all. -/
def post (s : Calls) (i : Nat) : Option Calls :=
  match s.calls[i]? with
  | some .postLocking =>
    let raised := { s.sem with resLimit := s.sem.resLimit + 1 }
    some (setCall ⟨raised, s.calls.map CallPc.wake⟩ i .posted)
  | _ => none

/-- A spurious wake-up. -/
def stir (s : Calls) (i : Nat) : Option Calls :=
  match s.calls[i]? with
  | some .blocked => some (setCall s i .woken)
  | _ => none

inductive Action where
  | callWait
  | callPost
  | check (i : Nat)
  | wait (i : Nat)
  | post (i : Nat)
  | stir (i : Nat)
  | destroy
  deriving DecidableEq, Repr

def step (s : Calls) : Action → Option Calls
  | .callWait => some { s with calls := s.calls ++ [.waitCalled] }
  | .callPost => some { s with calls := s.calls ++ [.postCalled] }
  | .check i => check s i
  | .wait i => wait s i
  | .post i => post s i
  | .stir i => stir s i
  | .destroy => some { s with sem := { s.sem with isExit := true } }

/-- The semaphore is not destroyed. -/
def Kept (_ : Calls) (a : Action) : Prop := a ≠ .destroy

instance (s : Calls) (a : Action) : Decidable (Kept s a) := inferInstanceAs (Decidable (a ≠ _))

/-- A place of a call before the critical section that counts it. -/
def CallPc.open : CallPc → Bool
  | .waitCalled | .waitLocking | .woken | .postCalled | .postLocking => true
  | _ => false

/-- All that a step does to the count and the calls. -/
inductive Move (s : Calls) : Calls → Prop where
  | called (pc : CallPc) (fresh : pc.open) : Move s { s with calls := s.calls ++ [pc] }
  | moves {i : Nat} {pc next : CallPc} (here : s.calls[i]? = some pc)
      (before : pc.open ∨ pc = .blocked) (after : next.open ∨ next = .dismissed) :
      Move s (setCall s i next)
  | acquires {i : Nat} {pc : CallPc} (here : s.calls[i]? = some pc) (before : pc.open)
      (available : 0 < s.sem.resLimit) :
      Move s (setCall { s with sem := { s.sem with resLimit := s.sem.resLimit - 1 } } i .waited)
  | blocks {i : Nat} {pc : CallPc} (here : s.calls[i]? = some pc) (before : pc.open)
      (exhausted : s.sem.resLimit ≤ 0) : Move s (setCall s i .blocked)
  | posts {i : Nat} (here : s.calls[i]? = some .postLocking) :
      Move s (setCall ⟨{ s.sem with resLimit := s.sem.resLimit + 1 }, s.calls.map CallPc.wake⟩ i
        .posted)
  | destroys : Move s { s with sem := { s.sem with isExit := true } }

variable {s t : Calls} {a : Action} {i : Nat}

theorem wait_move (taken : wait s i = some t) : Move s t := by
  have section_ {pc : CallPc} (here : s.calls[i]? = some pc) (before : pc.open)
      (taken : (if 0 < s.sem.resLimit then
        some (setCall { s with sem := { s.sem with resLimit := s.sem.resLimit - 1 } } i .waited)
        else some (setCall s i .blocked)) = some t) : Move s t := by
    split at taken <;> cases taken
    · rename_i available
      exact .acquires here before available
    · rename_i exhausted
      exact .blocks here before (Int.not_lt.mp exhausted)
  unfold wait at taken
  split at taken
  · rename_i here
    exact section_ here rfl taken
  · rename_i here
    exact section_ here rfl taken
  · contradiction

theorem check_move (taken : check s i = some t) : Move s t := by
  unfold check at taken
  split at taken
  · rename_i here
    cases taken
    apply Move.moves here (Or.inl rfl)
    cases s.sem.isExit <;> simp [CallPc.open]
  · rename_i here
    cases taken
    apply Move.moves here (Or.inl rfl)
    cases s.sem.isExit <;> simp [CallPc.open]
  · contradiction

theorem step_move (taken : step s a = some t) : Move s t := by
  cases a with
  | callWait =>
    cases taken
    exact .called _ rfl
  | callPost =>
    cases taken
    exact .called _ rfl
  | check i => exact check_move taken
  | wait i => exact wait_move taken
  | post i =>
    simp only [step, post] at taken
    split at taken
    · rename_i here
      cases taken
      exact .posts here
    · contradiction
  | stir i =>
    simp only [step, stir] at taken
    split at taken
    · rename_i here
      cases taken
      exact .moves here (Or.inr rfl) (Or.inl rfl)
    · contradiction
  | destroy =>
    cases taken
    exact .destroys

def CallPc.isPosted : CallPc → Bool
  | .posted => true
  | _ => false

def CallPc.isWaited : CallPc → Bool
  | .waited => true
  | _ => false

/-- The calls that have completed. -/
def Calls.posts (s : Calls) : Nat := s.calls.countP CallPc.isPosted
def Calls.waits (s : Calls) : Nat := s.calls.countP CallPc.isWaited

/-- The count is what the completed calls leave of the limit, and a count above zero leaves
    nobody blocked. -/
structure Conserved (limit : Int) (s : Calls) : Prop where
  count : s.sem.resLimit = limit + s.posts - s.waits
  nonneg : 0 ≤ s.sem.resLimit
  noneBlocked : 0 < s.sem.resLimit → CallPc.blocked ∉ s.calls

theorem wake_counts (calls : List CallPc) :
    (calls.map CallPc.wake).countP CallPc.isPosted = calls.countP CallPc.isPosted ∧
      (calls.map CallPc.wake).countP CallPc.isWaited = calls.countP CallPc.isWaited := by
  constructor <;> rw [List.countP_map] <;> apply List.countP_congr <;> intro pc _ <;> cases pc <;>
    simp [CallPc.wake, CallPc.isPosted, CallPc.isWaited]

theorem wake_none_blocked (calls : List CallPc) : CallPc.blocked ∉ calls.map CallPc.wake := by
  intro member
  obtain ⟨pc, _, same⟩ := List.mem_map.mp member
  cases pc <;> simp [CallPc.wake] at same

theorem open_uncounted {pc : CallPc} (before : pc.open) :
    pc.isPosted = false ∧ pc.isWaited = false := by
  revert before
  cases pc <;> decide

/-- The counts of completed calls change with the place of the one call that moves. -/
theorem setCall_counts {pc : CallPc} (here : s.calls[i]? = some pc) (next : CallPc) :
    (setCall s i next).posts + pc.isPosted.toNat = s.posts + next.isPosted.toNat ∧
      (setCall s i next).waits + pc.isWaited.toNat = s.waits + next.isWaited.toNat :=
  ⟨Agents.countP_set here next, Agents.countP_set here next⟩

/-- A call that has not completed moves, and the count with it. -/
theorem Conserved.moved {limit : Int} {sem : Semaphore} {pc next : CallPc}
    (law : Conserved limit s) (here : s.calls[i]? = some pc) (before : pc.open ∨ pc = .blocked)
    (count : sem.resLimit = s.sem.resLimit + next.isPosted.toNat - next.isWaited.toNat)
    (nonneg : 0 ≤ sem.resLimit)
    (noneBlocked : 0 < sem.resLimit → CallPc.blocked ∉ s.calls.set i next) :
    Conserved limit (setCall { s with sem := sem } i next) := by
  obtain ⟨posts, waits⟩ := setCall_counts (s := { s with sem := sem }) here next
  have uncounted : pc.isPosted = false ∧ pc.isWaited = false := by
    rcases before with open_ | rfl
    · exact open_uncounted open_
    · exact ⟨rfl, rfl⟩
  rw [uncounted.1] at posts
  rw [uncounted.2] at waits
  refine ⟨?_, nonneg, noneBlocked⟩
  have old := law.count
  change sem.resLimit = _
  simp only [Bool.toNat_false, Nat.add_zero] at posts waits
  rw [posts, waits, count, old]
  simp only [Calls.posts, Calls.waits]
  omega

theorem set_none_blocked {calls : List CallPc} {next : CallPc} (none_ : CallPc.blocked ∉ calls)
    (other : next ≠ .blocked) : CallPc.blocked ∉ calls.set i next := by
  intro member
  rcases List.mem_or_eq_of_mem_set member with old | new
  · exact none_ old
  · exact other new.symm

theorem move_conserved {limit : Int} (law : Conserved limit s) (move : Move s t) :
    Conserved limit t := by
  cases move with
  | called pc fresh =>
    have counts := open_uncounted fresh
    have posts : Calls.posts { s with calls := s.calls ++ [pc] } = s.posts := by
      simp [Calls.posts, List.countP_append, counts.1]
    have waits : Calls.waits { s with calls := s.calls ++ [pc] } = s.waits := by
      simp [Calls.waits, List.countP_append, counts.2]
    constructor
    · rw [posts, waits]
      exact law.count
    · exact law.nonneg
    · intro available member
      rcases List.mem_append.mp member with old | new
      · exact law.noneBlocked available old
      · obtain rfl := List.mem_singleton.mp new
        simp [CallPc.open] at fresh
  | @moves i pc next here before after =>
    have counts : next.isPosted = false ∧ next.isWaited = false ∧ next ≠ .blocked := by
      rcases after with open_ | rfl
      · revert open_
        cases next <;> decide
      · decide
    apply law.moved here before
    · simp [counts]
    · exact law.nonneg
    · exact fun available => set_none_blocked (law.noneBlocked available) counts.2.2
  | acquires here before available =>
    apply law.moved here (Or.inl before)
    · simp [CallPc.isPosted, CallPc.isWaited]
    · change 0 ≤ s.sem.resLimit - 1
      omega
    · exact fun _ => set_none_blocked (law.noneBlocked available) (by decide)
  | blocks here before exhausted =>
    apply law.moved here (Or.inl before)
    · simp [CallPc.isPosted, CallPc.isWaited]
    · exact law.nonneg
    · exact fun available => absurd exhausted (Int.not_le.mpr available)
  | @posts i here =>
    -- all are woken first, and the poster is where it was
    have woken : Conserved limit ⟨s.sem, s.calls.map CallPc.wake⟩ := by
      obtain ⟨posts, waits⟩ := wake_counts s.calls
      refine ⟨?_, law.nonneg, fun _ => wake_none_blocked _⟩
      rw [Calls.posts, Calls.waits, posts, waits]
      exact law.count
    have still : (s.calls.map CallPc.wake)[i]? = some .postLocking := by
      rw [List.getElem?_map, here]
      rfl
    apply woken.moved still (Or.inl rfl)
    · simp [CallPc.isPosted, CallPc.isWaited]
    · have old := law.nonneg
      change 0 ≤ s.sem.resLimit + 1
      omega
    · exact fun _ => set_none_blocked (wake_none_blocked _) (by decide)
  | destroys => exact ⟨law.count, law.nonneg, law.noneBlocked⟩

theorem construct_conserved {limit : Int} (nonneg : 0 ≤ limit) : Conserved limit (construct limit) := by
  constructor <;> simp [construct, new, Calls.posts, Calls.waits, nonneg]

theorem run_conserved {limit : Int} (first : Conserved limit (construct limit))
    (reached : Machine.Reach step Kept (construct limit) s) : Conserved limit s :=
  reached.invariant first fun _ law _ taken => move_conserved law (step_move taken)

/-- Between any two steps of any number of calls on a semaphore that is not destroyed. -/
theorem semaphore_conserved {limit : Int} (nonneg : 0 ≤ limit)
    (reached : Machine.Reach step Kept (construct limit) s) : Conserved limit s :=
  run_conserved (construct_conserved nonneg) reached

/-- Two calls of wait block, one post wakes both, and one of them blocks again. -/
def twoWaiters : List Action :=
  [.callWait, .callWait, .callPost, .check 0, .check 1, .wait 0, .wait 1, .check 2, .post 2, .wait 1,
    .wait 0]

theorem semaphore_conserved_two :
    ∃ s, s.calls = [.blocked, .waited, .posted] ∧ Conserved 0 s := by
  have ran : ∃ s ∈ Machine.run step (construct 0) twoWaiters,
      s.calls = [.blocked, .waited, .posted] := by decide +kernel
  obtain ⟨s, ran, calls⟩ := ran
  have obeys : Machine.Obeys step Kept (construct 0) twoWaiters := by decide +kernel
  exact ⟨s, calls, semaphore_conserved (by decide) (Machine.reach_of_run obeys ran)⟩

end TaskResult.Semaphore
