import ServerPools.Threads.TaskResult
import Mathlib.Data.List.Count

/- One Result with the calls of get on it, apart from all others. The steps of a worker, of
   the constructor and of the clients are steps of one such view. -/
namespace TaskResult
open ThreadPool
variable {τ α : Type}

structure View (α : Type) where
  object : Option (Result α)
  produced : Option (Any α)
  gets : List (GetPc α)

/-- The call of get, when it is one on the Result i. -/
def Get.on (i : Nat) (g : Get α) : Option (GetPc α) := if g.result = i then some g.pc else none

def Side.view (s : Side τ α) (i : Nat) : View α := ⟨s.objects i, s.produced i, s.gets.filterMap (Get.on i)⟩

/-- A call of get that is past the semaphore. -/
def GetPc.passed : GetPc α → Bool
  | .acquired | .returned _ => true
  | _ => false

/-- No Result was constructed. -/
structure View.Unborn (v : View α) : Prop where
  object : v.object = none
  produced : v.produced = none
  gets : v.gets = []

/-- The Result of a rejected submission. -/
structure View.Refused (v : View α) : Prop where
  object : ∃ r, v.object = some r ∧ r.isValid = false
  produced : v.produced = none
  gets : ∀ pc ∈ v.gets, pc = .entering ∨ pc = .returned none

/-- The Result of an accepted submission before the post. -/
structure View.Filled (any : Any α) (setVals : Nat) (produced : Option (Any α)) (v : View α) :
    Prop where
  object : v.object = some ⟨any, .new 0, true, true, setVals⟩
  produced : v.produced = produced
  gets : ∀ pc ∈ v.gets, pc.passed = false

/-- The Result r after the post of the value that run() returned: one get passes. -/
structure View.Posted (r : Result α) (value : Any α) (v : View α) : Prop where
  object : v.object = some r
  produced : v.produced = some value
  valid : r.isValid = true
  once : r.setVals = 1
  exit : r.sem.isExit = !r.live
  spent : v.gets.countP GetPc.passed + r.sem.resLimit = 1
  nonneg : 0 ≤ r.sem.resLimit
  kept : 0 < r.sem.resLimit → r.any = value
  acquired : .acquired ∈ v.gets → r.any = value
  returned : ∀ any, .returned any ∈ v.gets → any = value
  left : r.live = false → ∀ pc ∈ v.gets, pc.active = false

def View.Done (v : View α) : Prop := ∃ r value, v.Posted r value

/-- One step of Result::get on its object. -/
inductive GetStep : Result α → GetPc α → Result α → GetPc α → Prop where
  | refused {r : Result α} (invalid : r.isValid = false) : GetStep r .entering r (.returned none)
  | exited {r : Result α} (valid : r.isValid = true) (exit : r.sem.isExit = true) :
      GetStep r .entering r .acquired
  | acquires {r : Result α} {pc : GetPc α} (at_wait : pc = .entering ∧ r.isValid = true ∨ pc = .woken)
      (free : 0 < r.sem.resLimit) :
      GetStep r pc { r with sem := { r.sem with resLimit := r.sem.resLimit - 1 } } .acquired
  | blocks {r : Result α} {pc : GetPc α} (at_wait : pc = .entering ∧ r.isValid = true ∨ pc = .woken)
      (taken : ¬ 0 < r.sem.resLimit) : GetStep r pc r .blocked
  | takes {r : Result α} : GetStep r .acquired { r with any := none } (.returned r.any)

/-- One step of the clients on the Result i. -/
inductive ViewMove (i : Nat) (v v' : View α) : ClientAction → Prop where
  | called {r : Result α} (object : v.object = some r) (live : r.live = true)
      (after : v' = { v with gets := v.gets ++ [.entering] }) : ViewMove i v v' (.get i)
  | moved {k : ClientAction} {r r' : Result α} {pc pc' : GetPc α} {rest : List (GetPc α)}
      (object : v.object = some r) (taken : GetStep r pc r' pc')
      (before : v.gets.Perm (pc :: rest)) (object' : v'.object = some r')
      (produced' : v'.produced = v.produced) (after : v'.gets.Perm (pc' :: rest)) :
      ViewMove i v v' k
  | stirred {k : ClientAction} {rest : List (GetPc α)} (object' : v'.object = v.object)
      (produced' : v'.produced = v.produced) (before : v.gets.Perm (.blocked :: rest))
      (after : v'.gets.Perm (.woken :: rest)) : ViewMove i v v' k
  | dropped {r : Result α} (object : v.object = some r) (live : r.live = true)
      (idle : ∀ pc ∈ v.gets, pc.active = false)
      (after : v' = { v with object := some { r with
        live := false, sem := { r.sem with isExit := true } } }) : ViewMove i v v' (.drop i)

/-- Every call stays as required when one of them goes to a required place. -/
theorem forall_replaced {P : GetPc α → Prop} {gets gets' rest : List (GetPc α)} {pc pc' : GetPc α}
    (all : ∀ other ∈ gets, P other) (before : gets.Perm (pc :: rest))
    (after : gets'.Perm (pc' :: rest)) (new : P pc') : ∀ other ∈ gets', P other := by
  intro other member
  rcases List.mem_cons.mp (after.mem_iff.mp member) with rfl | old
  · exact new
  · exact all other (before.mem_iff.mpr (List.mem_cons_of_mem _ old))

section Moves
variable {i : Nat} {v v' : View α} {k : ClientAction}

theorem unborn_move (unborn : v.Unborn) (move : ViewMove i v v' k) : False := by
  have absent := unborn.object
  cases move with
  | called object | moved object | dropped object => simp [absent] at object
  | stirred object' produced' before after => simp [unborn.gets] at before

theorem refused_move (refused : v.Refused) (move : ViewMove i v v' k) : v'.Refused := by
  obtain ⟨r, present, invalid⟩ := refused.object
  cases move with
  | called object live after =>
    subst after
    refine ⟨⟨r, present, invalid⟩, refused.produced, ?_⟩
    intro pc member
    rcases List.mem_append.mp member with old | new
    · exact refused.gets pc old
    · exact Or.inl (List.mem_singleton.mp new)
  | @moved k r₀ r' pc pc' rest object taken before object' produced' after =>
    obtain rfl : r = r₀ := Option.some.inj (present.symm.trans object)
    have here := refused.gets pc (before.mem_iff.mpr (List.mem_cons_self ..))
    cases taken with
    | refused invalid' =>
      exact ⟨⟨r, object', invalid⟩, produced'.trans refused.produced,
        forall_replaced refused.gets before after (Or.inr rfl)⟩
    | exited valid exit => simp [invalid] at valid
    | acquires at_wait free =>
      rcases at_wait with ⟨_, valid⟩ | rfl
      · simp [invalid] at valid
      · simp at here
    | blocks at_wait taken =>
      rcases at_wait with ⟨_, valid⟩ | rfl
      · simp [invalid] at valid
      · simp at here
    | takes => simp at here
  | stirred object' produced' before after =>
    have here := refused.gets _ (before.mem_iff.mpr (List.mem_cons_self ..))
    simp at here
  | @dropped r₀ object live idle after =>
    obtain rfl : r = r₀ := Option.some.inj (present.symm.trans object)
    subst after
    exact ⟨⟨_, rfl, invalid⟩, refused.produced, refused.gets⟩

theorem filled_move {any : Any α} {setVals : Nat} {produced : Option (Any α)}
    (filled : v.Filled any setVals produced) (move : ViewMove i v v' k) (kept : k ≠ .drop i) :
    v'.Filled any setVals produced := by
  have present := filled.object
  cases move with
  | called object live after =>
    subst after
    refine ⟨present, filled.produced, ?_⟩
    intro pc member
    rcases List.mem_append.mp member with old | new
    · exact filled.gets pc old
    · rw [List.mem_singleton.mp new]
      rfl
  | @moved k r r' pc pc' rest object taken before object' produced' after =>
    obtain rfl : ⟨any, .new 0, true, true, setVals⟩ = r := Option.some.inj (present.symm.trans object)
    have here := filled.gets pc (before.mem_iff.mpr (List.mem_cons_self ..))
    have kept := produced'.trans filled.produced
    cases taken with
    | refused invalid => simp at invalid
    | exited valid exit => simp [Semaphore.new] at exit
    | acquires at_wait free => simp [Semaphore.new] at free
    | blocks at_wait taken => exact ⟨object', kept, forall_replaced filled.gets before after rfl⟩
    | takes => simp [GetPc.passed] at here
  | stirred object' produced' before after =>
    exact ⟨object'.trans present, produced'.trans filled.produced,
      forall_replaced filled.gets before after rfl⟩
  | dropped => exact absurd rfl kept

/-- A call that waits before and after a step leaves the posted Result as it is. -/
theorem posted_waits {r : Result α} {value : Any α} {pc pc' : GetPc α} {rest : List (GetPc α)}
    (posted : v.Posted r value) (before : v.gets.Perm (pc :: rest)) (object' : v'.object = some r)
    (produced' : v'.produced = v.produced) (after : v'.gets.Perm (pc' :: rest))
    (waits : pc.passed = false) (waits' : pc'.passed = false) (active : pc.active) :
    v'.Posted r value := by
  have older {other : GetPc α} (member : other ∈ v'.gets) (past : other.passed) : other ∈ v.gets := by
    rcases List.mem_cons.mp (after.mem_iff.mp member) with rfl | old
    · simp [waits'] at past
    · exact before.mem_iff.mpr (List.mem_cons_of_mem _ old)
  have spent := posted.spent
  rw [before.countP_eq, List.countP_cons_of_neg (by simp [waits])] at spent
  refine ⟨object', produced'.trans posted.produced, posted.valid, posted.once, posted.exit, ?_,
    posted.nonneg, posted.kept, ?_, ?_, ?_⟩
  · rw [after.countP_eq, List.countP_cons_of_neg (by simp [waits'])]
    exact spent
  · intro member
    exact posted.acquired (older member rfl)
  · intro any member
    exact posted.returned any (older member rfl)
  · intro gone
    have idle := posted.left gone pc (before.mem_iff.mpr (List.mem_cons_self ..))
    simp [active] at idle

/-- The one get that passes takes the value; the calls that come after it wait. -/
theorem posted_step {r r' : Result α} {value : Any α} {pc pc' : GetPc α} {rest : List (GetPc α)}
    (posted : v.Posted r value) (taken : GetStep r pc r' pc') (before : v.gets.Perm (pc :: rest))
    (object' : v'.object = some r') (produced' : v'.produced = v.produced)
    (after : v'.gets.Perm (pc' :: rest)) : v'.Posted r' value := by
  have here : pc ∈ v.gets := before.mem_iff.mpr (List.mem_cons_self ..)
  have older (other : GetPc α) (member : other ∈ rest) : other ∈ v.gets :=
    before.mem_iff.mpr (List.mem_cons_of_mem _ member)
  have present : v'.produced = some value := produced'.trans posted.produced
  have nonneg := posted.nonneg
  cases taken with
  | refused invalid => simp [posted.valid] at invalid
  | exited valid exit =>
    have gone : r.live = false := by simpa [posted.exit] using exit
    simpa [GetPc.active] using posted.left gone _ here
  | acquires at_wait free =>
    have waits : pc.passed = false ∧ pc.active = true := by
      rcases at_wait with ⟨rfl, _⟩ | rfl <;> exact ⟨rfl, rfl⟩
    have spent := posted.spent
    rw [before.countP_eq, List.countP_cons_of_neg (by simp [waits.1])] at spent
    refine ⟨object', present, posted.valid, posted.once, posted.exit, ?_, ?_, ?_, ?_, ?_, ?_⟩
    · rw [after.countP_eq, List.countP_cons_of_pos rfl]
      change ((rest.countP GetPc.passed + 1 : Nat) : Int) + (r.sem.resLimit - 1) = 1
      omega
    · change 0 ≤ r.sem.resLimit - 1
      omega
    · intro _
      exact posted.kept free
    · intro _
      exact posted.kept free
    · intro any member
      rcases List.mem_cons.mp (after.mem_iff.mp member) with first | old
      · simp at first
      · exact posted.returned any (older _ old)
    · intro gone
      have idle := posted.left gone pc here
      simp [waits.2] at idle
  | blocks at_wait taken =>
    have waits : pc.passed = false ∧ pc.active = true := by
      rcases at_wait with ⟨rfl, _⟩ | rfl <;> exact ⟨rfl, rfl⟩
    exact posted_waits posted before object' produced' after waits.1 rfl waits.2
  | takes =>
    have value_here := posted.acquired here
    have spent := posted.spent
    rw [before.countP_eq, List.countP_cons_of_pos rfl] at spent
    -- the semaphore was posted once, so no other call is past it
    have alone : ∀ other ∈ rest, other.passed = false := by
      have none_else : rest.countP GetPc.passed = 0 := by omega
      intro other member
      simpa using List.countP_eq_zero.mp none_else other member
    refine ⟨object', present, posted.valid, posted.once, posted.exit, ?_, nonneg, ?_, ?_, ?_, ?_⟩
    · rw [after.countP_eq, List.countP_cons_of_pos rfl]
      exact spent
    · intro free
      change 0 < r.sem.resLimit at free
      omega
    · intro member
      rcases List.mem_cons.mp (after.mem_iff.mp member) with first | old
      · simp at first
      · simpa [GetPc.passed] using alone _ old
    · intro any member
      rcases List.mem_cons.mp (after.mem_iff.mp member) with first | old
      · cases first
        exact value_here
      · simpa [GetPc.passed] using alone _ old
    · intro gone
      have idle := posted.left gone _ here
      simp [GetPc.active] at idle

theorem done_move (done : v.Done) (move : ViewMove i v v' k) : v'.Done := by
  obtain ⟨r, value, posted⟩ := done
  have present := posted.object
  cases move with
  | @called r₀ object live after =>
    obtain rfl : r = r₀ := Option.some.inj (present.symm.trans object)
    subst after
    refine ⟨r, value, present, posted.produced, posted.valid, posted.once, posted.exit, ?_,
      posted.nonneg, posted.kept, ?_, ?_, ?_⟩
    · have spent := posted.spent
      simpa [List.countP_append, GetPc.passed] using spent
    · intro member
      exact posted.acquired (by simpa using member)
    · intro any member
      exact posted.returned any (by simpa using member)
    · intro gone
      simp [live] at gone
  | @moved k r₀ r' pc pc' rest object taken before object' produced' after =>
    obtain rfl : r = r₀ := Option.some.inj (present.symm.trans object)
    exact ⟨r', value, posted_step posted taken before object' produced' after⟩
  | stirred object' produced' before after =>
    exact ⟨r, value, posted_waits posted before (object'.trans present) produced' after rfl rfl rfl⟩
  | @dropped r₀ object live idle after =>
    obtain rfl : r = r₀ := Option.some.inj (present.symm.trans object)
    subst after
    exact ⟨_, value, rfl, posted.produced, posted.valid, posted.once, rfl, posted.spent,
      posted.nonneg, posted.kept, posted.acquired, posted.returned, fun _ => idle⟩

end Moves

section Side
variable {s s' : Side τ α} {i j : Nat}

theorem setObject_view (s : Side τ α) (i : Nat) (r : Result α) (other : j ≠ i) :
    (setObject s i r).view j = s.view j := by
  simp [Side.view, setObject, Function.update_of_ne other]

@[simp] theorem setObject_object (s : Side τ α) (i : Nat) (r : Result α) :
    (setObject s i r).objects i = some r := by
  simp [setObject]

/-- One call of get goes elsewhere; the other Results do not see it. -/
theorem setGet_view {g : Nat} {get : Get α} {pc' : GetPc α} (here : s.gets[g]? = some get) :
    (∀ j ≠ get.result, (setGet s g get pc').view j = s.view j) ∧
      ∃ rest, (s.view get.result).gets.Perm (get.pc :: rest) ∧
        ((setGet s g get pc').view get.result).gets.Perm (pc' :: rest) := by
  constructor
  · intro j other
    have away : Get.on j { get with pc := pc' } = Get.on j get := by
      simp [Get.on, Ne.symm other]
    have same := Agents.filterMap_set_same here away
    simp only [Side.view, setGet, same]
  · obtain ⟨rest, before, after⟩ := Agents.single_out here
    have own (pc : GetPc α) : Get.on get.result { get with pc := pc } = some pc := if_pos rfl
    have first := before.filterMap (Get.on get.result)
    rw [List.filterMap_cons, own get.pc] at first
    have second := (after { get with pc := pc' }).filterMap (Get.on get.result)
    rw [List.filterMap_cons, own pc'] at second
    exact ⟨_, first, second⟩

theorem setGet_moved {s₁ : Side τ α} {g : Nat} {get : Get α} {r r' : Result α} {pc' : GetPc α}
    {k : ClientAction} (here : s.gets[g]? = some get) (object : s.objects get.result = some r)
    (gets : s₁.gets = s.gets) (produced : s₁.produced = s.produced)
    (others : ∀ j ≠ get.result, s₁.objects j = s.objects j)
    (object' : s₁.objects get.result = some r') (taken : GetStep r get.pc r' pc') :
    (∀ j ≠ get.result, (setGet s₁ g get pc').view j = s.view j) ∧
      ViewMove get.result (s.view get.result) ((setGet s₁ g get pc').view get.result) k := by
  obtain ⟨away, rest, before, after⟩ := setGet_view (gets ▸ here : s₁.gets[g]? = some get)
  constructor
  · intro j other
    rw [away j other]
    simp only [Side.view, others j other, produced, gets]
  · have first : (s.view get.result).gets.Perm (get.pc :: rest) := by
      simpa only [Side.view, gets] using before
    exact .moved object taken first object' (congrFun produced _) after

theorem semWait_moved {g : Nat} {get : Get α} {r : Result α} {k : ClientAction}
    (here : s.gets[g]? = some get) (object : s.objects get.result = some r)
    (at_wait : get.pc = .entering ∧ r.isValid = true ∨ get.pc = .woken) :
    (∀ j ≠ get.result, (semWait s g get r).view j = s.view j) ∧
      ViewMove get.result (s.view get.result) ((semWait s g get r).view get.result) k := by
  unfold semWait
  split
  · rename_i free
    refine setGet_moved here object rfl rfl ?_ (setObject_object _ _ _) (.acquires at_wait free)
    intro j other
    simp [setObject, Function.update_of_ne other]
  · rename_i taken
    exact setGet_moved here object rfl rfl (fun _ _ => rfl) object (.blocks at_wait taken)

theorem getNext_moved {g : Nat} {k : ClientAction} (taken : getNext s g = some s') :
    s'.result = s.result ∧ ∃ i, (∀ j ≠ i, s'.view j = s.view j) ∧ ViewMove i (s.view i) (s'.view i) k := by
  unfold getNext at taken
  split at taken
  · contradiction
  · rename_i get here
    split at taken
    · contradiction
    · rename_i r object
      split at taken <;> rename_i pc
      · split at taken
        · rename_i valid
          split at taken <;> cases taken
          · rename_i exit
            refine ⟨rfl, get.result, setGet_moved here object rfl rfl (fun _ _ => rfl) object ?_⟩
            rw [pc]
            exact .exited valid exit
          · refine ⟨?_, get.result, semWait_moved here object (Or.inl ⟨pc, valid⟩)⟩
            unfold semWait
            split <;> rfl
        · rename_i invalid
          cases taken
          refine ⟨rfl, get.result, setGet_moved here object rfl rfl (fun _ _ => rfl) object ?_⟩
          rw [pc]
          exact .refused (by simpa using invalid)
      · cases taken
        refine ⟨?_, get.result, semWait_moved here object (Or.inr pc)⟩
        unfold semWait
        split <;> rfl
      · cases taken
        refine ⟨rfl, get.result, setGet_moved here object rfl rfl ?_ (setObject_object _ _ _) ?_⟩
        · intro j other
          simp [setObject, Function.update_of_ne other]
        · rw [pc]
          exact .takes
      · contradiction

theorem client_moved {k : ClientAction} (taken : client s k = some s') :
    s'.result = s.result ∧ ∃ i, (∀ j ≠ i, s'.view j = s.view j) ∧ ViewMove i (s.view i) (s'.view i) k := by
  cases k with
  | get i =>
    simp only [client] at taken
    split at taken
    · contradiction
    · rename_i r object
      split at taken
      · rename_i live
        cases taken
        refine ⟨rfl, i, ?_, .called object live ?_⟩
        · intro j other
          simp [Side.view, Get.on, Ne.symm other]
        · simp [Side.view, Get.on]
      · contradiction
  | getNext g => exact getNext_moved taken
  | getStir g =>
    simp only [client] at taken
    split at taken
    · contradiction
    · rename_i get here
      split at taken
      · rename_i blocked
        cases taken
        obtain ⟨away, rest, before, after⟩ := setGet_view here
        have pc : get.pc = .blocked := by
          cases at_pc : get.pc <;> simp_all
        exact ⟨rfl, get.result, away, .stirred rfl rfl (pc ▸ before) after⟩
      · contradiction
  | drop i =>
    simp only [client] at taken
    split at taken
    · contradiction
    · rename_i r object
      split at taken
      · rename_i free
        obtain ⟨live, idle⟩ := free
        cases taken
        refine ⟨rfl, i, fun j other => setObject_view s i _ other, .dropped object live ?_ ?_⟩
        · intro pc member
          obtain ⟨g, inside, own⟩ := List.mem_filterMap.mp member
          simp only [Get.on, Option.ite_none_right_eq_some, Option.some.injEq] at own
          exact own.2 ▸ idle g inside own.1
        · simp [Side.view, setObject]
      · contradiction

theorem construct_view (s : Side τ α) (isValid : Bool) (i : Nat) (task : τ) [DecidableEq τ] :
    (construct isValid s i task).view i =
      { s.view i with object := some ⟨none, .new 0, isValid, true, 0⟩ } := by
  simp [Side.view, construct, setResult, setObject]

theorem construct_others (s : Side τ α) (isValid : Bool) (i : Nat) (task : τ) [DecidableEq τ]
    (other : j ≠ i) : (construct isValid s i task).view j = s.view j :=
  setObject_view s i _ other

/-- Where the Result of the submission i is while its task is at this stage. -/
def View.Staged (v : View α) (i : Nat) : Stage α → Prop
  | .test | .load => v.Filled none 0 none
  | .runTask k => k = i ∧ v.Filled none 0 none
  | .store k any => k = i ∧ v.Filled none 0 (some any)
  | .post k => k = i ∧ ∃ value, v.Filled value 1 (some value)

theorem staged_move {v v' : View α} {k : ClientAction} {stage : Stage α} (staged : v.Staged i stage)
    (move : ViewMove i v v' k) (kept : k ≠ .drop i) : v'.Staged i stage := by
  cases stage with
  | test | load => exact filled_move staged move kept
  | runTask | store => exact ⟨staged.1, filled_move staged.2 move kept⟩
  | post n =>
    obtain ⟨same, value, filled⟩ := staged
    exact ⟨same, value, filled_move filled move kept⟩

/-- Until the post no get passes, and setVal has been called at most once. -/
theorem staged_waits {v : View α} {stage : Stage α} (staged : v.Staged i stage) :
    ∃ any setVals produced, setVals ≤ 1 ∧ v.Filled any setVals produced := by
  cases stage with
  | test | load => exact ⟨_, _, _, Nat.zero_le 1, staged⟩
  | runTask | store => exact ⟨_, _, _, Nat.zero_le 1, staged.2⟩
  | post n =>
    obtain ⟨_, value, filled⟩ := staged
    exact ⟨_, _, _, Nat.le_refl 1, filled⟩

theorem wake_on (g : Get α) (other : j ≠ i) : Get.on j (Get.wake i g) = Get.on j g := by
  rcases g with ⟨result, pc⟩
  by_cases same : result = i
  · subst same
    cases pc <;> simp [Get.wake, Get.on, Ne.symm other]
  · cases pc <;> simp [Get.wake, same]

def GetPc.wake : GetPc α → GetPc α
  | .blocked => .woken
  | pc => pc

theorem wake_passed (pc : GetPc α) : pc.wake.passed = pc.passed := by
  cases pc <;> rfl

theorem wake_own (g : Get α) : Get.on i (Get.wake i g) = (Get.on i g).map GetPc.wake := by
  rcases g with ⟨result, pc⟩
  by_cases same : result = i
  · subst same
    cases pc <;> simp [Get.wake, Get.on, GetPc.wake]
  · cases pc <;> simp [Get.wake, Get.on, same]

/-- The post raises the semaphore and wakes the gets of its own Result. -/
theorem post_view {r : Result α} (object : s.objects i = some r) (still : r.sem.isExit = false)
    (taken : post s i = some s') : s'.result = s.result ∧ (∀ j ≠ i, s'.view j = s.view j) ∧
      s'.view i = { s.view i with
        object := some { r with sem := { r.sem with resLimit := r.sem.resLimit + 1 } }
        gets := (s.view i).gets.map GetPc.wake } := by
  simp only [post, object, still, Bool.false_eq_true, if_false] at taken
  cases taken
  refine ⟨rfl, fun j other => ?_, ?_⟩
  · have same : (s.gets.map (Get.wake i)).filterMap (Get.on j) = s.gets.filterMap (Get.on j) := by
      rw [List.filterMap_map]
      exact List.filterMap_congr fun g _ => wake_on g other
    simp [Side.view, setObject, Function.update_of_ne other, same]
  · have own : (s.gets.map (Get.wake i)).filterMap (Get.on i) =
        (s.gets.filterMap (Get.on i)).map GetPc.wake := by
      rw [List.filterMap_map, List.map_filterMap]
      exact List.filterMap_congr fun g _ => wake_own g
    simp [Side.view, setObject, own, still]

/-- The post makes room for one get and keeps the stored value. -/
theorem post_done {value : Any α} (filled : (s.view i).Filled value 1 (some value))
    (taken : post s i = some s') :
    s'.result = s.result ∧ (∀ j ≠ i, s'.view j = s.view j) ∧ (s'.view i).Done := by
  obtain ⟨result, others, own⟩ := post_view filled.object rfl taken
  have waits : ∀ pc ∈ (s.view i).gets.map GetPc.wake, pc.passed = false :=
    Agents.forall_map fun pc member => (wake_passed pc).trans (filled.gets pc member)
  refine ⟨result, others, ⟨value, ⟨1, false⟩, true, true, 1⟩, value, ?_⟩
  rw [own]
  refine ⟨rfl, filled.produced, rfl, rfl, rfl, ?_, Int.one_nonneg, fun _ => rfl, fun _ => rfl, ?_,
    by simp⟩
  · have none_past : ((s.view i).gets.map GetPc.wake).countP GetPc.passed = 0 := by
      rw [List.countP_eq_zero]
      intro pc member
      simp [waits pc member]
    change (((s.view i).gets.map GetPc.wake).countP GetPc.passed : Int) + 1 = 1
    omega
  · intro any member
    simpa [GetPc.passed] using waits _ member

/-- One step of Task::exec on the Result it points to. -/
theorem exec_staged {e : Entry τ} {stage : Stage α} {value : Any α} {next : Option (Stage α)}
    (pointed : s.result e.task = some e.sub) (staged : (s.view e.sub).Staged e.sub stage)
    (taken : exec s e stage value = some (s', next)) :
    s'.result = s.result ∧ (∀ j ≠ e.sub, s'.view j = s.view j) ∧
      match next with
      | some later => (s'.view e.sub).Staged e.sub later
      | none => (s'.view e.sub).Done := by
  cases stage with
  | test =>
    simp only [exec, pointed] at taken
    cases taken
    exact ⟨rfl, fun _ _ => rfl, staged⟩
  | load =>
    simp only [exec, pointed] at taken
    cases taken
    exact ⟨rfl, fun _ _ => rfl, rfl, staged⟩
  | runTask k =>
    obtain ⟨rfl, filled⟩ := staged
    cases taken
    refine ⟨rfl, ?_, rfl, filled.object, ?_, filled.gets⟩
    · intro j other
      simp [Side.view, Function.update_of_ne other]
    · simp [Side.view]
  | store k any =>
    obtain ⟨rfl, filled⟩ := staged
    have object : s.objects e.sub = some ⟨none, .new 0, true, true, 0⟩ := filled.object
    simp only [exec, object] at taken
    cases taken
    refine ⟨rfl, fun j other => setObject_view s _ _ other, rfl, any, ?_, filled.produced, filled.gets⟩
    exact setObject_object s _ _
  | post k =>
    obtain ⟨rfl, any, filled⟩ := staged
    obtain ⟨after, posted, same⟩ := Option.map_eq_some_iff.mp taken
    cases same
    exact post_done filled posted

/-- Task::exec never comes to a null pointer or to an object that does not exist. -/
theorem exec_defined {e : Entry τ} {stage : Stage α} (value : Any α)
    (pointed : s.result e.task = some e.sub) (staged : (s.view e.sub).Staged e.sub stage) :
    exec s e stage value ≠ none := by
  cases stage with
  | test | load => simp [exec, pointed]
  | runTask k => simp [exec]
  | store k any =>
    obtain ⟨rfl, filled⟩ := staged
    have object : s.objects e.sub = some ⟨none, .new 0, true, true, 0⟩ := filled.object
    simp [exec, object]
  | post k =>
    obtain ⟨rfl, any, filled⟩ := staged
    have object : s.objects e.sub = some ⟨any, .new 0, true, true, 1⟩ := filled.object
    simp [exec, post, object, Semaphore.new]

end Side

end TaskResult
