import ServerPools.Memory.Lifecycle

/- What holds in every state of a run: before a pool is made malloc has given out nothing,
   and the heap of a running pool holds a shape. -/
namespace NgxMemPool
open Malloc Records Linked Fuel Machine

variable {s t : State} {shape after : Shape} {a : Action}

structure Unborn (s : State) : Prop where
  phase : s.phase = .unborn
  live : s.heap.live = []
  sound : s.heap.Sound
  leases : s.leases = []
  nodes : s.nodes = []
  aligned : s.aligned = []

theorem unborn_initial : Unborn initial := ⟨rfl, rfl, blank_sound, rfl, rfl, rfl⟩

/-- ngx_create_pool makes a pool or changes nothing that counts. -/
theorem Unborn.create (unborn : Unborn s) {size : Nat} {answers : List Answer}
    (sized : WellSized s (.ngxCreatePool size answers))
    (taken : step s (.ngxCreatePool size answers) = some t) :
    Unborn t ∨ ∃ p, t.phase = .running ∧ Represents t (newShape p size) := by
  have phase := unborn.phase
  simp only [NgxMemPool.step, phase] at taken
  obtain ⟨r, ran, rfl⟩ := Option.map_eq_some_iff.mp taken
  rcases malloc_cases (s.answering answers) size with
    ⟨others, null⟩ | ⟨answer, others, fresh, given⟩
  · rw [ngxCreatePool_fails null] at ran
    obtain rfl := Option.some.inj ran
    exact Or.inl ⟨phase, unborn.live, (unborn.sound.answering answers).answering others,
      unborn.leases, unborn.nodes, unborn.aligned⟩
  · obtain ⟨k, made, fits⟩ := ngxCreatePool_makes (h := s.answering answers) unborn.live
      (unborn.sound.answering answers) (minPoolSize_value ▸ sized.1) sized.2 fresh given
    rw [made] at ran
    obtain rfl := Option.some.inj ran
    have nonzero : answer.base ≠ 0 := Nat.ne_of_gt fresh.2.1
    simp only [State.create, if_neg nonzero]
    refine Or.inr ⟨answer.base, trivial, rfl, fits, rfl, ?_, unborn.nodes, ?_⟩
    · change s.leases.Perm _
      rw [unborn.leases]
      exact List.Perm.refl _
    · change ∀ p ∈ s.aligned, _
      simp [unborn.aligned]

/-- Nothing else comes first. -/
theorem Unborn.step (unborn : Unborn s) (sized : WellSized s a) (taken : step s a = some t) :
    Unborn t ∨ ∃ p size, t.phase = .running ∧ Represents t (newShape p size) := by
  cases a with
  | ngxCreatePool size answers =>
    rcases unborn.create sized taken with still | ⟨p, running, held⟩
    · exact Or.inl still
    · exact Or.inr ⟨p, size, running, held⟩
  | _ => simp [NgxMemPool.step, unborn.phase] at taken

theorem step_running (running : s.phase = .running) : step s a = s.operate a := by
  simp [NgxMemPool.step, running]

theorem step_destroyed (ended : s.phase = .destroyed) : step s a = none := by
  simp [NgxMemPool.step, ended]

theorem operate_phase (running : s.phase = .running) (taken : s.operate a = some t) :
    t.phase = .running ∨ ∃ fuel, a = .ngxDestroyPool fuel := by
  cases a with
  | ngxCreatePool => contradiction
  | ngxDestroyPool fuel => exact Or.inr ⟨fuel, rfl⟩
  | poke x byte =>
    simp only [State.operate] at taken
    split at taken
    · cases taken
      exact Or.inl running
    · contradiction
  | ngxPoolCleanupAdd fuel n answers =>
    obtain ⟨r, _, rfl⟩ := Option.map_eq_some_iff.mp taken
    refine Or.inl ?_
    simp only [State.addCleanup]
    split
    · exact running
    · split <;> exact running
  | _ =>
    obtain ⟨r, _, rfl⟩ := Option.map_eq_some_iff.mp taken
    exact Or.inl running

/-- One call on a running pool moves its shape or destroys it. -/
theorem Represents.moves (held : Represents s shape) (running : s.phase = .running)
    (taken : step s a = some t) :
    (t.phase = .running ∧ ∃ after, Move shape a after ∧ Represents t after) ∨
      t.phase = .destroyed ∧ ∃ fuel, a = .ngxDestroyPool fuel := by
  rw [step_running running] at taken
  rcases operate_phase running taken with still | ⟨fuel, rfl⟩
  · exact Or.inl ⟨still, operate_moves held taken still⟩
  · obtain ⟨_, _, rfl⟩ := Option.map_eq_some_iff.mp taken
    exact Or.inr ⟨rfl, fuel, rfl⟩

inductive Standing (s : State) : Prop where
  | unborn (unborn : Unborn s)
  | running {shape : Shape} (running : s.phase = .running) (held : Represents s shape)
  | destroyed (destroyed : s.phase = .destroyed)

theorem Standing.step (standing : Standing s) (sized : WellSized s a)
    (taken : step s a = some t) : Standing t := by
  cases standing with
  | unborn unborn =>
    rcases unborn.step sized taken with still | ⟨p, size, running, held⟩
    · exact .unborn still
    · exact .running running held
  | running running held =>
    rcases held.moves running taken with ⟨still, _, _, represents⟩ | ⟨ended, _⟩
    · exact .running still represents
    · exact .destroyed ended
  | destroyed destroyed => simp [step_destroyed destroyed] at taken

theorem standing_of_reach (reached : Reach step WellSized initial s) : Standing s :=
  reached.invariant (.unborn unborn_initial) fun _ standing sized taken => standing.step sized taken

theorem represents_of_reach (reached : Reach step WellSized initial s)
    (running : s.phase = .running) : ∃ shape, Represents s shape := by
  cases standing_of_reach reached with
  | unborn unborn => simp [unborn.phase] at running
  | running _ held => exact ⟨_, held⟩
  | destroyed destroyed => simp [destroyed] at running

/-- What malloc will answer, where the fresh bytes are zero. -/
def malloced (bases : List Nat) : List Answer := bases.map fun b => ⟨b, fun _ => 0⟩

/-- The same call with other fuel. -/
def Action.fuelled (fuel : Nat) : Action → Action
  | .ngxPalloc _ size answers => .ngxPalloc fuel size answers
  | .ngxPnalloc _ size answers => .ngxPnalloc fuel size answers
  | .ngxPcalloc _ size answers => .ngxPcalloc fuel size answers
  | .ngxPoolCleanupAdd _ size answers => .ngxPoolCleanupAdd fuel size answers
  | .ngxPfree _ p => .ngxPfree fuel p
  | .ngxResetPool _ => .ngxResetPool fuel
  | .ngxDestroyPool _ => .ngxDestroyPool fuel
  | a => a

/-- The call comes to an end, with no access outside what is live. -/
def State.Returns (s : State) (a : Action) : Prop :=
  ∃ bound, ∀ fuel, bound ≤ fuel → (step s (a.fuelled fuel)).isSome

inductive Request : Action → Prop where
  | ngxPalloc {fuel size : Nat} {answers : List Answer} : Request (.ngxPalloc fuel size answers)
  | ngxPnalloc {fuel size : Nat} {answers : List Answer} : Request (.ngxPnalloc fuel size answers)
  | ngxPcalloc {fuel size : Nat} {answers : List Answer} : Request (.ngxPcalloc fuel size answers)
  | ngxPoolCleanupAdd {fuel size : Nat} {answers : List Answer} :
      Request (.ngxPoolCleanupAdd fuel size answers)
  | ngxPfree {fuel p : Nat} : Request (.ngxPfree fuel p)
  | ngxResetPool {fuel : Nat} : Request (.ngxResetPool fuel)

/-- The calls that search the blocks. -/
inductive Searches : Action → Prop where
  | ngxPalloc {fuel size : Nat} {answers : List Answer} : Searches (.ngxPalloc fuel size answers)
  | ngxPnalloc {fuel size : Nat} {answers : List Answer} : Searches (.ngxPnalloc fuel size answers)
  | ngxPcalloc {fuel size : Nat} {answers : List Answer} : Searches (.ngxPcalloc fuel size answers)
  | ngxPoolCleanupAdd {fuel size : Nat} {answers : List Answer} :
      Searches (.ngxPoolCleanupAdd fuel size answers)

theorem isSome_of_settles {α : Type} {x : Nat → Option α} {f : α → State} {bound : Nat} {r : α}
    (settles : Settles x bound r) (running : s.phase = .running)
    (same : ∀ fuel, s.operate (a.fuelled fuel) = (x fuel).map f) :
    ∀ fuel, bound ≤ fuel → (step s (a.fuelled fuel)).isSome := by
  intro fuel enough
  rw [step_running running, same, settles.enough fuel enough]
  rfl

/-- Fuel for the blocks from current on, and for five nodes of the large list, is enough;
    ngx_pool_cleanup_add makes its second request when the first has moved the shape. -/
theorem Represents.search_returns (held : Represents s shape) (running : s.phase = .running)
    (searches : Searches a) :
    ∃ bound, (∀ fuel, bound ≤ fuel → (step s (a.fuelled fuel)).isSome) ∧
      ∀ limit, 5 ≤ limit → shape.Near limit →
        (∀ c t j, SmallMove shape sizeofCleanup true c t → Fits t j → t.Near limit) →
        bound ≤ limit := by
  have same := held.pool
  cases searches with
  | @ngxPalloc _ n answers =>
    obtain ⟨bound, _, _, _, settles, _, _, _, within⟩ :=
      pallocWith_settles (held.answering answers) n true
    exact ⟨bound, isSome_of_settles settles running fun fuel => by rw [same]; rfl,
      fun limit five near _ => within limit five near⟩
  | @ngxPnalloc _ n answers =>
    obtain ⟨bound, _, _, _, settles, _, _, _, within⟩ :=
      pallocWith_settles (held.answering answers) n false
    exact ⟨bound, isSome_of_settles settles running fun fuel => by rw [same]; rfl,
      fun limit five near _ => within limit five near⟩
  | @ngxPcalloc _ n answers =>
    obtain ⟨bound, _, _, _, settles, _, _, _, _, within⟩ :=
      ngxPcalloc_settles (held.answering answers) n
    exact ⟨bound, isSome_of_settles settles running fun fuel => by rw [same]; rfl,
      fun limit five near _ => within limit five near⟩
  | @ngxPoolCleanupAdd _ n answers =>
    obtain ⟨bound, _, _, _, settles, _, _, within⟩ :=
      ngxPoolCleanupAdd_settles (held.answering answers) n
    exact ⟨bound, isSome_of_settles settles running fun fuel => by rw [same]; rfl, within⟩

theorem Represents.returns (held : Represents s shape) (running : s.phase = .running)
    (request : Request a) : s.Returns a := by
  have same := held.pool
  have search : Searches a → s.Returns a := by
    intro searches
    obtain ⟨bound, returns, _⟩ := held.search_returns running searches
    exact ⟨bound, returns⟩
  cases request with
  | ngxPalloc => exact search .ngxPalloc
  | ngxPnalloc => exact search .ngxPnalloc
  | ngxPcalloc => exact search .ngxPcalloc
  | ngxPoolCleanupAdd => exact search .ngxPoolCleanupAdd
  | @ngxPfree _ p =>
    obtain ⟨_, _, _, settles, _⟩ := ngxPfree_settles held.fits p
    exact ⟨_, isSome_of_settles settles running fun fuel => by rw [same]; rfl⟩
  | ngxResetPool =>
    obtain ⟨_, _, settles, _⟩ := ngxResetPool_settles held.fits held.idle
    exact ⟨_, isSome_of_settles settles running fun fuel => by rw [same]; rfl⟩

end NgxMemPool
