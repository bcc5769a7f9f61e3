import ServerPools.Memory.BlockBounds

/- Nodes of the large list are used again. While clients never hold more than five large
   regions at once, the list has as many nodes as the most they have held since the last
   reset. -/
namespace NgxMemPool
open Malloc Records Linked Fuel Machine

variable {s t : State} {shape after mid : Shape} {h : Heap} {a : Action} {l : LargeNode}
  {full behind : List LargeNode} {m n p c size : Nat} {align : Bool}

/-- How many large regions clients hold. -/
def State.outstanding (s : State) : Nat := s.leases.countP Lease.large

/-- The most that were outstanding at once since the last reset, n before the call. -/
def peakAfter (n : Nat) : Action → State → Nat
  | .ngxResetPool _, t => t.outstanding
  | _, t => max n t.outstanding

/-- The pool with that number beside it. -/
def watch (w : State × Nat) (a : Action) : Option (State × Nat) :=
  (step w.1 a).map fun t => (t, peakAfter w.2 a t)

/-- The size is proper, and no more than five large regions are outstanding after the call. -/
def FewLarge (w : State × Nat) (a : Action) : Prop :=
  WellSized w.1 a ∧ ∀ t ∈ step w.1 a, t.outstanding ≤ 5

instance {w : State × Nat} {a : Action} : Decidable (FewLarge w a) :=
  inferInstanceAs (Decidable (_ ∧ ∀ t ∈ step w.1 a, t.outstanding ≤ 5))

def LargeNode.used (l : LargeNode) : Bool := decide (l.alloc ≠ 0)

def Shape.used (s : Shape) : Nat := s.larges.countP LargeNode.used

theorem used_le (s : Shape) : s.used ≤ s.larges.length := List.countP_le_length

theorem Represents.outstanding (held : Represents s shape) : s.outstanding = shape.used := by
  have smalls : (shape.smalls.map Small.lease).countP Lease.large = 0 := by
    rw [List.countP_eq_zero]
    intro l member
    obtain ⟨x, _, rfl⟩ := List.mem_map.mp member
    simp [Small.lease]
  have larges : ∀ list : List LargeNode,
      (list.filterMap LargeNode.lease).countP Lease.large = list.countP LargeNode.used := by
    intro list
    induction list with
    | nil => rfl
    | cons l rest ih =>
      by_cases empty : l.alloc = 0
      · simp [LargeNode.lease, LargeNode.used, empty, ih]
      · simp [LargeNode.lease, LargeNode.used, empty, ih]
  rw [State.outstanding, held.leases.countP_eq, Shape.leases, List.countP_append, smalls, larges,
    Nat.zero_add]
  rfl

/-- The list becomes longer only where more regions are held than it had nodes. -/
def Grows (shape after : Shape) : Prop :=
  after.larges.length = max shape.larges.length after.used

theorem grows_of_length (same : after.larges.length = shape.larges.length) :
    Grows shape after := by
  have used := used_le after
  rw [Grows, same, Nat.max_eq_left (by omega)]

theorem SmallMove.larges (move : SmallMove shape n align m after) :
    after.larges = shape.larges := by
  cases move with
  | failed => rfl
  | carved split start refuse enough => rfl
  | grown split start nonempty refuse aligned => rfl

/-- With five nodes at most the search sees all of them. -/
theorem used_all (few : shape.larges.length ≤ 5)
    (held : ∀ full l behind, shape.larges = full ++ l :: behind → full.length ≤ 4 → l.alloc ≠ 0) :
    shape.used = shape.larges.length := by
  apply List.countP_eq_length.mpr
  intro l member
  obtain ⟨full, behind, split⟩ := List.append_of_mem member
  have near : full.length ≤ 4 := by
    have length := congrArg List.length split
    simp only [List.length_append, List.length_cons] at length
    omega
  exact decide_eq_true (held full l behind split near)

theorem LargeMove.grows (few : shape.larges.length ≤ 5) (move : LargeMove shape n m after) :
    Grows shape after := by
  cases move with
  | failed => exact grows_of_length rfl
  | reused split held empty near given =>
    apply grows_of_length
    simp [Shape.setLarge, split]
  | @pushed c _ w held carved node given =>
    have all := used_all few held
    have used : ((w.keep shape.smalls).pushLarge c m n).used = shape.larges.length + 1 := by
      rw [← all]
      simp [Shape.used, Shape.pushLarge, Shape.keep, carved.larges, LargeNode.used, given.1]
    rw [Grows, used, Nat.max_eq_right (Nat.le_succ _)]
    simp [Shape.pushLarge, Shape.keep, carved.larges]

theorem PallocMove.grows (few : shape.larges.length ≤ 5) (move : PallocMove shape n align m after) :
    Grows shape after := by
  cases move with
  | small fit move => exact grows_of_length (congrArg List.length move.larges)
  | large above move => exact move.grows few

theorem CleanupMove.grows (few : shape.larges.length ≤ 5) (move : CleanupMove shape n c after) :
    Grows shape after := by
  cases move with
  | refused => exact grows_of_length rfl
  | unlinked node given size => exact grows_of_length (congrArg List.length node.larges)
  | plain node given size => exact grows_of_length (congrArg List.length node.larges)
  | withData node given size data served rest =>
    have grows := data.grows (by rwa [node.larges])
    rw [Grows, node.larges] at grows
    exact grows

theorem FreeMove.grows (move : FreeMove shape p after) : Grows shape after := by
  apply grows_of_length
  cases move with
  | absent none => rfl
  | freed split others here => simp [Shape.setLarge, split]

theorem Move.grows (few : shape.larges.length ≤ 5) (move : Move shape a after)
    (kept : ResetFree s a) : Grows shape after := by
  cases move with
  | ngxPalloc move => exact move.grows few
  | ngxPnalloc move => exact move.grows few
  | ngxPcalloc move => exact move.grows few
  | ngxPoolCleanupAdd move => exact move.grows few
  | ngxPfree move => exact move.grows
  | ngxResetPool => exact absurd kept id
  | poke =>
    apply grows_of_length
    simp [Shape.forget, Shape.noting]

/-- The list is as long as the most that were outstanding. -/
inductive Watched : State × Nat → Prop where
  | unborn {s : State} (unborn : Unborn s) : Watched (s, 0)
  | running {s : State} {shape : Shape} (running : s.phase = .running) (held : Represents s shape)
      (few : shape.larges.length ≤ 5) : Watched (s, shape.larges.length)
  | destroyed {s : State} {n : Nat} (destroyed : s.phase = .destroyed) : Watched (s, n)

theorem peak_of_kept (kept : ResetFree s a) : peakAfter n a t = max n t.outstanding := by
  cases a with
  | ngxResetPool fuel => exact absurd kept id
  | _ => rfl

theorem Represents.watched (represents : Represents t after) (few : shape.larges.length ≤ 5)
    (move : Move shape a after) (running : t.phase = .running) (less : t.outstanding ≤ 5) :
    Watched (t, peakAfter shape.larges.length a t) := by
  have outstanding := represents.outstanding
  by_cases kept : ResetFree t a
  · have grows := move.grows few kept
    rw [peak_of_kept kept, outstanding, ← grows]
    apply Watched.running running represents
    rw [grows]
    omega
  · cases a with
    | ngxResetPool fuel =>
      cases move
      have none : t.outstanding = shape.reset.larges.length := outstanding
      rw [peakAfter, none]
      exact .running running represents (Nat.zero_le 5)
    | _ => exact absurd trivial kept

theorem Watched.step {w v : State × Nat} (watched : Watched w) (few : FewLarge w a)
    (taken : watch w a = some v) : Watched v := by
  obtain ⟨t, moved, rfl⟩ := Option.map_eq_some_iff.mp taken
  have less := few.2 t moved
  cases watched with
  | unborn unborn =>
    rcases unborn.step few.1 moved with still | ⟨p, size, running, held⟩
    · have none : peakAfter 0 a t = 0 := by
        have zero : t.outstanding = 0 := by simp [State.outstanding, still.leases]
        cases a <;> simp [peakAfter, zero]
      rw [none]
      exact .unborn still
    · have none : peakAfter 0 a t = (newShape p size).larges.length := by
        have zero : t.outstanding = 0 := held.outstanding
        cases a <;> simp [peakAfter, zero, newShape]
      rw [none]
      exact .running running held (Nat.zero_le 5)
  | running running held bound =>
    rcases held.moves running moved with ⟨still, after, move, represents⟩ | ⟨ended, _⟩
    · exact represents.watched bound move still less
    · exact .destroyed ended
  | destroyed ended => simp [step_destroyed ended] at moved

theorem watched_of_reach {peak : Nat} (reached : Reach watch FewLarge (initial, 0) (s, peak)) :
    Watched (s, peak) :=
  reached.invariant (.unborn unborn_initial) fun _ watched few taken => watched.step few taken

/-- ngx_pfree, and a large request while fewer regions are outstanding than once were. -/
inductive Recurs (s : State) (peak : Nat) : Action → Prop where
  | ngxPalloc {fuel size : Nat} {answers : List Answer} (large : s.isLarge size = true)
      (spare : s.outstanding < peak) : Recurs s peak (.ngxPalloc fuel size answers)
  | ngxPnalloc {fuel size : Nat} {answers : List Answer} (large : s.isLarge size = true)
      (spare : s.outstanding < peak) : Recurs s peak (.ngxPnalloc fuel size answers)
  | ngxPcalloc {fuel size : Nat} {answers : List Answer} (large : s.isLarge size = true)
      (spare : s.outstanding < peak) : Recurs s peak (.ngxPcalloc fuel size answers)
  | ngxPfree {fuel p : Nat} : Recurs s peak (.ngxPfree fuel p)

/-- The same blocks, used as far as before, and the same nodes. -/
def Steady (s t : State) : Prop := ∃ blocks larges,
  Follows s.blockNext s.pool blocks ∧ Follows t.blockNext t.pool blocks ∧
    (∀ b ∈ blocks, t.blockLast b = s.blockLast b) ∧
    Follows s.largeNext (s.word (largeAt s.pool)) larges ∧
    Follows t.largeNext (t.word (largeAt t.pool)) larges

theorem Represents.steady (held : Represents s shape) (represents : Represents t after)
    (blocks : after.blocks = shape.blocks)
    (larges : after.larges.map LargeNode.addr = shape.larges.map LargeNode.addr) : Steady s t := by
  have chain := represents.chain
  have list := represents.list
  rw [blocks] at chain
  rw [larges] at list
  refine ⟨_, _, held.chain, chain, fun p member => ?_, held.list, list⟩
  obtain ⟨b, here, rfl⟩ := List.mem_map.mp member
  rw [(represents.block_words (blocks ▸ here)).1, (held.block_words here).1]

theorem PallocMove.steady (few : shape.larges.length ≤ 5)
    (spare : shape.used < shape.larges.length) (large : poolMax (shape.size - sizeofPool) < n)
    (move : PallocMove shape n align m after) : after.blocks = shape.blocks ∧
      after.larges.map LargeNode.addr = shape.larges.map LargeNode.addr := by
  cases move with
  | small fit move => omega
  | large above move =>
    cases move with
    | failed => exact ⟨rfl, rfl⟩
    | reused split held empty near given => exact ⟨rfl, by simp [Shape.setLarge, split]⟩
    | pushed held carved node given =>
      have all := used_all few held
      omega

theorem FreeMove.steady (move : FreeMove shape p after) : after.blocks = shape.blocks ∧
    after.larges.map LargeNode.addr = shape.larges.map LargeNode.addr := by
  cases move with
  | absent none => exact ⟨rfl, rfl⟩
  | freed split others here => exact ⟨rfl, by simp [Shape.setLarge, split, LargeNode.emptied]⟩

theorem Represents.recurs (held : Represents s shape) (running : s.phase = .running)
    (few : shape.larges.length ≤ 5) (recurs : Recurs s shape.larges.length a)
    (taken : step s a = some t) : Steady s t := by
  obtain ⟨after, move, represents⟩ : ∃ after, Move shape a after ∧ Represents t after := by
    rcases held.moves running taken with ⟨_, moved⟩ | ⟨_, _, rfl⟩
    · exact moved
    · contradiction
  have above : ∀ n, s.isLarge n = true → poolMax (shape.size - sizeofPool) < n := by
    intro n large
    rw [held.large] at large
    exact of_decide_eq_true large
  have free := held.outstanding
  have same : after.blocks = shape.blocks ∧
      after.larges.map LargeNode.addr = shape.larges.map LargeNode.addr := by
    cases recurs with
    | ngxPalloc large spare =>
      cases move with
      | ngxPalloc move => exact move.steady few (free ▸ spare) (above _ large)
    | ngxPnalloc large spare =>
      cases move with
      | ngxPnalloc move => exact move.steady few (free ▸ spare) (above _ large)
    | ngxPcalloc large spare =>
      cases move with
      | ngxPcalloc move => exact move.steady few (free ▸ spare) (above _ large)
    | ngxPfree =>
      cases move with
      | ngxPfree move => exact move.steady
  exact held.steady represents same.1 same.2

/-- In every run that never has more than five large regions outstanding, the large list has
    as many nodes as the most that were outstanding since the last reset; ngx_pfree, and
    large requests that stay below that number, use no more of the blocks. -/
theorem large_nodes_reused {peak : Nat} (reached : Reach watch FewLarge (initial, 0) (s, peak))
    (running : s.phase = .running) :
    (∃ larges, Follows s.largeNext (s.word (largeAt s.pool)) larges ∧ larges.length = peak) ∧
      ∀ a t, Recurs s peak a → step s a = some t → Steady s t := by
  cases watched_of_reach reached with
  | unborn unborn => exact absurd (unborn.phase.symm.trans running) (by decide)
  | destroyed ended => exact absurd (ended.symm.trans running) (by decide)
  | running _ held few =>
    exact ⟨⟨_, held.list, List.length_map _⟩, fun a t recurs taken =>
      held.recurs running few recurs taken⟩

/-- After a reset three regions are outstanding at once, one of them the data of a cleanup
    node; one goes back and another takes its node. -/
def reuseRequests : List Action :=
  [.ngxCreatePool 96 (malloced [16]), .ngxPalloc 5 100 (malloced [1024]), .ngxResetPool 2,
    .ngxPalloc 5 100 (malloced [1024]), .ngxPnalloc 5 200 (malloced [2048]),
    .ngxPoolCleanupAdd 5 300 (malloced [128, 4096]), .ngxPfree 5 1024,
    .ngxPcalloc 5 400 (malloced [8192])]

theorem large_nodes_reused_three : ∃ t, run watch (initial, 0) reuseRequests = some (t, 3) ∧
    t.outstanding = 3 ∧
    ((∃ larges, Follows t.largeNext (t.word (largeAt t.pool)) larges ∧ larges.length = 3) ∧
      ∀ a u, Recurs t 3 a → step t a = some u → Steady t u) := by
  have few : Obeys watch FewLarge (initial, 0) reuseRequests := by decide +kernel
  have ran : ∃ w ∈ run watch (initial, 0) reuseRequests, w.1.phase = .running ∧ w.2 = 3 ∧
      w.1.outstanding = 3 := by decide +kernel
  obtain ⟨⟨t, peak⟩, taken, running, rfl, three⟩ := ran
  exact ⟨t, taken, three, large_nodes_reused (reach_of_run few taken) running⟩

end NgxMemPool
