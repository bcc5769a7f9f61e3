import ServerPools.Memory.Staircase

/- current along runs: it leaves a block behind after the block was passed over six times
   since the last reset, and it stays on the chain. -/
namespace NgxMemPool
open Malloc Records Linked Fuel Machine

variable {r s t : State} {shape after : Shape} {a : Action} {i n k : Nat}

/-- The calls after which no block has been passed over. -/
inductive Restart : Action → Prop where
  | ngxCreatePool {size : Nat} {answers : List Answer} : Restart (.ngxCreatePool size answers)
  | ngxResetPool {fuel : Nat} : Restart (.ngxResetPool fuel)

/-- r is the running pool just created or reset, and no reset lies between r and s. -/
structure LastReset (r s : State) : Prop where
  running : r.phase = .running
  restarted : ∃ q a, Reach step WellSized initial q ∧ WellSized q a ∧ Restart a ∧ step q a = some r
  since : Reach step ResetFree r s

theorem last_reset_of_reach (reached : Reach step WellSized initial s)
    (running : s.phase = .running) : ∃ r, LastReset r s := by
  induction reached with
  | start => contradiction
  | @next q t a before permit taken ih =>
    by_cases again : Restart a
    · exact ⟨t, running, ⟨q, a, before, permit, again, taken⟩, .start⟩
    · have kept : ResetFree q a := by
        cases a with
        | ngxResetPool fuel => exact absurd .ngxResetPool again
        | _ => trivial
      have alive : q.phase = .running := by
        cases phase : q.phase with
        | running => rfl
        | destroyed => simp [step_destroyed phase] at taken
        | unborn =>
          cases a with
          | ngxCreatePool size answers => exact absurd .ngxCreatePool again
          | _ => simp [NgxMemPool.step, phase] at taken
      obtain ⟨r, last⟩ := ih alive
      exact ⟨r, last.running, last.restarted, last.since.next kept taken⟩

theorem LastReset.level (last : LastReset r s) :
    ∃ shape, Represents r shape ∧ Stairs shape.bases.length 0 shape := by
  obtain ⟨q, a, reached, sized, restart, taken⟩ := last.restarted
  cases standing_of_reach reached with
  | destroyed ended => simp [step_destroyed ended] at taken
  | unborn unborn =>
    rcases unborn.step sized taken with still | ⟨p, size, _, held⟩
    · exact absurd (still.phase.symm.trans last.running) (by decide)
    · exact ⟨newShape p size, held, stairs_newShape p size⟩
  | running running held =>
    rcases held.moves running taken with ⟨_, after, move, represents⟩ | ⟨ended, _⟩
    · cases restart with
      | ngxCreatePool => contradiction
      | ngxResetPool =>
        cases move
        refine ⟨_, represents, ?_⟩
        rw [reset_bases]
        exact held.fits.stairs_reset
    · exact absurd (ended.symm.trans last.running) (by decide)

/-- A pool that has come up from the level of shape. -/
inductive Climbed (shape : Shape) (s : State) : Prop where
  | running {after : Shape} (running : s.phase = .running) (held : Represents s after)
      (ascends : Ascends shape.bases.length 0 shape after)
  | destroyed (destroyed : s.phase = .destroyed)

theorem Climbed.step (climbed : Climbed shape s) (kept : ResetFree s a)
    (taken : step s a = some t) : Climbed shape t := by
  cases climbed with
  | destroyed ended => simp [step_destroyed ended] at taken
  | running running held ascends =>
    rcases held.moves running taken with ⟨still, after, move, represents⟩ | ⟨ended, _⟩
    · exact .running still represents (ascends.trans fun _ stairs =>
        move.ascends kept held.fits.bases_nodup represents.fits.bases_nodup stairs)
    · exact .destroyed ended

theorem LastReset.climbs (last : LastReset r s) (running : s.phase = .running) :
    ∃ old news after, Follows r.blockNext r.pool old ∧ Represents s after ∧
      after.bases = old ++ news ∧ Stairs old.length news.length after := by
  obtain ⟨shape, held, stairs⟩ := last.level
  have climbed : Climbed shape s := last.since.invariant
    (.running last.running held (stairs.stays rfl rfl)) fun _ climbed kept taken =>
      climbed.step kept taken
  cases climbed with
  | destroyed ended => exact absurd (ended.symm.trans running) (by decide)
  | running _ represents ascends =>
    obtain ⟨news, bases, after⟩ := ascends
    rw [Nat.zero_add] at after
    exact ⟨_, news, _, held.chain, represents, bases, after⟩

theorem Represents.block_failed (held : Represents s shape) {b : Block} (here : b ∈ shape.blocks) :
    s.blockFailed b.base = b.failed := by
  obtain ⟨next, member⟩ := header_mem here
  have value := held.fits.held.value member (f := ⟨24, 4, b.failed⟩) (by simp [Block.record])
  exact value

theorem Represents.word_current (held : Represents s shape) :
    s.word (currentAt s.pool) = shape.current := by
  rw [← held.pool]
  exact held.word_of (o := 8) (front_mem shape) (by simp [Shape.front])

/-- blocks is the whole chain and c the position of current on it. -/
structure Staircase (s : State) (blocks : List Nat) (c : Nat) : Prop where
  chain : Follows s.blockNext s.pool blocks
  acyclic : blocks.Nodup
  current : blocks[c]? = some (s.word (currentAt s.pool))
  skipped : ∀ i b, i < c → blocks[i]? = some b → s.blockFailed b = 6
  ahead : ∀ i b, c ≤ i → blocks[i]? = some b → s.blockFailed b ≤ 5
  falling : ∀ i j b d, c ≤ i → i ≤ j → blocks[i]? = some b → blocks[j]? = some d →
    s.blockFailed d ≤ s.blockFailed b
  last : ∀ b, blocks.getLast? = some b → s.blockFailed b = 0

theorem Represents.staircase (held : Represents s shape) (stairs : Stairs n k shape) :
    Staircase s shape.bases (skipped n k) ∧
      ∀ i b, shape.bases[i]? = some b → s.blockFailed b = passes n k i := by
  have positive := stairs.positive
  have counted : ∀ i b, shape.bases[i]? = some b → s.blockFailed b = passes n k i := by
    intro i b here
    rw [Shape.bases, List.getElem?_map] at here
    obtain ⟨block, there, rfl⟩ := Option.map_eq_some_iff.mp here
    rw [held.block_failed (List.mem_of_getElem? there), stairs.block_failed there]
  refine ⟨?_, counted⟩
  constructor
  · exact held.chain
  · exact held.fits.bases_nodup
  · rw [held.word_current]
    exact stairs.current
  · intro i b before here
    rw [counted i b here, passes_before positive before]
  · intro i b behind here
    rw [counted i b here]
    exact passes_behind positive behind
  · intro i j b d _ later here there
    rw [counted i b here, counted j d there]
    exact passes_falls positive later
  · intro b last
    rw [List.getLast?_eq_getElem?] at last
    rw [counted _ b last]
    exact passes_last positive (by rw [stairs.bases_length]; omega)

/-- In every state of every run of a pool with a proper size the chain ends in null and has
    current on it. old are the blocks at the last reset and news those appended since: the
    failed counter of a block is the number of these appends that passed over it, six for
    the blocks before current, and from current on at most five, falling to zero. -/
theorem current_skips (reached : Reach step WellSized initial s) (running : s.phase = .running) :
    (∃ r, LastReset r s) ∧ ∀ r, LastReset r s → ∃ old news, Follows r.blockNext r.pool old ∧
      Staircase s (old ++ news) (skipped old.length news.length) ∧
      ∀ i b, (old ++ news)[i]? = some b →
        s.blockFailed b = passes old.length news.length i := by
  refine ⟨last_reset_of_reach reached running, fun r last => ?_⟩
  obtain ⟨old, news, shape, first, held, bases, stairs⟩ := last.climbs running
  obtain ⟨staircase, counted⟩ := held.staircase stairs
  rw [bases] at staircase counted
  exact ⟨old, news, first, staircase, counted⟩

/-- Each request is more than the one before it has left of its block. -/
def fillBlocks (k : Nat) : List Action := (List.range k).map fun j =>
  .ngxPalloc 8 40 (malloced [128 * (j + 1)])

/-- Seven appends after a reset, with a request before them that malloc refuses. -/
def climbRequests : List Action :=
  Action.ngxCreatePool 104 (malloced [16]) :: Action.ngxPalloc 8 40 [] :: Action.ngxResetPool 2 ::
    Action.ngxPalloc 8 40 [] :: Action.ngxPalloc 8 40 [] :: fillBlocks 7

/-- The condition is one on the action alone. -/
theorem wellSized_any {q : State} (sized : WellSized q a) (s : State) : WellSized s a := by
  cases a with
  | ngxCreatePool size answers => exact sized
  | _ => trivial

theorem current_skips_seven : ∃ t, run step initial climbRequests = some t ∧
    t.blockFailed 16 = 6 ∧ t.word (currentAt 16) = 128 ∧ t.blockFailed 128 = 5 ∧
    ((∃ r, LastReset r t) ∧ ∀ r, LastReset r t → ∃ old news, Follows r.blockNext r.pool old ∧
      Staircase t (old ++ news) (skipped old.length news.length) ∧
      ∀ i b, (old ++ news)[i]? = some b →
        t.blockFailed b = passes old.length news.length i) := by
  have each : ∀ a ∈ climbRequests, WellSized initial a := by decide
  have sized : Obeys step WellSized initial climbRequests :=
    obeys_of_actions fun a member s => wellSized_any (each a member) s
  have ran : ∃ t ∈ run step initial climbRequests, t.phase = .running ∧
      t.blockFailed 16 = 6 ∧ t.word (currentAt 16) = 128 ∧ t.blockFailed 128 = 5 := by
    decide +kernel
  obtain ⟨t, taken, running, six, current, five⟩ := ran
  have reached : Reach step WellSized initial t := reach_of_run sized (Option.mem_def.mp taken)
  exact ⟨t, Option.mem_def.mp taken, six, current, five, current_skips reached running⟩

end NgxMemPool
