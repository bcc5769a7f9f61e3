import ServerPools.Memory.Skipping

/- How far a search for room goes. In a pool that was never reset at most seven blocks lie
   between current and the end of the chain, and no call of an allocator looks at more. -/
namespace NgxMemPool
open Malloc Records Linked Fuel Machine

variable {s t : State} {shape : Shape} {h : Heap} {a : Action} {n k : Nat}

/-- Runs of a pool with a proper size and without ngx_reset_pool. -/
def NeverReset (s : State) (a : Action) : Prop := WellSized s a ∧ ResetFree s a

instance {s : State} {a : Action} : Decidable (NeverReset s a) :=
  inferInstanceAs (Decidable (_ ∧ _))

theorem Stairs.near (stairs : Stairs 1 k shape) (distinct : shape.bases.Nodup) :
    shape.Near 7 := by
  intro pre b post split start
  have place := stairs.position distinct split start
  have length := stairs.split_length split
  unfold skipped at place
  split at place <;> omega

/-- A pool that was never reset has climbed from the only block it had at first. -/
theorem climbs_of_reach (reached : Reach step NeverReset initial s) :
    Unborn s ∨ ∃ p size, Climbed (newShape p size) s := by
  induction reached with
  | start => exact Or.inl unborn_initial
  | next before permit taken ih =>
    rcases ih with unborn | ⟨p, size, climbed⟩
    · rcases unborn.step permit.1 taken with still | ⟨p, size, running, held⟩
      · exact Or.inl still
      · exact Or.inr ⟨p, size, .running running held ((stairs_newShape p size).stays rfl rfl)⟩
    · exact Or.inr ⟨p, size, climbed.step permit.2 taken⟩

theorem stairs_of_reach (reached : Reach step NeverReset initial s)
    (running : s.phase = .running) : ∃ k shape, Represents s shape ∧ Stairs 1 k shape := by
  rcases climbs_of_reach reached with unborn | ⟨p, size, climbed⟩
  · exact absurd (unborn.phase.symm.trans running) (by decide)
  · cases climbed with
    | destroyed ended => exact absurd (ended.symm.trans running) (by decide)
    | running _ held ascends =>
      obtain ⟨news, _, stairs⟩ := ascends
      exact ⟨_, _, held, stairs⟩

theorem Represents.scan_returns (held : Represents s shape) (near : shape.Near 7) (size : Nat)
    (align : Bool) :
    ((scanBlocks size align 7 (s.word (currentAt s.pool))).run s.heap).isSome := by
  obtain ⟨b, here, start⟩ := held.fits.current
  obtain ⟨pre, post, split⟩ := List.append_of_mem here
  have enough : post.length + 1 ≤ 7 := near pre b post split start
  rw [held.word_current, ← start]
  rcases scanBlocks_settles held.fits split size align with
    ⟨_, _, _, _, _, _, settles, _⟩ | ⟨_, settles⟩
  · exact Option.isSome_of_eq_some (settles.enough 7 enough)
  · exact Option.isSome_of_eq_some (settles.enough 7 enough)

/-- Seven rounds are enough for every loop of a call. -/
theorem Represents.call_returns (held : Represents s shape) (running : s.phase = .running)
    (stairs : Stairs 1 k shape) (searches : Searches a) : (step s (a.fuelled 7)).isSome := by
  have distinct := held.fits.bases_nodup
  obtain ⟨bound, returns, within⟩ := held.search_returns running searches
  apply returns
  apply within 7 (by decide) (stairs.near distinct)
  intro c t j node fits
  obtain ⟨_, _, after⟩ := node.ascends distinct stairs
  exact after.near fits.bases_nodup

/-- In every state of every run of a pool with a proper size and without resets, at most
    seven blocks lie from current to the end of the chain; the loop of ngx_palloc_small ends
    within seven blocks for every size, and all calls that allocate return on seven rounds
    for each of their loops. -/
theorem search_bounded (reached : Reach step NeverReset initial s)
    (running : s.phase = .running) :
    (∃ blocks c, Follows s.blockNext s.pool blocks ∧ blocks.Nodup ∧
      blocks[c]? = some (s.word (currentAt s.pool)) ∧ blocks.length ≤ c + 7) ∧
    (∀ size align, ((scanBlocks size align 7 (s.word (currentAt s.pool))).run s.heap).isSome) ∧
    ∀ a, Searches a → (step s (a.fuelled 7)).isSome := by
  obtain ⟨k, shape, held, stairs⟩ := stairs_of_reach reached running
  have near := stairs.near held.fits.bases_nodup
  refine ⟨⟨shape.bases, skipped 1 k, ?_⟩, held.scan_returns near, fun a searches =>
    held.call_returns running stairs searches⟩
  have staircase := (held.staircase stairs).1
  refine ⟨staircase.chain, staircase.acyclic, staircase.current, ?_⟩
  rw [stairs.bases_length]
  unfold skipped
  split <;> omega

/-- Nine blocks with no room for more, the last seven of them from current on. -/
def nineBlocks : List Action :=
  Action.ngxCreatePool 104 (malloced [16]) :: Action.ngxPalloc 7 40 [] :: fillBlocks 8

theorem neverReset_any {q : State} (allowed : NeverReset q a) (s : State) : NeverReset s a := by
  refine ⟨wellSized_any allowed.1 s, ?_⟩
  cases a with
  | ngxResetPool fuel => exact allowed.2
  | _ => trivial

theorem search_bounded_nine : ∃ t, run step initial nineBlocks = some t ∧
    t.word (currentAt 16) = 256 ∧ Follows t.blockNext 256 [256, 384, 512, 640, 768, 896, 1024] ∧
    ((scanBlocks 40 true 6 256).run t.heap).isNone ∧
    ((∃ blocks c, Follows t.blockNext t.pool blocks ∧ blocks.Nodup ∧
      blocks[c]? = some (t.word (currentAt t.pool)) ∧ blocks.length ≤ c + 7) ∧
    (∀ size align, ((scanBlocks size align 7 (t.word (currentAt t.pool))).run t.heap).isSome) ∧
    ∀ a, Searches a → (step t (a.fuelled 7)).isSome) := by
  have each : ∀ a ∈ nineBlocks, NeverReset initial a := by decide
  have sized : Obeys step NeverReset initial nineBlocks :=
    obeys_of_actions fun a member s => neverReset_any (each a member) s
  have ran : ∃ t ∈ run step initial nineBlocks, t.phase = .running ∧
      t.word (currentAt 16) = 256 ∧ Follows t.blockNext 256 [256, 384, 512, 640, 768, 896, 1024] ∧
      ((scanBlocks 40 true 6 256).run t.heap).isNone := by
    decide +kernel
  obtain ⟨t, taken, running, current, window, six⟩ := ran
  have reached : Reach step NeverReset initial t := reach_of_run sized (Option.mem_def.mp taken)
  exact ⟨t, Option.mem_def.mp taken, current, window, six, search_bounded reached running⟩

end NgxMemPool
