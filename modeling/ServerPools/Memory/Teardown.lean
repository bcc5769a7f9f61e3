import ServerPools.Memory.Recycling

/- ngx_destroy_pool: the cleanup handlers, then the large regions, then the blocks. -/
namespace NgxMemPool
open Malloc Records Linked Fuel

variable {s : Shape} {h k : Heap} {b : Block} {c : CleanupNode} {xs ys : List CleanupNode}
  {rest : List Block} {size : Nat}

/-- The handlers of these nodes that are not null, each with its data, in this order. -/
def cleanupCalls (m : Nat → UInt8) : List Nat → List (Nat × Nat)
  | [] => []
  | c :: rest =>
    if Bytes.load m (handlerAt c) 8 = 0 then cleanupCalls m rest
    else (Bytes.load m (handlerAt c) 8, Bytes.load m (dataAt c) 8) :: cleanupCalls m rest

/-- Calls as the record has them, last one first. -/
def callEvents (calls : List (Nat × Nat)) : List Event :=
  calls.reverse.map fun c => Event.call c.1 c.2

theorem callEvents_cons (c : Nat × Nat) (calls : List (Nat × Nat)) (log : List Event) :
    callEvents (c :: calls) ++ log = callEvents calls ++ .call c.1 c.2 :: log := by
  simp [callEvents]

theorem Fits.called (fits : Fits s h) (handler data : Nat) :
    Fits s { h with log := .call handler data :: h.log } :=
  ⟨fits.toProper, fits.sound.called handler data, fits.live, fits.held.called handler data⟩

theorem cleanup_mem (split : s.cleanups = xs ++ c :: ys) :
    c.record (headOr CleanupNode.addr s.stale ys) ∈ s.records := by
  simp [Shape.records, Shape.body, split, links_append]

theorem Fits.cleanup_open (fits : Fits s h) (split : s.cleanups = xs ++ c :: ys) {o : Nat}
    (inside : o + 8 ≤ 24) : h.Open ⟨c.addr + o, 8⟩ :=
  Open.within (fits.held.inside _ (cleanup_mem split)) (field_within inside)

theorem Fits.read_cleanup_next (fits : Fits s h) (split : s.cleanups = xs ++ c :: ys) :
    (load 8 (cleanupNextAt c.addr)).run h = some (headOr CleanupNode.addr s.stale ys, h) :=
  fits.held.read (cleanup_mem split) (f := ⟨16, 8, headOr CleanupNode.addr s.stale ys⟩)
    (by simp [CleanupNode.record])

theorem Fits.cleanup_place (fits : Fits s h) (here : c ∈ s.cleanups) : c.addr ≠ 0 := by
  have inside : c.span ∈ s.inner := by
    simp only [Shape.inner, List.mem_append]
    exact Or.inr (Or.inl (List.mem_map_of_mem here))
  obtain ⟨b, there, carved⟩ := fits.placed _ inside
  have positive := (fits.block_place there).2.1
  simp only [Block.Carved, CleanupNode.span] at carved
  omega

theorem run_runCleanups (fuel p : Nat) (h : Heap) : (runCleanups (fuel + 1) p).run h =
    if p = 0 then some ((), h)
    else ((load 8 (handlerAt p)).run h).bind fun r =>
      if r.1 = 0 then ((load 8 (cleanupNextAt p)).run r.2).bind fun q => (runCleanups fuel q.1).run q.2
      else ((load 8 (dataAt p)).run r.2).bind fun d =>
        ((load 8 (cleanupNextAt p)).run { d.2 with log := .call r.1 d.1 :: d.2.log }).bind fun q =>
          (runCleanups fuel q.1).run q.2 := by
  rw [runCleanups, run_ite]
  by_cases null : p = 0
  · rw [if_pos null, if_pos null]
    rfl
  · rw [if_neg null, if_neg null, StateT.run_bind]
    congr 1
    funext r
    by_cases none : r.1 = 0
    · simp [none]
    · simp [none]

/-- A handler is called with the data its node holds then. -/
theorem runCleanups_settles (fits : Fits s h) (fresh : s.stale = 0)
    (split : s.cleanups = xs ++ ys) :
    ∃ k, Settles (fun fuel => (runCleanups fuel (headOr CleanupNode.addr 0 ys)).run h)
        (ys.length + 1) ((), k) ∧ Fits s k ∧
      k.log = callEvents (cleanupCalls h.bytes (ys.map CleanupNode.addr)) ++ h.log := by
  induction ys generalizing h xs with
  | nil =>
    refine ⟨h, Settles.round rfl (fun fuel => ?_) (settles_of_eq fun _ => rfl), fits, rfl⟩
    rfl
  | cons c rest ih =>
    have later : s.cleanups = (xs ++ [c]) ++ rest := by simp [split]
    have nonzero : c.addr ≠ 0 := fits.cleanup_place (by simp [split])
    have handler := run_load (fits.cleanup_open split (o := 0) (by omega))
    have data := run_load (fits.cleanup_open split (o := 8) (by omega))
    have round : ∀ fuel, (runCleanups (fuel + 1) c.addr).run h = _ := fun fuel =>
      run_runCleanups fuel c.addr h
    by_cases null : Bytes.load h.bytes (handlerAt c.addr) 8 = 0
    · obtain ⟨k, settles, after, log⟩ := ih fits later
      refine ⟨k, Settles.round rfl (fun fuel => ?_) settles, after, ?_⟩
      · have next := fits.read_cleanup_next split
        rw [fresh] at next
        rw [headOr_cons, round, if_neg nonzero]
        rw [show (load 8 (handlerAt c.addr)).run h = _ from handler, Option.bind_some]
        rw [if_pos (show Bytes.load h.bytes (c.addr + 0) 8 = 0 from null), next, Option.bind_some]
      · rw [log, List.map_cons, cleanupCalls, if_pos null]
    · have called := fits.called (Bytes.load h.bytes (handlerAt c.addr) 8)
        (Bytes.load h.bytes (dataAt c.addr) 8)
      obtain ⟨k, settles, after, log⟩ := ih called later
      refine ⟨k, Settles.round rfl (fun fuel => ?_) settles, after, ?_⟩
      · have next := called.read_cleanup_next split
        rw [fresh] at next
        rw [headOr_cons, round, if_neg nonzero]
        rw [show (load 8 (handlerAt c.addr)).run h = _ from handler, Option.bind_some]
        rw [if_neg (show ¬Bytes.load h.bytes (c.addr + 0) 8 = 0 from null)]
        rw [show (load 8 (dataAt c.addr)).run h = _ from data, Option.bind_some]
        exact congrArg (Option.bind · _) next
      · rw [log, List.map_cons, cleanupCalls, if_neg null, callEvents_cons]

/-- The frees of the loop over the blocks, last one first. -/
def freesOfBlocks (blocks : List Block) : List Event :=
  blocks.reverse.map fun b => Event.free b.base

theorem free_first (sound : h.Sound) {others : List Span}
    (live : h.live.Perm (b.region size :: others)) :
    (h.freed b.base).live.Perm others ∧ (h.freed b.base).Sound ∧
      (h.freed b.base).log = .free b.base :: h.log := by
  have here : b.region size ∈ h.live := live.mem_iff.mpr List.mem_cons_self
  have nonzero : b.base ≠ 0 := Nat.ne_of_gt (sound.placed _ here).1
  exact ⟨sound.freed_perm live, sound.freed fun _ => ⟨_, here, rfl⟩, by simp [Heap.freed, nonzero]⟩

/-- The headers of the later blocks are read before these go. -/
theorem headers_freed (held : Held h (links Block.base (Block.record size) 0 rest))
    (sound : h.Sound) (live : h.live.Perm (b.region size :: rest.map (Block.region size)))
    (enough : 32 ≤ size) : Held (h.freed b.base) (links Block.base (Block.record size) 0 rest) := by
  apply held.freed
  intro r member
  obtain ⟨c, inside, next, rfl⟩ := mem_links member
  have region : c.region size ∈ rest.map (Block.region size) := List.mem_map_of_mem inside
  refine ⟨c.region size, live.mem_iff.mpr (List.mem_cons_of_mem _ region),
    sound.other_start live region, ?_⟩
  simp only [Span.Within, Block.record, Block.region, Span.stop, sizeofPoolData]
  omega

theorem freeBlocks_settles (held : Held h (links Block.base (Block.record size) 0 rest))
    (sound : h.Sound) (live : h.live.Perm (b.region size :: rest.map (Block.region size)))
    (enough : 32 ≤ size) :
    ∃ k, Settles (fun fuel => (freeBlocks fuel b.base (headOr Block.base 0 rest)).run h)
        (rest.length + 1) ((), k) ∧
      k.live = [] ∧ k.Sound ∧ k.log = freesOfBlocks (b :: rest) ++ h.log := by
  induction rest generalizing h b with
  | nil =>
    obtain ⟨gone, clean, log⟩ := free_first sound live
    refine ⟨h.freed b.base, Settles.round rfl (fun fuel => ?_) (settles_of_eq fun _ => rfl),
      gone.eq_nil, clean, ?_⟩
    · simp only [freeBlocks, StateT.run_bind, run_free, Option.bind_eq_bind, Option.bind_some,
        headOr_nil, if_pos]
      rfl
    · simpa [freesOfBlocks] using log
  | cons c later ih =>
    obtain ⟨gone, clean, log⟩ := free_first sound live
    have kept := headers_freed held sound live enough
    have nonzero : c.base ≠ 0 := by
      have region : c.region size ∈ (h.freed b.base).live := gone.mem_iff.mpr (by simp)
      exact Nat.ne_of_gt (clean.placed _ region).1
    have next : (load 8 (nextAt c.base)).run (h.freed b.base) =
        some (headOr Block.base 0 later, h.freed b.base) :=
      kept.read (r := c.record size (headOr Block.base 0 later)) (by simp)
        (f := ⟨16, 8, headOr Block.base 0 later⟩) (by simp [Block.record])
    obtain ⟨k, settles, empty, sound_k, log_k⟩ := ih kept.tail clean gone
    refine ⟨k, Settles.round rfl (fun fuel => ?_) settles, empty, sound_k, ?_⟩
    · rw [headOr_cons]
      simp only [freeBlocks, StateT.run_bind, run_free, Option.bind_eq_bind, Option.bind_some,
        if_neg nonzero, next]
    · rw [log_k, log]
      simp [freesOfBlocks]

/-- With no stale cleanup node about, ngx_destroy_pool ends, calls each handler once and
    leaves nothing. -/
theorem ngxDestroyPool_settles (fits : Fits s h) (idle : s.loose = []) (fresh : s.stale = 0) :
    ∃ bound k, Settles (fun fuel => (ngxDestroyPool s.pool fuel).run h) bound ((), k) ∧
      k.live = [] ∧ k.Sound ∧
      k.log = freesOfBlocks s.blocks ++ (freesOf s.larges ++
        (callEvents (cleanupCalls h.bytes (s.cleanups.map CleanupNode.addr)) ++ h.log)) := by
  have whole : s.cleanups = [] ++ s.cleanups := rfl
  obtain ⟨k₁, calling, fitted, log₁⟩ := runCleanups_settles fits fresh whole
  obtain ⟨k₂, freeing, spine, sound, live, _, log₂⟩ := fitted.free_larges idle
  cases chain : s.blocks with
  | nil =>
    obtain ⟨b, here, _⟩ := fits.first_block
    simp [chain] at here
  | cons b rest =>
    have base : b.base = s.pool := by simpa [chain] using fits.start
    have held : Held k₂ (links Block.base (Block.record s.size) 0 (b :: rest)) := by
      rw [← chain]
      exact spine.sublist (List.sublist_append_left _ _)
    rw [chain] at live
    have enough : 32 ≤ s.size := by
      have size := fits.enough
      omega
    obtain ⟨k₃, ending, empty, sound₃, log₃⟩ := freeBlocks_settles held.tail sound live enough
    have next : (load 8 (nextAt b.base)).run k₂ = some (headOr Block.base 0 rest, k₂) :=
      held.read (r := b.record s.size (headOr Block.base 0 rest)) (by simp)
        (f := ⟨16, 8, headOr Block.base 0 rest⟩) (by simp [Block.record])
    have cleanup := fits.read_cleanup
    rw [fresh] at cleanup
    have start : ∀ fuel, (ngxDestroyPool s.pool fuel).run h =
        ((runCleanups fuel (headOr CleanupNode.addr 0 s.cleanups)).run h).bind fun r =>
          ((load 8 (largeAt s.pool)).run r.2).bind fun r =>
            ((freeLarges fuel r.1).run r.2).bind fun r =>
              ((load 8 (nextAt s.pool)).run r.2).bind fun r =>
                (freeBlocks fuel s.pool r.1).run r.2 := by
      intro fuel
      simp only [ngxDestroyPool, StateT.run_bind, cleanup, Option.bind_eq_bind, Option.bind_some]
    rw [base] at next ending
    have last : Settles (fun fuel => ((freeLarges fuel (headOr LargeNode.addr 0 s.larges)).run
        k₁).bind fun r => ((load 8 (nextAt s.pool)).run r.2).bind fun r =>
          (freeBlocks fuel s.pool r.1).run r.2)
        (max (s.larges.length + 1) (rest.length + 1)) ((), k₃) := by
      refine freeing.bind (ending.congr fun fuel => ?_)
      rw [next, Option.bind_some]
    refine ⟨_, k₃, (calling.bind (last.congr fun fuel => ?_)).congr start, empty, sound₃, ?_⟩
    · rw [fitted.read_large, Option.bind_some]
    · rw [log₃, log₂, log₁]

end NgxMemPool
