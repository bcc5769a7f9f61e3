import ServerPools.Memory.CleanupList

/- The cleanup handlers over whole runs. A reset leaves pool_->cleanup as it is, so the list
   is safe only as long as it is empty at every reset. -/
namespace NgxMemPool
open Malloc Records Linked Fuel Machine

variable {s : State} {shape : Shape} {h : Heap}

/-- The list from pool_->cleanup is finite and holds the nodes that were added, and each of
    them is in live memory that nobody else has. -/
structure Listed (s : State) : Prop where
  follows : Follows s.cleanupNext (s.word (cleanupAt s.pool)) s.nodes
  distinct : s.nodes.Nodup
  live : ∀ c ∈ s.nodes, ∃ r ∈ s.heap.live, (Span.mk c sizeofCleanup).Within r
  leases : ∀ c ∈ s.nodes, ∀ l ∈ s.leases, ¬l.span.Meets ⟨c, sizeofCleanup⟩
  apart : s.nodes.Pairwise fun c d => ¬(Span.mk c sizeofCleanup).Meets ⟨d, sizeofCleanup⟩

theorem Represents.nodes_distinct (held : Represents s shape) : s.nodes.Nodup := by
  refine held.nodes_apart.imp fun {c d} apart same => ?_
  rw [same] at apart
  exact Span.apart_irrefl (by simp [sizeofCleanup]) apart

theorem Tidy.listed (tidy : Tidy s shape) : Listed s where
  follows := tidy.follows
  distinct := tidy.nodes_distinct
  live := by
    intro c node
    rw [tidy.nodes] at node
    obtain ⟨u, here, rfl⟩ := List.mem_map.mp node
    obtain ⟨xs, ys, split⟩ := List.append_of_mem here
    exact tidy.fits.held.inside _ (cleanup_mem split)
  leases := fun c node l member => tidy.separated.cleanups l member c node
  apart := tidy.nodes_apart.imp Span.Apart.not_meets

/-- As long as no reset finds a node on the list: the list is sound in every state, and
    ngx_destroy_pool comes to its end and calls the handler of each node on it once, with
    the data the node holds, before it frees anything. -/
theorem cleanup_list_kept (reached : Reach step Orderly initial s)
    (running : s.phase = .running) :
    Listed s ∧ ∃ bound frees, OnlyFrees frees ∧
      Settles (fun fuel => (step s (.ngxDestroyPool fuel)).map fun t => t.heap.log) bound
        (frees ++ (callEvents (cleanupCalls s.stored s.nodes) ++ s.heap.log)) := by
  obtain ⟨shape, tidy⟩ := tidy_of_reach reached running
  exact ⟨tidy.listed, tidy.log_settles running⟩

/-- A reset of an empty list, then a node whose handler the client sets. -/
def resetThenAdd : List Action :=
  [.ngxCreatePool 256 (malloced [16]), .ngxPalloc 3 8 [], .ngxResetPool 3,
    .ngxPoolCleanupAdd 3 8 [], .poke 80 7]

theorem cleanup_list_kept_reset : ∃ t, run step initial resetThenAdd = some t ∧
    cleanupCalls t.stored t.nodes = [(7, 104)] ∧
    (Listed t ∧ ∃ bound frees, OnlyFrees frees ∧
      Settles (fun fuel => (step t (.ngxDestroyPool fuel)).map fun u => u.heap.log) bound
        (frees ++ (callEvents (cleanupCalls t.stored t.nodes) ++ t.heap.log))) := by
  have ran : ∃ t ∈ run step initial resetThenAdd, t.phase = .running ∧
      cleanupCalls t.stored t.nodes = [(7, 104)] := by decide +kernel
  have obeys : Obeys step Orderly initial resetThenAdd := by decide +kernel
  obtain ⟨t, taken, running, calls⟩ := ran
  exact ⟨t, taken, calls, cleanup_list_kept (reach_of_run obeys taken) running⟩

/-- On a node that points to itself the loop of ngx_destroy_pool does not end. -/
theorem runCleanups_loops {c : Nat} (full : c ≠ 0) (inside : h.Open ⟨c, sizeofCleanup⟩)
    (silent : Bytes.load h.bytes (handlerAt c) 8 = 0)
    (loop : Bytes.load h.bytes (cleanupNextAt c) 8 = c) (fuel : Nat) :
    (runCleanups fuel c).run h = none := by
  have field : ∀ {o w}, o + w ≤ sizeofCleanup → h.Open ⟨c + o, w⟩ := by
    intro o w fits
    have within : (Span.mk (c + o) w).Within ⟨c, sizeofCleanup⟩ := field_within fits
    exact Open.within inside within
  induction fuel with
  | zero => rfl
  | succ fuel ih =>
    have handler : (load 8 (handlerAt c)).run h = some (0, h) := by
      rw [← silent]
      exact run_load (field (o := 0) (by simp [sizeofCleanup]))
    have next : (load 8 (cleanupNextAt c)).run h = some (c, h) := by
      conv_rhs => rw [← loop]
      exact run_load (field (by simp [sizeofCleanup]))
    rw [run_runCleanups, if_neg full, handler, Option.bind_some, if_pos rfl, next,
      Option.bind_some, ih]

/-- A node from before a reset and one from after it, at one address. -/
def addResetAdd : List Action :=
  [.ngxCreatePool 96 (malloced [16]), .ngxPoolCleanupAdd 3 0 [], .ngxResetPool 3,
    .ngxPoolCleanupAdd 3 0 []]

theorem cleanup_list_loops : ∃ t, run step initial addResetAdd = some t ∧
    Obeys step WellSized initial addResetAdd ∧ t.phase = .running ∧
    (∀ list, ¬Follows t.cleanupNext (t.word (cleanupAt t.pool)) list) ∧
    ∀ fuel, step t (.ngxDestroyPool fuel) = none := by
  have ran : ∃ t ∈ run step initial addResetAdd, t.phase = .running ∧ t.pool = 16 ∧
      t.word (cleanupAt 16) = 80 ∧ t.word (handlerAt 80) = 0 ∧ t.word (cleanupNextAt 80) = 80 ∧
      t.heap.live = [⟨16, 96⟩] := by decide +kernel
  obtain ⟨t, taken, running, pool, head, silent, loop, live⟩ := ran
  refine ⟨t, taken, by decide +kernel, running, ?_, fun fuel => ?_⟩
  · intro list
    rw [pool, head]
    exact not_follows_self (by decide) loop list
  · have inside : t.heap.Open ⟨80, sizeofCleanup⟩ := by
      rw [Heap.Open, live]
      decide
    have start : (load 8 (cleanupAt t.pool)).run t.heap = some (80, t.heap) := by
      have opens : t.heap.Open ⟨cleanupAt t.pool, 8⟩ := by
        rw [Heap.Open, live, pool]
        decide
      rw [run_load opens]
      rw [pool]
      exact congrArg (fun x => some (x, t.heap)) head
    rw [step_running running, State.operate, ngxDestroyPool, StateT.run_bind, start]
    simp only [Option.bind_eq_bind, Option.bind_some, StateT.run_bind,
      runCleanups_loops (by decide) inside silent loop, Option.bind_none, Option.map_none]

/-- In a run without resets: ngx_destroy_pool comes to its end, and before its first free it
    calls the handlers that are not null of the nodes added, last node first, each once and
    with the data last stored in its node. -/
theorem handlers_called_in_reverse
    (reached : Reach step (fun s a => WellSized s a ∧ ResetFree s a) initial s)
    (running : s.phase = .running) :
    s.nodes.Nodup ∧ ∃ bound frees, OnlyFrees frees ∧
      Settles (fun fuel => (step s (.ngxDestroyPool fuel)).map fun t => t.heap.log) bound
        (frees ++ (callEvents (cleanupCalls s.stored s.nodes) ++ s.heap.log)) := by
  have orderly : ∀ s a, WellSized s a ∧ ResetFree s a → Orderly s a := by
    rintro s a ⟨sized, free⟩
    refine ⟨sized, ?_⟩
    cases a <;> first | exact free.elim | trivial
  obtain ⟨shape, tidy⟩ := tidy_of_reach (reached.weaken orderly) running
  exact ⟨tidy.nodes_distinct, tidy.log_settles running⟩

/-- Two nodes with handlers, around a region of a client's. -/
def twoHandlers : List Action :=
  [.ngxCreatePool 256 (malloced [16]), .ngxPoolCleanupAdd 3 8 [], .poke 80 7, .ngxPalloc 3 8 [],
    .ngxPoolCleanupAdd 3 0 [], .poke 120 9, .poke 128 5]

theorem handlers_called_in_reverse_two : ∃ t, run step initial twoHandlers = some t ∧
    cleanupCalls t.stored t.nodes = [(9, 5), (7, 104)] ∧
    (t.nodes.Nodup ∧ ∃ bound frees, OnlyFrees frees ∧
      Settles (fun fuel => (step t (.ngxDestroyPool fuel)).map fun u => u.heap.log) bound
        (frees ++ (callEvents (cleanupCalls t.stored t.nodes) ++ t.heap.log))) := by
  have ran : ∃ t ∈ run step initial twoHandlers, t.phase = .running ∧
      cleanupCalls t.stored t.nodes = [(9, 5), (7, 104)] := by decide +kernel
  have obeys : Obeys step (fun s a => WellSized s a ∧ ResetFree s a) initial twoHandlers := by
    decide +kernel
  obtain ⟨t, taken, running, calls⟩ := ran
  exact ⟨t, taken, calls, handlers_called_in_reverse (reach_of_run obeys taken) running⟩

end NgxMemPool
