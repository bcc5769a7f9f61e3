import ServerPools.Memory.Separation

/- The list of cleanup handlers: what keeps it a list of live nodes with the contents that
   clients gave them, and what ngx_destroy_pool makes of it. -/
namespace NgxMemPool
open Malloc Records Linked Fuel Machine

variable {s t : State} {shape after : Shape} {h k : Heap} {a : Action} {m n : Nat → UInt8}

def State.cleanupNext (s : State) (c : Nat) : Nat := s.word (cleanupNextAt c)

/-- No cleanup node is from before a reset, and each holds what its client thinks it does. -/
structure Tidy (s : State) (shape : Shape) : Prop extends Represents s shape where
  fresh : shape.stale = 0
  same : ∀ c ∈ s.nodes, ∀ x, (Span.mk c 16).Has x → s.heap.bytes x = s.stored x

/-- What is in the nodes may be remembered. -/
def Shape.remember (s : Shape) (m : Nat → UInt8) : Shape :=
  s.noting (fun _ => []) (fun _ => []) fun c => spelled m c.addr 16

theorem Represents.remember (held : Represents s shape) :
    Represents s (shape.remember s.heap.bytes) := by
  apply held.noting
  · simp
  · simp
  · exact fun c _ f member => spelled_holds rfl (by simp [CleanupNode.span, sizeofCleanup]) member

/-- Calls that neither recycle the nodes nor write what is the client's in them. -/
def Quiet : Action → Prop
  | .ngxResetPool _ => False
  | .poke _ _ => False
  | _ => True

theorem quiet_or (a : Action) :
    Quiet a ∨ (∃ fuel, a = .ngxResetPool fuel) ∨ ∃ x byte, a = .poke x byte := by
  cases a with
  | ngxResetPool fuel => exact Or.inr (Or.inl ⟨fuel, rfl⟩)
  | poke x byte => exact Or.inr (Or.inr ⟨x, byte, rfl⟩)
  | _ => exact Or.inl trivial

theorem Move.cleanups (fits : Fits shape h) (quiet : Quiet a) (move : Move shape a after) :
    after.stale = shape.stale ∧ ∀ c ∈ shape.cleanups, c ∈ after.cleanups := by
  have frame : ∀ {n align m}, PallocMove shape n align m after →
      after.stale = shape.stale ∧ ∀ c ∈ shape.cleanups, c ∈ after.cleanups := by
    intro n align m move
    rcases move.served fits with ⟨_, rfl⟩ | served
    · exact ⟨rfl, fun _ here => here⟩
    · exact ⟨served.frame.stale, fun c here => served.frame.cleanups ▸ here⟩
  cases move with
  | ngxPalloc move => exact frame move
  | ngxPnalloc move => exact frame move
  | ngxPcalloc move => exact frame move
  | ngxPoolCleanupAdd move =>
    rcases move.registered fits with ⟨_, frame, _⟩ | ⟨_, d, registered⟩
    · exact ⟨frame.stale, fun c here => frame.cleanups ▸ here⟩
    · refine ⟨registered.stale, fun c here => ?_⟩
      rw [registered.cleanups]
      exact List.mem_cons_of_mem _ here
  | ngxPfree move =>
    cases move with
    | absent none => exact ⟨rfl, fun _ here => here⟩
    | freed split others here => exact ⟨rfl, fun _ here => here⟩
  | ngxResetPool => exact quiet.elim
  | poke => exact quiet.elim

/-- What a call does to the history of the cleanup nodes. -/
theorem operate_nodes (quiet : Quiet a) (taken : s.operate a = some t)
    (running : t.phase = .running) : (t.nodes = s.nodes ∧ t.stored = s.stored) ∨
      ∃ c, t.nodes = c :: s.nodes ∧ t.stored = s.noted c t.heap := by
  cases a with
  | ngxCreatePool => contradiction
  | ngxResetPool => exact quiet.elim
  | poke => exact quiet.elim
  | ngxDestroyPool =>
    obtain ⟨r, _, rfl⟩ := Option.map_eq_some_iff.mp taken
    contradiction
  | ngxPoolCleanupAdd fuel n answers =>
    obtain ⟨r, _, rfl⟩ := Option.map_eq_some_iff.mp taken
    simp only [State.addCleanup]
    by_cases null : r.1 = 0
    · rw [if_pos null]
      exact Or.inl ⟨rfl, rfl⟩
    · rw [if_neg null]
      by_cases plain : n = 0
      · rw [if_pos plain]
        exact Or.inr ⟨r.1, rfl, rfl⟩
      · rw [if_neg plain]
        exact Or.inr ⟨r.1, rfl, rfl⟩
  | _ =>
    obtain ⟨r, _, rfl⟩ := Option.map_eq_some_iff.mp taken
    exact Or.inl ⟨rfl, rfl⟩

theorem Fits.cleanups_apart (fits : Fits shape h) :
    (shape.cleanups.map CleanupNode.span).Pairwise Span.Apart := by
  have sub : (links CleanupNode.addr CleanupNode.record shape.stale shape.cleanups).Sublist
      shape.records := by
    refine (List.Sublist.trans ?_ (List.sublist_append_right _ _))
    refine (List.Sublist.trans ?_ (List.sublist_cons_self _ _))
    exact (List.sublist_append_left _ _).trans (List.sublist_append_right _ _)
  have apart := List.pairwise_map.mpr (fits.held.apart.sublist sub)
  have spans : ∀ list, (links CleanupNode.addr CleanupNode.record shape.stale list).map Record.span =
      list.map CleanupNode.span := map_links fun _ _ => rfl
  rwa [spans] at apart

theorem Represents.nodes_apart (held : Represents s shape) :
    s.nodes.Pairwise fun c d => (Span.mk c sizeofCleanup).Apart ⟨d, sizeofCleanup⟩ := by
  rw [held.nodes]
  exact List.pairwise_map.mpr (List.pairwise_map.mp held.fits.cleanups_apart)

/-- A node's first bytes outlive a call on the pool. -/
theorem Represents.node_bytes {c x : Nat} (held : Represents t after)
    (noted : ⟨c, spelled m c 16⟩ ∈ after.cleanups) (inside : (Span.mk c 16).Has x) :
    t.heap.bytes x = m x := by
  obtain ⟨xs, ys, split⟩ := List.append_of_mem noted
  have holds : ∀ f ∈ spelled m c 16, f.Holds t.heap.bytes ⟨c, sizeofCleanup⟩ := fun f member =>
    held.fits.held.holds _ (cleanup_mem split) f (List.mem_cons_of_mem _ member)
  exact spelled_same (a := c) rfl holds inside

theorem remember_mem {c : Nat} (held : Represents s shape) (node : c ∈ s.nodes) :
    ⟨c, spelled s.heap.bytes c 16⟩ ∈ (shape.remember s.heap.bytes).cleanups := by
  rw [held.nodes] at node
  obtain ⟨u, here, rfl⟩ := List.mem_map.mp node
  exact List.mem_map.mpr ⟨u, here, rfl⟩

theorem Represents.cleanup_head (held : Represents s shape) :
    s.word (cleanupAt s.pool) = headOr CleanupNode.addr shape.stale shape.cleanups := by
  rw [← held.pool]
  have head := held.word_of (o := 24) (v := headOr CleanupNode.addr shape.stale shape.cleanups)
    (front_mem shape) (by simp [Shape.front])
  exact head

theorem poke_same {c x : Nat} (byte : UInt8)
    (same : ∀ y, (Span.mk c 16).Has y → s.heap.bytes y = s.stored y) (y : Nat)
    (inside : (Span.mk c 16).Has y) : (s.poke x byte).heap.bytes y = (s.poke x byte).stored y := by
  simp only [State.poke, Function.update_apply]
  split
  · rfl
  · exact same y inside

/-- A new node's bytes are noted, and they are not those of an older node. -/
theorem Represents.same_noted {c : Nat} (held : Represents t after) (nodes : t.nodes = c :: s.nodes)
    (stored : t.stored = s.noted c t.heap)
    (same : ∀ d ∈ s.nodes, ∀ x, (Span.mk d 16).Has x → t.heap.bytes x = s.stored x) :
    ∀ d ∈ t.nodes, ∀ x, (Span.mk d 16).Has x → t.heap.bytes x = t.stored x := by
  have apart := held.nodes_apart
  rw [nodes] at apart ⊢
  rw [stored]
  intro d member x inside
  simp only [Span.Has, Span.stop] at inside
  rcases List.mem_cons.mp member with rfl | old
  · have back : d + (x - d) = x := by omega
    rw [State.noted, Bytes.paste, if_pos inside, back]
  · have away := (List.pairwise_cons.mp apart).1 d old
    rw [State.noted, Bytes.paste_outside]
    · exact same d old x inside
    · simp only [Span.Apart, Span.Has, Span.stop, sizeofCleanup] at away ⊢
      omega

theorem Tidy.operate (tidy : Tidy s shape) (uncleaned : ResetUncleaned s a)
    (taken : s.operate a = some t) (running : t.phase = .running) : ∃ after, Tidy t after := by
  have noted := tidy.remember
  obtain ⟨after, move, held⟩ := operate_moves noted taken running
  rcases quiet_or a with quiet | ⟨fuel, rfl⟩ | ⟨x, byte, rfl⟩
  · obtain ⟨stale, kept⟩ := move.cleanups noted.fits quiet
    have bytes : ∀ c ∈ s.nodes, ∀ x, (Span.mk c 16).Has x → t.heap.bytes x = s.stored x := by
      intro c node x inside
      rw [held.node_bytes (kept _ (remember_mem tidy.toRepresents node)) inside]
      exact tidy.same c node x inside
    refine ⟨after, held, stale.trans tidy.fresh, ?_⟩
    rcases operate_nodes quiet taken running with ⟨nodes, stored⟩ | ⟨c, nodes, stored⟩
    · rw [nodes, stored]
      exact bytes
    · exact held.same_noted nodes stored bytes
  · cases move with
    | ngxResetPool =>
      have none : t.nodes = [] := held.nodes
      exact ⟨_, held, noted.cleanup_head.symm.trans uncleaned, by simp [none]⟩
  · cases move with
    | poke =>
      refine ⟨_, held, tidy.fresh, ?_⟩
      simp only [State.operate] at taken
      split at taken
      · obtain rfl := Option.some.inj taken
        exact fun c node => poke_same byte (tidy.same c node)
      · contradiction

theorem cleanupCalls_congr {nodes : List Nat}
    (same : ∀ c ∈ nodes, ∀ x, (Span.mk c 16).Has x → m x = n x) :
    cleanupCalls m nodes = cleanupCalls n nodes := by
  induction nodes with
  | nil => rfl
  | cons c rest ih =>
    have first := same c List.mem_cons_self
    have handler : Bytes.load m (handlerAt c) 8 = Bytes.load n (handlerAt c) 8 := by
      refine Bytes.load_congr fun x here => first x ?_
      simp only [handlerAt, Span.Has, Span.stop] at here ⊢
      omega
    have data : Bytes.load m (dataAt c) 8 = Bytes.load n (dataAt c) 8 := by
      refine Bytes.load_congr fun x here => first x ?_
      simp only [dataAt, Span.Has, Span.stop] at here ⊢
      omega
    rw [cleanupCalls, cleanupCalls, handler, data,
      ih fun d later => same d (List.mem_cons_of_mem _ later)]

def OnlyFrees (events : List Event) : Prop := ∀ e ∈ events, ∃ p, e = .free p

theorem onlyFrees_pool (blocks : List Block) (larges : List LargeNode) :
    OnlyFrees (freesOfBlocks blocks ++ freesOf larges) := by
  intro e member
  rcases List.mem_append.mp member with block | large
  · obtain ⟨b, _, rfl⟩ := List.mem_map.mp block
    exact ⟨b.base, rfl⟩
  · obtain ⟨r, _, rfl⟩ := List.mem_map.mp large
    exact ⟨r.start, rfl⟩

/-- What ngx_destroy_pool does: the handlers, then frees only, until nothing is left. -/
theorem Tidy.destroys (tidy : Tidy s shape) :
    ∃ bound frees k, OnlyFrees frees ∧
      Settles (fun fuel => (ngxDestroyPool s.pool fuel).run s.heap) bound ((), k) ∧
      k.live = [] ∧ k.Sound ∧
      k.log = frees ++ (callEvents (cleanupCalls s.stored s.nodes) ++ s.heap.log) := by
  obtain ⟨bound, k, settles, empty, sound, log⟩ :=
    ngxDestroyPool_settles tidy.fits tidy.idle tidy.fresh
  rw [tidy.pool] at settles
  refine ⟨bound, freesOfBlocks shape.blocks ++ freesOf shape.larges, k,
    onlyFrees_pool shape.blocks shape.larges, settles, empty, sound, ?_⟩
  rw [log, ← tidy.nodes, cleanupCalls_congr tidy.same, List.append_assoc]

/-- No ngx_reset_pool while a cleanup node is linked. -/
inductive Tended (s : State) : Prop where
  | unborn (unborn : Unborn s)
  | running {shape : Shape} (running : s.phase = .running) (tidy : Tidy s shape)
  | destroyed (destroyed : s.phase = .destroyed) (empty : s.heap.live = []) (sound : s.heap.Sound)

theorem Tended.step (tended : Tended s) (sized : WellSized s a) (uncleaned : ResetUncleaned s a)
    (taken : step s a = some t) : Tended t := by
  cases tended with
  | unborn unborn =>
    rcases unborn.step sized taken with still | ⟨p, size, running, held⟩
    · exact .unborn still
    · have none : t.nodes = [] := held.nodes
      exact .running running ⟨held, rfl, by simp [none]⟩
  | running running tidy =>
    rw [step_running running] at taken
    rcases operate_phase running taken with still | ⟨fuel, rfl⟩
    · obtain ⟨after, kept⟩ := tidy.operate uncleaned taken still
      exact .running still kept
    · obtain ⟨r, ran, rfl⟩ := Option.map_eq_some_iff.mp taken
      obtain ⟨_, _, k, _, settles, empty, sound, _⟩ := tidy.destroys
      obtain rfl := settles.only fuel r ran
      exact .destroyed rfl empty sound
  | destroyed destroyed => simp [step_destroyed destroyed] at taken

def Orderly (s : State) (a : Action) : Prop := WellSized s a ∧ ResetUncleaned s a

instance : Decidable (Orderly s a) := inferInstanceAs (Decidable (_ ∧ _))

theorem tended_of_reach (reached : Reach step Orderly initial s) : Tended s :=
  reached.invariant (.unborn unborn_initial) fun _ tended orderly taken =>
    tended.step orderly.1 orderly.2 taken

theorem tidy_of_reach (reached : Reach step Orderly initial s) (running : s.phase = .running) :
    ∃ shape, Tidy s shape := by
  cases tended_of_reach reached with
  | unborn unborn => simp [unborn.phase] at running
  | running _ tidy => exact ⟨_, tidy⟩
  | destroyed destroyed => simp [destroyed] at running

theorem Tidy.follows (tidy : Tidy s shape) :
    Follows s.cleanupNext (s.word (cleanupAt s.pool)) s.nodes := by
  rw [tidy.cleanup_head, tidy.fresh, tidy.nodes]
  apply follows_of_links
  · exact fun c here => tidy.fits.cleanup_place here
  · intro xs c ys split
    have next := tidy.fits.held.value (cleanup_mem split)
      (f := ⟨16, 8, headOr CleanupNode.addr shape.stale ys⟩) (by simp [CleanupNode.record])
    rwa [tidy.fresh] at next

/-- The log of the whole of ngx_destroy_pool. -/
theorem Tidy.log_settles (tidy : Tidy s shape) (running : s.phase = .running) :
    ∃ bound frees, OnlyFrees frees ∧
      Settles (fun fuel => (NgxMemPool.step s (.ngxDestroyPool fuel)).map fun t => t.heap.log) bound
        (frees ++ (callEvents (cleanupCalls s.stored s.nodes) ++ s.heap.log)) := by
  obtain ⟨bound, frees, k, only, settles, _, _, log⟩ := tidy.destroys
  refine ⟨bound, frees, only, ?_⟩
  rw [← log]
  refine (settles.map (f := fun r => r.2.log)).congr fun fuel => ?_
  rw [step_running running, State.operate, Option.map_map]
  rfl

end NgxMemPool
