import ServerPools.Memory.Creation
import ServerPools.Memory.Notes
import ServerPools.Memory.Teardown

/- The steps of a pool's life as moves of its shape: in every state the heap holds a shape,
   and each call does to it what the code does, whatever fuel it is given. -/
namespace NgxMemPool
open Malloc Records Linked Fuel

variable {s t : State} {shape after : Shape} {h k : Heap} {a : Action} {m n p : Nat} {align : Bool}

structure Represents (s : State) (shape : Shape) : Prop where
  pool : shape.pool = s.pool
  fits : Fits shape s.heap
  idle : shape.loose = []
  leases : s.leases.Perm shape.leases
  nodes : s.nodes = shape.cleanups.map CleanupNode.addr
  aligned : ∀ p ∈ s.aligned, ngxAlignment ∣ p

/-- What a call that leaves the pool running does to its shape. -/
inductive Move (shape : Shape) : Action → Shape → Prop where
  | ngxPalloc {fuel n m : Nat} {answers : List Answer} {t : Shape}
      (move : PallocMove shape n true m t) : Move shape (.ngxPalloc fuel n answers) t
  | ngxPnalloc {fuel n m : Nat} {answers : List Answer} {t : Shape}
      (move : PallocMove shape n false m t) : Move shape (.ngxPnalloc fuel n answers) t
  | ngxPcalloc {fuel n m : Nat} {answers : List Answer} {t : Shape}
      (move : PallocMove shape n true m t) : Move shape (.ngxPcalloc fuel n answers) t
  | ngxPoolCleanupAdd {fuel n c : Nat} {answers : List Answer} {t : Shape}
      (move : CleanupMove shape n c t) : Move shape (.ngxPoolCleanupAdd fuel n answers) t
  | ngxPfree {fuel p : Nat} {t : Shape} (move : FreeMove shape p t) : Move shape (.ngxPfree fuel p) t
  | ngxResetPool {fuel : Nat} : Move shape (.ngxResetPool fuel) shape.reset
  | poke {x : Nat} {byte : UInt8} : Move shape (.poke x byte) shape.forget

theorem Represents.max (held : Represents s shape) :
    Bytes.load s.heap.bytes (maxAt s.pool) 8 = poolMax (shape.size - sizeofPool) := by
  have value := held.fits.held.value (front_mem shape)
    (f := ⟨0, 8, poolMax (shape.size - sizeofPool)⟩) (by simp [Shape.front])
  rw [← held.pool]
  exact value

theorem Represents.answering (held : Represents s shape) (answers : List Answer) :
    Fits shape (s.answering answers) := held.fits.answering answers

theorem Represents.large (held : Represents s shape) (n : Nat) :
    s.isLarge n = decide (poolMax (shape.size - sizeofPool) < n) := by
  rw [State.isLarge, held.max]

/-- The lists of leases agree again after a request. -/
theorem Represents.lent (held : Represents s shape)
    (served : (m = 0 ∧ after = shape) ∨ Served shape n align m after) :
    after.pool = s.pool ∧ after.loose = [] ∧ (s.lend m n).Perm after.leases ∧
      s.nodes = after.cleanups.map CleanupNode.addr := by
  rcases served with ⟨rfl, rfl⟩ | served
  · exact ⟨held.pool, held.idle, by simpa [State.lend] using held.leases, held.nodes⟩
  · refine ⟨served.frame.pool.trans held.pool, served.frame.loose.trans held.idle, ?_, ?_⟩
    · rw [State.lend, if_neg served.given, held.large]
      exact (held.leases.cons _).trans served.leases.symm
    · rw [served.frame.cleanups]
      exact held.nodes

theorem Represents.handOut (held : Represents s shape) (fits : Fits after k)
    (served : (m = 0 ∧ after = shape) ∨ Served shape n align m after) :
    Represents (s.handOut n m k) after := by
  obtain ⟨pool, idle, leases, nodes⟩ := held.lent served
  exact ⟨pool, fits, idle, leases, nodes, held.aligned⟩

theorem Represents.handOutAligned (held : Represents s shape) (fits : Fits after k)
    (served : (m = 0 ∧ after = shape) ∨ Served shape n true m after) :
    Represents (s.handOutAligned n m k) after := by
  obtain ⟨pool, idle, leases, nodes⟩ := held.lent served
  refine ⟨pool, fits, idle, leases, nodes, fun p member => ?_⟩
  rcases List.mem_cons.mp member with rfl | old
  · rcases served with ⟨rfl, _⟩ | served
    · exact Nat.dvd_zero _
    · exact served.aligned rfl
  · exact held.aligned p old

/-- What ngx_pool_cleanup_add leaves of the lists. -/
structure Registered (s : Shape) (n c d : Nat) (t : Shape) : Prop where
  pool : t.pool = s.pool
  size : t.size = s.size
  stale : t.stale = s.stale
  loose : t.loose = s.loose
  cleanups : t.cleanups = ⟨c, [⟨0, 8, 0⟩, ⟨8, 8, d⟩]⟩ :: s.cleanups
  data : n ≠ 0 → d ≠ 0
  leases : t.leases.Perm (if n = 0 then s.leases else
    ⟨d, n, decide (poolMax (s.size - sizeofPool) < n)⟩ :: s.leases)

theorem CleanupMove.registered (fits : Fits shape h) {c : Nat}
    (move : CleanupMove shape n c after) :
    (c = 0 ∧ SameFrame shape after ∧ after.leases = shape.leases) ∨
    c ≠ 0 ∧ ∃ d, Registered shape n c d after := by
  cases move with
  | refused => exact Or.inl ⟨rfl, ⟨rfl, rfl, rfl, rfl, rfl⟩, rfl⟩
  | unlinked node given size =>
    rcases node.lent fits with ⟨null, _⟩ | ⟨_, _, blocks, current, rfl⟩
    · exact absurd null given
    · exact Or.inl ⟨rfl, ⟨rfl, rfl, rfl, rfl, rfl⟩, rfl⟩
  | plain node given size =>
    rcases node.lent fits with ⟨null, _⟩ | ⟨_, _, blocks, current, rfl⟩
    · exact absurd null given
    · refine Or.inr ⟨given, 0, rfl, rfl, rfl, rfl, rfl, fun positive => absurd size positive, ?_⟩
      rw [if_pos size]
      exact List.Perm.refl _
  | @withData c d t u others node given size data served rest =>
    rcases node.lent fits with ⟨null, _⟩ | ⟨_, _, blocks, current, rfl⟩
    · exact absurd null given
    · refine Or.inr ⟨given, d, served.frame.pool, served.frame.size, served.frame.stale,
        served.frame.loose, ?_, fun _ => served.given, ?_⟩
      · exact congrArg (_ :: ·) served.frame.cleanups
      · rw [if_neg size]
        apply List.perm_iff_count.mpr
        intro q
        have first := (rest.map Small.lease).count_eq q
        have second := served.leases.count_eq q
        simp only [Shape.leases, Shape.pushCleanup, Shape.keep, List.map_cons, List.count_append,
          List.count_cons] at first second ⊢
        omega

/-- The code's own view of the data it has just stored. -/
theorem Registered.stored {c d : Nat} (registered : Registered shape n c d after)
    (fits : Fits after k) : Bytes.load k.bytes (dataAt c) 8 = d := by
  have split : after.cleanups = [] ++ ⟨c, [⟨0, 8, 0⟩, ⟨8, 8, d⟩]⟩ :: shape.cleanups :=
    registered.cleanups
  have value := fits.held.value (cleanup_mem split) (f := ⟨8, 8, d⟩) (by simp [CleanupNode.record])
  exact value

theorem Represents.addCleanup (held : Represents s shape) (fits : Fits after k) {c : Nat}
    (move : CleanupMove shape n c after) : Represents (s.addCleanup n c k) after := by
  rcases move.registered held.fits with ⟨rfl, frame, leases⟩ | ⟨given, d, registered⟩
  · refine ⟨frame.pool.trans held.pool, fits, frame.loose.trans held.idle, ?_, ?_,
      held.aligned⟩
    · rw [leases]
      exact held.leases
    · rw [frame.cleanups]
      exact held.nodes
  · have data := registered.stored fits
    have nodes : c :: s.nodes = after.cleanups.map CleanupNode.addr := by
      rw [registered.cleanups, held.nodes]
      rfl
    have leases := registered.leases
    by_cases size : n = 0
    · rw [if_pos size] at leases
      rw [State.addCleanup, if_neg given, if_pos size]
      exact ⟨registered.pool.trans held.pool, fits, registered.loose.trans held.idle,
        held.leases.trans leases.symm, nodes, held.aligned⟩
    · rw [if_neg size] at leases
      rw [State.addCleanup, if_neg given, if_neg size, data, State.lend,
        if_neg (registered.data size), held.large]
      exact ⟨registered.pool.trans held.pool, fits, registered.loose.trans held.idle,
        (held.leases.cons _).trans leases.symm, nodes, held.aligned⟩

/-- No two nodes hold the same region. -/
theorem alloc_alone (fits : Fits shape h) {full behind : List LargeNode} {l x : LargeNode}
    (split : shape.larges = full ++ l :: behind) (held : l.alloc ≠ 0) (later : x ∈ behind)
    (holds : x.alloc ≠ 0) : x.alloc ≠ l.alloc := by
  have own : l.region = some ⟨l.alloc, l.bytes⟩ := if_neg held
  have other : x.region = some ⟨x.alloc, x.bytes⟩ := if_neg holds
  have live := fits.live.trans (regions_large split)
  rw [own] at live
  have inside : Span.mk x.alloc x.bytes ∈ shape.loose.map Record.span ++
      (shape.blocks.map (Block.region shape.size) ++
        (full.filterMap LargeNode.region ++ behind.filterMap LargeNode.region)) := by
    have member := List.mem_filterMap.mpr ⟨x, later, other⟩
    simp only [List.mem_append]
    exact Or.inr (Or.inr (Or.inr member))
  exact fits.sound.other_start live inside

/-- The test of ngx_pfree's ghost: a lease that the call does not end. -/
def keeps (p : Nat) (l : Lease) : Bool := !(l.large && l.addr = p)

theorem smalls_kept (p : Nat) (list : List Small) :
    (list.map Small.lease).filter (keeps p) = list.map Small.lease := by
  apply List.filter_eq_self.mpr
  intro l member
  obtain ⟨x, _, rfl⟩ := List.mem_map.mp member
  rfl

theorem larges_kept {list : List LargeNode} (others : ∀ x ∈ list, x.alloc ≠ 0 → x.alloc ≠ p) :
    (list.filterMap LargeNode.lease).filter (keeps p) = list.filterMap LargeNode.lease := by
  apply List.filter_eq_self.mpr
  intro l member
  obtain ⟨x, here, leased⟩ := List.mem_filterMap.mp member
  by_cases empty : x.alloc = 0
  · simp [LargeNode.lease, empty] at leased
  · simp only [LargeNode.lease, if_neg empty, Option.some.injEq] at leased
    subst leased
    simp [keeps, others x here empty]

theorem FreeMove.leases (fits : Fits shape h) (move : FreeMove shape p after) :
    shape.leases.filter (keeps p) = after.leases := by
  cases move with
  | absent none =>
    rw [Shape.leases, List.filter_append, smalls_kept, larges_kept fun x here _ => none x here]
  | @freed full behind l split others here =>
    have gone : (l.lease.toList).filter (keeps p) = [] := by
      by_cases empty : l.alloc = 0
      · simp [LargeNode.lease, empty]
      · simp [LargeNode.lease, keeps, here]
    have later : ∀ x ∈ behind, x.alloc ≠ 0 → x.alloc ≠ p := by
      intro x inside holds
      by_cases null : l.alloc = 0
      · rwa [← here, null]
      · rw [← here]
        exact alloc_alone fits split null inside holds
    have one : ∀ u : LargeNode, (u :: behind).filterMap LargeNode.lease =
        u.lease.toList ++ behind.filterMap LargeNode.lease := by
      intro u
      cases leased : u.lease <;> simp [leased]
    have emptied : l.emptied.lease = none := rfl
    simp only [Shape.leases, Shape.setLarge, split, List.filterMap_append, one, List.filter_append,
      smalls_kept, larges_kept (fun x inside _ => others x inside), gone, larges_kept later, emptied]
    rfl

theorem Represents.giveBack (held : Represents s shape) (fits : Fits after k)
    (move : FreeMove shape p after) : Represents (s.giveBack p k) after := by
  have leases : (s.leases.filter (keeps p)).Perm after.leases := by
    rw [← move.leases held.fits]
    exact held.leases.filter _
  cases move with
  | absent none => exact ⟨held.pool, fits, held.idle, leases, held.nodes, held.aligned⟩
  | freed split others here => exact ⟨held.pool, fits, held.idle, leases, held.nodes, held.aligned⟩

theorem Represents.recycle (held : Represents s shape) (fits : Fits shape.reset k) :
    Represents (s.recycle k) shape.reset :=
  ⟨held.pool, fits, held.idle, List.Perm.refl _, rfl, held.aligned⟩

theorem Represents.open (held : Represents s shape) {x : Nat} (writable : s.Writable x) :
    shape.Open x := by
  rcases writable with ⟨l, member, inside⟩ | ⟨c, member, inside⟩
  · exact Or.inl ⟨l, held.leases.mem_iff.mp member, inside⟩
  · rw [held.nodes] at member
    obtain ⟨node, here, rfl⟩ := List.mem_map.mp member
    exact Or.inr ⟨node, here, inside⟩

theorem Represents.noting {small : Small → List Field} {large : LargeNode → List Field}
    {cleanup : CleanupNode → List Field} (held : Represents s shape)
    (smalls : ∀ p ∈ shape.smalls, ∀ f ∈ small p, f.Holds s.heap.bytes p.span)
    (larges : ∀ l ∈ shape.larges, l.alloc ≠ 0 →
      ∀ f ∈ large l, f.Holds s.heap.bytes ⟨l.alloc, l.bytes⟩)
    (cleanups : ∀ c ∈ shape.cleanups, ∀ f ∈ cleanup c, f.Holds s.heap.bytes c.span) :
    Represents s (shape.noting small large cleanup) := by
  refine ⟨held.pool, held.fits.noting smalls larges cleanups, held.idle, ?_, ?_, held.aligned⟩
  · rw [noting_leases]
    exact held.leases
  · rw [noting_nodes]
    exact held.nodes

theorem Represents.poke (held : Represents s shape) {x : Nat} (writable : s.Writable x)
    (byte : UInt8) : Represents (s.poke x byte) shape.forget := by
  refine ⟨held.pool, held.fits.poke (held.open writable) byte, held.idle, ?_, ?_, held.aligned⟩
  · change s.leases.Perm shape.forget.leases
    rw [Shape.forget, noting_leases]
    exact held.leases
  · change s.nodes = shape.forget.cleanups.map CleanupNode.addr
    rw [Shape.forget, noting_nodes]
    exact held.nodes

/-- One call on a running pool. -/
theorem operate_moves (held : Represents s shape) (taken : s.operate a = some t)
    (running : t.phase = .running) : ∃ after, Move shape a after ∧ Represents t after := by
  have same := held.pool
  cases a with
  | ngxCreatePool size answers => contradiction
  | ngxPalloc fuel n answers =>
    obtain ⟨r, ran, rfl⟩ := Option.map_eq_some_iff.mp taken
    obtain ⟨bound, m, after, k, settles, move, fits, _⟩ :=
      pallocWith_settles (held.answering answers) n true
    rw [same] at settles
    obtain rfl := settles.only fuel r ran
    exact ⟨after, .ngxPalloc move, held.handOutAligned fits (move.served held.fits)⟩
  | ngxPnalloc fuel n answers =>
    obtain ⟨r, ran, rfl⟩ := Option.map_eq_some_iff.mp taken
    obtain ⟨bound, m, after, k, settles, move, fits, _⟩ :=
      pallocWith_settles (held.answering answers) n false
    rw [same] at settles
    obtain rfl := settles.only fuel r ran
    exact ⟨after, .ngxPnalloc move, held.handOut fits (move.served held.fits)⟩
  | ngxPcalloc fuel n answers =>
    obtain ⟨r, ran, rfl⟩ := Option.map_eq_some_iff.mp taken
    obtain ⟨bound, m, after, k, settles, move, fits, _⟩ :=
      ngxPcalloc_settles (held.answering answers) n
    rw [same] at settles
    obtain rfl := settles.only fuel r ran
    exact ⟨after, .ngxPcalloc move, held.handOutAligned fits (move.served held.fits)⟩
  | ngxPoolCleanupAdd fuel n answers =>
    obtain ⟨r, ran, rfl⟩ := Option.map_eq_some_iff.mp taken
    obtain ⟨bound, c, after, k, settles, move, fits, _⟩ :=
      ngxPoolCleanupAdd_settles (held.answering answers) n
    rw [same] at settles
    obtain rfl := settles.only fuel r ran
    exact ⟨after, .ngxPoolCleanupAdd move, held.addCleanup fits move⟩
  | ngxPfree fuel p =>
    obtain ⟨r, ran, rfl⟩ := Option.map_eq_some_iff.mp taken
    obtain ⟨bound, after, k, settles, move, fits⟩ := ngxPfree_settles held.fits p
    rw [same] at settles
    obtain rfl := settles.only fuel r ran
    exact ⟨after, .ngxPfree move, held.giveBack fits move⟩
  | ngxResetPool fuel =>
    obtain ⟨r, ran, rfl⟩ := Option.map_eq_some_iff.mp taken
    obtain ⟨bound, k, settles, fits, _⟩ := ngxResetPool_settles held.fits held.idle
    rw [same] at settles
    obtain rfl := settles.only fuel r ran
    exact ⟨shape.reset, .ngxResetPool, held.recycle fits⟩
  | ngxDestroyPool fuel =>
    obtain ⟨r, ran, rfl⟩ := Option.map_eq_some_iff.mp taken
    contradiction
  | poke x byte =>
    simp only [State.operate] at taken
    split at taken
    · rename_i writable
      cases taken
      exact ⟨shape.forget, .poke, held.poke writable byte⟩
    · contradiction

end NgxMemPool
