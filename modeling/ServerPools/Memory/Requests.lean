import ServerPools.Memory.LargeList

/- What clients ask for: ngx_palloc, ngx_pnalloc, ngx_pcalloc, ngx_pool_cleanup_add and
   ngx_pfree, each with all that it can do to the lists of the pool. -/
namespace NgxMemPool
open Malloc Records Linked Fuel

variable {s t u : Shape} {h k : Heap} {l : LargeNode} {xs ys : List LargeNode} {m n p c d : Nat}
  {align : Bool} {r : Record} {x : Small} {smalls others : List Small}

inductive PallocMove (s : Shape) (n : Nat) (align : Bool) : Nat → Shape → Prop where
  | small {m : Nat} {t : Shape} (fit : n ≤ poolMax (s.size - sizeofPool))
      (move : SmallMove s n align m t) : PallocMove s n align m t
  | large {m : Nat} {t : Shape} (above : poolMax (s.size - sizeofPool) < n)
      (move : LargeMove s n m t) : PallocMove s n align m t

theorem run_pallocWith_small (fits : Fits s h) (fit : n ≤ poolMax (s.size - sizeofPool))
    (fuel : Nat) :
    (pallocWith align s.pool fuel n).run h = (ngxPallocSmall s.pool fuel n align).run h := by
  simp only [pallocWith, StateT.run_bind, fits.read_max, Option.bind_eq_bind, Option.bind_some,
    run_ite, if_pos fit]

theorem pallocWith_settles (fits : Fits s h) (n : Nat) (align : Bool) :
    ∃ bound m t k, Settles (fun fuel => (pallocWith align s.pool fuel n).run h) bound (m, k) ∧
      PallocMove s n align m t ∧ Fits t k ∧ (m = 0 → h.Untouched k) ∧
      ∀ limit, 5 ≤ limit → s.Near limit → bound ≤ limit := by
  by_cases fit : n ≤ poolMax (s.size - sizeofPool)
  · have enough : n + 64 ≤ s.size := by
      have below := poolMax_le (s.size - sizeofPool)
      have size := fits.enough
      simp only [sizeofPool] at below fit
      omega
    obtain ⟨bound, m, t, k, settles, move, after, same, bounded⟩ :=
      ngxPallocSmall_settles fits enough align
    refine ⟨bound, m, t, k, settles.congr (run_pallocWith_small fits fit),
      PallocMove.small fit move, after, ?_, fun limit _ near => bounded limit near⟩
    · intro null
      obtain ⟨answers, rfl⟩ := same null
      exact h.untouched_answering answers
  · obtain ⟨bound, m, t, k, settles, move, after, same, bounded⟩ := ngxPallocLarge_settles fits n
    refine ⟨bound, m, t, k, settles.congr fun fuel => ?_,
      PallocMove.large (by omega) move, after, same, bounded⟩
    simp only [pallocWith, StateT.run_bind, fits.read_max, Option.bind_eq_bind, Option.bind_some,
      run_ite, if_neg fit]

/-- Only bytes of one record change, and what it is known to hold stays. -/
theorem Fits.scribble (fits : Fits s h) (member : r ∈ s.records) {bytes : Nat → UInt8}
    (same : ∀ x, ¬r.span.Has x → bytes x = h.bytes x) (holds : r.Holds bytes) :
    Fits s { h with bytes := bytes } := by
  obtain ⟨pre, post, split⟩ := List.append_of_mem member
  have perm : s.records.Perm (r :: (pre ++ post)) := by
    rw [split]
    exact List.perm_middle
  have held := (fits.held.perm perm).changed same rfl holds
  exact ⟨fits.toProper, fits.sound.wrote _, fits.live, held.perm perm.symm⟩

theorem PallocMove.blank (fits : Fits s h) (move : PallocMove s n align m t) (given : m ≠ 0) :
    Record.mk ⟨m, n⟩ [] ∈ t.records := by
  cases move with
  | small fit move =>
    rcases move.lent fits with ⟨null, _⟩ | ⟨_, _, blocks, current, rfl⟩
    · exact absurd null given
    · simp [Shape.records, Shape.body, Small.record, Small.span]
  | large above move =>
    cases move with
    | failed => exact absurd rfl given
    | reused split held empty near given =>
      simp [Shape.records, Shape.body, Shape.setLarge, Shape.grants, LargeNode.grant, given.1]
    | pushed held carved node given =>
      simp [Shape.records, Shape.body, Shape.pushLarge, Shape.grants, LargeNode.grant, given.1]

theorem ngxPcalloc_settles (fits : Fits s h) (n : Nat) :
    ∃ bound m t k, Settles (fun fuel => (ngxPcalloc s.pool fuel n).run h) bound (m, k) ∧
      PallocMove s n true m t ∧ Fits t k ∧ (m ≠ 0 → ∀ x, (Span.mk m n).Has x → k.bytes x = 0) ∧
      (m = 0 → h.Untouched k) ∧ ∀ limit, 5 ≤ limit → s.Near limit → bound ≤ limit := by
  obtain ⟨bound, m, t, k, settles, move, after, same, bounded⟩ := pallocWith_settles fits n true
  have within : ∀ limit, 5 ≤ limit → s.Near limit → max bound 0 ≤ limit := fun limit five near =>
    Nat.max_le.mpr ⟨bounded limit five near, Nat.zero_le limit⟩
  have start : ∀ fuel, (ngxPcalloc s.pool fuel n).run h =
      ((pallocWith true s.pool fuel n).run h).bind fun r =>
        if r.1 ≠ 0 then ((memset r.1 0 n).run r.2).bind fun q => some (r.1, q.2)
        else some (r.1, r.2) := by
    intro fuel
    simp only [ngxPcalloc, ngxPalloc, StateT.run_bind, Option.bind_eq_bind, run_ite]
    congr 1
  by_cases null : m = 0
  · refine ⟨_, m, t, k, (settles.bind (settles_of_eq fun fuel => ?_)).congr start, move, after,
      fun given => absurd null given, same, within⟩
    simp [null]
  · have member := move.blank fits null
    have inside := after.held.inside _ member
    have filled : Fits t (k.fill m n 0) :=
      after.scribble member (fun x outside => Bytes.fill_outside outside) (by simp [Record.Holds])
    refine ⟨_, m, t, _, (settles.bind (settles_of_eq fun fuel => ?_)).congr start, move, filled,
      fun _ x here => Bytes.fill_inside here, fun zero => absurd zero null, within⟩
    simp only [ne_eq, null, not_false_eq_true, if_true, run_memset inside, Option.bind_some]

theorem keep_perm (same : s.smalls.Perm others) : s.records.Perm (s.keep others).records := by
  apply List.perm_iff_count.mpr
  intro q
  have count := (same.map Small.record).count_eq q
  simp only [Shape.records, Shape.body, Shape.keep, Shape.headers, Shape.front, Shape.grants,
    List.count_append, List.count_cons, count]

theorem Fits.reorder (fits : Fits s h) (same : s.smalls.Perm others) : Fits (s.keep others) h := by
  refine ⟨⟨fits.enough, fits.multiple, fits.start, fits.current, fits.bumped, ?_⟩, fits.sound,
    fits.live, fits.held.perm (keep_perm same)⟩
  intro q member
  apply fits.placed q
  simp only [Shape.inner, Shape.keep, List.mem_append, (same.map Small.span).mem_iff] at member ⊢
  exact member

/-- The pool forgets a region it carved. -/
theorem Fits.drop_small (fits : Fits (s.keep (x :: smalls)) h) : Fits (s.keep smalls) h := by
  refine ⟨⟨fits.enough, fits.multiple, fits.start, fits.current, fits.bumped, ?_⟩, fits.sound,
    fits.live, (fits.held.perm (small_records s x smalls)).tail⟩
  intro q member
  apply fits.placed q
  simp only [Shape.inner, Shape.keep, List.map_cons, List.mem_append, List.mem_cons] at member ⊢
  tauto

/-- The node as ngx_pool_cleanup_add leaves it before it sets pool_->cleanup. -/
def nodeCleanup (c next data : Nat) : Small :=
  ⟨c, sizeofCleanup, [⟨16, 8, next⟩, ⟨0, 8, 0⟩, ⟨8, 8, data⟩]⟩

def Shape.pushCleanup (s : Shape) (c data : Nat) : Shape :=
  { s with cleanups := ⟨c, [⟨0, 8, 0⟩, ⟨8, 8, data⟩]⟩ :: s.cleanups }

theorem nodeCleanup_record (c next data : Nat) : (nodeCleanup c next data).record =
    (CleanupNode.mk c [⟨0, 8, 0⟩, ⟨8, 8, data⟩]).record next := rfl

theorem Fits.small_place (fits : Fits (s.keep (x :: smalls)) h) : x.addr + x.size < 2 ^ 64 := by
  obtain ⟨b, here, carved⟩ := fits.placed x.span (by simp [Shape.inner, Shape.keep])
  have small := (fits.block_place here).2.2
  have last := (fits.bumped b here).2.1
  simp only [Shape.keep] at small last
  simp only [Block.Carved, Small.span, Span.stop] at carved
  omega

theorem Fits.push_cleanup (fits : Fits (s.keep
      (nodeCleanup c (headOr CleanupNode.addr s.stale s.cleanups) d :: smalls)) h) :
    (store 8 (cleanupAt s.pool) c).run h = some ((), h.write (s.pool + 32 + 24) 8 c) ∧
      Fits ((s.keep smalls).pushCleanup c d) (h.write (s.pool + 32 + 24) 8 c) := by
  have place := fits.small_place
  simp only [nodeCleanup] at place
  obtain ⟨ran, held⟩ := (fits.held.perm (records_front _)).write (o := 24) (w := 8) (v := c)
    (t := ((s.keep smalls).pushCleanup c d).front) (by simp [Shape.front])
    (Nat.mod_eq_of_lt (by omega)) rfl (by simp [Shape.front, Shape.pushCleanup, Shape.keep])
  refine ⟨ran, ⟨fits.enough, fits.multiple, fits.start, fits.current, fits.bumped, ?_⟩,
    fits.sound.wrote _, fits.live, held.perm ?_⟩
  · intro q member
    apply fits.placed q
    simp only [Shape.inner, Shape.pushCleanup, Shape.keep, List.map_cons, List.mem_append,
      List.mem_cons, CleanupNode.span, nodeCleanup, Small.span] at member ⊢
    tauto
  · apply List.perm_iff_count.mpr
    intro q
    simp only [Shape.records, Shape.headers, Shape.body, Shape.grants, Shape.pushCleanup, Shape.keep,
      links_cons, List.map_cons, nodeCleanup_record, List.count_append, List.count_cons]
    omega

theorem Fits.cleanup_head (fits : Fits s h) :
    headOr CleanupNode.addr s.stale s.cleanups < 2 ^ 64 := by
  have stored := fits.held.value (front_mem s)
    (f := ⟨24, 8, headOr CleanupNode.addr s.stale s.cleanups⟩) (by simp [Shape.front])
  have bound := Bytes.load_bound h.bytes (s.front.addr + 24) 8
  simp only at stored
  omega

/-- ngx_pool_cleanup_add once data is stored. -/
theorem linkCleanup_run (fits : Fits (s.keep (⟨c, sizeofCleanup, [⟨8, 8, d⟩]⟩ :: smalls)) h) :
    ∃ k, (linkCleanup s.pool c).run h = some (c, k) ∧ Fits ((s.keep smalls).pushCleanup c d) k := by
  have head := fits.cleanup_head
  simp only [Shape.keep] at head
  obtain ⟨first, one⟩ := fits.write_small (o := 0) (w := 8) (v := 0) (by simp [sizeofCleanup])
    rfl (by simp)
  have read := one.read_cleanup
  obtain ⟨second, two⟩ := one.write_small (o := 16) (w := 8)
    (v := headOr CleanupNode.addr s.stale s.cleanups) (by simp [sizeofCleanup])
    (Nat.mod_eq_of_lt (by omega)) (by simp)
  obtain ⟨third, after⟩ := two.push_cleanup
  refine ⟨_, ?_, after⟩
  simp only [Shape.keep] at read
  simp only [linkCleanup, StateT.run_bind]
  rw [show (store 8 (handlerAt c) 0).run h = _ from first]
  simp only [Option.bind_eq_bind, Option.bind_some, read]
  rw [show (store 8 (cleanupNextAt c) _).run _ = _ from second]
  simp only [Option.bind_some, third, StateT.run_pure, Option.pure_def]

def Small.lease (p : Small) : Lease := ⟨p.addr, p.size, false⟩

def LargeNode.lease (l : LargeNode) : Option Lease :=
  if l.alloc = 0 then none else some ⟨l.alloc, l.bytes, true⟩

/-- What clients hold, when no region is the pool's own. -/
def Shape.leases (s : Shape) : List Lease :=
  s.smalls.map Small.lease ++ s.larges.filterMap LargeNode.lease

theorem lease_cases {s : Shape} {l : Lease} (member : l ∈ s.leases) :
    (∃ x ∈ s.smalls, x.lease = l) ∨
      ∃ u ∈ s.larges, u.alloc ≠ 0 ∧ l = ⟨u.alloc, u.bytes, true⟩ := by
  rcases List.mem_append.mp member with small | large
  · exact Or.inl (List.mem_map.mp small)
  · obtain ⟨u, here, leased⟩ := List.mem_filterMap.mp large
    unfold LargeNode.lease at leased
    split at leased
    · contradiction
    · rename_i full
      exact Or.inr ⟨u, here, full, (Option.some.inj leased).symm⟩

/-- The two pools differ in their blocks, large lists and small regions at most. -/
structure SameFrame (s t : Shape) : Prop where
  pool : t.pool = s.pool
  size : t.size = s.size
  cleanups : t.cleanups = s.cleanups
  stale : t.stale = s.stale
  loose : t.loose = s.loose

/-- A request that is served makes one lease more, of a size on its side of max. -/
structure Served (s : Shape) (n : Nat) (align : Bool) (m : Nat) (t : Shape) : Prop where
  given : m ≠ 0
  aligned : align = true → 8 ∣ m
  frame : SameFrame s t
  smalls : ∃ news, t.smalls = news ++ s.smalls
  leases : t.leases.Perm (⟨m, n, decide (poolMax (s.size - sizeofPool) < n)⟩ :: s.leases)

theorem SmallMove.served (fits : Fits s h) (fit : n ≤ poolMax (s.size - sizeofPool))
    (move : SmallMove s n align m t) : (m = 0 ∧ t = s) ∨ Served s n align m t := by
  rcases move.lent fits with failed | ⟨given, aligned, blocks, current, rfl⟩
  · exact Or.inl failed
  · have flag : decide (poolMax (s.size - sizeofPool) < n) = false := by
      simp only [decide_eq_false_iff_not]
      omega
    refine Or.inr ⟨given, aligned, ⟨rfl, rfl, rfl, rfl, rfl⟩, ⟨[⟨m, n, []⟩], rfl⟩, ?_⟩
    simp only [Shape.leases, List.map_cons, flag, Small.lease]
    exact List.Perm.refl _

theorem LargeMove.served (above : poolMax (s.size - sizeofPool) < n)
    (fits : Fits s h) (move : LargeMove s n m t) : (m = 0 ∧ t = s) ∨ Served s n align m t := by
  have flag : decide (poolMax (s.size - sizeofPool) < n) = true := decide_eq_true above
  have divides : 16 ∣ m → align = true → 8 ∣ m := fun sixteen _ => by omega
  cases move with
  | failed => exact Or.inl ⟨rfl, rfl⟩
  | @reused full behind l p split held empty near given =>
    refine Or.inr ⟨given.1, divides given.2, ⟨rfl, rfl, rfl, rfl, rfl⟩, ⟨[], rfl⟩, ?_⟩
    apply List.perm_iff_count.mpr
    intro q
    simp only [Shape.leases, Shape.setLarge, split, LargeNode.lease, List.filterMap_append,
      List.filterMap_cons, empty, if_true, if_neg given.1, flag, List.count_append,
      List.count_cons]
    omega
  | @pushed c p w held carved node given =>
    rcases carved.lent fits with ⟨null, _⟩ | ⟨_, _, blocks, current, rfl⟩
    · exact absurd null node
    · refine Or.inr ⟨given.1, divides given.2, ⟨rfl, rfl, rfl, rfl, rfl⟩, ⟨[], rfl⟩, ?_⟩
      apply List.perm_iff_count.mpr
      intro q
      simp only [Shape.leases, Shape.pushLarge, Shape.keep, LargeNode.lease, List.filterMap_cons,
        if_neg given.1, flag, List.count_append, List.count_cons]
      omega

theorem PallocMove.served (fits : Fits s h) (move : PallocMove s n align m t) :
    (m = 0 ∧ t = s) ∨ Served s n align m t := by
  cases move with
  | small fit move => exact move.served fits fit
  | large above move => exact move.served above fits

/-- All that ngx_pool_cleanup_add can do. Where only the data cannot be had, the node stays
    carved and belongs to nobody. -/
inductive CleanupMove (s : Shape) (n : Nat) : Nat → Shape → Prop where
  | refused : CleanupMove s n 0 s
  | unlinked {c : Nat} {t : Shape} (node : SmallMove s sizeofCleanup true c t) (given : c ≠ 0)
      (size : n ≠ 0) : CleanupMove s n 0 (t.keep s.smalls)
  | plain {c : Nat} {t : Shape} (node : SmallMove s sizeofCleanup true c t) (given : c ≠ 0)
      (size : n = 0) : CleanupMove s n c ((t.keep s.smalls).pushCleanup c 0)
  | withData {c d : Nat} {t u : Shape} {others : List Small}
      (node : SmallMove s sizeofCleanup true c t) (given : c ≠ 0) (size : n ≠ 0)
      (data : PallocMove t n true d u) (served : Served t n true d u)
      (rest : u.smalls.Perm (⟨c, sizeofCleanup, []⟩ :: others)) :
      CleanupMove s n c ((u.keep others).pushCleanup c d)

theorem run_ngxPoolCleanupAdd (pool fuel n : Nat) (h : Heap) :
    (ngxPoolCleanupAdd pool fuel n).run h =
      ((ngxPalloc pool fuel sizeofCleanup).run h).bind fun r =>
        if r.1 = 0 then some (0, r.2)
        else if n ≠ 0 then ((ngxPalloc pool fuel n).run r.2).bind fun q =>
          (storeData pool r.1 q.1).run q.2
        else ((store 8 (dataAt r.1) 0).run r.2).bind fun w => (linkCleanup pool r.1).run w.2 := by
  simp only [ngxPoolCleanupAdd, StateT.run_bind, Option.bind_eq_bind, run_ite, StateT.run_pure,
    Option.pure_def]

theorem PallocMove.is_small (fit : n ≤ poolMax (s.size - sizeofPool))
    (move : PallocMove s n align m t) : SmallMove s n align m t := by
  cases move with
  | small _ move => exact move
  | large above _ => omega

theorem cleanup_fits (enough : 96 ≤ s.size) : sizeofCleanup ≤ poolMax (s.size - sizeofPool) := by
  by_cases below : s.size - sizeofPool < ngxMaxAllocFromPool
  · rw [poolMax, if_pos below]
    simp only [sizeofCleanup, sizeofPool]
    omega
  · rw [poolMax, if_neg below]
    decide

/-- The store of data and what is read back. -/
theorem Fits.write_data (fits : Fits (s.keep (⟨c, sizeofCleanup, []⟩ :: smalls)) h)
    (bound : d < 2 ^ 64) :
    ∃ k, (store 8 (dataAt c) d).run h = some ((), k) ∧ (load 8 (dataAt c)).run k = some (d, k) ∧
      Fits (s.keep (⟨c, sizeofCleanup, [⟨8, 8, d⟩]⟩ :: smalls)) k := by
  obtain ⟨ran, after⟩ := fits.write_small (o := 8) (w := 8) (v := d) (by simp [sizeofCleanup])
    (Nat.mod_eq_of_lt (by omega)) (by simp)
  refine ⟨_, ran, ?_, after⟩
  have member : (Small.mk c sizeofCleanup [⟨8, 8, d⟩]).record ∈
      (s.keep (⟨c, sizeofCleanup, [⟨8, 8, d⟩]⟩ :: smalls)).records :=
    (small_records s _ smalls).mem_iff.mpr List.mem_cons_self
  exact after.held.read member (f := ⟨8, 8, d⟩) (by simp [Small.record])

theorem storeData_null (fits : Fits (s.keep (⟨c, sizeofCleanup, []⟩ :: smalls)) h) :
    ∃ k, (storeData s.pool c 0).run h = some (0, k) ∧ Fits (s.keep smalls) k := by
  obtain ⟨k, stored, read, after⟩ := fits.write_data (d := 0) (by omega)
  refine ⟨k, ?_, after.drop_small⟩
  simp only [storeData, StateT.run_bind, stored, read, Option.bind_eq_bind, Option.bind_some,
    run_ite, if_pos, StateT.run_pure, Option.pure_def]

theorem storeData_links (fits : Fits (s.keep (⟨c, sizeofCleanup, []⟩ :: smalls)) h)
    (given : d ≠ 0) (bound : d < 2 ^ 64) :
    ∃ k, (storeData s.pool c d).run h = some (c, k) ∧ Fits ((s.keep smalls).pushCleanup c d) k := by
  obtain ⟨mid, stored, read, after⟩ := fits.write_data bound
  obtain ⟨k, linked, last⟩ := linkCleanup_run after
  refine ⟨k, ?_, last⟩
  simp only [storeData, StateT.run_bind, stored, read, Option.bind_eq_bind, Option.bind_some,
    run_ite, if_neg given, linked]

theorem PallocMove.bound (fits : Fits s h) (move : PallocMove s n align m t) (after : Fits t k) :
    m < 2 ^ 64 := by
  by_cases null : m = 0
  · omega
  · obtain ⟨region, live, within⟩ := after.held.inside _ (move.blank fits null)
    have stop := (after.sound.placed region live).2.2
    simp only [Span.Within, Span.stop] at within stop
    omega

theorem ngxPoolCleanupAdd_settles (fits : Fits s h) (n : Nat) :
    ∃ bound c t k, Settles (fun fuel => (ngxPoolCleanupAdd s.pool fuel n).run h) bound (c, k) ∧
      CleanupMove s n c t ∧ Fits t k ∧ ∀ limit, 5 ≤ limit → s.Near limit →
        (∀ c t j, SmallMove s sizeofCleanup true c t → Fits t j → t.Near limit) →
        bound ≤ limit := by
  have start := fun fuel => run_ngxPoolCleanupAdd s.pool fuel n h
  obtain ⟨bound, c, t, k, node, palloc, mid, _, first⟩ := pallocWith_settles fits sizeofCleanup true
  have carved := palloc.is_small (cleanup_fits fits.enough)
  have alone : ∀ limit, 5 ≤ limit → s.Near limit → max bound 0 ≤ limit := fun limit five near =>
    Nat.max_le.mpr ⟨first limit five near, Nat.zero_le limit⟩
  rcases carved.lent fits with ⟨rfl, rfl⟩ | ⟨given, _, blocks, current, rfl⟩
  · refine ⟨_, 0, _, k, (node.bind (settles_of_eq fun fuel => ?_)).congr start,
      CleanupMove.refused, mid, fun limit five near _ => alone limit five near⟩
    rfl
  · have named : Fits ({ s with blocks := blocks, current := current }.keep
        (⟨c, sizeofCleanup, []⟩ :: s.smalls)) k := mid
    by_cases size : n = 0
    · obtain ⟨k₁, stored, _, after⟩ := named.write_data (d := 0) (by omega)
      obtain ⟨k₂, linked, last⟩ := linkCleanup_run after
      refine ⟨_, c, _, k₂, (node.bind (settles_of_eq fun fuel => ?_)).congr start,
        CleanupMove.plain carved given size, last, fun limit five near _ => alone limit five near⟩
      simp only [if_neg given, size, ne_eq, not_true_eq_false, if_false, stored, Option.bind_some]
      exact linked
    · obtain ⟨bound₂, d, u, k₁, second, data, fitted, _, last⟩ := pallocWith_settles mid n true
      have both : ∀ limit, 5 ≤ limit → s.Near limit →
          (∀ c t j, SmallMove s sizeofCleanup true c t → Fits t j → t.Near limit) →
          max bound (max bound₂ 0) ≤ limit := by
        intro limit five near between
        have left := first limit five near
        have right := last limit five (between _ _ _ carved mid)
        omega
      have small := data.bound mid fitted
      rcases data.served mid with ⟨rfl, rfl⟩ | served
      · have again : Fits ({ s with blocks := blocks, current := current }.keep
            (⟨c, sizeofCleanup, []⟩ :: s.smalls)) k₁ := fitted
        obtain ⟨k₂, ended, after⟩ := storeData_null again
        refine ⟨_, 0, _, k₂, (node.bind ((second.bind (f := fun _ q =>
          (storeData s.pool c q.1).run q.2) (settles_of_eq fun fuel => ended)).congr
          fun fuel => ?_)).congr start, CleanupMove.unlinked carved given size, after, both⟩
        simp only [if_neg given, ne_eq, size, not_false_eq_true, if_true]
        rfl
      · obtain ⟨news, smalls⟩ := served.smalls
        have rest : u.smalls.Perm (⟨c, sizeofCleanup, []⟩ :: (news ++ s.smalls)) := by
          rw [smalls]
          exact List.perm_middle
        obtain ⟨k₂, ended, after⟩ := storeData_links (fitted.reorder rest) served.given small
        rw [served.frame.pool] at ended
        refine ⟨_, c, _, k₂, (node.bind ((second.bind (f := fun _ q =>
          (storeData s.pool c q.1).run q.2) (settles_of_eq fun fuel => ended)).congr
          fun fuel => ?_)).congr start,
          CleanupMove.withData carved given size data served rest, after, both⟩
        simp only [if_neg given, ne_eq, size, not_false_eq_true, if_true]
        rfl

end NgxMemPool
