import ServerPools.Memory.CleanupList

/- What is in the regions that clients hold: no call on the pool changes a byte of it, no
   client changes a byte of the pool's own, and ngx_pcalloc gives out zeros. -/
namespace NgxMemPool
open Malloc Records Linked Fuel Machine

variable {s t : State} {shape after : Shape} {h k : Heap} {a : Action} {l : Lease} {m n p : Nat}
  {align : Bool} {r : Record}

/-- The calls that take a region away from its client. -/
def Lease.EndedBy (l : Lease) : Action → Prop
  | .ngxPfree _ p => l.large = true ∧ l.addr = p
  | .ngxResetPool _ | .ngxDestroyPool _ => True
  | _ => False

/-- What a byte is after these actions, if only clients write it. -/
def written : List Action → Nat → UInt8 → UInt8
  | [], _, byte => byte
  | .poke y new :: rest, x, byte => written rest x (if x = y then new else byte)
  | _ :: rest, x, byte => written rest x byte

theorem SmallMove.grants (move : SmallMove shape n align m after) :
    after.grants = shape.grants := by
  cases move <;> rfl

/-- A node is given a region only if it holds none. -/
theorem LargeMove.grants (move : LargeMove shape n m after)
    (member : r ∈ shape.grants) : r ∈ after.grants := by
  cases move with
  | failed => exact member
  | @reused full behind l _ split held empty near given =>
    have none : l.grant = none := if_pos empty
    rw [Shape.grants, split, List.filterMap_append, List.filterMap_cons_none none] at member
    simp only [Shape.grants, Shape.setLarge, List.filterMap_append, List.mem_append] at member ⊢
    rcases member with before | later
    · exact Or.inl before
    · obtain ⟨u, here, granted⟩ := List.mem_filterMap.mp later
      exact Or.inr (List.mem_filterMap.mpr ⟨u, List.mem_cons_of_mem _ here, granted⟩)
  | @pushed c _ t held carved node given =>
    have same := carved.grants
    have new : (LargeNode.mk c m n []).grant = some ⟨⟨m, n⟩, []⟩ := if_neg given.1
    change r ∈ (⟨c, m, n, []⟩ :: t.larges).filterMap LargeNode.grant
    rw [List.filterMap_cons_some new]
    apply List.mem_cons_of_mem
    change r ∈ t.grants
    rwa [same]

theorem PallocMove.grants (move : PallocMove shape n align m after)
    (member : r ∈ shape.grants) : r ∈ after.grants := by
  cases move with
  | small fit move => rwa [move.grants]
  | large above move => exact move.grants member

theorem PallocMove.smalls (fits : Fits shape h) (move : PallocMove shape n align m after)
    {x : Small} (member : x ∈ shape.smalls) : x ∈ after.smalls := by
  rcases move.served fits with ⟨_, rfl⟩ | served
  · exact member
  · obtain ⟨news, smalls⟩ := served.smalls
    rw [smalls]
    exact List.mem_append_right _ member

/-- ngx_pool_cleanup_add gives out at most one region, and takes none. -/
theorem CleanupMove.lent (fits : Fits shape h) {c : Nat} (move : CleanupMove shape n c after) :
    (∀ x ∈ shape.smalls, x ∈ after.smalls) ∧ ∀ r ∈ shape.grants, r ∈ after.grants := by
  cases move with
  | refused => exact ⟨fun _ here => here, fun _ here => here⟩
  | unlinked node given size =>
    have same := node.grants
    exact ⟨fun _ here => here, fun r here => same ▸ here⟩
  | plain node given size =>
    have same := node.grants
    exact ⟨fun _ here => here, fun r here => same ▸ here⟩
  | @withData c d t u others node given size data served rest =>
    rcases node.lent fits with ⟨null, _⟩ | ⟨_, _, blocks, current, rfl⟩
    · exact absurd null given
    · obtain ⟨news, smalls⟩ := served.smalls
      rw [smalls] at rest
      have same : (news ++ shape.smalls).Perm others :=
        (List.perm_middle.symm.trans rest).cons_inv
      constructor
      · intro x here
        exact same.mem_iff.mp (List.mem_append_right _ here)
      · intro r here
        exact data.grants (node.grants.symm ▸ here)

/-- A call leaves every small region to its client, and takes at most the large region that
    ngx_pfree names. -/
theorem Move.lent (fits : Fits shape h) (quiet : Quiet a) (move : Move shape a after) :
    (∀ x ∈ shape.smalls, x ∈ after.smalls) ∧
      ∀ r ∈ shape.grants, r ∈ after.grants ∨ ∃ fuel, a = .ngxPfree fuel r.addr := by
  have served : ∀ {n align m}, PallocMove shape n align m after →
      (∀ x ∈ shape.smalls, x ∈ after.smalls) ∧
        ∀ r ∈ shape.grants, r ∈ after.grants ∨ ∃ fuel, a = .ngxPfree fuel r.addr :=
    fun move => ⟨fun _ => move.smalls fits, fun _ here => Or.inl (move.grants here)⟩
  cases move with
  | ngxPalloc move => exact served move
  | ngxPnalloc move => exact served move
  | ngxPcalloc move => exact served move
  | ngxPoolCleanupAdd move =>
    obtain ⟨smalls, grants⟩ := move.lent fits
    exact ⟨smalls, fun r here => Or.inl (grants r here)⟩
  | @ngxPfree fuel p _ move =>
    cases move with
    | absent none => exact ⟨fun _ here => here, fun _ here => Or.inl here⟩
    | @freed full behind l split others here =>
      constructor
      · exact fun _ here => here
      · intro r member
        obtain ⟨u, node, granted⟩ := List.mem_filterMap.mp member
        rw [split] at node
        rcases List.mem_append.mp node with before | last
        · exact Or.inl (List.mem_filterMap.mpr ⟨u, List.mem_append_left _ before, granted⟩)
        · rcases List.mem_cons.mp last with rfl | later
          · unfold LargeNode.grant at granted
            split at granted
            · contradiction
            · cases granted
              exact Or.inr ⟨fuel, by rw [← here]⟩
          · exact Or.inl (List.mem_filterMap.mpr
              ⟨u, List.mem_append_right _ (List.mem_cons_of_mem _ later), granted⟩)
  | ngxResetPool => exact quiet.elim
  | poke => exact quiet.elim

/-- All that clients hold may be remembered. -/
def Shape.recall (s : Shape) (m : Nat → UInt8) : Shape :=
  s.noting (fun p => spelled m p.addr p.size) (fun l => spelled m l.alloc l.bytes) fun _ => []

theorem Represents.recall (held : Represents s shape) :
    Represents s (shape.recall s.heap.bytes) := by
  apply held.noting
  · exact fun p _ f member => spelled_holds rfl (Nat.le_refl _) member
  · exact fun l _ _ f member => spelled_holds rfl (Nat.le_refl _) member
  · simp

def Lease.record (l : Lease) (m : Nat → UInt8) : Record := ⟨l.span, spelled m l.addr l.size⟩

theorem recall_lease (b : Nat → UInt8) (member : l ∈ shape.leases) :
    (l.large = false ∧ ∃ x ∈ (shape.recall b).smalls, x.record = l.record b) ∨
      l.large = true ∧ l.record b ∈ (shape.recall b).grants := by
  rcases lease_cases member with ⟨x, here, rfl⟩ | ⟨u, here, full, rfl⟩
  · exact Or.inl ⟨rfl, _, List.mem_map_of_mem here, rfl⟩
  · exact Or.inr ⟨rfl, List.mem_filterMap.mpr ⟨_, List.mem_map_of_mem here, if_neg full⟩⟩

/-- No call on the pool writes to a region that a client keeps. -/
theorem Represents.bytes_kept (held : Represents s shape) (quiet : Quiet a)
    (taken : s.operate a = some t) (running : t.phase = .running) (member : l ∈ s.leases)
    (lasts : ¬l.EndedBy a) {x : Nat} (inside : l.span.Has x) : t.heap.bytes x = s.heap.bytes x := by
  have noted := held.recall
  obtain ⟨after, move, represents⟩ := operate_moves noted taken running
  obtain ⟨smalls, grants⟩ := move.lent noted.fits quiet
  have still : l.record s.heap.bytes ∈ after.lent := by
    rcases recall_lease s.heap.bytes (held.leases.mem_iff.mp member) with
      ⟨_, u, here, same⟩ | ⟨large, here⟩
    · exact List.mem_append_left _ (same ▸ List.mem_map_of_mem (smalls u here))
    · rcases grants _ here with kept | ⟨fuel, rfl⟩
      · exact List.mem_append_right _ kept
      · exact absurd ⟨large, rfl⟩ lasts
  have whole : l.record s.heap.bytes ∈ after.records := by
    rw [kept_lent represents.idle]
    exact List.mem_append_right _ still
  exact spelled_same (a := l.addr) (n := l.size) rfl (represents.fits.held.holds _ whole) inside

theorem lend_mem (member : l ∈ s.leases) (p n : Nat) : l ∈ s.lend p n := by
  unfold State.lend
  split
  · exact member
  · exact List.mem_cons_of_mem _ member

/-- A region stays with its client until a call ends it. -/
theorem lease_stays (member : l ∈ s.leases) (lasts : ¬l.EndedBy a) (taken : s.operate a = some t) :
    l ∈ t.leases := by
  cases a with
  | ngxCreatePool => contradiction
  | ngxResetPool => exact absurd trivial lasts
  | ngxDestroyPool => exact absurd trivial lasts
  | ngxPoolCleanupAdd fuel n answers =>
    obtain ⟨r, _, rfl⟩ := Option.map_eq_some_iff.mp taken
    by_cases null : r.1 = 0
    · rw [State.addCleanup, if_pos null]
      exact member
    · by_cases plain : n = 0
      · rw [State.addCleanup, if_neg null, if_pos plain]
        exact member
      · rw [State.addCleanup, if_neg null, if_neg plain]
        dsimp only
        exact lend_mem member _ n
  | ngxPfree fuel p =>
    obtain ⟨r, _, rfl⟩ := Option.map_eq_some_iff.mp taken
    have kept : (!(l.large && decide (l.addr = p))) = true := by
      cases large : l.large
      · rfl
      · have other : l.addr ≠ p := fun same => lasts ⟨large, same⟩
        simp [other]
    exact List.mem_filter.mpr ⟨member, kept⟩
  | poke x byte =>
    simp only [State.operate] at taken
    split at taken
    · cases taken
      exact member
    · contradiction
  | ngxPalloc fuel n answers | ngxPnalloc fuel n answers | ngxPcalloc fuel n answers =>
    obtain ⟨r, _, rfl⟩ := Option.map_eq_some_iff.mp taken
    dsimp only [State.handOut, State.handOutAligned]
    exact lend_mem member r.1 n

/-- One step: a byte of a region that lasts changes only by a client's store to it. -/
theorem Represents.step_bytes (held : Represents s shape) (running : s.phase = .running)
    (member : l ∈ s.leases) (lasts : ¬l.EndedBy a) (taken : step s a = some t) :
    t.phase = .running ∧ (∃ after, Represents t after) ∧ l ∈ t.leases ∧
      ∀ x, l.span.Has x → t.heap.bytes x = written [a] x (s.heap.bytes x) := by
  rw [step_running running] at taken
  have still : t.phase = .running := by
    rcases operate_phase running taken with still | ⟨fuel, rfl⟩
    · exact still
    · exact absurd trivial lasts
  obtain ⟨after, _, represents⟩ := operate_moves held taken still
  refine ⟨still, ⟨after, represents⟩, lease_stays member lasts taken, fun x inside => ?_⟩
  rcases quiet_or a with quiet | ⟨fuel, rfl⟩ | ⟨y, byte, rfl⟩
  · have kept := held.bytes_kept quiet taken still member lasts inside
    cases a with
    | poke y byte => exact quiet.elim
    | _ => exact kept
  · exact absurd trivial lasts
  · simp only [State.operate] at taken
    split at taken
    · cases taken
      exact Function.update_apply _ _ _ _
    · contradiction

theorem written_cons (a : Action) (rest : List Action) (x : Nat) (byte : UInt8) :
    written (a :: rest) x byte = written rest x (written [a] x byte) := by
  cases a <;> rfl

theorem Represents.run_bytes {actions : List Action} (held : Represents s shape)
    (running : s.phase = .running) (member : l ∈ s.leases)
    (lasts : ∀ a ∈ actions, ¬l.EndedBy a) (ran : run step s actions = some t) :
    l ∈ t.leases ∧
      ∀ x, l.span.Has x → t.heap.bytes x = written actions x (s.heap.bytes x) := by
  induction actions generalizing s shape with
  | nil =>
    obtain rfl := Option.some.inj ran
    exact ⟨member, fun _ _ => rfl⟩
  | cons a rest ih =>
    obtain ⟨mid, taken, later⟩ := Option.bind_eq_some_iff.mp ran
    obtain ⟨still, ⟨after, represents⟩, stays, bytes⟩ :=
      held.step_bytes running member (lasts a List.mem_cons_self) taken
    obtain ⟨ends, last⟩ := ih represents still stays
      (fun b here => lasts b (List.mem_cons_of_mem _ here)) later
    refine ⟨ends, fun x inside => ?_⟩
    rw [written_cons, ← bytes x inside]
    exact last x inside

/-- What clients may write is no part of what the pool keeps for itself. -/
theorem Represents.outside_spine (held : Represents s shape) {x : Nat} (writable : s.Writable x) :
    ∀ r ∈ shape.spine, ¬r.span.Has x := by
  intro r spine
  rcases held.open writable with ⟨l, member, inside⟩ | ⟨c, member, inside⟩
  · obtain ⟨_, _, _, apart⟩ := held.fits.lease held.idle member
    exact (apart r (spine_kept spine)).not_has inside
  · have apart := held.fits.held.apart
    rw [kept_lent held.idle, kept_spine] at apart
    have ⟨next, node⟩ : ∃ next, c.record next ∈
        links CleanupNode.addr CleanupNode.record shape.stale shape.cleanups := cleanup_link member
    have away := (List.pairwise_append.mp (List.pairwise_append.mp apart).1).2.2 r spine _ node
    apply away.symm.not_has
    simp only [Span.Has, Span.stop, CleanupNode.record, CleanupNode.span, sizeofCleanup] at inside ⊢
    omega

/-- The bytes that a client's store leaves alone. -/
def State.KeepsOwn (s t : State) (blocks larges : List Nat) : Prop :=
  (∀ b ∈ blocks, ∀ x, (s.header b).Has x → t.heap.bytes x = s.heap.bytes x) ∧
    ∀ u ∈ larges, ∀ x, (Span.mk u sizeofLarge).Has x → t.heap.bytes x = s.heap.bytes x

theorem Represents.poke_keeps (held : Represents s shape) (running : s.phase = .running) {x : Nat}
    {byte : UInt8} (taken : step s (.poke x byte) = some t) :
    s.KeepsOwn t (shape.blocks.map Block.base) (shape.larges.map LargeNode.addr) := by
  rw [step_running running] at taken
  simp only [State.operate] at taken
  split at taken
  · rename_i writable
    cases taken
    have away := held.outside_spine writable
    constructor
    · intro b block y inside
      obtain ⟨r, spine, has⟩ := held.header_spine block inside
      have other : y ≠ x := by
        rintro rfl
        exact away r spine has
      exact Function.update_of_ne other _ _
    · intro u node y inside
      obtain ⟨n, here, rfl⟩ := List.mem_map.mp node
      obtain ⟨r, spine, span⟩ := large_spine here
      have other : y ≠ x := by
        rintro rfl
        exact away r spine (span ▸ inside)
      exact Function.update_of_ne other _ _
  · contradiction

/-- What ngx_pcalloc gives out is a live region of zeros, from a block or from malloc. -/
theorem Represents.pcalloc_zero (held : Represents s shape) {fuel : Nat} {answers : List Answer}
    (ran : (ngxPcalloc s.pool fuel n).run (s.answering answers) = some (p, k)) (given : p ≠ 0) :
    k.Open ⟨p, n⟩ ∧ ∀ x, (Span.mk p n).Has x → k.bytes x = 0 := by
  obtain ⟨bound, m, after, j, settles, move, fits, zero, _⟩ :=
    ngxPcalloc_settles (held.answering answers) n
  rw [held.pool] at settles
  obtain ⟨rfl, rfl⟩ := Prod.mk.inj (settles.only fuel _ ran)
  exact ⟨fits.held.inside _ (move.blank held.fits given), zero given⟩

/-- In every reachable state: what a client stores in a region stays there until a call ends
    the region, clients do not touch the pool's own fields, and ngx_pcalloc zeroes. -/
theorem contents_preserved (reached : Reach step WellSized initial s)
    (running : s.phase = .running) :
    (∀ l ∈ s.leases, ∀ actions t, run step s actions = some t →
      (∀ a ∈ actions, ¬l.EndedBy a) → l ∈ t.leases ∧
        ∀ x, l.span.Has x → t.heap.bytes x = written actions x (s.heap.bytes x)) ∧
    (∃ blocks larges, Follows s.blockNext s.pool blocks ∧
      Follows s.largeNext (s.word (largeAt s.pool)) larges ∧
      ∀ x byte t, step s (.poke x byte) = some t → s.KeepsOwn t blocks larges) ∧
    ∀ fuel n answers p k, (ngxPcalloc s.pool fuel n).run (s.answering answers) = some (p, k) →
      p ≠ 0 → k.Open ⟨p, n⟩ ∧ ∀ x, (Span.mk p n).Has x → k.bytes x = 0 := by
  obtain ⟨shape, held⟩ := represents_of_reach reached running
  refine ⟨?_, ⟨_, _, held.chain, held.list, ?_⟩, ?_⟩
  · exact fun l member actions t ran lasts => held.run_bytes running member lasts ran
  · exact fun x byte t taken => held.poke_keeps running taken
  · exact fun fuel n answers p k ran given => held.pcalloc_zero ran given

/-- A client stores a byte, and then the pool carves, frees, links a node and zeroes. -/
def laterCalls : List Action :=
  [.poke 80 7, .ngxPalloc 9 16 [], .ngxPfree 9 1024, .ngxPoolCleanupAdd 9 8 (malloced [512]),
    .ngxPcalloc 9 90 (malloced [2048])]

theorem contents_preserved_stored : ∃ s t, run step initial mixedRequests = some s ∧
    run step s laterCalls = some t ∧ t.heap.bytes 80 = 7 := by
  have ran : ∃ s ∈ run step initial mixedRequests, s.phase = .running ∧
      ⟨80, 3, false⟩ ∈ s.leases ∧ ∃ t ∈ run step s laterCalls, t.phase = .running := by
    decide +kernel
  obtain ⟨s, first, running, member, t, second, _⟩ := ran
  have kept := (contents_preserved (reach_of_run mixedRequests_sized first) running).1 _ member
    laterCalls t second (by simp [laterCalls, Lease.EndedBy])
  exact ⟨s, t, first, second, kept.2 80 (by decide)⟩

end NgxMemPool
