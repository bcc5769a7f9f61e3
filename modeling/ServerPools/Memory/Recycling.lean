import ServerPools.Memory.Requests

/- Giving memory back: ngx_pfree, ngx_reset_pool and ngx_destroy_pool. -/
namespace NgxMemPool
open Malloc Records Linked Fuel

variable {s t : Shape} {h k : Heap} {l : LargeNode} {xs ys : List LargeNode} {m n p : Nat}
  {b : Block} {rest others : List Record} {base : List Span}

/-- A node as ngx_pfree leaves it. -/
def LargeNode.emptied (l : LargeNode) : LargeNode := ⟨l.addr, 0, 0, []⟩

theorem grant_spans (l : LargeNode) : l.grant.toList.map Record.span = l.region.toList := by
  unfold LargeNode.grant LargeNode.region
  split <;> rfl

theorem write_freed (h : Heap) (a w v p : Nat) :
    (h.freed p).write a w v = (h.write a w v).freed p := by
  unfold Heap.freed
  split <;> rfl

/-- alloc becomes null and its region is loose. -/
theorem Fits.detach (fits : Fits s h) (split : s.larges = xs ++ l :: ys) :
    Fits (s.setLarge xs l.emptied ys (l.grant.toList ++ s.loose)) (h.write (l.addr + 8) 8 0) := by
  obtain ⟨_, held⟩ := (fits.held.perm (records_large split)).write (o := 8) (w := 8) (v := 0)
    (t := l.emptied.record (headOr LargeNode.addr 0 ys))
    (by simp [LargeNode.record, LargeNode.span, sizeofLarge]) rfl rfl
    (by simp [LargeNode.record, LargeNode.emptied])
  refine ⟨fits.toProper.set_large (u := l.emptied) split rfl _, fits.sound.wrote _, ?_, ?_⟩
  · refine (fits.live.trans (regions_large split)).trans
      (List.Perm.trans ?_ (setLarge_regions s _).symm)
    rw [List.map_append, grant_spans]
    exact List.Perm.refl _
  · exact held.perm (setLarge_records (u := l.emptied) split rfl _).symm

/-- free and alloc = NULL in ngx_pfree. -/
theorem Fits.free_node (fits : Fits s h) (split : s.larges = xs ++ l :: ys) :
    (store 8 (allocAt l.addr) 0).run (h.freed l.alloc) =
        some ((), (h.freed l.alloc).write (l.addr + 8) 8 0) ∧
      Fits (s.setLarge xs l.emptied ys s.loose) ((h.freed l.alloc).write (l.addr + 8) 8 0) := by
  have detached := fits.detach split
  have after : Fits (s.setLarge xs l.emptied ys s.loose)
      ((h.freed l.alloc).write (l.addr + 8) 8 0) := by
    rw [write_freed]
    by_cases empty : l.alloc = 0
    · have none : l.grant = none := by simp [LargeNode.grant, empty]
      rw [none] at detached
      simpa [Heap.freed, empty] using detached
    · have some_grant : l.grant = some ⟨⟨l.alloc, l.bytes⟩, l.known⟩ := if_neg empty
      rw [some_grant] at detached
      exact Fits.release (s := s.setLarge xs l.emptied ys s.loose) detached
  refine ⟨run_store ?_, after⟩
  have member := large_mem (s := s.setLarge xs l.emptied ys s.loose) rfl
  exact after.held.opens member (f := ⟨8, 8, 0⟩) (by simp [LargeNode.record, LargeNode.emptied])

/-- All that ngx_pfree can do: empty the first node that holds p, or nothing. -/
inductive FreeMove (s : Shape) (p : Nat) : Shape → Prop where
  | freed {full behind : List LargeNode} {l : LargeNode} (split : s.larges = full ++ l :: behind)
      (others : ∀ x ∈ full, x.alloc ≠ p) (here : l.alloc = p) :
      FreeMove s p (s.setLarge full l.emptied behind s.loose)
  | absent (none : ∀ x ∈ s.larges, x.alloc ≠ p) : FreeMove s p s

theorem run_freeNode (fits : Fits s h) (split : s.larges = xs ++ l :: ys) (fuel : Nat) :
    (freeNode p (fuel + 1) l.addr).run h =
      if p = l.alloc then some ((), (h.freed l.alloc).write (l.addr + 8) 8 0)
      else (freeNode p fuel (headOr LargeNode.addr 0 ys)).run h := by
  have nonzero := (fits.large_place (l := l) (by simp [split])).1
  have ran := (fits.free_node split).1
  simp only [freeNode, run_ite, if_neg nonzero, StateT.run_bind, fits.read_alloc split,
    Option.bind_eq_bind, Option.bind_some, fits.read_large_next split, run_free, ran]

theorem freeNode_settles (fits : Fits s h) (split : s.larges = xs ++ ys)
    (others : ∀ x ∈ xs, x.alloc ≠ p) :
    ∃ t k, Settles (fun fuel => (freeNode p fuel (headOr LargeNode.addr 0 ys)).run h)
      (ys.length + 1) ((), k) ∧ FreeMove s p t ∧ Fits t k := by
  induction ys generalizing xs with
  | nil =>
    have none : ∀ x ∈ s.larges, x.alloc ≠ p := by simpa [split] using others
    refine ⟨s, h, Settles.round rfl (fun fuel => ?_) (settles_of_eq fun _ => rfl),
      FreeMove.absent none, fits⟩
    rfl
  | cons l behind ih =>
    by_cases here : p = l.alloc
    · refine ⟨_, _, Settles.round rfl (fun fuel => ?_)
        ((settles_of_eq fun _ => rfl).widen (Nat.zero_le _)),
        FreeMove.freed split others here.symm, (fits.free_node split).2⟩
      rw [headOr_cons, run_freeNode fits split, if_pos here]
    · have later : s.larges = (xs ++ [l]) ++ behind := by simp [split]
      have more : ∀ x ∈ xs ++ [l], x.alloc ≠ p := by
        intro x member
        rcases List.mem_append.mp member with before | last
        · exact others x before
        · obtain rfl := List.mem_singleton.mp last
          exact fun same => here same.symm
      obtain ⟨t, k, settles, move, after⟩ := ih later more
      refine ⟨t, k, Settles.round rfl (fun fuel => ?_) settles, move, after⟩
      rw [headOr_cons, run_freeNode fits split, if_neg here]

theorem ngxPfree_settles (fits : Fits s h) (p : Nat) :
    ∃ bound t k, Settles (fun fuel => (ngxPfree s.pool fuel p).run h) bound ((), k) ∧
      FreeMove s p t ∧ Fits t k := by
  have whole : s.larges = [] ++ s.larges := rfl
  obtain ⟨t, k, settles, move, after⟩ := freeNode_settles (p := p) fits whole (by simp)
  refine ⟨_, t, k, settles.congr fun fuel => ?_, move, after⟩
  simp only [ngxPfree, StateT.run_bind, fits.read_large, Option.bind_eq_bind, Option.bind_some]

/-- The frees of the loop over the large list, last one first. -/
def freesOf (larges : List LargeNode) : List Event :=
  (larges.filterMap LargeNode.region).reverse.map fun r => Event.free r.start

/-- Freeing null changes nothing, so the test of alloc is a free either way. -/
theorem run_freeLarges (fuel p : Nat) (h : Heap) : (freeLarges (fuel + 1) p).run h =
    if p = 0 then some ((), h)
    else ((load 8 (allocAt p)).run h).bind fun r =>
      ((load 8 (largeNextAt p)).run (r.2.freed r.1)).bind fun q => (freeLarges fuel q.1).run q.2 := by
  rw [freeLarges, run_ite]
  by_cases null : p = 0
  · rw [if_pos null, if_pos null]
    rfl
  · rw [if_neg null, if_neg null, StateT.run_bind]
    congr 1
    funext r
    by_cases empty : r.1 = 0
    · simp [empty, Heap.freed]
    · simp [empty]

theorem run_freeLarges_node (held : Held h others)
    (member : l.record (headOr LargeNode.addr 0 ys) ∈ others) (full : l.addr ≠ 0)
    (kept : Held (h.freed l.alloc) others) (fuel : Nat) : (freeLarges (fuel + 1) l.addr).run h =
      (freeLarges fuel (headOr LargeNode.addr 0 ys)).run (h.freed l.alloc) := by
  have alloc : (load 8 (allocAt l.addr)).run h = some (l.alloc, h) :=
    held.read member (f := ⟨8, 8, l.alloc⟩) (by simp [LargeNode.record])
  have next : (load 8 (largeNextAt l.addr)).run (h.freed l.alloc) =
      some (headOr LargeNode.addr 0 ys, h.freed l.alloc) :=
    kept.read member (f := ⟨0, 8, headOr LargeNode.addr 0 ys⟩) (by simp [LargeNode.record])
  rw [run_freeLarges, if_neg full, alloc, Option.bind_some, next, Option.bind_some]

/-- The large regions go back while the nodes keep their contents. -/
theorem freeLarges_settles (held : Held h others) (sound : h.Sound)
    (live : h.live.Perm (ys.filterMap LargeNode.region ++ base))
    (homes : ∀ r ∈ others, ∃ q ∈ base, r.span.Within q) (full : ∀ l ∈ ys, l.addr ≠ 0)
    (nodes : ∀ r ∈ links LargeNode.addr LargeNode.record 0 ys, r ∈ others) :
    ∃ k, Settles (fun fuel => (freeLarges fuel (headOr LargeNode.addr 0 ys)).run h)
        (ys.length + 1) ((), k) ∧
      Held k others ∧ k.Sound ∧ k.live.Perm base ∧ k.bytes = h.bytes ∧
      k.log = freesOf ys ++ h.log := by
  induction ys generalizing h with
  | nil =>
    refine ⟨h, Settles.round rfl (fun fuel => ?_) (settles_of_eq fun _ => rfl), held, sound, live,
      rfl, rfl⟩
    rfl
  | cons l rest ih =>
    have member : l.record (headOr LargeNode.addr 0 rest) ∈ others := nodes _ List.mem_cons_self
    have nonzero : l.addr ≠ 0 := full l List.mem_cons_self
    have later : ∀ x ∈ rest, x.addr ≠ 0 := fun x inside => full x (List.mem_cons_of_mem _ inside)
    have fewer : ∀ r ∈ links LargeNode.addr LargeNode.record 0 rest, r ∈ others :=
      fun r inside => nodes r (List.mem_cons_of_mem _ inside)
    by_cases empty : l.alloc = 0
    · have none : l.region = none := by simp [LargeNode.region, empty]
      have same : h.freed l.alloc = h := by simp [Heap.freed, empty]
      have round := run_freeLarges_node held member nonzero (by rwa [same])
      rw [same] at round
      rw [List.filterMap_cons_none none] at live
      obtain ⟨k, settles, facts⟩ := ih held sound live later fewer
      refine ⟨k, Settles.round rfl round settles, ?_⟩
      simpa only [freesOf, List.filterMap_cons_none none] using facts
    · have region : l.region = some ⟨l.alloc, l.bytes⟩ := if_neg empty
      rw [List.filterMap_cons_some region, List.cons_append] at live
      have gone := sound.freed_perm live
      have kept : Held (h.freed l.alloc) others := by
        apply held.freed
        intro r inside
        obtain ⟨q, there, within⟩ := homes r inside
        have other : q ∈ rest.filterMap LargeNode.region ++ base := List.mem_append_right _ there
        exact ⟨q, live.mem_iff.mpr (List.mem_cons_of_mem _ other), sound.other_start live other,
          within⟩
      have clean : (h.freed l.alloc).Sound :=
        sound.freed fun _ => ⟨⟨l.alloc, l.bytes⟩, live.mem_iff.mpr List.mem_cons_self, rfl⟩
      obtain ⟨k, settles, held_k, sound_k, live_k, bytes, log⟩ := ih kept clean gone later fewer
      have freed : (h.freed l.alloc).bytes = h.bytes ∧
          (h.freed l.alloc).log = .free l.alloc :: h.log := by
        simp [Heap.freed, empty]
      refine ⟨k, Settles.round rfl (run_freeLarges_node held member nonzero kept) settles, held_k,
        sound_k, live_k, bytes.trans freed.1, ?_⟩
      rw [log, freed.2]
      simp only [freesOf, List.filterMap_cons_some region, List.reverse_cons, List.map_append,
        List.map_cons, List.map_nil, List.append_assoc, List.cons_append, List.nil_append]

def Block.rewound (b : Block) : Block := ⟨b.base, b.base + sizeofPool, 0⟩

/-- The stores to last and failed in ngx_reset_pool. -/
theorem Held.rewind {size : Nat} {pre post : List Block}
    (held : Held h (links Block.base (Block.record size) 0 (pre ++ b :: post) ++ others))
    (small : b.base + sizeofPool < 2 ^ 64) :
    ∃ k, (store 8 (lastAt b.base) (b.base + sizeofPool)).run h =
        some ((), h.write b.base 8 (b.base + sizeofPool)) ∧
      (store 4 (failedAt b.base) 0).run (h.write b.base 8 (b.base + sizeofPool)) = some ((), k) ∧
      Held k (links Block.base (Block.record size) 0 (pre ++ b.rewound :: post) ++ others) ∧
      (∃ bytes, k = { h with bytes := bytes }) := by
  have single : ∀ c : Block, c.base = b.base →
      (links Block.base (Block.record size) 0 (pre ++ c :: post) ++ others).Perm
        (c.record size (headOr Block.base 0 post) :: (links Block.base (Block.record size) b.base pre ++
          (links Block.base (Block.record size) 0 post ++ others))) := by
    intro c same
    apply List.perm_iff_count.mpr
    intro q
    simp only [links_append, headOr_cons, links_cons, same, List.count_append, List.count_cons]
    omega
  obtain ⟨first, one⟩ := (held.perm (single b rfl)).write (o := 0) (w := 8) (v := b.base + sizeofPool)
    (t := Block.record size ⟨b.base, b.base + sizeofPool, b.failed⟩ (headOr Block.base 0 post))
    (by simp [Block.record, sizeofPoolData]) (Nat.mod_eq_of_lt (by omega)) rfl (by simp [Block.record])
  obtain ⟨second, two⟩ := one.write (o := 24) (w := 4) (v := 0)
    (t := b.rewound.record size (headOr Block.base 0 post))
    (by simp [Block.record, sizeofPoolData]) rfl rfl (by simp [Block.record, Block.rewound])
  exact ⟨_, first, second, two.perm (single b.rewound rfl).symm, _, rfl⟩

theorem rewindBlocks_settles {size : Nat} {pre post : List Block}
    (held : Held h (links Block.base (Block.record size) 0 (pre ++ post) ++ others))
    (places : ∀ b ∈ post, b.base ≠ 0 ∧ b.base + sizeofPool < 2 ^ 64) :
    ∃ bytes, Settles (fun fuel => (rewindBlocks fuel (headOr Block.base 0 post)).run h)
        (post.length + 1) ((), { h with bytes := bytes }) ∧
      Held { h with bytes := bytes }
        (links Block.base (Block.record size) 0 (pre ++ post.map Block.rewound) ++ others) := by
  induction post generalizing pre h with
  | nil =>
    refine ⟨h.bytes, Settles.round rfl (fun fuel => ?_) (settles_of_eq fun _ => rfl), by
      simpa using held⟩
    rfl
  | cons b rest ih =>
    obtain ⟨full, small⟩ := places b List.mem_cons_self
    obtain ⟨k, first, second, wrote, bytes, rfl⟩ := Held.rewind held small
    have later : Held { h with bytes := bytes }
        (links Block.base (Block.record size) 0 ((pre ++ [b.rewound]) ++ rest) ++ others) := by
      simpa using wrote
    have member : b.rewound.record size (headOr Block.base 0 rest) ∈
        links Block.base (Block.record size) 0 (pre ++ b.rewound :: rest) ++ others := by
      simp [links_append]
    have next : (load 8 (nextAt b.base)).run { h with bytes := bytes } =
        some (headOr Block.base 0 rest, { h with bytes := bytes }) :=
      wrote.read member (f := ⟨16, 8, headOr Block.base 0 rest⟩) (by simp [Block.record])
    obtain ⟨last, settles, done⟩ := ih later fun c inside =>
      places c (List.mem_cons_of_mem _ inside)
    refine ⟨last, Settles.round rfl (fun fuel => ?_) settles, by simpa using done⟩
    rw [headOr_cons, rewindBlocks, run_ite, if_neg full]
    simp only [StateT.run_bind, first, second, Option.bind_eq_bind, Option.bind_some, next]

/-- The pool after a reset. What was the cleanup list is not looked at any more. -/
def Shape.reset (s : Shape) : Shape :=
  { s with
    blocks := s.blocks.map Block.rewound
    current := s.pool
    larges := []
    cleanups := []
    stale := headOr CleanupNode.addr s.stale s.cleanups
    smalls := [] }

theorem floor_le (s : Shape) (b : Block) : s.floor b ≤ b.base + sizeofPool := by
  unfold Shape.floor
  split
  · exact Nat.le_refl _
  · simp only [sizeofPool, sizeofPoolData]
    omega

theorem Proper.reset (proper : Proper s) : Proper s.reset := by
  have blocks : ∀ b ∈ s.reset.blocks, ∃ c ∈ s.blocks, b = c.rewound := by
    intro b member
    obtain ⟨c, here, same⟩ := List.mem_map.mp member
    exact ⟨c, here, same.symm⟩
  refine ⟨proper.enough, proper.multiple, ?_, ?_, ?_, by simp [Shape.inner, Shape.reset]⟩
  · have start := proper.start
    cases chain : s.blocks with
    | nil => simpa [Shape.reset, chain] using start
    | cons b rest => simpa [Shape.reset, chain, Block.rewound] using start
  · obtain ⟨b, here, base⟩ := proper.first_block
    exact ⟨b.rewound, List.mem_map_of_mem here, base⟩
  · intro b member
    obtain ⟨c, here, rfl⟩ := blocks b member
    have size := proper.enough
    refine ⟨floor_le s.reset c.rewound, ?_, by simp [Block.rewound]⟩
    simp only [Block.rewound, Shape.reset, sizeofPool]
    omega

/-- The records that the loops over the lists read. -/
def Shape.spine (s : Shape) : List Record :=
  s.headers 0 s.blocks ++ s.front :: links LargeNode.addr LargeNode.record 0 s.larges

theorem spine_sublist (s : Shape) : s.spine.Sublist s.records :=
  (List.Sublist.refl _).append ((List.sublist_append_left _ _).cons_cons s.front)

theorem Proper.spine_home (proper : Proper s) {r : Record} (member : r ∈ s.spine) :
    ∃ q ∈ s.blocks.map (Block.region s.size), r.span.Within q := by
  have carved : ∃ b ∈ s.blocks, b.Covers r.span := by
    simp only [Shape.spine, List.mem_append, List.mem_cons] at member
    rcases member with header | front | large
    · exact proper.carved (Or.inl header)
    · exact proper.carved (Or.inr (Or.inl front))
    · obtain ⟨n, here, next, rfl⟩ := mem_links large
      refine proper.carved (Or.inr (Or.inr ?_))
      simp only [Shape.inner, List.mem_append]
      exact Or.inl (List.mem_map_of_mem here)
  obtain ⟨b, here, covers⟩ := carved
  exact ⟨b.region s.size, List.mem_map_of_mem here, covers_within covers (proper.bumped b here).2.1⟩

/-- The loop over the large list, as ngx_reset_pool and ngx_destroy_pool come to it. -/
theorem Fits.free_larges (fits : Fits s h) (idle : s.loose = []) :
    ∃ k, Settles (fun fuel => (freeLarges fuel (headOr LargeNode.addr 0 s.larges)).run h)
        (s.larges.length + 1) ((), k) ∧
      Held k s.spine ∧ k.Sound ∧ k.live.Perm (s.blocks.map (Block.region s.size)) ∧
      k.bytes = h.bytes ∧ k.log = freesOf s.larges ++ h.log := by
  apply freeLarges_settles (fits.held.sublist (spine_sublist s)) fits.sound
  · refine fits.live.trans ?_
    simp only [Shape.regions, Shape.outer, idle, List.map_nil, List.append_nil]
    exact List.perm_append_comm
  · exact fun r member => fits.spine_home member
  · exact fun l here => (fits.large_place here).1
  · intro r member
    exact List.mem_append_right _ (List.mem_cons_of_mem _ member)

theorem reset_records (idle : s.loose = []) :
    s.reset.records = links Block.base (Block.record s.size) 0 (s.blocks.map Block.rewound) ++
      [s.reset.front] := by
  simp [Shape.records, Shape.body, Shape.reset, Shape.headers, Shape.grants, idle]

theorem reset_regions (idle : s.loose = []) :
    s.reset.regions = s.blocks.map (Block.region s.size) := by
  simp [Shape.regions, Shape.outer, Shape.reset, idle, Function.comp_def, Block.region,
    Block.rewound]

/-- The last two stores of ngx_reset_pool. -/
theorem Held.reset_front (held : Held h (others ++ [s.front])) (small : s.pool < 2 ^ 64) :
    ∃ k bytes, (store 8 (currentAt s.pool) s.pool).run h = some ((), k) ∧
      (store 8 (largeAt s.pool) 0).run k = some ((), { h with bytes := bytes }) ∧
      Held { h with bytes := bytes } (others ++ [s.reset.front]) := by
  obtain ⟨first, one⟩ := (held.perm (List.perm_append_singleton _ _)).write (o := 8)
    (w := 8) (v := s.pool)
    (t := { s with current := s.pool }.front) (by simp [Shape.front])
    (Nat.mod_eq_of_lt (by omega)) rfl (by simp [Shape.front])
  obtain ⟨second, two⟩ := one.write (o := 16) (w := 8) (v := 0) (t := s.reset.front)
    (by simp [Shape.front]) rfl rfl (by simp [Shape.front, Shape.reset])
  exact ⟨_, _, first, second, two.perm (List.perm_append_singleton _ _).symm⟩

theorem ngxResetPool_settles (fits : Fits s h) (idle : s.loose = []) :
    ∃ bound k, Settles (fun fuel => (ngxResetPool s.pool fuel).run h) bound ((), k) ∧
      Fits s.reset k ∧ k.log = freesOf s.larges ++ h.log := by
  obtain ⟨k₁, freeing, spine, sound, live, _, log⟩ := fits.free_larges idle
  have places : ∀ b ∈ s.blocks, b.base ≠ 0 ∧ b.base + sizeofPool < 2 ^ 64 := by
    intro b here
    obtain ⟨_, positive, small⟩ := fits.block_place here
    have size := fits.enough
    simp only [sizeofPool]
    omega
  cases chain : s.blocks with
  | nil =>
    obtain ⟨b, here, _⟩ := fits.first_block
    simp [chain] at here
  | cons b rest =>
    have base : b.base = s.pool := by simpa [chain] using fits.start
    have held : Held k₁ (links Block.base (Block.record s.size) 0 ([] ++ b :: rest) ++ [s.front]) := by
      rw [List.nil_append, ← chain]
      exact spine.sublist ((List.Sublist.refl _).append
        ((List.nil_sublist _).cons_cons s.front))
    obtain ⟨k₂, last, failed, rewound, bytes, rfl⟩ :=
      Held.rewind held (places b (by simp [chain])).2
    have next : (load 8 (nextAt b.base)).run { k₁ with bytes := bytes } =
        some (headOr Block.base 0 rest, { k₁ with bytes := bytes }) :=
      rewound.read (r := b.rewound.record s.size (headOr Block.base 0 rest)) (by simp)
        (f := ⟨16, 8, headOr Block.base 0 rest⟩) (by simp [Block.record])
    have front : Held { k₁ with bytes := bytes }
        (links Block.base (Block.record s.size) 0 ([b.rewound] ++ rest) ++ [s.front]) := rewound
    obtain ⟨later, walk, done⟩ := rewindBlocks_settles front
      fun c inside => places c (by simp [chain, inside])
    obtain ⟨k₃, ended, current, large, whole⟩ := Held.reset_front done (by
      have place := (places b (by simp [chain])).2
      omega)
    have start : ∀ fuel, (ngxResetPool s.pool fuel).run h =
        ((freeLarges fuel (headOr LargeNode.addr 0 s.larges)).run h).bind fun r =>
          ((store 8 (lastAt s.pool) (s.pool + sizeofPool)).run r.2).bind fun r =>
            ((store 4 (failedAt s.pool) 0).run r.2).bind fun r =>
              ((load 8 (nextAt s.pool)).run r.2).bind fun r =>
                ((rewindBlocks fuel r.1).run r.2).bind fun r =>
                  ((store 8 (currentAt s.pool) s.pool).run r.2).bind fun r =>
                    (store 8 (largeAt s.pool) 0).run r.2 := by
      intro fuel
      simp only [ngxResetPool, StateT.run_bind, fits.read_large, Option.bind_eq_bind,
        Option.bind_some]
    rw [base] at last failed next
    have finish : Settles (fun fuel => ((rewindBlocks fuel (headOr Block.base 0 rest)).run
        { k₁ with bytes := bytes }).bind fun r =>
          ((store 8 (currentAt s.pool) s.pool).run r.2).bind fun r =>
            (store 8 (largeAt s.pool) 0).run r.2) (max (rest.length + 1) 0)
        ((), { k₁ with bytes := ended }) := by
      refine walk.bind (settles_of_eq fun fuel => ?_)
      rw [current, Option.bind_some]
      exact large
    refine ⟨_, _, (freeing.bind (f := fun fuel r =>
        ((store 8 (lastAt s.pool) (s.pool + sizeofPool)).run r.2).bind fun r =>
          ((store 4 (failedAt s.pool) 0).run r.2).bind fun r =>
            ((load 8 (nextAt s.pool)).run r.2).bind fun r =>
              ((rewindBlocks fuel r.1).run r.2).bind fun r =>
                ((store 8 (currentAt s.pool) s.pool).run r.2).bind fun r =>
                  (store 8 (largeAt s.pool) 0).run r.2)
        (finish.congr fun fuel => by
          simp only [last, failed, next, Option.bind_some])).congr start, ⟨fits.toProper.reset, sound.wrote _, ?_, ?_⟩, log⟩
    · rw [reset_regions idle]
      exact live
    · rw [reset_records idle, chain]
      exact whole

end NgxMemPool
