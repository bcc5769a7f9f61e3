import ServerPools.Memory.Separation

/- Whether small regions stay inside their blocks. The end of a block is aligned only if
   the pool's size is, and the room test of ngx_palloc_small counts on that. -/
namespace NgxMemPool
open Malloc Records Linked Machine

variable {s t : State} {shape : Shape} {h k : Heap} {blocks larges : List Nat}
  {base size last : Nat} {align : Bool}

def State.blockLast (s : State) (p : Nat) : Nat := s.word (lastAt p)

def State.blockEnd (s : State) (p : Nat) : Nat := s.word (endAt p)

/-- Behind the header of the block at b and before its end. -/
def State.InBlock (s : State) (b : Nat) (p : Span) : Prop :=
  b + sizeofPoolData ≤ p.start ∧ p.stop ≤ s.blockEnd b

/-- difference is what ngx_palloc_small would subtract in a call made now. -/
structure Bounded (s : State) (blocks larges : List Nat) : Prop where
  chain : Follows s.blockNext s.pool blocks
  list : Follows s.largeNext (s.word (largeAt s.pool)) larges
  last : ∀ b ∈ blocks, s.blockLast b ≤ s.blockEnd b
  difference : ∀ b ∈ blocks, ∀ align, room align (s.blockLast b) ≤ s.blockEnd b
  smalls : ∀ l ∈ s.leases, l.large = false → ∃ b ∈ blocks, s.InBlock b l.span
  nodes : ∀ n ∈ larges, ∃ b ∈ blocks, s.InBlock b ⟨n, sizeofLarge⟩

/-- A pool of this size and nothing but requests for memory, resets and what clients do. -/
def AllocatesFrom (size : Nat) : State → Action → Prop
  | _, .ngxCreatePool n _ => n = size
  | _, .ngxPoolCleanupAdd _ _ _ => False
  | _, .ngxPfree _ _ => False
  | _, .ngxDestroyPool _ => False
  | _, _ => True

theorem Represents.block_words (held : Represents s shape) {b : Block} (here : b ∈ shape.blocks) :
    s.blockLast b.base = b.last ∧ s.blockEnd b.base = b.base + shape.size := by
  obtain ⟨next, member⟩ := header_mem here
  have first := held.word_of (o := 0) (v := b.last) member (by simp [Block.record])
  have second := held.word_of (o := 8) (v := b.base + shape.size) member (by simp [Block.record])
  exact ⟨first, second⟩

theorem Represents.in_block (held : Represents s shape) {p : Span} (inner : p ∈ shape.inner) :
    ∃ b ∈ shape.blocks.map Block.base, s.InBlock b p := by
  obtain ⟨b, here, low, high⟩ := held.fits.placed p inner
  refine ⟨b.base, List.mem_map_of_mem here, low, ?_⟩
  rw [(held.block_words here).2]
  exact Nat.le_trans high (held.fits.bumped b here).2.1

theorem Represents.bounded (held : Represents s shape) :
    Bounded s (shape.blocks.map Block.base) (shape.larges.map LargeNode.addr) where
  chain := held.chain
  list := held.list
  last := by
    intro p member
    obtain ⟨b, here, rfl⟩ := List.mem_map.mp member
    obtain ⟨last, stop⟩ := held.block_words here
    rw [last, stop]
    exact (held.fits.bumped b here).2.1
  difference := by
    intro p member align
    obtain ⟨b, here, rfl⟩ := List.mem_map.mp member
    obtain ⟨last, stop⟩ := held.block_words here
    rw [last, stop]
    exact (held.fits.room_bounds here align).2.1
  smalls := by
    intro l member small
    rcases lease_cases (held.leases.mem_iff.mp member) with ⟨p, here, rfl⟩ | ⟨n, _, _, rfl⟩
    · apply held.in_block
      simp only [Shape.inner, List.mem_append]
      exact Or.inr (Or.inr (List.mem_map_of_mem here))
    · contradiction
  nodes := by
    intro a member
    obtain ⟨n, here, rfl⟩ := List.mem_map.mp member
    apply held.in_block
    simp only [Shape.inner, List.mem_append]
    exact Or.inl (List.mem_map_of_mem here)

/-- A pool of one block of any size, whose bump pointer is last. -/
structure Primed (base size last : Nat) (s : State) : Prop where
  phase : s.phase = .running
  pool : s.pool = base
  held : Held s.heap [(Block.mk base last 0).record size 0, (newShape base size).front]

theorem one_le_poolMax (enough : 96 ≤ size) : 1 ≤ poolMax (size - sizeofPool) := by
  unfold poolMax
  split
  · simp only [sizeofPool]
    omega
  · decide

theorem Primed.words (primed : Primed base size last s) :
    s.word (maxAt base) = poolMax (size - sizeofPool) ∧ s.word (endAt base) = base + size ∧
      s.word (nextAt base) = 0 := by
  have first := primed.held.holds _ List.mem_cons_self
  have rest := primed.held.holds _ (List.mem_cons_of_mem _ List.mem_cons_self)
  refine ⟨?_, ?_, ?_⟩
  · exact (rest ⟨0, 8, poolMax (size - sizeofPool)⟩ (by simp [Shape.front, newShape])).2
  · exact (first ⟨8, 8, base + size⟩ (by simp [Block.record])).2
  · exact (first ⟨16, 8, 0⟩ (by simp [Block.record])).2

/-- The block that the loop starts at passes the room test. -/
theorem scanBlocks_carves {p stop n : Nat} (first : (load 8 (lastAt p)).run h = some (last, h))
    (second : (load 8 (endAt p)).run h = some (stop, h))
    (free : n ≤ sizeMinus stop (room align last))
    (stored : (store 8 (lastAt p) (room align last + n)).run h = some ((), k)) (fuel : Nat) :
    (scanBlocks n align (fuel + 1) p).run h = some (some (room align last), k) := by
  simp only [scanBlocks, StateT.run_bind, first, second, Option.bind_eq_bind, Option.bind_some,
    run_ite, ge_iff_le, free, if_true, stored, StateT.run_pure, Option.pure_def]

theorem pallocWith_carves {pool max n m fuel : Nat}
    (first : (load 8 (maxAt pool)).run h = some (max, h)) (fit : n ≤ max)
    (second : (load 8 (currentAt pool)).run h = some (pool, h))
    (scan : (scanBlocks n align fuel pool).run h = some (some m, k)) :
    (pallocWith align pool fuel n).run h = some (m, k) := by
  simp only [pallocWith, ngxPallocSmall, StateT.run_bind, first, Option.bind_eq_bind,
    Option.bind_some, run_ite, fit, if_true, second, scan, StateT.run_pure, Option.pure_def]

/-- One byte from the block: what the room test lets through is carved, wherever it is. -/
theorem Primed.carve (primed : Primed base size last s) (enough : 96 ≤ size) (align : Bool)
    (free : 1 ≤ sizeMinus (base + size) (room align last)) (low : room align last + 1 < 2 ^ 64) :
    ∃ k, (pallocWith align s.pool 1 1).run (s.answering []) = some (room align last, k) ∧
      Held k [(Block.mk base (room align last + 1) 0).record size 0, (newShape base size).front] := by
  have held := primed.held.answering []
  have max : (load 8 (maxAt base)).run (s.answering []) =
      some (poolMax (size - sizeofPool), s.answering []) :=
    held.read (r := (newShape base size).front) (f := ⟨0, 8, poolMax (size - sizeofPool)⟩) (by simp)
      (by simp [Shape.front, newShape])
  have current : (load 8 (currentAt base)).run (s.answering []) = some (base, s.answering []) :=
    held.read (r := (newShape base size).front) (f := ⟨8, 8, base⟩) (by simp)
      (by simp [Shape.front, newShape])
  have first : (load 8 (lastAt base)).run (s.answering []) = some (last, s.answering []) :=
    held.read (r := (Block.mk base last 0).record size 0) (f := ⟨0, 8, last⟩) (by simp)
      (by simp [Block.record])
  have stop : (load 8 (endAt base)).run (s.answering []) = some (base + size, s.answering []) :=
    held.read (r := (Block.mk base last 0).record size 0) (f := ⟨8, 8, base + size⟩) (by simp)
      (by simp [Block.record])
  obtain ⟨stored, after⟩ := held.write (o := 0) (w := 8)
    (v := room align last + 1) (t := (Block.mk base (room align last + 1) 0).record size 0)
    (by simp [Block.record, sizeofPoolData]) (Nat.mod_eq_of_lt (by omega)) rfl
    (by simp [Block.record])
  refine ⟨_, ?_, after⟩
  rw [primed.pool]
  exact pallocWith_carves max (one_le_poolMax enough) current
    (scanBlocks_carves first stop free stored 0)

theorem Primed.pnalloc (primed : Primed base size last s) (enough : 96 ≤ size)
    (free : 1 ≤ sizeMinus (base + size) last) (low : last + 1 < 2 ^ 64) :
    ∃ t, step s (.ngxPnalloc 1 1 []) = some t ∧ Primed base size (last + 1) t ∧
      t.leases = s.lend last 1 := by
  obtain ⟨k, ran, held⟩ := primed.carve enough false free low
  refine ⟨s.handOut 1 last k, ?_, ⟨primed.phase, primed.pool, held⟩, rfl⟩
  rw [step_running primed.phase, State.operate, ngxPnalloc, ran]
  rfl

theorem Primed.palloc (primed : Primed base size last s) (enough : 96 ≤ size)
    (free : 1 ≤ sizeMinus (base + size) (room true last)) (low : room true last + 1 < 2 ^ 64) :
    ∃ t, step s (.ngxPalloc 1 1 []) = some t ∧ Primed base size (room true last + 1) t ∧
      t.leases = s.lend (room true last) 1 := by
  obtain ⟨k, ran, held⟩ := primed.carve enough true free low
  refine ⟨s.handOutAligned 1 (room true last) k, ?_, ⟨primed.phase, primed.pool, held⟩, rfl⟩
  rw [step_running primed.phase, State.operate, ngxPalloc, ran]
  rfl

theorem Primed.lends (primed : Primed base size last s) (enough : 96 ≤ size) {p : Nat}
    (given : p ≠ 0) : ⟨p, 1, false⟩ ∈ s.lend p 1 := by
  have small : s.isLarge 1 = false := by
    have max := primed.words.1
    have fit := one_le_poolMax enough
    rw [← max, ← primed.pool] at fit
    exact decide_eq_false (Nat.not_lt.mpr fit)
  simp [State.lend, given, small]

/-- With a small region outside the only block the state is not as it should be. -/
theorem Primed.not_bounded (primed : Primed base size last s) (full : base ≠ 0) {p : Nat}
    (member : ⟨p, 1, false⟩ ∈ s.leases) (outside : p < base + sizeofPoolData ∨ base + size < p + 1) :
    ¬∃ blocks larges, Bounded s blocks larges := by
  rintro ⟨blocks, larges, bounded⟩
  obtain ⟨_, stop, next⟩ := primed.words
  have only : Follows s.blockNext s.pool [base] := ⟨primed.pool, full, next⟩
  obtain rfl := bounded.chain.unique only
  obtain ⟨b, here, low, high⟩ := bounded.smalls _ member rfl
  obtain rfl := List.mem_singleton.mp here
  simp only [State.blockEnd, stop, Lease.span, Span.stop] at low high
  omega

theorem primed_create (enough : 96 ≤ size) (top : 16 + size < 2 ^ 64) :
    ∃ t, step initial (.ngxCreatePool size (malloced [16])) = some t ∧
      Primed 16 size (16 + sizeofPool) t := by
  have fresh : (initial.answering (malloced [16])).Fresh
      ⟨(Answer.mk 16 fun _ => 0).base, size⟩ := by
    refine ⟨⟨1, rfl⟩, Nat.succ_pos 15, ?_, top, ?_⟩
    · simp only
      omega
    · intro q member
      simp [State.answering, initial, blank] at member
  have given : (initial.answering (malloced [16])).mallocResult size =
      ((Answer.mk 16 fun _ => 0).base, Heap.taken
        { initial.answering (malloced [16]) with answers := [] } size ⟨16, fun _ => 0⟩) :=
    if_pos fresh
  have made : ∃ k, (ngxCreatePool size).run (initial.answering (malloced [16])) = some (16, k) ∧
      Held k (newShape 16 size).records := by
    obtain ⟨bytes, ran, held⟩ := ngxCreatePool_fills enough fresh given
    exact ⟨_, ran, held⟩
  obtain ⟨k, ran, held⟩ := made
  refine ⟨initial.create 16 k, ?_, rfl, rfl, held⟩
  simp only [NgxMemPool.step, initial] at ran ⊢
  rw [ran]
  rfl

/-- Unaligned requests may use a block up to any byte. -/
theorem primed_reach (enough : 96 ≤ size) (top : 16 + size < 2 ^ 64) (n : Nat)
    (inside : sizeofPool + n ≤ size) :
    ∃ t, Reach step (AllocatesFrom size) initial t ∧ Primed 16 size (16 + sizeofPool + n) t := by
  induction n with
  | zero =>
    obtain ⟨t, taken, primed⟩ := primed_create enough top
    exact ⟨t, .next (a := .ngxCreatePool size (malloced [16])) .start rfl taken, primed⟩
  | succ n ih =>
    obtain ⟨s, reached, primed⟩ := ih (by omega)
    have free : sizeMinus (16 + size) (16 + sizeofPool + n) = size - sizeofPool - n := by
      rw [sizeMinus_value (by omega) top]
      omega
    obtain ⟨t, taken, after, _⟩ := primed.pnalloc enough (by omega) (by omega)
    exact ⟨t, .next (a := .ngxPnalloc 1 1 []) reached trivial taken, after⟩

theorem room_aligned (last : Nat) : room true last = wrap (last + 7) / 8 * 8 :=
  ngxAlignPtr_wrapped last

/-- With an end that is not aligned, a full block still seems to have room: behind its end,
    or at null where the addresses wrap around. -/
theorem room_beyond (uneven : ¬8 ∣ last) (top : last < 2 ^ 64) :
    1 ≤ sizeMinus last (room true last) ∧ room true last + 1 < 2 ^ 64 ∧
      (last < room true last ∨ room true last = 0) := by
  rw [room_aligned]
  simp only [sizeMinus, wrap]
  omega

theorem Primed.overflows (primed : Primed base size (base + size) s) (enough : 96 ≤ size)
    (full : base ≠ 0) (uneven : ¬8 ∣ base + size) (top : base + size < 2 ^ 64)
    (reached : Reach step (AllocatesFrom size) initial s) :
    ∃ t, Reach step (AllocatesFrom size) initial t ∧ t.phase = .running ∧
      ¬∃ blocks larges, Bounded t blocks larges := by
  obtain ⟨free, low, place⟩ := room_beyond uneven top
  obtain ⟨t, taken, after, leases⟩ := primed.palloc enough free low
  have later : Reach step (AllocatesFrom size) initial t :=
    .next (a := .ngxPalloc 1 1 []) reached trivial taken
  rcases place with beyond | wrapped
  · refine ⟨t, later, after.phase, after.not_bounded full (p := room true (base + size)) ?_
      (Or.inr (by omega))⟩
    rw [leases]
    exact primed.lends enough (by omega)
  · -- last is 1 now, so the next byte carved is at 1
    rw [wrapped] at after
    have more : 1 ≤ sizeMinus (base + size) (0 + 1) := by
      rw [sizeMinus_value (by omega) top]
      omega
    obtain ⟨u, again, last, lent⟩ := after.pnalloc enough more (by omega)
    refine ⟨u, .next (a := .ngxPnalloc 1 1 []) later trivial again, last.phase,
      last.not_bounded full (p := 0 + 1) ?_ (Or.inl (by simp only [sizeofPoolData]; omega))⟩
    rw [lent]
    exact after.lends enough (by decide)

theorem AllocatesFrom.sized {a : Action} (enough : 96 ≤ size) (multiple : 8 ∣ size)
    (allocates : AllocatesFrom size s a) : WellSized s a := by
  cases a with
  | ngxCreatePool n answers =>
    obtain rfl : n = size := allocates
    exact ⟨minPoolSize_value ▸ enough, multiple⟩
  | _ => trivial

/-- A size that fits nowhere makes no pool. -/
theorem never_running (high : 2 ^ 64 ≤ 16 + size)
    (reached : Reach step (AllocatesFrom size) initial s) : s.phase = .unborn := by
  induction reached with
  | start => rfl
  | @next s t a _ allocates taken unborn =>
    cases a with
    | ngxCreatePool n answers =>
      obtain rfl : n = size := allocates
      simp only [NgxMemPool.step, unborn] at taken
      obtain ⟨r, ran, rfl⟩ := Option.map_eq_some_iff.mp taken
      rcases malloc_cases (s.answering answers) n with ⟨others, null⟩ | ⟨answer, _, fresh, _⟩
      · rw [ngxCreatePool_fails null] at ran
        obtain rfl := Option.some.inj ran
        exact unborn
      · obtain ⟨aligned, positive, _, top, _⟩ := fresh
        simp only [Span.stop] at aligned positive top
        omega
    | _ => simp [NgxMemPool.step, unborn] at taken

def AlwaysBounded (size : Nat) : Prop :=
  ∀ s, Reach step (AllocatesFrom size) initial s → s.phase = .running →
    ∃ blocks larges, Bounded s blocks larges

/-- Small regions and nodes of the large list stay inside their blocks, and the difference
    in the room test is never negative, in every run on pools of a size exactly if the size
    is a multiple of the alignment (or so close to the end of memory that malloc has no
    region of it to give). -/
theorem blocks_bounded_iff (enough : ngxMinPoolSize ≤ size) :
    AlwaysBounded size ↔ ngxAlignment ∣ size ∨ 2 ^ 64 ≤ 16 + size := by
  rw [minPoolSize_value] at enough
  constructor
  · intro always
    by_contra neither
    obtain ⟨uneven, low⟩ := not_or.mp neither
    simp only [ngxAlignment] at uneven
    have top : 16 + size < 2 ^ 64 := by omega
    obtain ⟨s, reached, primed⟩ := primed_reach enough top (size - sizeofPool) (by
      simp only [sizeofPool]
      omega)
    have last : 16 + sizeofPool + (size - sizeofPool) = 16 + size := by
      simp only [sizeofPool]
      omega
    rw [last] at primed
    obtain ⟨t, there, running, fails⟩ :=
      primed.overflows enough (by decide) (by omega) top reached
    exact fails (always t there running)
  · rintro (multiple | high) s reached running
    · obtain ⟨shape, held⟩ := represents_of_reach
        (reached.weaken fun _ _ allocates => allocates.sized enough multiple) running
      exact ⟨_, _, held.bounded⟩
    · simp [never_running high reached] at running

theorem blocks_bounded_even : AlwaysBounded 96 ∧ ¬AlwaysBounded 97 := by
  constructor
  · exact (blocks_bounded_iff (by decide)).mpr (Or.inl (by decide))
  · intro always
    exact absurd ((blocks_bounded_iff (by decide)).mp always) (by decide)

/-- The first block of a pool of 97 bytes ends at 113. Once it is full a request for one
    byte gets the byte at 120. -/
def oddRequests : List Action :=
  [.ngxCreatePool 97 (malloced [16]), .ngxPnalloc 1 33 [], .ngxPalloc 1 1 []]

theorem blocks_bounded_odd : ∃ t, run step initial oddRequests = some t ∧
    Obeys step (AllocatesFrom 97) initial oddRequests ∧ t.phase = .running ∧
    t.leases = [⟨120, 1, false⟩, ⟨80, 33, false⟩] ∧ t.blockEnd 16 = 113 ∧
    ¬∃ blocks larges, Bounded t blocks larges := by
  have ran : ∃ t ∈ run step initial oddRequests, t.phase = .running ∧
      t.leases = [⟨120, 1, false⟩, ⟨80, 33, false⟩] ∧ t.blockEnd 16 = 113 ∧
      Follows t.blockNext t.pool [16] := by decide +kernel
  obtain ⟨t, taken, running, leases, stop, only⟩ := ran
  refine ⟨t, taken, ?_, running, leases, stop, ?_⟩
  · apply obeys_of_actions
    intro a member u
    simp only [oddRequests, List.mem_cons, List.not_mem_nil, or_false] at member
    rcases member with rfl | rfl | rfl <;> simp [AllocatesFrom]
  · rintro ⟨blocks, larges, bounded⟩
    obtain rfl := bounded.chain.unique only
    obtain ⟨b, here, _, high⟩ := bounded.smalls ⟨120, 1, false⟩ (by simp [leases]) rfl
    obtain rfl := List.mem_singleton.mp here
    rw [stop] at high
    exact absurd high (by decide)

end NgxMemPool
