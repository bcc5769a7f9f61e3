import ServerPools.Memory.Blocks

/- A region from malloc on its way into the pool, and ngx_palloc_block, which makes it the
   last block of the chain. -/
namespace NgxMemPool
open Malloc Records Linked Fuel

variable {s t : Shape} {h k : Heap} {b c : Block} {pre post : List Block} {m n size : Nat}
  {align : Bool} {r : Record} {rest : List Record}

def Shape.hold (s : Shape) (loose : List Record) : Shape := { s with loose := loose }

theorem loose_records (s : Shape) (rest : List Record) :
    (s.hold (r :: rest)).records.Perm (r :: (s.hold rest).records) := by
  apply List.perm_iff_count.mpr
  intro q
  simp only [Shape.records, Shape.body, Shape.hold, Shape.headers, Shape.front, Shape.grants,
    List.count_append, List.count_cons]
  omega

theorem loose_regions (s : Shape) (rest : List Record) :
    (s.hold (r :: rest)).regions.Perm (r.span :: (s.hold rest).regions) := by
  apply List.perm_iff_count.mpr
  intro q
  simp only [Shape.regions, Shape.outer, Shape.hold, List.map_cons, List.count_append,
    List.count_cons]
  omega

theorem Fits.answering (fits : Fits s h) (answers : List Answer) :
    Fits s { h with answers := answers } :=
  ⟨fits.toProper, fits.sound.answering answers, fits.live, fits.held.answering answers⟩

theorem Proper.hold (proper : Proper s) (loose : List Record) : Proper (s.hold loose) :=
  ⟨proper.enough, proper.multiple, proper.start, proper.current, proper.bumped, proper.placed⟩

theorem Fits.took (fits : Fits s h) {answer : Answer} (fresh : h.Fresh ⟨answer.base, n⟩) :
    Fits (s.hold (⟨⟨answer.base, n⟩, []⟩ :: s.loose)) (h.taken n answer) :=
  ⟨fits.toProper.hold _, fits.sound.took fresh,
    (fits.live.cons _).trans (loose_regions (r := ⟨⟨answer.base, n⟩, []⟩) s s.loose).symm,
    (fits.held.took fresh).perm (loose_records s s.loose).symm⟩

/-- A field of a region that is not linked yet. -/
theorem Fits.write_loose (fits : Fits (s.hold (r :: rest)) h) {o w v value : Nat}
    (inside : o + w ≤ r.span.length) (stored : v % 256 ^ w = value)
    (away : ∀ f ∈ r.fields, f.offset + f.width ≤ o ∨ o + w ≤ f.offset) :
    (store w (r.addr + o) v).run h = some ((), h.write (r.addr + o) w v) ∧
      Fits (s.hold (⟨r.span, ⟨o, w, value⟩ :: r.fields⟩ :: rest)) (h.write (r.addr + o) w v) := by
  obtain ⟨ran, held⟩ := (fits.held.perm (loose_records s rest)).add_field inside stored away
  exact ⟨ran, fits.toProper.hold _, fits.sound.wrote _, fits.live,
    held.perm (loose_records s rest).symm⟩

/-- The region that becomes a block, as ngx_palloc_block leaves it before the loop. -/
def prepared (base size n : Nat) : Record :=
  ⟨⟨base, size⟩, [⟨0, 8, base + 32 + n⟩, ⟨24, 4, 0⟩, ⟨16, 8, 0⟩, ⟨8, 8, base + size⟩]⟩

/-- A block at the end of the chain that has served one request. -/
def Shape.append (s : Shape) (base n : Nat) : Shape :=
  { s with
    blocks := s.blocks ++ [⟨base, base + 32 + n, 0⟩]
    smalls := ⟨base + 32, n, []⟩ :: s.smalls }

theorem append_records (split : s.blocks = pre ++ [b]) (m n : Nat) :
    (s.append m n).records.Perm ((Block.mk m (m + 32 + n) 0).record s.size 0 ::
      ⟨⟨m + 32, n⟩, []⟩ :: b.record s.size m :: s.around pre b.base []) := by
  apply List.perm_iff_count.mpr
  intro q
  simp only [Shape.records, Shape.append, Shape.around, Shape.headers, Shape.body, Shape.front,
    Shape.grants, split, links_append, links_cons, links_nil, headOr_cons, headOr_nil,
    Small.record, Small.span, List.map_cons, List.count_append, List.count_cons,
    List.append_assoc, List.cons_append, List.nil_append]
  omega

theorem around_hold (s : Shape) (rest : List Record) (pre : List Block) (base : Nat) :
    ((s.hold (r :: rest)).around pre base []).Perm (r :: (s.hold rest).around pre base []) := by
  apply List.perm_iff_count.mpr
  intro q
  simp only [Shape.around, Shape.body, Shape.hold, Shape.headers, Shape.front, Shape.grants,
    List.count_append, List.count_cons]
  omega

theorem append_regions (s : Shape) (rest : List Record) (m n : Nat) :
    ((s.hold rest).append m n).regions.Perm (s.hold (prepared m s.size n :: rest)).regions := by
  apply List.perm_iff_count.mpr
  intro q
  simp only [Shape.regions, Shape.outer, Shape.hold, Shape.append, Block.region, prepared,
    List.map_append, List.map_cons, List.map_nil, List.count_append, List.count_cons,
    List.count_nil]
  omega

theorem Fits.held_append (fits : Fits (s.hold (prepared m s.size n :: rest)) h)
    (split : s.blocks = pre ++ [b]) (enough : n + 64 ≤ s.size) (bound : m < 2 ^ 64) :
    (store 8 (nextAt b.base) m).run h = some ((), h.write (b.base + 16) 8 m) ∧
      Held (h.write (b.base + 16) 8 m) ((s.hold rest).append m n).records := by
  have whole : (s.hold (prepared m s.size n :: rest)).blocks = pre ++ b :: [] := split
  obtain ⟨ran, wrote⟩ := (fits.held.perm (records_block whole)).write (o := 16) (w := 8) (v := m)
    (t := b.record s.size m) (by simp [Block.record, sizeofPoolData])
    (Nat.mod_eq_of_lt (by omega)) rfl (by simp [Block.record, Shape.hold])
  refine ⟨ran, ?_⟩
  have front := wrote.perm (((around_hold s rest pre b.base).cons _).trans (List.Perm.swap _ _ _))
  have known := front.holds _ List.mem_cons_self
  refine Held.perm ?_ (append_records (s := s.hold rest) split m n).symm
  apply front.split
  · simp only [Span.Within, Block.record, prepared, Span.stop, sizeofPoolData]
    omega
  · simp only [Span.Within, prepared, Span.stop]
    omega
  · exact Or.inl (by simp [Block.record, Span.stop, sizeofPoolData])
  · intro f member
    have inside : f ∈ (prepared m s.size n).fields := by
      simp only [Block.record, prepared, List.mem_cons, List.not_mem_nil, or_false] at member ⊢
      tauto
    have holds := (known f inside).2
    refine ⟨?_, holds⟩
    simp only [Block.record, List.mem_cons, List.not_mem_nil, or_false] at member
    rcases member with rfl | rfl | rfl | rfl <;> simp [Block.record, sizeofPoolData]
  · simp [Record.Holds]

theorem Proper.append (proper : Proper s) (enough : n + 64 ≤ s.size) (other : m ≠ s.pool)
    (nonempty : s.blocks ≠ []) : Proper (s.append m n) where
  enough := proper.enough
  multiple := proper.multiple
  start := by
    have start := proper.start
    cases blocks : s.blocks with
    | nil => exact absurd blocks nonempty
    | cons b rest => simpa [Shape.append, blocks] using start
  current := by
    obtain ⟨a, here, base⟩ := proper.current
    exact ⟨a, List.mem_append_left _ here, base⟩
  bumped := by
    intro a member
    rcases List.mem_append.mp member with old | new
    · exact proper.bumped a old
    · obtain rfl := List.mem_singleton.mp new
      have floor : (s.append m n).floor ⟨m, m + 32 + n, 0⟩ = m + 32 := by
        simp [Shape.floor, Shape.append, other, sizeofPoolData]
      rw [floor]
      refine ⟨by simp only; omega, ?_, by simp only; omega⟩
      simp only [Shape.append]
      omega
  placed := by
    intro p member
    have old : p ∈ s.inner → ∃ a ∈ (s.append m n).blocks, a.Carved p := by
      intro inside
      obtain ⟨a, here, carved⟩ := proper.placed p inside
      exact ⟨a, List.mem_append_left _ here, carved⟩
    simp only [Shape.inner, Shape.append, List.map_cons, List.mem_append, List.mem_cons] at member
    rcases member with large | cleanup | rfl | small
    · exact old (by simp only [Shape.inner, List.mem_append]; tauto)
    · exact old (by simp only [Shape.inner, List.mem_append]; tauto)
    · refine ⟨⟨m, m + 32 + n, 0⟩, by simp [Shape.append], ?_⟩
      simp only [Block.Carved, Small.span, Span.stop, sizeofPoolData]
      omega
    · exact old (by simp only [Shape.inner, List.mem_append]; tauto)

/-- The last block's next points to the new block, which is now part of the chain. -/
theorem Fits.link_block (fits : Fits (s.hold (prepared m s.size n :: rest)) h)
    (split : s.blocks = pre ++ [b]) (enough : n + 64 ≤ s.size) :
    (store 8 (nextAt b.base) m).run h = some ((), h.write (b.base + 16) 8 m) ∧
      Fits ((s.hold rest).append m n) (h.write (b.base + 16) 8 m) := by
  have loose : Span.mk m s.size ∈ (s.hold (prepared m s.size n :: rest)).outer := by
    simp [Shape.outer, Shape.hold, prepared]
  have bound : m < 2 ^ 64 := by
    have stop := (fits.sound.placed _ (fits.outer_live loose)).2.2
    simp only [Span.stop] at stop
    omega
  have other : m ≠ s.pool := by
    intro same
    obtain ⟨first, here, base⟩ := fits.first_block
    have apart := fits.outer_apart here loose
    rw [Block.region, base, show (s.hold (prepared m s.size n :: rest)).pool = m from same.symm] at apart
    have full : 0 < s.size := by omega
    exact Span.apart_irrefl full apart
  obtain ⟨ran, held⟩ := fits.held_append split enough bound
  have proper : Proper (s.hold rest) := fits.toProper.hold rest
  exact ⟨ran, proper.append enough other (by simp [Shape.hold, split]), fits.sound.wrote _,
    fits.live.trans (append_regions s rest m n).symm, held⟩

/-- The four stores that prepare a region from malloc as a block. -/
theorem Fits.prepare (fits : Fits (s.hold (⟨⟨m, s.size⟩, []⟩ :: rest)) h) (enough : n + 64 ≤ s.size)
    (small : m + s.size < 2 ^ 64) :
    ∃ k₁ k₂ k₃ k₄, (store 8 (endAt m) (m + s.size)).run h = some ((), k₁) ∧
      (store 8 (nextAt m) 0).run k₁ = some ((), k₂) ∧
      (store 4 (failedAt m) 0).run k₂ = some ((), k₃) ∧
      (store 8 (lastAt m) (m + 32 + n)).run k₃ = some ((), k₄) ∧
      Fits (s.hold (prepared m s.size n :: rest)) k₄ := by
  obtain ⟨first, one⟩ := fits.write_loose (o := 8) (w := 8) (v := m + s.size)
    (by simp only; omega) (Nat.mod_eq_of_lt (by omega)) (by simp)
  obtain ⟨second, two⟩ := one.write_loose (o := 16) (w := 8) (v := 0) (by simp only; omega)
    rfl (by simp)
  obtain ⟨third, three⟩ := two.write_loose (o := 24) (w := 4) (v := 0) (by simp only; omega)
    rfl (by simp)
  obtain ⟨fourth, four⟩ := three.write_loose (o := 0) (w := 8) (v := m + 32 + n)
    (by simp only; omega) (Nat.mod_eq_of_lt (by omega)) (by simp)
  exact ⟨_, _, _, _, first, second, third, fourth, four⟩

theorem align_header (aligned : 16 ∣ m) (small : m + size < 2 ^ 64) (enough : 64 ≤ size) :
    ngxAlignPtr (m + sizeofPoolData) ngxAlignment = m + 32 := by
  simp only [sizeofPoolData]
  rw [ngxAlignPtr_value (by omega)]
  omega

theorem Fits.read_psize (fits : Fits s h) :
    (load 8 (endAt s.pool)).run h = some (s.pool + s.size, h) ∧
      sizeMinus (s.pool + s.size) s.pool = s.size := by
  obtain ⟨b, here, base⟩ := fits.first_block
  have stop := fits.read_end here
  have small := (fits.block_place here).2.2
  rw [base] at stop small
  refine ⟨stop, ?_⟩
  rw [sizeMinus_value (by omega) small]
  omega

/-- The pool after ngx_palloc_block: the blocks from current on are counted as missed. -/
def Shape.grow (s : Shape) (pre kept : List Block) (base n : Nat) : Shape :=
  (s.missed pre kept).append base n

theorem ngxPallocBlock_fails (fits : Fits s h) {others : List Answer}
    (null : h.mallocResult s.size = (0, { h with answers := others })) (fuel : Nat) :
    (ngxPallocBlock s.pool fuel n).run h = some (0, { h with answers := others }) := by
  obtain ⟨stop, psize⟩ := fits.read_psize
  simp only [ngxPallocBlock, StateT.run_bind, stop, Option.bind_eq_bind, Option.bind_some, psize,
    run_malloc, null, run_ite, if_pos, StateT.run_pure, Option.pure_def]

theorem ngxPallocBlock_grows (fits : Fits s h) (enough : n + 64 ≤ s.size)
    (split : s.blocks = pre ++ b :: post) (base : b.base = s.current) {answer : Answer}
    {others : List Answer} (fresh : h.Fresh ⟨answer.base, s.size⟩)
    (given : h.mallocResult s.size =
      (answer.base, Heap.taken { h with answers := others } s.size answer)) :
    ∃ k, Settles (fun fuel => (ngxPallocBlock s.pool fuel n).run h) (b :: post).length
        (answer.base + 32, k) ∧
      Fits (s.grow pre (b :: post) answer.base n) k := by
  obtain ⟨aligned, positive, _, top, _⟩ := id fresh
  simp only [Span.stop] at aligned positive top
  obtain ⟨stop, psize⟩ := fits.read_psize
  have taken := (fits.answering others).took fresh
  obtain ⟨k₁, k₂, k₃, k₄, first, second, third, fourth, prepares⟩ := taken.prepare enough top
  have current := prepares.read_current
  obtain ⟨k₅, walk, missed⟩ := missBlocks_settles prepares split
  obtain ⟨front, last, whole, address⟩ := missFrom_last post b s.current
  have ends : (s.missed pre (b :: post)).blocks = (pre ++ front) ++ [last] := by
    simp [Shape.missed, whole]
  have held : Fits ((s.missed pre (b :: post)).hold (prepared answer.base s.size n :: s.loose)) k₅ :=
    missed
  obtain ⟨linked, after⟩ := held.link_block ends enough
  refine ⟨_, ?_, after⟩
  have nonzero : answer.base ≠ 0 := by omega
  have start : ngxAlignPtr (answer.base + sizeofPoolData) ngxAlignment = answer.base + 32 :=
    align_header aligned top (by omega)
  rw [address] at linked
  have finish : Settles (fun _ : Nat => ((store 8 (nextAt (lastBase (b :: post))) answer.base).run
      k₅).bind fun r => some (answer.base + 32, r.2)) 0
      (answer.base + 32, k₅.write (lastBase (b :: post) + 16) 8 answer.base) :=
    settles_of_eq fun _ => by rw [linked, Option.bind_some]
  rw [address]
  refine ((walk.bind (f := fun _ r => ((store 8 (nextAt r.1) answer.base).run r.2).bind fun r =>
    some (answer.base + 32, r.2)) finish).widen (by simp)).congr fun fuel => ?_
  simp only [ngxPallocBlock, StateT.run_bind, stop, Option.bind_eq_bind, Option.bind_some, psize,
    run_malloc, given, run_ite, if_neg nonzero, first, second, third, start, fourth]
  rw [show (load 8 (currentAt s.pool)).run k₄ = some (s.current, k₄) from current, base]
  rfl

/-- All that ngx_palloc_small can do: carve from the first block with room from current on,
    or else add a block, or else fail. -/
inductive SmallMove (s : Shape) (n : Nat) (align : Bool) : Nat → Shape → Prop where
  | carved {pre full post : List Block} {b : Block} (split : s.blocks = pre ++ (full ++ b :: post))
      (start : headOr Block.base 0 (full ++ b :: post) = s.current)
      (none : ∀ d ∈ full, ¬s.HasRoom n align d) (enough : s.HasRoom n align b) :
      SmallMove s n align (room align b.last) (s.carve (pre ++ full) b post (room align b.last) n)
  | grown {pre kept : List Block} {base : Nat} (split : s.blocks = pre ++ kept)
      (start : headOr Block.base 0 kept = s.current) (nonempty : kept ≠ [])
      (none : ∀ d ∈ kept, ¬s.HasRoom n align d) (aligned : 16 ∣ base) :
      SmallMove s n align (base + 32) (s.grow pre kept base n)
  | failed : SmallMove s n align 0 s

/-- From current on there are at most limit blocks. -/
def Shape.Near (s : Shape) (limit : Nat) : Prop :=
  ∀ pre b post, s.blocks = pre ++ b :: post → b.base = s.current → (b :: post).length ≤ limit

/-- The do loop from current on, and then ngx_palloc_block where it found nothing. -/
theorem run_ngxPallocSmall (fits : Fits s h) (base : b.base = s.current) (fuel : Nat) :
    (ngxPallocSmall s.pool fuel n align).run h =
      ((scanBlocks n align fuel b.base).run h).bind fun r =>
        (r.1.elim (ngxPallocBlock s.pool fuel n) (pure : Nat → Code Nat)).run r.2 := by
  rw [ngxPallocSmall, StateT.run_bind, fits.read_current, base, Option.bind_eq_bind,
    Option.bind_some, StateT.run_bind, Option.bind_eq_bind]
  congr 1
  funext r
  cases r.1 <;> rfl

theorem ngxPallocSmall_settles (fits : Fits s h) (enough : n + 64 ≤ s.size) (align : Bool) :
    ∃ bound m t k, Settles (fun fuel => (ngxPallocSmall s.pool fuel n align).run h) bound (m, k) ∧
      SmallMove s n align m t ∧ Fits t k ∧
      (m = 0 → ∃ answers, k = { h with answers := answers }) ∧
      ∀ limit, s.Near limit → bound ≤ limit := by
  obtain ⟨b, here, base⟩ := fits.current
  obtain ⟨pre, post, split⟩ := List.append_of_mem here
  have start : ∀ fuel, (ngxPallocSmall s.pool fuel n align).run h = _ :=
    run_ngxPallocSmall fits base
  rcases scanBlocks_settles fits split n align with
    ⟨full, c, behind, found, none, room, scan, after⟩ | ⟨none, scan⟩
  · have inside : c ∈ s.blocks := by simp [split, found]
    have low := (fits.room_bounds inside align).1
    have bound := (fits.floor_low inside).1
    refine ⟨_, _, _, _, (scan.bind (settles_of_eq fun fuel => ?_)).congr start,
      SmallMove.carved (by rw [split, found]) ?_ none room, after, fun null => ?_,
      fun limit near => ?_⟩
    · rfl
    · rw [← found]
      exact base
    · omega
    · exact Nat.max_le.mpr ⟨near pre b post split base, Nat.zero_le limit⟩
  · rcases malloc_cases h s.size with ⟨others, null⟩ | ⟨answer, others, fresh, given⟩
    · exact ⟨_, 0, s, _, (scan.bind (settles_of_eq fun fuel =>
        ngxPallocBlock_fails fits null fuel)).congr start, SmallMove.failed, fits.answering others,
        fun _ => ⟨others, rfl⟩,
        fun limit near => Nat.max_le.mpr ⟨near pre b post split base, Nat.zero_le limit⟩⟩
    · obtain ⟨k, grows, after⟩ := ngxPallocBlock_grows fits enough split base fresh given
      exact ⟨_, _, _, k, (scan.bind grows).congr start,
        SmallMove.grown split base (by simp) none fresh.1, after, fun null => by omega,
        fun limit near =>
          Nat.max_le.mpr ⟨near pre b post split base, near pre b post split base⟩⟩

end NgxMemPool
