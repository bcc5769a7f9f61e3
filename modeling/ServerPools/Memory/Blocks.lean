import ServerPools.Memory.Layout
import ServerPools.Support.Fuel

/- Carving from the blocks: ngx_palloc_small and ngx_palloc_block. -/
namespace NgxMemPool
open Malloc Records Linked Fuel

variable {s t : Shape} {h k : Heap} {b c : Block} {pre post : List Block} {m n size : Nat}
  {align : Bool}

theorem and_high_bits {x : Nat} (small : x < 2 ^ 64) : x &&& (2 ^ 64 - 8) = x / 8 * 8 := by
  have mask : (2 ^ 64 - 8 : Nat) = (2 ^ 61 - 1) <<< 3 := by decide
  have shifted : x / 8 * 8 = (x >>> 3) <<< 3 := by
    simp [Nat.shiftRight_eq_div_pow, Nat.shiftLeft_eq]
  rw [mask, shifted]
  apply Nat.eq_of_testBit_eq
  intro i
  simp only [Nat.testBit_and, Nat.testBit_shiftLeft, Nat.testBit_shiftRight,
    Nat.testBit_two_pow_sub_one]
  by_cases low : 3 ≤ i
  · have back : 3 + (i - 3) = i := by omega
    rw [back]
    by_cases high : i < 64
    · have inside : i - 3 < 61 := by omega
      simp [low, inside]
    · have zero : x.testBit i = false :=
        Nat.testBit_lt_two_pow (Nat.lt_of_lt_of_le small (Nat.pow_le_pow_right (by omega) (by omega)))
      simp [zero]
  · simp [low]

theorem ngxAlignPtr_wrapped (m : Nat) : ngxAlignPtr m ngxAlignment = wrap (m + 7) / 8 * 8 :=
  and_high_bits (Nat.mod_lt _ (by decide))

theorem ngxAlignPtr_value (small : m + 7 < 2 ^ 64) : ngxAlignPtr m ngxAlignment = (m + 7) / 8 * 8 := by
  rw [ngxAlignPtr_wrapped, wrap, Nat.mod_eq_of_lt small]

theorem sizeMinus_value {a : Nat} (low : m ≤ a) (small : a < 2 ^ 64) : sizeMinus a m = a - m := by
  simp only [sizeMinus, wrap]
  omega

/-- Aligning last up does not pass the end, which is aligned itself. -/
theorem Fits.room_bounds (fits : Fits s h) (here : b ∈ s.blocks) (align : Bool) :
    b.last ≤ room align b.last ∧ room align b.last ≤ b.base + s.size ∧
      (align = true → 8 ∣ room align b.last) := by
  have last := (fits.bumped b here).2.1
  cases align with
  | false => simp [room, last]
  | true =>
    obtain ⟨aligned, _, small⟩ := fits.block_place here
    have multiple := fits.multiple
    have value : room true b.last = (b.last + 7) / 8 * 8 := by
      rw [room, if_pos rfl]
      exact ngxAlignPtr_value (by omega)
    rw [value]
    omega

theorem poolMax_le (size : Nat) : poolMax size ≤ size := by
  simp only [poolMax]
  split
  · exact Nat.le_refl _
  · omega

theorem header_at (split : s.blocks = pre ++ b :: post) :
    b.record s.size (headOr Block.base 0 post) ∈ s.records :=
  (records_block split).mem_iff.mpr (by simp)

theorem front_mem (s : Shape) : s.front ∈ s.records := by simp [Shape.records]

theorem header_mem (here : b ∈ s.blocks) : ∃ next, b.record s.size next ∈ s.records := by
  obtain ⟨pre, post, split⟩ := List.append_of_mem here
  exact ⟨_, header_at split⟩

theorem Fits.read_last (fits : Fits s h) (here : b ∈ s.blocks) :
    (load 8 (lastAt b.base)).run h = some (b.last, h) := by
  obtain ⟨next, member⟩ := header_mem here
  exact fits.held.read member (f := ⟨0, 8, b.last⟩) (by simp [Block.record])

theorem Fits.read_end (fits : Fits s h) (here : b ∈ s.blocks) :
    (load 8 (endAt b.base)).run h = some (b.base + s.size, h) := by
  obtain ⟨next, member⟩ := header_mem here
  exact fits.held.read member (f := ⟨8, 8, b.base + s.size⟩) (by simp [Block.record])

theorem Fits.read_failed (fits : Fits s h) (here : b ∈ s.blocks) :
    (load 4 (failedAt b.base)).run h = some (b.failed, h) := by
  obtain ⟨next, member⟩ := header_mem here
  exact fits.held.read member (f := ⟨24, 4, b.failed⟩) (by simp [Block.record])

theorem Fits.read_next (fits : Fits s h) (split : s.blocks = pre ++ b :: post) :
    (load 8 (nextAt b.base)).run h = some (headOr Block.base 0 post, h) :=
  fits.held.read (header_at split) (f := ⟨16, 8, headOr Block.base 0 post⟩) (by simp [Block.record])

theorem Fits.read_max (fits : Fits s h) :
    (load 8 (maxAt s.pool)).run h = some (poolMax (s.size - sizeofPool), h) :=
  fits.held.read (front_mem s) (f := ⟨0, 8, poolMax (s.size - sizeofPool)⟩) (by simp [Shape.front])

theorem Fits.read_current (fits : Fits s h) :
    (load 8 (currentAt s.pool)).run h = some (s.current, h) :=
  fits.held.read (front_mem s) (f := ⟨8, 8, s.current⟩) (by simp [Shape.front])

theorem Fits.read_large (fits : Fits s h) :
    (load 8 (largeAt s.pool)).run h = some (headOr LargeNode.addr 0 s.larges, h) :=
  fits.held.read (front_mem s) (f := ⟨16, 8, headOr LargeNode.addr 0 s.larges⟩) (by simp [Shape.front])

theorem Fits.read_cleanup (fits : Fits s h) :
    (load 8 (cleanupAt s.pool)).run h = some (headOr CleanupNode.addr s.stale s.cleanups, h) :=
  fits.held.read (front_mem s) (f := ⟨24, 8, headOr CleanupNode.addr s.stale s.cleanups⟩)
    (by simp [Shape.front])

/-- One block gets other values of last and failed. -/
def Shape.setBlock (s : Shape) (pre : List Block) (b : Block) (post : List Block) : Shape :=
  { s with blocks := pre ++ b :: post }

theorem setBlock_regions (split : s.blocks = pre ++ b :: post) (same : c.base = b.base) :
    (s.setBlock pre c post).regions = s.regions := by
  simp [Shape.setBlock, Shape.regions, Shape.outer, split, Block.region, same]

theorem setBlock_records (same : c.base = b.base) :
    (s.setBlock pre c post).records.Perm
      (c.record s.size (headOr Block.base 0 post) :: s.around pre b.base post) := by
  have split : (s.setBlock pre c post).blocks = pre ++ c :: post := rfl
  have perm := records_block split
  rw [same] at perm
  exact perm

theorem setBlock_mem (split : s.blocks = pre ++ b :: post) {a : Block}
    (member : a ∈ (s.setBlock pre c post).blocks) : a = c ∨ a ∈ s.blocks := by
  simp only [Shape.setBlock, List.mem_append, List.mem_cons, split] at *
  tauto

theorem setBlock_of_mem (split : s.blocks = pre ++ b :: post) {a : Block}
    (member : a ∈ s.blocks) : a = b ∨ a ∈ (s.setBlock pre c post).blocks := by
  simp only [Shape.setBlock, List.mem_append, List.mem_cons, split] at *
  tauto

theorem Proper.set_block (proper : Proper s) (split : s.blocks = pre ++ b :: post)
    (same : c.base = b.base)
    (bounds : s.floor c ≤ c.last ∧ c.last ≤ c.base + s.size ∧ c.failed < 2 ^ 32)
    (carved : ∀ p ∈ s.inner, b.Carved p → c.Carved p) : Proper (s.setBlock pre c post) where
  enough := proper.enough
  multiple := proper.multiple
  start := by
    have start := proper.start
    rw [split, headOr_append] at start
    simpa [Shape.setBlock, headOr_append, same] using start
  current := by
    obtain ⟨a, member, base⟩ := proper.current
    rcases setBlock_of_mem (c := c) split member with rfl | kept
    · exact ⟨c, by simp [Shape.setBlock], same.trans base⟩
    · exact ⟨a, kept, base⟩
  bumped := by
    intro a member
    rcases setBlock_mem split member with rfl | old
    · exact bounds
    · exact proper.bumped a old
  placed := by
    intro p member
    obtain ⟨a, here, inside⟩ := proper.placed p member
    rcases setBlock_of_mem (c := c) split here with rfl | kept
    · exact ⟨c, by simp [Shape.setBlock], carved p member inside⟩
    · exact ⟨a, kept, inside⟩

theorem Fits.write_block (fits : Fits s h) (split : s.blocks = pre ++ b :: post) {o w v value : Nat}
    (same : c.base = b.base)
    (bounds : s.floor c ≤ c.last ∧ c.last ≤ c.base + s.size ∧ c.failed < 2 ^ 32)
    (carved : ∀ p ∈ s.inner, b.Carved p → c.Carved p) (inside : o + w ≤ 32)
    (stored : v % 256 ^ w = value)
    (fields : ∀ next, ∀ f ∈ (c.record s.size next).fields, f = ⟨o, w, value⟩ ∨
      f ∈ (b.record s.size next).fields ∧ (f.offset + f.width ≤ o ∨ o + w ≤ f.offset)) :
    (store w (b.base + o) v).run h = some ((), h.write (b.base + o) w v) ∧
      Fits (s.setBlock pre c post) (h.write (b.base + o) w v) := by
  obtain ⟨ran, held⟩ := (fits.held.perm (records_block split)).write
    (t := c.record s.size (headOr Block.base 0 post)) inside stored
    (by simp [Block.record, same]) (fields _)
  refine ⟨ran, fits.toProper.set_block split same bounds carved, fits.sound.wrote _, ?_,
    held.perm (setBlock_records same).symm⟩
  rw [setBlock_regions split same]
  exact fits.live

theorem Fits.write_last (fits : Fits s h) (split : s.blocks = pre ++ b :: post) {v : Nat}
    (low : b.last ≤ v) (high : v ≤ b.base + s.size) :
    (store 8 (lastAt b.base) v).run h = some ((), h.write b.base 8 v) ∧
      Fits (s.setBlock pre { b with last := v } post) (h.write b.base 8 v) := by
  have here : b ∈ s.blocks := by simp [split]
  obtain ⟨floor, _, failed⟩ := fits.bumped b here
  have small := (fits.block_place here).2.2
  apply fits.write_block (c := { b with last := v }) (o := 0) split rfl
    ⟨Nat.le_trans floor low, high, failed⟩
  · exact fun p _ carved => ⟨carved.1, Nat.le_trans carved.2 low⟩
  · omega
  · exact Nat.mod_eq_of_lt (by omega)
  · intro next f member
    simp only [Block.record, List.mem_cons, List.not_mem_nil, or_false] at member ⊢
    rcases member with rfl | rfl | rfl | rfl <;> simp

/-- A region is carved and its block told of it already. -/
def Shape.lend (s : Shape) (m n : Nat) : Shape := { s with smalls := ⟨m, n, []⟩ :: s.smalls }

theorem lend_records (s : Shape) (m n : Nat) :
    (s.lend m n).records.Perm (⟨⟨m, n⟩, []⟩ :: s.records) := by
  apply List.perm_iff_count.mpr
  intro r
  simp only [Shape.records, Shape.body, Shape.lend, Shape.headers, Shape.front, Shape.grants,
    Small.record, Small.span, List.map_cons, List.count_append, List.count_cons]
  omega

theorem Proper.lend (proper : Proper s) (here : b ∈ s.blocks) (carved : b.Carved ⟨m, n⟩) :
    Proper (s.lend m n) where
  enough := proper.enough
  multiple := proper.multiple
  start := proper.start
  current := proper.current
  bumped := proper.bumped
  placed := by
    intro p member
    simp only [Shape.inner, Shape.lend, List.map_cons, List.mem_append, List.mem_cons] at member
    rcases member with large | cleanup | rfl | small
    · exact proper.placed p (by simp only [Shape.inner, List.mem_append]; tauto)
    · exact proper.placed p (by simp only [Shape.inner, List.mem_append]; tauto)
    · exact ⟨b, here, carved⟩
    · exact proper.placed p (by simp only [Shape.inner, List.mem_append]; tauto)

theorem Fits.lend (fits : Fits s h) (here : b ∈ s.blocks) (carved : b.Carved ⟨m, n⟩)
    (apart : ∀ r ∈ s.records, (Span.mk m n).Apart r.span) : Fits (s.lend m n) h := by
  have inside : h.Open ⟨m, n⟩ :=
    ⟨_, fits.region_live here, covers_within carved.covers (fits.bumped b here).2.1⟩
  exact ⟨fits.toProper.lend here carved, fits.sound, fits.live,
    (fits.held.carve inside apart).perm (lend_records s m n).symm⟩

/-- last moves up over a region that a client gets. -/
theorem Fits.bump (fits : Fits s h) (split : s.blocks = pre ++ b :: post) (low : b.last ≤ m)
    (high : m + n ≤ b.base + s.size) :
    (store 8 (lastAt b.base) (m + n)).run h = some ((), h.write b.base 8 (m + n)) ∧
      Fits ((s.setBlock pre { b with last := m + n } post).lend m n) (h.write b.base 8 (m + n)) := by
  have here : b ∈ s.blocks := by simp [split]
  obtain ⟨ran, after⟩ := fits.write_last split (v := m + n) (by omega) high
  refine ⟨ran, after.lend (b := { b with last := m + n }) (by simp [Shape.setBlock]) ?_ ?_⟩
  · have bound := (fits.floor_low here).1
    simp only [Block.Carved, Span.stop, sizeofPoolData]
    omega
  · intro r member
    have spans : ∃ q ∈ s.records, r.span = q.span := by
      rcases List.mem_cons.mp ((setBlock_records rfl).mem_iff.mp member) with rfl | old
      · exact ⟨_, header_at split, rfl⟩
      · exact ⟨r, (records_block split).mem_iff.mpr (by simp [old]), rfl⟩
    obtain ⟨q, old, same⟩ := spans
    rw [same]
    exact fits.free_apart here old low high

/-- A block serves a request where what is left behind last, aligned if asked, is enough. -/
def Shape.HasRoom (s : Shape) (size : Nat) (align : Bool) (b : Block) : Prop :=
  room align b.last + size ≤ b.base + s.size

instance {s : Shape} {size : Nat} {align : Bool} {b : Block} :
    Decidable (s.HasRoom size align b) := inferInstanceAs (Decidable (_ ≤ _))

theorem Fits.test_room (fits : Fits s h) (here : b ∈ s.blocks) (size : Nat) (align : Bool) :
    size ≤ sizeMinus (b.base + s.size) (room align b.last) ↔ s.HasRoom size align b := by
  obtain ⟨_, high, _⟩ := fits.room_bounds here align
  rw [sizeMinus_value high (fits.block_place here).2.2, Shape.HasRoom]
  omega

def Shape.carve (s : Shape) (pre : List Block) (b : Block) (post : List Block) (m n : Nat) : Shape :=
  (s.setBlock pre { b with last := m + n } post).lend m n

/-- One round of the do loop, on a heap that fits. -/
theorem run_scanBlocks (fits : Fits s h) (split : s.blocks = pre ++ b :: post) (fuel : Nat) :
    (scanBlocks size align (fuel + 1) b.base).run h =
      if s.HasRoom size align b then
        some (some (room align b.last), h.write b.base 8 (room align b.last + size))
      else match post with
        | [] => some (none, h)
        | c :: _ => (scanBlocks size align fuel c.base).run h := by
  have here : b ∈ s.blocks := by simp [split]
  have test := fits.test_room here size align
  simp only [scanBlocks, StateT.run_bind, fits.read_last here, fits.read_end here,
    Option.bind_eq_bind, Option.bind_some, run_ite, test]
  by_cases enough : s.HasRoom size align b
  · have ran := (fits.bump split (fits.room_bounds here align).1 enough).1
    simp [enough, ran]
  · rw [if_neg enough, if_neg enough, fits.read_next split]
    cases post with
    | nil => simp
    | cons c rest =>
      have there : c ∈ s.blocks := by simp [split]
      have full := (fits.block_place there).2.1
      have nonzero : c.base ≠ 0 := by omega
      simp [nonzero]

theorem scanBlocks_here (fits : Fits s h) (split : s.blocks = pre ++ b :: post)
    (enough : s.HasRoom size align b) (bound : Nat) :
    Settles (fun fuel => (scanBlocks size align fuel b.base).run h) (bound + 1)
        (some (room align b.last), h.write b.base 8 (room align b.last + size)) ∧
      Fits (s.carve pre b post (room align b.last) size)
        (h.write b.base 8 (room align b.last + size)) := by
  have here : b ∈ s.blocks := by simp [split]
  refine ⟨Settles.round rfl (fun fuel => ?_)
      ((settles_of_eq fun _ => rfl).widen (Nat.zero_le bound)),
    (fits.bump split (fits.room_bounds here align).1 enough).2⟩
  rw [run_scanBlocks fits split, if_pos enough]

/-- From any block on, the first with room serves the request. -/
theorem scanBlocks_settles (fits : Fits s h) (split : s.blocks = pre ++ b :: post) (size : Nat)
    (align : Bool) :
    (∃ full c behind, b :: post = full ++ c :: behind ∧
      (∀ d ∈ full, ¬s.HasRoom size align d) ∧ s.HasRoom size align c ∧
      Settles (fun fuel => (scanBlocks size align fuel b.base).run h) (post.length + 1)
        (some (room align c.last), h.write c.base 8 (room align c.last + size)) ∧
      Fits (s.carve (pre ++ full) c behind (room align c.last) size)
        (h.write c.base 8 (room align c.last + size))) ∨
    (∀ c ∈ b :: post, ¬s.HasRoom size align c) ∧
      Settles (fun fuel => (scanBlocks size align fuel b.base).run h) (post.length + 1) (none, h) := by
  induction post generalizing pre b with
  | nil =>
    by_cases enough : s.HasRoom size align b
    · obtain ⟨settles, after⟩ := scanBlocks_here fits split enough 0
      exact Or.inl ⟨[], b, [], rfl, by simp, enough, settles, by simpa using after⟩
    · refine Or.inr ⟨by simpa using enough, Settles.round rfl (fun fuel => ?_)
        (settles_of_eq fun _ => rfl)⟩
      rw [run_scanBlocks fits split, if_neg enough]
  | cons c rest ih =>
    by_cases enough : s.HasRoom size align b
    · obtain ⟨settles, after⟩ := scanBlocks_here fits split enough (c :: rest).length
      exact Or.inl ⟨[], b, c :: rest, rfl, by simp, enough, settles, by simpa using after⟩
    · have later : s.blocks = (pre ++ [b]) ++ c :: rest := by simp [split]
      have round : ∀ fuel, (scanBlocks size align (fuel + 1) b.base).run h =
          (scanBlocks size align fuel c.base).run h := by
        intro fuel
        rw [run_scanBlocks fits split, if_neg enough]
      rcases ih later with ⟨full, d, behind, found, none, room, settles, after⟩ | ⟨full, settles⟩
      · refine Or.inl ⟨b :: full, d, behind, by simp [found], ?_, room,
          Settles.round rfl round settles, by simpa using after⟩
        intro e member
        rcases List.mem_cons.mp member with rfl | between
        · exact enough
        · exact none e between
      · refine Or.inr ⟨?_, Settles.round rfl round settles⟩
        intro d member
        rcases List.mem_cons.mp member with rfl | behind
        · exact enough
        · exact full d behind

/-- What the loop of ngx_palloc_block makes of the blocks from p on and of current. -/
def missFrom : List Block → Nat → List Block × Nat
  | b :: c :: rest, current =>
    let later := missFrom (c :: rest) (if b.failed > 4 then c.base else current)
    ({ b with failed := (b.failed + 1) % 2 ^ 32 } :: later.1, later.2)
  | blocks, current => (blocks, current)

/-- failed goes up by one. -/
theorem Fits.write_failed (fits : Fits s h) (split : s.blocks = pre ++ b :: post) (v : Nat) :
    (store 4 (failedAt b.base) v).run h = some ((), h.write (b.base + 24) 4 v) ∧
      Fits (s.setBlock pre { b with failed := v % 2 ^ 32 } post) (h.write (b.base + 24) 4 v) := by
  have here : b ∈ s.blocks := by simp [split]
  obtain ⟨floor, last, _⟩ := fits.bumped b here
  apply fits.write_block (c := { b with failed := v % 2 ^ 32 }) (o := 24) split rfl
    ⟨floor, last, Nat.mod_lt _ (by decide)⟩
  · exact fun p _ carved => carved
  · omega
  · rfl
  · intro next f member
    simp only [Block.record, List.mem_cons, List.not_mem_nil, or_false] at member ⊢
    rcases member with rfl | rfl | rfl | rfl <;> simp

/-- The fields of the first block singled out. -/
theorem records_front (s : Shape) : s.records.Perm (s.front :: (s.headers 0 s.blocks ++ s.body)) :=
  List.perm_middle

theorem Fits.write_current (fits : Fits s h) (here : b ∈ s.blocks) :
    (store 8 (currentAt s.pool) b.base).run h = some ((), h.write (s.pool + 32 + 8) 8 b.base) ∧
      Fits { s with current := b.base } (h.write (s.pool + 32 + 8) 8 b.base) := by
  have small := (fits.block_place here).2.2
  obtain ⟨ran, held⟩ := (fits.held.perm (records_front s)).write (o := 8) (w := 8) (v := b.base)
    (t := { s with current := b.base }.front) (by simp [Shape.front])
    (Nat.mod_eq_of_lt (by omega)) rfl (by simp [Shape.front])
  have proper : Proper { s with current := b.base } :=
    ⟨fits.enough, fits.multiple, fits.start, ⟨b, here, rfl⟩, fits.bumped, fits.placed⟩
  exact ⟨ran, proper, fits.sound.wrote _, fits.live,
    held.perm (records_front { s with current := b.base }).symm⟩

/-- The address of the last block. -/
def lastBase : List Block → Nat
  | [] => 0
  | [b] => b.base
  | _ :: c :: rest => lastBase (c :: rest)

/-- One round of the for loop, on a block that is not the last. -/
theorem run_missBlocks (fits : Fits s h) (split : s.blocks = pre ++ b :: c :: post) :
    ∃ k, (∀ fuel, (missBlocks s.pool (fuel + 1) b.base).run h =
        (missBlocks s.pool fuel c.base).run k) ∧
      Fits { s with
        blocks := pre ++ { b with failed := (b.failed + 1) % 2 ^ 32 } :: c :: post
        current := if b.failed > 4 then c.base else s.current } k := by
  have here : b ∈ s.blocks := by simp [split]
  have there : c ∈ s.blocks := by simp [split]
  have nonzero : c.base ≠ 0 := by
    have := (fits.block_place there).2.1
    omega
  obtain ⟨ran, mid⟩ := fits.write_failed split (b.failed + 1)
  have next := fits.read_next split
  have again := mid.read_next (b := { b with failed := (b.failed + 1) % 2 ^ 32 }) rfl
  simp only [headOr_cons] at next again
  by_cases many : b.failed > 4
  · obtain ⟨moved, after⟩ := mid.write_current (b := c) (by simp [Shape.setBlock])
    have last := after.read_next (b := { b with failed := (b.failed + 1) % 2 ^ 32 }) rfl
    simp only [headOr_cons, Shape.setBlock] at last moved
    refine ⟨_, fun fuel => ?_, by rw [if_pos many]; exact after⟩
    rw [missBlocks]
    simp only [StateT.run_bind, next, Option.bind_eq_bind, Option.bind_some, run_ite, if_neg nonzero,
      fits.read_failed here, ran, if_pos many, again, moved]
    exact congrArg (Option.bind · _) last
  · refine ⟨_, fun fuel => ?_, by rw [if_neg many]; exact mid⟩
    rw [missBlocks]
    simp only [StateT.run_bind, next, Option.bind_eq_bind, Option.bind_some, run_ite, if_neg nonzero,
      fits.read_failed here, ran, if_neg many, StateT.run_pure, Option.pure_def, again]

def Shape.missed (s : Shape) (pre kept : List Block) : Shape :=
  { s with blocks := pre ++ (missFrom kept s.current).1, current := (missFrom kept s.current).2 }

theorem missBlocks_settles (fits : Fits s h) (split : s.blocks = pre ++ b :: post) :
    ∃ k, Settles (fun fuel => (missBlocks s.pool fuel b.base).run h) (post.length + 1)
        (lastBase (b :: post), k) ∧ Fits (s.missed pre (b :: post)) k := by
  induction post generalizing s h pre b with
  | nil =>
    refine ⟨h, Settles.round rfl (fun fuel => ?_) (settles_of_eq fun _ => rfl), ?_⟩
    · simp only [missBlocks, StateT.run_bind, fits.read_next split, Option.bind_eq_bind,
        Option.bind_some, run_ite, headOr_nil, if_pos]
      rfl
    · rw [Shape.missed, missFrom, ← split]
      exact fits
      simp
  | cons c rest ih =>
    obtain ⟨mid, round, missed⟩ := run_missBlocks fits split
    obtain ⟨k, settles, after⟩ := ih missed (List.append_cons pre _ (c :: rest))
    refine ⟨k, Settles.round rfl round settles, ?_⟩
    simpa [Shape.missed, missFrom] using after

theorem missFrom_last (post : List Block) (b : Block) (current : Nat) :
    ∃ front c, (missFrom (b :: post) current).1 = front ++ [c] ∧ c.base = lastBase (b :: post) := by
  induction post generalizing b current with
  | nil => exact ⟨[], b, rfl, rfl⟩
  | cons c rest ih =>
    obtain ⟨front, d, same, base⟩ := ih c (if b.failed > 4 then c.base else current)
    exact ⟨{ b with failed := (b.failed + 1) % 2 ^ 32 } :: front, d, by simp [missFrom, same], base⟩

end NgxMemPool
