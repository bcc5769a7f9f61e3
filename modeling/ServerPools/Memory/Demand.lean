import ServerPools.Memory.BlockBounds
import ServerPools.Memory.Skipping

/- How many blocks a pool comes to have. Every block but the last one in use was left for a
   request that did not fit into it, so that together they are at least half full; and a pool
   grows only when every block is in use. So the most that was ever asked for between two
   resets bounds the chain, however long the pool lives. -/
namespace NgxMemPool
open Malloc Records Linked Fuel Machine

variable {s t u : Shape} {h : Heap} {n m asked peak : Nat} {align : Bool} {b c d : Block}
  {front unused pre post kept full : List Block}

def Block.taken (b : Block) : Nat := b.last - b.base

def Shape.spare (s : Shape) (b : Block) : Nat := b.base + s.size - b.last

/-- The chain since the last reset: front and b have been opened in this order, the search does
    not start behind b, and what is behind b is as the reset left it. asked bounds both what
    was handed out and what was left behind in front. -/
structure Filling (s : Shape) (front : List Block) (b : Block) (unused : List Block)
    (asked : Nat) : Prop where
  split : s.blocks = front ++ b :: unused
  current : ∀ i, s.bases[i]? = some s.current → i ≤ front.length
  bounds : ∀ d ∈ s.blocks, d.base ≤ d.last ∧ d.last ≤ d.base + s.size
  rewound : ∀ d ∈ unused, d.last = d.base + sizeofPool ∧ d.failed = 0 ∧
    ∀ align, room align d.last = d.last
  taken : (front.map Block.taken).sum + b.taken ≤ sizeofPool * (front.length + 1) + asked
  wasted : (front.map s.spare).sum ≤ asked

theorem room_range (align : Bool) (last : Nat) : room align last ≤ last + 7 := by
  cases align with
  | false => exact Nat.le_add_right last 7
  | true =>
    have value : room true last = wrap (last + 7) / 8 * 8 := ngxAlignPtr_wrapped last
    have small : wrap (last + 7) ≤ last + 7 := Nat.mod_le _ _
    omega

/-- A block as a reset left it serves every small request. -/
theorem Filling.opens (filling : Filling s front b unused asked) (member : d ∈ unused)
    (enough : n + 64 ≤ s.size) : s.HasRoom n align d := by
  obtain ⟨last, _, aligned⟩ := filling.rewound d member
  rw [Shape.HasRoom, aligned, last]
  simp only [sizeofPool]
  omega

/-- The search begins at the latest with b. -/
theorem Filling.start (filling : Filling s front b unused asked) (split : s.blocks = pre ++ kept)
    (nonempty : kept ≠ []) (start : headOr Block.base 0 kept = s.current) :
    pre.length ≤ front.length := by
  cases kept with
  | nil => exact absurd rfl nonempty
  | cons c post =>
    apply filling.current
    rw [Shape.bases, split, List.map_append, List.getElem?_append_right (by simp)]
    simpa using start

/-- A block that refuses n has little room left. -/
theorem spare_of_refused (refused : ¬s.HasRoom n align b) : s.spare b ≤ n + 7 := by
  have up := room_range align b.last
  simp only [Shape.HasRoom] at refused
  simp only [Shape.spare]
  omega

/-- A search that came past b found no block behind it. -/
theorem Filling.searched (filling : Filling s front b unused asked)
    (split : s.blocks = pre ++ (full ++ post)) (nonempty : full ++ post ≠ [])
    (start : headOr Block.base 0 (full ++ post) = s.current) (enough : n + 64 ≤ s.size)
    (refuse : ∀ d ∈ full, ¬s.HasRoom n align d) (past : pre ++ full = front ++ b :: kept)
    (behind : ∀ d ∈ kept, d ∈ unused) : kept = [] ∧ s.spare b ≤ n + 7 := by
  have early := filling.start split nonempty start
  obtain ⟨mid, rfl⟩ : ∃ mid, full = mid ++ b :: kept := by
    rcases List.append_eq_append_iff.mp past with ⟨mid, _, rest⟩ | ⟨mid, same, rest⟩
    · exact ⟨mid, rest⟩
    · have length := congrArg List.length same
      rw [List.length_append] at length
      have none : mid = [] := List.eq_nil_of_length_eq_zero (by omega)
      subst none
      exact ⟨[], rest.symm⟩
  refine ⟨List.eq_nil_iff_forall_not_mem.mpr fun d member => ?_,
    spare_of_refused (refuse b (by simp))⟩
  exact refuse d (by simp [member]) (filling.opens (behind d member) enough)

/-- A block that has served one more request. -/
def Block.served (b : Block) (align : Bool) (n : Nat) : Block :=
  { b with last := room align b.last + n }

theorem served_taken (b : Block) (align : Bool) (n : Nat) :
    (b.served align n).taken ≤ b.taken + (n + 7) := by
  have up := room_range align b.last
  simp only [Block.taken, Block.served]
  omega

/-- No block ends too close to the top of the address space. -/
def Shape.Addressed (s : Shape) : Prop := ∀ p ∈ s.bases, p + s.size + 7 < 2 ^ 64

theorem Fits.addressed (fits : Fits s h) : s.Addressed := by
  intro p member
  obtain ⟨b, here, rfl⟩ := List.mem_map.mp member
  obtain ⟨aligned, _, small⟩ := fits.block_place here
  have multiple := fits.multiple
  omega

theorem Shape.Addressed.earlier (addressed : t.Addressed) (bases : s.bases <+: t.bases)
    (size : s.size = t.size) : s.Addressed := by
  intro p member
  rw [size]
  exact addressed p (bases.subset member)

theorem Filling.room_up (filling : Filling s front b unused asked) (addressed : s.Addressed)
    (here : c ∈ s.blocks) (align : Bool) : c.last ≤ room align c.last := by
  have last := (filling.bounds c here).2
  have small := addressed c.base (List.mem_map_of_mem here)
  cases align with
  | false => exact Nat.le_refl _
  | true =>
    have value : room true c.last = (c.last + 7) / 8 * 8 := ngxAlignPtr_value (by omega)
    omega

/-- The fields of Filling that speak of all blocks, where one serves a request. -/
theorem Filling.serve (filling : Filling s front b unused asked) (addressed : s.Addressed)
    (split : s.blocks = pre ++ c :: post) (enough : s.HasRoom n align c)
    (blocks : t.blocks = pre ++ c.served align n :: post)
    (same : t.current = s.current) (size : t.size = s.size) :
    (∀ i, t.bases[i]? = some t.current → i ≤ front.length) ∧
      (∀ d ∈ t.blocks, d.base ≤ d.last ∧ d.last ≤ d.base + t.size) ∧
      s.spare (c.served align n) ≤ s.spare c := by
  have up := filling.room_up addressed (c := c) (by simp [split]) align
  refine ⟨?_, fun d member => ?_, ?_⟩
  · have bases : t.bases = s.bases := by
      simp [Shape.bases, blocks, split, Block.served]
    rw [bases, same]
    exact filling.current
  · rw [blocks] at member
    have old := filling.bounds
    rw [split] at old
    rw [size]
    rcases List.mem_append.mp member with before | here
    · exact old d (by simp [before])
    · rcases List.mem_cons.mp here with rfl | after
      · have low := (old c (by simp)).1
        simp only [Shape.HasRoom] at enough
        simp only [Block.served]
        omega
      · exact old d (by simp [after])
  · simp only [Shape.spare, Block.served]
    omega

theorem spare_congr (size : t.size = s.size) : t.spare = s.spare := by
  funext b
  rw [Shape.spare, Shape.spare, size]

/-- Where one cut of a list lies beside another. -/
theorem cut_cases (both : pre ++ c :: post = front ++ b :: unused) :
    (∃ mid, front = pre ++ c :: mid ∧ post = mid ++ b :: unused) ∨
      (pre = front ∧ c = b ∧ post = unused) ∨
      ∃ mid, pre = front ++ b :: mid ∧ unused = mid ++ c :: post := by
  rcases List.append_eq_append_iff.mp both with ⟨mid, before, rest⟩ | ⟨mid, before, rest⟩
  · cases mid with
    | nil =>
      obtain ⟨rfl, rfl⟩ := List.cons.inj rest
      exact Or.inr (Or.inl ⟨by simpa using before.symm, rfl, rfl⟩)
    | cons d mid =>
      obtain ⟨rfl, behind⟩ := List.cons.inj rest
      exact Or.inl ⟨mid, before, behind⟩
  · cases mid with
    | nil =>
      obtain ⟨rfl, rfl⟩ := List.cons.inj rest
      exact Or.inr (Or.inl ⟨by simpa using before, rfl, rfl⟩)
    | cons d mid =>
      obtain ⟨rfl, behind⟩ := List.cons.inj rest
      exact Or.inr (Or.inr ⟨mid, before, behind⟩)

/-- A request that one of the blocks serves. -/
theorem Filling.carved (filling : Filling s front b unused asked) (addressed : s.Addressed)
    (enough : n + 64 ≤ s.size) (split : s.blocks = pre ++ (full ++ c :: post))
    (start : headOr Block.base 0 (full ++ c :: post) = s.current)
    (refuse : ∀ d ∈ full, ¬s.HasRoom n align d) (fit : s.HasRoom n align c)
    (blocks : t.blocks = pre ++ full ++ c.served align n :: post)
    (same : t.current = s.current) (size : t.size = s.size) :
    ∃ front b unused, Filling t front b unused (asked + (n + 7)) := by
  have whole : s.blocks = (pre ++ full) ++ c :: post := by rw [split, List.append_assoc]
  obtain ⟨current, bounds, less⟩ := filling.serve addressed whole fit blocks same size
  have more := served_taken c align n
  have taken := filling.taken
  have wasted := filling.wasted
  have spare := spare_congr size
  rcases cut_cases (whole.symm.trans filling.split) with
    ⟨mid, rfl, behind⟩ | ⟨before, rfl, rfl⟩ | ⟨mid, before, rfl⟩
  · -- a block in front of b
    refine ⟨pre ++ full ++ c.served align n :: mid, b, unused, ?_, ?_, bounds, filling.rewound,
      ?_, ?_⟩
    · rw [blocks, behind]
      simp
    · simpa using current
    · simp only [List.map_append, List.map_cons, List.sum_append, List.sum_cons,
        List.length_append, List.length_cons] at taken ⊢
      omega
    · rw [spare]
      simp only [List.map_append, List.map_cons, List.sum_append, List.sum_cons] at wasted ⊢
      omega
  · -- b itself
    refine ⟨front, c.served align n, post, by rw [blocks, before], current, bounds,
      filling.rewound, by omega, ?_⟩
    rw [spare]
    omega
  · -- the first block behind b, which is opened for it
    obtain ⟨rfl, little⟩ := filling.searched split (by simp) start enough refuse before
      (fun d member => by simp [member])
    have fresh := (filling.rewound c (by simp)).1
    have opened : c.taken = sizeofPool := by simp [Block.taken, fresh]
    refine ⟨front ++ [b], c.served align n, post, by rw [blocks, before], ?_, bounds, ?_, ?_, ?_⟩
    · intro i here
      have := current i here
      simp only [List.length_append]
      omega
    · intro d member
      exact filling.rewound d (by simp [member])
    · simp only [List.map_append, List.map_cons, List.map_nil, List.sum_append, List.sum_cons,
        List.sum_nil, List.length_append, List.length_cons, List.length_nil, opened, sizeofPool]
        at taken more opened ⊢
      omega
    · rw [spare]
      simp only [List.map_append, List.map_cons, List.map_nil, List.sum_append, List.sum_cons,
        List.sum_nil]
      omega

/-- What of a block the loop of ngx_palloc_block leaves as it is. -/
theorem missFrom_map {α : Type} (f : Block → α) (same : ∀ b k, f { b with failed := k } = f b)
    (kept : List Block) (current : Nat) : (missFrom kept current).1.map f = kept.map f := by
  apply List.ext_getElem?
  intro i
  rw [List.getElem?_map, missFrom_at, List.getElem?_map, Option.map_map]
  congr 1
  funext b
  simp only [Function.comp_apply]
  split
  · exact same b _
  · rfl

/-- A request for which a block is added: b is the last one then, and has too little room. -/
theorem Filling.grown (filling : Filling s front b unused asked) (enough : n + 64 ≤ s.size)
    (split : s.blocks = pre ++ kept) (nonempty : kept ≠ [])
    (start : headOr Block.base 0 kept = s.current) (refuse : ∀ d ∈ kept, ¬s.HasRoom n align d)
    (base : Nat) : ∃ front b, Filling (s.grow pre kept base n) front b [] (asked + (n + 7)) := by
  have nothing : s.blocks = pre ++ (kept ++ []) := by rw [split, List.append_nil]
  obtain ⟨rfl, little⟩ := filling.searched nothing (by simpa using nonempty) (by simpa using start)
    enough refuse (split.symm.trans filling.split) (fun d member => member)
  have old {α : Type} (f : Block → α) (same : ∀ b k, f { b with failed := k } = f b) :
      (pre ++ (missFrom kept s.current).1).map f = s.blocks.map f := by
    rw [List.map_append, missFrom_map f same, ← List.map_append, ← split]
  have length : (pre ++ (missFrom kept s.current).1).length = front.length + 1 := by
    rw [List.length_append, missFrom_length, ← List.length_append, ← split, filling.split,
      List.length_append, List.length_singleton]
  refine ⟨pre ++ (missFrom kept s.current).1, ⟨base, base + 32 + n, 0⟩, rfl, ?_, ?_, by simp, ?_, ?_⟩
  · intro i here
    have inside := (List.getElem?_eq_some_iff.mp here).1
    rw [grow_bases split, List.length_append, Shape.bases, List.length_map, filling.split] at inside
    simp only [List.length_append, List.length_cons, List.length_nil] at inside
    omega
  · intro d member
    rcases List.mem_append.mp member with before | new
    · have place : (d.base, d.last) ∈ s.blocks.map fun b => (b.base, b.last) := by
        rw [← old (fun b => (b.base, b.last)) fun b k => rfl]
        exact List.mem_map_of_mem before
      obtain ⟨c, here, same⟩ := List.mem_map.mp place
      obtain ⟨low, high⟩ := Prod.mk.inj same
      rw [← low, ← high]
      exact filling.bounds c here
    · obtain rfl := List.mem_singleton.mp new
      have size : (s.grow pre kept base n).size = s.size := rfl
      simp only [size]
      omega
  · have taken := filling.taken
    rw [old Block.taken fun b k => rfl, length, filling.split]
    simp only [List.map_append, List.map_cons, List.map_nil, List.sum_append, List.sum_cons,
      List.sum_nil, Block.taken, sizeofPool] at taken ⊢
    omega
  · have wasted := filling.wasted
    have spare : (s.grow pre kept base n).spare = s.spare := spare_congr rfl
    rw [spare, old s.spare fun b k => rfl, filling.split]
    simp only [List.map_append, List.map_cons, List.map_nil, List.sum_append, List.sum_cons,
      List.sum_nil]
    omega

theorem taken_and_spare (bounds : ∀ d ∈ full, d.base ≤ d.last ∧ d.last ≤ d.base + s.size) :
    (full.map Block.taken).sum + (full.map s.spare).sum = s.size * full.length := by
  induction full with
  | nil => simp
  | cons d rest ih =>
    have later := ih fun e member => bounds e (List.mem_cons_of_mem d member)
    have here := bounds d List.mem_cons_self
    have whole : d.taken + s.spare d = s.size := by
      simp only [Block.taken, Shape.spare]
      omega
    simp only [List.map_cons, List.sum_cons, List.length_cons, Nat.mul_succ]
    omega

/-- The blocks in use are half full, all but the last of them. -/
theorem Filling.half_full (filling : Filling s front b unused asked) :
    (s.size - sizeofPool) * (front.length + 1) ≤ 2 * asked + s.size := by
  have taken := filling.taken
  have wasted := filling.wasted
  have whole : (front.map Block.taken).sum + (front.map s.spare).sum = s.size * front.length :=
    taken_and_spare fun d member => filling.bounds d (by simp [filling.split, member])
  rw [Nat.sub_mul, Nat.mul_succ s.size]
  omega

/-- peak bounds what was asked for at any time, and with it the whole chain. -/
structure Thrifty (s : Shape) (asked peak : Nat) : Prop where
  filling : ∃ front b unused, Filling s front b unused asked
  within : (s.size - sizeofPool) * s.blocks.length ≤ 2 * peak + s.size

theorem Thrifty.mono (thrifty : Thrifty s asked peak) {more top : Nat} (asks : asked ≤ more)
    (tops : peak ≤ top) : Thrifty s more top := by
  obtain ⟨⟨front, b, unused, filling⟩, within⟩ := thrifty
  have taken := filling.taken
  exact ⟨⟨front, b, unused, filling.split, filling.current, filling.bounds, filling.rewound,
    by omega, filling.wasted.trans asks⟩, by omega⟩

theorem Thrifty.congr (thrifty : Thrifty s asked peak) (blocks : t.blocks = s.blocks)
    (current : t.current = s.current) (size : t.size = s.size) : Thrifty t asked peak := by
  obtain ⟨⟨front, b, unused, filling⟩, within⟩ := thrifty
  refine ⟨⟨front, b, unused, ?_, ?_, ?_, filling.rewound, filling.taken, ?_⟩, ?_⟩
  · rw [blocks, filling.split]
  · rw [Shape.bases, blocks, current]
    exact filling.current
  · rw [blocks, size]
    exact filling.bounds
  · rw [spare_congr size]
    exact filling.wasted
  · rwa [blocks, size]

theorem SmallMove.size (move : SmallMove s n align m t) : t.size = s.size := by
  cases move <;> rfl

theorem SmallMove.thrifty (move : SmallMove s n align m t) (enough : n + 64 ≤ s.size)
    (addressed : s.Addressed) (thrifty : Thrifty s asked peak) (below : asked + (n + 7) ≤ peak) :
    Thrifty t (asked + (n + 7)) peak := by
  obtain ⟨front, b, unused, filling⟩ := thrifty.filling
  cases move with
  | failed => exact thrifty.mono (Nat.le_add_right _ _) (Nat.le_refl _)
  | @carved pre full post c split start refuse fit =>
    refine ⟨filling.carved addressed enough split start refuse fit rfl rfl rfl, ?_⟩
    have length : (s.carve (pre ++ full) c post (room align c.last) n).blocks.length =
        s.blocks.length := by
      simp [Shape.carve, Shape.lend, Shape.setBlock, split]
    rw [length]
    exact thrifty.within
  | @grown pre kept base split start nonempty refuse aligned =>
    obtain ⟨front, b, filling⟩ := filling.grown enough split nonempty start refuse base
    refine ⟨⟨front, b, [], filling⟩, ?_⟩
    have half := filling.half_full
    rw [filling.split, List.length_append, List.length_singleton]
    omega

/-- What a request may take of the blocks, with what aligning it costs. -/
def Shape.share (s : Shape) (n : Nat) : Nat :=
  (if poolMax (s.size - sizeofPool) < n then sizeofLarge else n) + 7

theorem PallocMove.size (move : PallocMove s n align m t) : t.size = s.size := by
  cases move with
  | small fit move => exact move.size
  | large above move =>
    cases move with
    | failed => rfl
    | reused split held empty near given => rfl
    | pushed held carved node given => exact carved.size

theorem PallocMove.thrifty (move : PallocMove s n align m t) (proper : 96 ≤ s.size)
    (addressed : s.Addressed) (thrifty : Thrifty s asked peak) (below : asked + s.share n ≤ peak) :
    Thrifty t (asked + s.share n) peak := by
  cases move with
  | small fit move =>
    have least := poolMax_le (s.size - sizeofPool)
    have share : s.share n = n + 7 := by rw [Shape.share, if_neg (Nat.not_lt.mpr fit)]
    rw [share] at below ⊢
    simp only [sizeofPool] at least fit
    exact move.thrifty (by omega) addressed thrifty below
  | large above move =>
    have share : s.share n = sizeofLarge + 7 := by rw [Shape.share, if_pos above]
    rw [share] at below ⊢
    cases move with
    | failed => exact thrifty.mono (Nat.le_add_right _ _) (Nat.le_refl _)
    | reused split held empty near given =>
      exact (thrifty.mono (Nat.le_add_right _ _) (Nat.le_refl _)).congr rfl rfl rfl
    | pushed held carved node given =>
      simp only [sizeofLarge] at carved below ⊢
      exact (carved.thrifty (by omega) addressed thrifty below).congr rfl rfl rfl

/-- The node comes first, and then its data, if it has any. -/
def Shape.cleanupShare (s : Shape) (n : Nat) : Nat :=
  sizeofCleanup + 7 + if n = 0 then 0 else s.share n

theorem share_congr (size : t.size = s.size) : t.share = s.share := by
  funext n
  rw [Shape.share, Shape.share, size]

theorem CleanupMove.thrifty (move : CleanupMove s n m t) (proper : 96 ≤ s.size)
    (before : s.Addressed) (after : t.Addressed) (thrifty : Thrifty s asked peak)
    (below : asked + s.cleanupShare n ≤ peak) : Thrifty t (asked + s.cleanupShare n) peak := by
  have node_thrifty {q : Nat} {mid : Shape} (node : SmallMove s sizeofCleanup true q mid) :
      Thrifty mid (asked + (sizeofCleanup + 7)) peak := by
    simp only [Shape.cleanupShare, sizeofCleanup] at node below ⊢
    exact node.thrifty (by omega) before thrifty (by omega)
  cases move with
  | refused => exact thrifty.mono (Nat.le_add_right _ _) (Nat.le_refl _)
  | unlinked node given size =>
    refine ((node_thrifty node).mono ?_ (Nat.le_refl _)).congr rfl rfl rfl
    simp only [Shape.cleanupShare]
    omega
  | plain node given size =>
    have share : s.cleanupShare n = sizeofCleanup + 7 := by simp [Shape.cleanupShare, size]
    rw [share]
    exact (node_thrifty node).congr rfl rfl rfl
  | @withData _ _ mid u others node given size data served rest =>
    have share : s.cleanupShare n = sizeofCleanup + 7 + mid.share n := by
      rw [Shape.cleanupShare, if_neg size, share_congr node.size]
    rw [share, ← Nat.add_assoc] at below ⊢
    have between : mid.Addressed :=
      Shape.Addressed.earlier (t := u) after data.bases data.size.symm
    exact (data.thrifty (node.size ▸ proper) between (node_thrifty node) below).congr rfl rfl rfl

theorem thrifty_newShape (p size : Nat) (enough : 96 ≤ size) : Thrifty (newShape p size) 0 0 := by
  refine ⟨⟨[], ⟨p, p + sizeofPool, 0⟩, [], rfl, ?_, ?_, by simp, ?_, by simp⟩, ?_⟩
  · intro i here
    have inside := (List.getElem?_eq_some_iff.mp here).1
    exact Nat.le_of_lt_succ inside
  · intro d member
    obtain rfl := List.mem_singleton.mp member
    simp only [newShape, sizeofPool]
    omega
  · simp [Block.taken]
  · have one : (newShape p size).blocks.length = 1 := rfl
    have same : (newShape p size).size = size := rfl
    rw [one, same]
    omega

/-- A reset takes everything back and keeps the blocks. -/
theorem Fits.thrifty_reset (fits : Fits s h) (thrifty : Thrifty s asked peak) :
    Thrifty s.reset 0 peak := by
  obtain ⟨first, member, _⟩ := fits.first_block
  obtain ⟨b, rest, blocks⟩ : ∃ b rest, s.blocks = b :: rest := by
    cases list : s.blocks with
    | nil => simp [list] at member
    | cons b rest => exact ⟨b, rest, rfl⟩
  have start : b.base = s.pool := by
    have start := fits.start
    rwa [blocks] at start
  have distinct := fits.bases_nodup
  refine ⟨⟨[], b.rewound, rest.map Block.rewound, by simp [Shape.reset, blocks], ?_, ?_, ?_, ?_,
    by simp⟩, ?_⟩
  · intro i here
    rw [reset_bases] at here
    have head : s.bases[0]? = some s.reset.current := by
      rw [Shape.bases, blocks, List.map_cons, start]
      rfl
    have inside := (List.getElem?_eq_some_iff.mp here).1
    exact Nat.le_of_eq ((List.getElem?_inj inside distinct).mp (here.trans head.symm))
  · intro d place
    obtain ⟨c, here, rfl⟩ := List.mem_map.mp place
    have enough := fits.enough
    have size : s.reset.size = s.size := rfl
    simp only [Block.rewound, sizeofPool, size]
    omega
  · intro d place
    obtain ⟨c, here, rfl⟩ := List.mem_map.mp place
    obtain ⟨aligned, _, small⟩ := fits.block_place (b := c) (by simp [blocks, here])
    have enough := fits.enough
    refine ⟨rfl, rfl, fun align => ?_⟩
    cases align with
    | false => rfl
    | true =>
      have value : room true (c.base + sizeofPool) = (c.base + sizeofPool + 7) / 8 * 8 :=
        ngxAlignPtr_value (by simp only [sizeofPool]; omega)
      change room true (c.base + sizeofPool) = c.base + sizeofPool
      rw [value]
      simp only [sizeofPool]
      omega
  · simp [Block.taken, Block.rewound]
  · have length : s.reset.blocks.length = s.blocks.length := by simp [Shape.reset]
    rw [length]
    exact thrifty.within

/-- What a call may take of the blocks. -/
def State.share (s : State) (size : Nat) : Nat := (if s.isLarge size then sizeofLarge else size) + 7

def State.demand (s : State) : Action → Nat
  | .ngxPalloc _ size _ | .ngxPnalloc _ size _ | .ngxPcalloc _ size _ => s.share size
  | .ngxPoolCleanupAdd _ size _ => sizeofCleanup + 7 + if size = 0 then 0 else s.share size
  | _ => 0

/-- A pool with what was asked for since the last reset, and the most that ever was. -/
structure Metered where
  state : State
  asked : Nat
  peak : Nat

def Metered.charge (w : Metered) (a : Action) : Nat :=
  match a with
  | .ngxResetPool _ => 0
  | a => w.asked + w.state.demand a

def meter (w : Metered) (a : Action) : Option Metered :=
  (step w.state a).map fun t => ⟨t, w.charge a, max w.peak (w.charge a)⟩

def MeterSized (w : Metered) (a : Action) : Prop := WellSized w.state a

instance {w : Metered} {a : Action} : Decidable (MeterSized w a) :=
  inferInstanceAs (Decidable (WellSized w.state a))

theorem Represents.share {x : State} (held : Represents x s) : x.share = s.share := by
  funext size
  rw [State.share, Shape.share, held.large]
  simp only [decide_eq_true_eq]

theorem charge_thrifty {x y : State} {a : Action} (held : Represents x s)
    (move : Move s a t) (after : Represents y t) (thrifty : Thrifty s asked peak) :
    Thrifty t (Metered.charge ⟨x, asked, peak⟩ a) (max peak (Metered.charge ⟨x, asked, peak⟩ a)) := by
  have proper := held.fits.enough
  have before := held.fits.addressed
  have wider : Thrifty s asked (max peak (Metered.charge ⟨x, asked, peak⟩ a)) :=
    thrifty.mono (Nat.le_refl _) (Nat.le_max_left _ _)
  have below := Nat.le_max_right peak (Metered.charge ⟨x, asked, peak⟩ a)
  cases move with
  | ngxPalloc move | ngxPnalloc move | ngxPcalloc move =>
    simp only [Metered.charge, State.demand, held.share] at wider below ⊢
    exact move.thrifty proper before wider below
  | ngxPoolCleanupAdd move =>
    simp only [Metered.charge, State.demand, held.share] at wider below ⊢
    exact move.thrifty proper before after.fits.addressed wider below
  | ngxPfree move =>
    cases move with
    | absent none => exact wider
    | freed split others here => exact wider.congr rfl rfl rfl
  | ngxResetPool => exact held.fits.thrifty_reset wider
  | poke => exact wider.congr rfl rfl rfl

inductive Economical (w : Metered) : Prop where
  | unborn (unborn : Unborn w.state) (nothing : w.asked = 0 ∧ w.peak = 0)
  | running {shape : Shape} (running : w.state.phase = .running) (held : Represents w.state shape)
      (thrifty : Thrifty shape w.asked w.peak)
  | destroyed (destroyed : w.state.phase = .destroyed)

theorem Economical.step {w v : Metered} {a : Action} (economical : Economical w)
    (sized : MeterSized w a) (taken : meter w a = some v) : Economical v := by
  obtain ⟨t, moved, rfl⟩ := Option.map_eq_some_iff.mp taken
  cases economical with
  | unborn unborn nothing =>
    obtain ⟨asked, peak⟩ := nothing
    have charge : w.charge a = 0 := by
      cases a with
      | ngxCreatePool size answers => exact asked
      | _ => simp [NgxMemPool.step, unborn.phase] at moved
    rcases unborn.step sized moved with still | ⟨p, size, running, held⟩
    · exact .unborn still ⟨charge, by simp [charge, peak]⟩
    · refine .running running held ?_
      simp only [charge, peak, Nat.max_self]
      exact thrifty_newShape p size held.fits.enough
  | running running held thrifty =>
    rcases held.moves running moved with ⟨still, after, move, represents⟩ | ⟨ended, _⟩
    · exact .running still represents (charge_thrifty held move represents thrifty)
    · exact .destroyed ended
  | destroyed ended => simp [step_destroyed ended] at moved

theorem economical_of_reach {w : Metered} (reached : Reach meter MeterSized ⟨initial, 0, 0⟩ w) :
    Economical w :=
  reached.invariant (.unborn unborn_initial ⟨rfl, rfl⟩) fun _ economical sized taken =>
    economical.step sized taken

/-- A block of this size that has served nothing since the reset: its free space begins behind
    the header and ends with the block, and no request has failed on it. -/
def State.Rewound (s : State) (size b : Nat) : Prop :=
  s.blockLast b = b + sizeofPool ∧ s.blockEnd b = b + size ∧ s.blockFailed b = 0

/-- In every run, with resets and failures of malloc: the blocks used since the last reset are
    half full of what was asked for since, and the whole chain is no longer than the most that
    was asked for between two resets makes it. What lies behind the used blocks is rewound. -/
theorem blocks_within_demand {w : Metered} (reached : Reach meter MeterSized ⟨initial, 0, 0⟩ w)
    (running : w.state.phase = .running) :
    ∃ size used unused, w.state.blockEnd w.state.pool = w.state.pool + size ∧
      Follows w.state.blockNext w.state.pool (used ++ unused) ∧
      (size - sizeofPool) * used.length ≤ 2 * w.asked + size ∧
      (∀ b ∈ unused, w.state.Rewound size b) ∧
      (size - sizeofPool) * (used ++ unused).length ≤ 2 * w.peak + size := by
  cases economical_of_reach reached with
  | unborn unborn => exact absurd (unborn.phase.symm.trans running) (by decide)
  | destroyed ended => exact absurd (ended.symm.trans running) (by decide)
  | @running shape _ held thrifty =>
    obtain ⟨⟨front, b, unused, filling⟩, within⟩ := thrifty
    have split : shape.blocks = (front ++ [b]) ++ unused := by simp [filling.split]
    have chain := held.chain
    rw [split, List.map_append] at chain
    obtain ⟨first, here, base⟩ := held.fits.first_block
    refine ⟨shape.size, (front ++ [b]).map Block.base, unused.map Block.base, ?_, chain, ?_, ?_, ?_⟩
    · rw [← held.pool, ← base]
      exact (held.block_words here).2
    · simpa using filling.half_full
    · intro p member
      obtain ⟨d, place, rfl⟩ := List.mem_map.mp member
      have inside : d ∈ shape.blocks := by simp [split, place]
      obtain ⟨last, stop⟩ := held.block_words inside
      obtain ⟨rewound, failed, _⟩ := filling.rewound d place
      exact ⟨last.trans rewound, stop, (held.block_failed inside).trans failed⟩
    · rw [← List.map_append, List.length_map, ← split]
      exact within

/-- Three blocks are needed before the reset; what is asked for after it is less, and leaves
    the third of them alone. -/
def againRequests : List Action :=
  [.ngxCreatePool 128 (malloced [16]), .ngxPalloc 5 40 [], .ngxPnalloc 5 60 (malloced [256]),
    .ngxPoolCleanupAdd 5 40 (malloced [512]), .ngxResetPool 4, .ngxPcalloc 5 100 (malloced [1024]),
    .ngxPnalloc 5 50 []]

theorem blocks_within_demand_again : ∃ w, run meter ⟨initial, 0, 0⟩ againRequests = some w ∧
    w.asked = 80 ∧ w.peak = 192 ∧ Follows w.state.blockNext 16 [16, 256, 512] ∧
    ∃ size used unused, w.state.blockEnd w.state.pool = w.state.pool + size ∧
      Follows w.state.blockNext w.state.pool (used ++ unused) ∧
      (size - sizeofPool) * used.length ≤ 2 * w.asked + size ∧
      (∀ b ∈ unused, w.state.Rewound size b) ∧
      (size - sizeofPool) * (used ++ unused).length ≤ 2 * w.peak + size := by
  have sized : Obeys meter MeterSized ⟨initial, 0, 0⟩ againRequests := by decide +kernel
  have ran : ∃ w ∈ run meter ⟨initial, 0, 0⟩ againRequests, w.state.phase = .running ∧
      w.asked = 80 ∧ w.peak = 192 ∧ Follows w.state.blockNext 16 [16, 256, 512] := by
    decide +kernel
  obtain ⟨w, taken, running, asked, peak, chain⟩ := ran
  exact ⟨w, taken, asked, peak, chain, blocks_within_demand (reach_of_run sized taken) running⟩

end NgxMemPool
