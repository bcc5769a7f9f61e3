import ServerPools.Memory.Separation

/- When current leaves a block behind. The failed counters of a chain that has grown since the
   last reset form a staircase: six in front of current, then at most five and falling, and
   zero in the last block. -/
namespace NgxMemPool
open Malloc Records Linked Fuel Machine

variable {s t u : Shape} {h : Heap} {n k i : Nat} {align : Bool} {b r : Block}
  {kept pre post : List Block}

/-- The position of current after k appends to a chain of n blocks. -/
def skipped (n k : Nat) : Nat := if k < 6 then 0 else n + k - 7

/-- How many of these appends pass over the block at position i. Each walks from where
    current is before it to the last block, and counts all but that one. -/
def passes (n k i : Nat) : Nat :=
  (List.range k).countP fun j => decide (skipped n j ≤ i ∧ i + 1 < n + j)

theorem passes_succ (n k i : Nat) :
    passes n (k + 1) i = passes n k i + if skipped n k ≤ i ∧ i + 1 < n + k then 1 else 0 := by
  unfold passes
  rw [List.range_succ, List.countP_append, List.countP_singleton]
  simp only [decide_eq_true_eq]

/-- A block is passed over from the append after the one that gave it a successor, and six
    times at most. -/
theorem passes_eq (positive : 0 < n) : passes n k i = min 6 (k - (i + 2 - n)) := by
  induction k with
  | zero => simp [passes]
  | succ k ih =>
    rw [passes_succ, ih]
    unfold skipped
    split <;> split <;> omega

theorem passes_before (positive : 0 < n) (before : i < skipped n k) : passes n k i = 6 := by
  rw [passes_eq positive]
  unfold skipped at before
  split at before
  · omega
  · omega

theorem passes_behind (positive : 0 < n) (behind : skipped n k ≤ i) : passes n k i ≤ 5 := by
  rw [passes_eq positive]
  unfold skipped at behind
  split at behind
  · omega
  · omega

theorem passes_falls (positive : 0 < n) {j : Nat} (later : i ≤ j) :
    passes n k j ≤ passes n k i := by
  rw [passes_eq positive, passes_eq positive]
  omega

theorem passes_last (positive : 0 < n) (last : n + k ≤ i + 1) : passes n k i = 0 := by
  rw [passes_eq positive]
  omega

theorem passes_le (positive : 0 < n) (i : Nat) : passes n k i ≤ 6 := by
  rw [passes_eq positive]
  omega

def Shape.bases (s : Shape) : List Nat := s.blocks.map Block.base

/-- What appends look at and change in a block. -/
def Block.count (b : Block) : Nat × Nat := (b.base, b.failed)

def Shape.counts (s : Shape) : List (Nat × Nat) := s.blocks.map Block.count

/-- A chain that had n blocks at the last reset and has been appended to k times since. -/
structure Stairs (n k : Nat) (s : Shape) : Prop where
  positive : 0 < n
  length : s.counts.length = n + k
  failed : ∀ i c, s.counts[i]? = some c → c.2 = passes n k i
  current : s.bases[skipped n k]? = some s.current

theorem counts_bases (s : Shape) : s.counts.map Prod.fst = s.bases := by
  simp only [Shape.counts, Shape.bases, List.map_map]
  rfl

theorem bases_of_counts (counts : t.counts = s.counts) : t.bases = s.bases := by
  rw [← counts_bases, counts, counts_bases]

theorem Stairs.congr (stairs : Stairs n k s) (counts : t.counts = s.counts)
    (current : t.current = s.current) : Stairs n k t := by
  have bases := bases_of_counts counts
  constructor
  · exact stairs.positive
  · rw [counts]
    exact stairs.length
  · rw [counts]
    exact stairs.failed
  · rw [bases, current]
    exact stairs.current

/-- All but the last of the blocks walked over count one miss more. -/
theorem missFrom_at (kept : List Block) (current i : Nat) : (missFrom kept current).1[i]? =
    kept[i]?.map fun b =>
      if i + 1 < kept.length then { b with failed := (b.failed + 1) % 2 ^ 32 } else b := by
  induction kept generalizing current i with
  | nil => rfl
  | cons b rest ih =>
    cases rest with
    | nil => cases i <;> simp [missFrom]
    | cons c later =>
      cases i with
      | zero => simp [missFrom]
      | succ i =>
        have tail := ih (if b.failed > 4 then c.base else current) i
        simp only [missFrom, List.getElem?_cons_succ, List.length_cons] at tail ⊢
        rw [tail]
        congr 1
        funext d
        simp only [Nat.add_lt_add_iff_right]

theorem missFrom_length (kept : List Block) (current : Nat) :
    (missFrom kept current).1.length = kept.length := by
  induction kept generalizing current with
  | nil => rfl
  | cons b rest ih =>
    cases rest with
    | nil => rfl
    | cons c later => simp [missFrom, ih]

/-- current moves behind the blocks in front that had five misses. -/
theorem missFrom_current (m current : Nat) (here : kept[m]? = some r)
    (full : ∀ i b, i < m → kept[i]? = some b → 4 < b.failed)
    (rest : ∀ i b, m ≤ i → i + 1 < kept.length → kept[i]? = some b → b.failed ≤ 4) :
    (missFrom kept current).2 = if m = 0 then current else r.base := by
  induction kept generalizing m current r with
  | nil => simp at here
  | cons b others ih =>
    cases others with
    | nil =>
      cases m with
      | zero => rfl
      | succ m => simp at here
    | cons c later =>
      have shorter : ∀ i d, (c :: later)[i]? = some d → (b :: c :: later)[i + 1]? = some d :=
        fun i d there => there
      cases m with
      | zero =>
        have low : ¬b.failed > 4 := Nat.not_lt.mpr (rest 0 b (Nat.le_refl 0) (by simp) rfl)
        have stays := ih (m := 0) (r := c) current rfl (fun i d before _ => absurd before (by omega))
          (fun i d _ inside there => rest (i + 1) d (by omega) (by simpa using inside)
            (shorter i d there))
        rw [missFrom, if_neg low, if_pos rfl]
        exact stays
      | succ m =>
        have high : b.failed > 4 := full 0 b (Nat.succ_pos m) rfl
        have moves := ih (m := m) (r := r) c.base here
          (fun i d before there => full (i + 1) d (by omega) (shorter i d there))
          (fun i d from_ inside there => rest (i + 1) d (by omega) (by simpa using inside)
            (shorter i d there))
        rw [missFrom, if_pos high, if_neg (Nat.succ_ne_zero m)]
        dsimp only
        rw [moves]
        split
        · rename_i first
          subst first
          obtain rfl := Option.some.inj here
          rfl
        · rfl

theorem Fits.bases_nodup (fits : Fits s h) : s.bases.Nodup := by
  have apart := List.pairwise_map.mp (List.pairwise_append.mp fits.regions_apart).1
  have full : 0 < s.size := Nat.lt_of_lt_of_le (by decide) fits.enough
  refine List.pairwise_map.mpr (apart.imp fun {b c} clear same => ?_)
  rw [Block.region, Block.region, same] at clear
  exact Span.apart_irrefl full clear

theorem Stairs.bases_length (stairs : Stairs n k s) : s.bases.length = n + k := by
  rw [← stairs.length, ← counts_bases, List.length_map]

theorem Stairs.split_length (stairs : Stairs n k s) (split : s.blocks = pre ++ kept) :
    pre.length + kept.length = n + k := by
  rw [← stairs.length, Shape.counts, List.length_map, split, List.length_append]

theorem Stairs.block_failed (stairs : Stairs n k s) (here : s.blocks[i]? = some b) :
    b.failed = passes n k i := by
  apply stairs.failed i b.count
  rw [Shape.counts, List.getElem?_map, here]
  rfl

theorem Stairs.position (stairs : Stairs n k s) (distinct : s.bases.Nodup)
    (split : s.blocks = pre ++ b :: post) (start : b.base = s.current) :
    pre.length = skipped n k := by
  have here : s.bases[pre.length]? = some s.current := by
    simp [Shape.bases, split, start]
  have inside : pre.length < s.bases.length := by
    simp [Shape.bases, split]
  exact (List.getElem?_inj inside distinct).mp (here.trans stairs.current.symm)

theorem missFrom_bases (kept : List Block) (current : Nat) :
    (missFrom kept current).1.map Block.base = kept.map Block.base := by
  apply List.ext_getElem?
  intro i
  rw [List.getElem?_map, missFrom_at, List.getElem?_map, Option.map_map]
  congr 1
  funext b
  simp only [Function.comp_apply]
  split <;> rfl

theorem grow_bases (split : s.blocks = pre ++ kept) (base size : Nat) :
    (s.grow pre kept base size).bases = s.bases ++ [base] := by
  simp only [Shape.bases, Shape.grow, Shape.append, Shape.missed, List.map_append, split,
    missFrom_bases, List.map_cons, List.map_nil]

theorem Stairs.kept_failed (stairs : Stairs n k s) (split : s.blocks = pre ++ kept)
    (place : pre.length = skipped n k) (here : kept[i]? = some b) :
    b.failed = passes n k (skipped n k + i) := by
  apply stairs.block_failed
  rw [split, ← place, List.getElem?_append_right (Nat.le_add_right _ _), Nat.add_sub_cancel_left]
  exact here

/-- An append passes over the blocks from current on, all but the last. -/
theorem Stairs.grow_failed (stairs : Stairs n k s) (split : s.blocks = pre ++ kept)
    (place : pre.length = skipped n k) (length : pre.length + kept.length = n + k)
    {base size : Nat} {c : Block} (here : (s.grow pre kept base size).blocks[i]? = some c) :
    c.failed = passes n (k + 1) i := by
  have positive := stairs.positive
  have blocks : (s.grow pre kept base size).blocks =
      pre ++ ((missFrom kept s.current).1 ++ [⟨base, base + 32 + size, 0⟩]) :=
    List.append_assoc _ _ _
  rw [blocks] at here
  rcases Nat.lt_or_ge i pre.length with front | behind
  · rw [List.getElem?_append_left front] at here
    have old : s.blocks[i]? = some c := by rw [split, List.getElem?_append_left front, here]
    rw [passes_succ, if_neg (by omega), stairs.block_failed old, Nat.add_zero]
  · obtain ⟨j, rfl⟩ := Nat.exists_eq_add_of_le behind
    rw [List.getElem?_append_right behind, Nat.add_sub_cancel_left] at here
    rcases Nat.lt_or_ge j kept.length with inside | last
    · rw [List.getElem?_append_left (by rwa [missFrom_length]), missFrom_at] at here
      obtain ⟨b, there, rfl⟩ := Option.map_eq_some_iff.mp here
      have count := stairs.kept_failed split place there
      rw [passes_succ, place, ← count]
      by_cases followed : j + 1 < kept.length
      · have few := passes_le (k := k) positive (skipped n k + j)
        rw [if_pos followed, if_pos (by omega)]
        exact Nat.mod_eq_of_lt (by omega)
      · rw [if_neg followed, if_neg (by omega)]
        rfl
    · rw [List.getElem?_append_right (by rwa [missFrom_length]), missFrom_length] at here
      have new : c.failed = 0 := by
        obtain rfl := List.mem_singleton.mp (List.mem_of_getElem? here)
        rfl
      rw [new, passes_last positive (by omega)]

/-- current moves behind the blocks that were passed over for the sixth time. -/
theorem Stairs.grow_current (stairs : Stairs n k s) (split : s.blocks = pre ++ b :: post)
    (start : b.base = s.current) (place : pre.length = skipped n k)
    (length : pre.length + (b :: post).length = n + k) (base size : Nat) :
    (s.grow pre (b :: post) base size).bases[skipped n (k + 1)]? =
      some (s.grow pre (b :: post) base size).current := by
  have positive := stairs.positive
  have forward : skipped n k ≤ skipped n (k + 1) ∧ skipped n (k + 1) < n + k := by
    unfold skipped
    split <;> split <;> omega
  obtain ⟨m, further⟩ := Nat.exists_eq_add_of_le forward.1
  have inside : m < (b :: post).length := by omega
  obtain ⟨r, here⟩ : ∃ r, (b :: post)[m]? = some r := ⟨_, List.getElem?_eq_getElem inside⟩
  have moved : (missFrom (b :: post) s.current).2 = if m = 0 then s.current else r.base := by
    apply missFrom_current m s.current here
    · intro i c before there
      have six := passes_before (n := n) (k := k + 1) (i := skipped n k + i) positive (by omega)
      rw [passes_succ] at six
      rw [stairs.kept_failed split place there]
      split at six <;> omega
    · intro i c later followed there
      have five := passes_behind (n := n) (k := k + 1) (i := skipped n k + i) positive (by omega)
      rw [passes_succ, if_pos (by omega)] at five
      rw [stairs.kept_failed split place there]
      omega
  have target : r.base = (missFrom (b :: post) s.current).2 := by
    rw [moved]
    split
    · rename_i first
      subst first
      obtain rfl := Option.some.inj here
      exact start
    · rfl
  have walk : s.bases[skipped n (k + 1)]? = some r.base := by
    rw [Shape.bases, List.getElem?_map, split, further, ← place,
      List.getElem?_append_right (Nat.le_add_right _ _), Nat.add_sub_cancel_left, here]
    rfl
  rw [grow_bases split, List.getElem?_append_left (List.getElem?_eq_some_iff.mp walk).1, walk, target]
  rfl

theorem Stairs.grow (stairs : Stairs n k s) (distinct : s.bases.Nodup)
    (split : s.blocks = pre ++ b :: post) (start : b.base = s.current) (base size : Nat) :
    Stairs n (k + 1) (s.grow pre (b :: post) base size) := by
  have place := stairs.position distinct split start
  have length := stairs.split_length split
  constructor
  · exact stairs.positive
  · have grown := congrArg List.length (grow_bases split base size)
    rw [← counts_bases, List.length_map, List.length_append, stairs.bases_length] at grown
    exact grown
  · intro i c here
    rw [Shape.counts, List.getElem?_map] at here
    obtain ⟨d, there, rfl⟩ := Option.map_eq_some_iff.mp here
    exact stairs.grow_failed split place length there
  · exact stairs.grow_current split start place length base size

/-- What any number of appends does. -/
def Ascends (n k : Nat) (s t : Shape) : Prop :=
  ∃ news, t.bases = s.bases ++ news ∧ Stairs n (k + news.length) t

theorem Stairs.stays (stairs : Stairs n k s) (counts : t.counts = s.counts)
    (current : t.current = s.current) : Ascends n k s t := by
  refine ⟨[], ?_, stairs.congr counts current⟩
  rw [bases_of_counts counts, List.append_nil]

theorem Ascends.congr (ascends : Ascends n k s t) (counts : u.counts = t.counts)
    (current : u.current = t.current) : Ascends n k s u := by
  obtain ⟨news, bases, stairs⟩ := ascends
  exact ⟨news, (bases_of_counts counts).trans bases, stairs.congr counts current⟩

theorem Ascends.trans (first : Ascends n k s t)
    (second : ∀ k, Stairs n k t → Ascends n k t u) : Ascends n k s u := by
  obtain ⟨news, bases, stairs⟩ := first
  obtain ⟨more, others, after⟩ := second _ stairs
  refine ⟨news ++ more, ?_, ?_⟩
  · rw [others, bases, List.append_assoc]
  · rw [List.length_append, ← Nat.add_assoc]
    exact after

theorem carve_counts (split : s.blocks = pre ++ b :: post) (m size : Nat) :
    (s.carve pre b post m size).counts = s.counts := by
  simp [Shape.counts, Shape.carve, Shape.lend, Shape.setBlock, split, Block.count]

theorem SmallMove.bases {m size : Nat} (move : SmallMove s size align m t) :
    s.bases <+: t.bases := by
  cases move with
  | failed => exact List.prefix_refl _
  | @carved pre full post b split start none enough =>
    have whole : s.blocks = (pre ++ full) ++ b :: post := by rw [split, List.append_assoc]
    have same := bases_of_counts (carve_counts whole (room align b.last) size)
    exact ⟨[], (List.append_nil _).trans same.symm⟩
  | grown split start nonempty none aligned => exact ⟨_, (grow_bases split _ _).symm⟩

theorem SmallMove.ascends {m size : Nat} (move : SmallMove s size align m t)
    (distinct : s.bases.Nodup) (stairs : Stairs n k s) : Ascends n k s t := by
  cases move with
  | failed => exact stairs.stays rfl rfl
  | carved split start none enough =>
    exact stairs.stays (carve_counts (by rw [split, List.append_assoc]) _ _) rfl
  | @grown pre kept base split start nonempty none aligned =>
    cases kept with
    | nil => exact absurd rfl nonempty
    | cons b post => exact ⟨[base], grow_bases split base size, stairs.grow distinct split start base size⟩

theorem LargeMove.bases {m size : Nat} (move : LargeMove s size m t) : s.bases <+: t.bases := by
  cases move with
  | failed => exact List.prefix_refl _
  | reused split held empty near given => exact List.prefix_refl _
  | pushed held carved node given => exact carved.bases

theorem LargeMove.ascends {m size : Nat} (move : LargeMove s size m t) (distinct : s.bases.Nodup)
    (stairs : Stairs n k s) : Ascends n k s t := by
  cases move with
  | failed => exact stairs.stays rfl rfl
  | reused split held empty near given => exact stairs.stays rfl rfl
  | pushed held carved node given => exact (carved.ascends distinct stairs).congr rfl rfl

theorem PallocMove.bases {m size : Nat} (move : PallocMove s size align m t) :
    s.bases <+: t.bases := by
  cases move with
  | small fit move => exact move.bases
  | large above move => exact move.bases

theorem PallocMove.ascends {m size : Nat} (move : PallocMove s size align m t)
    (distinct : s.bases.Nodup) (stairs : Stairs n k s) : Ascends n k s t := by
  cases move with
  | small fit move => exact move.ascends distinct stairs
  | large above move => exact move.ascends distinct stairs

/-- The node and its data may each need a block of their own. -/
theorem CleanupMove.ascends {c size : Nat} (move : CleanupMove s size c t)
    (distinct : t.bases.Nodup) (before : s.bases.Nodup) (stairs : Stairs n k s) :
    Ascends n k s t := by
  cases move with
  | refused => exact stairs.stays rfl rfl
  | unlinked node given size => exact (node.ascends before stairs).congr rfl rfl
  | plain node given size => exact (node.ascends before stairs).congr rfl rfl
  | withData node given size data served rest =>
    have between := distinct.sublist data.bases.sublist
    exact ((node.ascends before stairs).trans fun _ mid => data.ascends between mid).congr rfl rfl

/-- Every call but ngx_reset_pool. -/
theorem Move.ascends {a : Action} {x : State} (move : Move s a t) (kept : ResetFree x a)
    (before : s.bases.Nodup) (distinct : t.bases.Nodup) (stairs : Stairs n k s) :
    Ascends n k s t := by
  cases move with
  | ngxPalloc move => exact move.ascends before stairs
  | ngxPnalloc move => exact move.ascends before stairs
  | ngxPcalloc move => exact move.ascends before stairs
  | ngxPoolCleanupAdd move => exact move.ascends distinct before stairs
  | ngxPfree move =>
    cases move with
    | absent none => exact stairs.stays rfl rfl
    | freed split others here => exact stairs.stays rfl rfl
  | ngxResetPool => exact absurd kept id
  | poke => exact stairs.stays rfl rfl

theorem stairs_newShape (p size : Nat) : Stairs 1 0 (newShape p size) := by
  constructor
  · exact Nat.one_pos
  · rfl
  · intro i c here
    obtain rfl := List.mem_singleton.mp (List.mem_of_getElem? here)
    rfl
  · rfl

theorem reset_bases (s : Shape) : s.reset.bases = s.bases := by
  simp only [Shape.bases, Shape.reset, List.map_map]
  rfl

/-- A reset makes one level of the stairs. -/
theorem Fits.stairs_reset (fits : Fits s h) : Stairs s.bases.length 0 s.reset := by
  obtain ⟨b, member, _⟩ := fits.first_block
  have start := fits.start
  constructor
  · rw [Shape.bases, List.length_map]
    exact List.length_pos_of_mem member
  · simp only [Shape.counts, Shape.bases, Shape.reset, List.length_map, Nat.add_zero]
  · intro i c here
    obtain ⟨d, there, rfl⟩ := List.mem_map.mp (List.mem_of_getElem? here)
    obtain ⟨e, _, rfl⟩ := List.mem_map.mp there
    rfl
  · rw [reset_bases]
    cases blocks : s.blocks with
    | nil => simp [blocks] at member
    | cons c rest =>
      rw [blocks] at start
      simp only [Shape.bases, blocks, List.map_cons]
      exact congrArg some start

end NgxMemPool
