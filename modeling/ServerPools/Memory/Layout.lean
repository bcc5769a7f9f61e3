import ServerPools.Support.Records
import ServerPools.Support.Linked
import ServerPools.Memory.MemPool

/- What a pool looks like between two stores: its blocks, its two lists and the regions it
   has carved, as lists, and when a heap holds exactly that. -/
namespace NgxMemPool
open Malloc Records Linked

structure Block where
  base : Nat
  last : Nat
  failed : Nat
  deriving DecidableEq, Repr

/-- bytes is the length of the region alloc points to. known, here and below, is whatever
    one chooses to remember of what the region handed out holds. -/
structure LargeNode where
  addr : Nat
  alloc : Nat
  bytes : Nat
  known : List Field
  deriving DecidableEq, Repr

structure CleanupNode where
  addr : Nat
  known : List Field
  deriving DecidableEq, Repr

/-- A region handed out from a block. -/
structure Small where
  addr : Nat
  size : Nat
  known : List Field
  deriving DecidableEq, Repr

/-- blocks is the chain from pool_ on, larges the large list and cleanups the cleanup nodes
    since the last reset, each from its head; stale is what the oldest of these points to.
    loose are live regions that the pool has not linked yet. -/
structure Shape where
  pool : Nat
  size : Nat
  blocks : List Block
  current : Nat
  larges : List LargeNode
  cleanups : List CleanupNode
  stale : Nat
  smalls : List Small
  loose : List Record

def Block.region (size : Nat) (b : Block) : Span := ⟨b.base, size⟩

def Block.Covers (b : Block) (p : Span) : Prop := b.base ≤ p.start ∧ p.stop ≤ b.last

/-- What a block has handed out is behind its header. -/
def Block.Carved (b : Block) (p : Span) : Prop :=
  b.base + sizeofPoolData ≤ p.start ∧ p.stop ≤ b.last

def Block.record (size : Nat) (b : Block) (next : Nat) : Record :=
  ⟨⟨b.base, sizeofPoolData⟩,
    [⟨0, 8, b.last⟩, ⟨8, 8, b.base + size⟩, ⟨16, 8, next⟩, ⟨24, 4, b.failed⟩]⟩

def LargeNode.span (n : LargeNode) : Span := ⟨n.addr, sizeofLarge⟩

def LargeNode.record (n : LargeNode) (next : Nat) : Record :=
  ⟨n.span, [⟨0, 8, next⟩, ⟨8, 8, n.alloc⟩]⟩

def LargeNode.region (n : LargeNode) : Option Span :=
  if n.alloc = 0 then none else some ⟨n.alloc, n.bytes⟩

def LargeNode.grant (n : LargeNode) : Option Record :=
  if n.alloc = 0 then none else some ⟨⟨n.alloc, n.bytes⟩, n.known⟩

def CleanupNode.span (n : CleanupNode) : Span := ⟨n.addr, sizeofCleanup⟩

def CleanupNode.record (n : CleanupNode) (next : Nat) : Record :=
  ⟨n.span, ⟨16, 8, next⟩ :: n.known⟩

def Small.span (p : Small) : Span := ⟨p.addr, p.size⟩

def Small.record (p : Small) : Record := ⟨p.span, p.known⟩

namespace Shape
variable (s : Shape)

def floor (b : Block) : Nat := b.base + if b.base = s.pool then sizeofPool else sizeofPoolData

/-- The fields of ngx_pool_s that only the first block has. -/
def front : Record :=
  ⟨⟨s.pool + 32, 32⟩, [⟨0, 8, poolMax (s.size - sizeofPool)⟩, ⟨8, 8, s.current⟩,
    ⟨16, 8, headOr LargeNode.addr 0 s.larges⟩, ⟨24, 8, headOr CleanupNode.addr s.stale s.cleanups⟩]⟩

def headers (tail : Nat) (blocks : List Block) : List Record :=
  links Block.base (Block.record s.size) tail blocks

def grants : List Record := s.larges.filterMap LargeNode.grant

def body : List Record :=
  links LargeNode.addr LargeNode.record 0 s.larges ++
    (links CleanupNode.addr CleanupNode.record s.stale s.cleanups ++
      (s.smalls.map Small.record ++ (s.grants ++ s.loose)))

def records : List Record := s.headers 0 s.blocks ++ s.front :: s.body

/-- What is carved from blocks. -/
def inner : List Span :=
  s.larges.map LargeNode.span ++ (s.cleanups.map CleanupNode.span ++ s.smalls.map Small.span)

def outer : List Span := s.larges.filterMap LargeNode.region ++ s.loose.map Record.span

def regions : List Span := s.blocks.map (Block.region s.size) ++ s.outer

end Shape

/-- What holds of the lists alone. -/
structure Proper (s : Shape) : Prop where
  enough : 96 ≤ s.size
  multiple : 8 ∣ s.size
  start : headOr Block.base 0 s.blocks = s.pool
  current : ∃ b ∈ s.blocks, b.base = s.current
  bumped : ∀ b ∈ s.blocks, s.floor b ≤ b.last ∧ b.last ≤ b.base + s.size ∧ b.failed < 2 ^ 32
  placed : ∀ p ∈ s.inner, ∃ b ∈ s.blocks, b.Carved p

structure Fits (s : Shape) (h : Heap) : Prop extends Proper s where
  sound : h.Sound
  live : h.live.Perm s.regions
  held : Held h s.records

variable {s t : Shape} {h : Heap} {b c : Block} {pre post : List Block} {p q : Span}

theorem minPoolSize_value : ngxMinPoolSize = 96 := by decide

/-- The header of one block singled out; the rest depends on the block by its base only. -/
def Shape.around (s : Shape) (pre : List Block) (base : Nat) (post : List Block) : List Record :=
  s.headers base pre ++ (s.headers 0 post ++ s.front :: s.body)

theorem records_block (split : s.blocks = pre ++ b :: post) :
    s.records.Perm (b.record s.size (headOr Block.base 0 post) :: s.around pre b.base post) := by
  apply List.perm_iff_count.mpr
  intro r
  simp only [Shape.records, Shape.around, Shape.headers, split, links_append, headOr_cons,
    links_cons, List.count_append, List.count_cons]
  omega

theorem region_record (n : LargeNode) : n.grant.map Record.span = n.region := by
  unfold LargeNode.grant LargeNode.region
  split <;> rfl

theorem grants_spans (s : Shape) :
    s.grants.map Record.span = s.larges.filterMap LargeNode.region := by
  rw [Shape.grants, List.map_filterMap]
  exact List.filterMap_congr fun n _ => region_record n

theorem Block.Carved.covers (carved : b.Carved p) : b.Covers p :=
  ⟨Nat.le_of_add_right_le carved.1, carved.2⟩

theorem covers_within (covers : b.Covers p) (last : b.last ≤ b.base + s.size) :
    p.Within (b.region s.size) := by
  simp only [Block.Covers, Span.Within, Block.region, Span.stop] at *
  omega

namespace Proper

theorem floor_low (proper : Proper s) (member : b ∈ s.blocks) :
    b.base + 32 ≤ b.last ∧ (b.base = s.pool → b.base + 64 ≤ b.last) := by
  have low := (proper.bumped b member).1
  simp only [Shape.floor, sizeofPool, sizeofPoolData] at low
  by_cases first : b.base = s.pool
  · rw [if_pos first] at low
    omega
  · rw [if_neg first] at low
    omega

theorem first_block (proper : Proper s) : ∃ b ∈ s.blocks, b.base = s.pool := by
  obtain ⟨c, member, _⟩ := proper.current
  have start := proper.start
  match blocks : s.blocks with
  | [] => simp [blocks] at member
  | b :: rest =>
    rw [blocks] at start
    exact ⟨b, by simp, start⟩

/-- Headers and what is carved are in the used part of a block. -/
theorem carved (proper : Proper s) {r : Record}
    (member : r ∈ s.headers 0 s.blocks ∨ r = s.front ∨ r.span ∈ s.inner) :
    ∃ b ∈ s.blocks, b.Covers r.span := by
  rcases member with header | rfl | inner
  · obtain ⟨b, here, next, rfl⟩ := mem_links header
    have low := (proper.floor_low here).1
    refine ⟨b, here, ?_⟩
    simp only [Block.Covers, Block.record, Span.stop, sizeofPoolData]
    omega
  · obtain ⟨b, here, first⟩ := proper.first_block
    have low := (proper.floor_low here).2 first
    refine ⟨b, here, ?_⟩
    simp only [Block.Covers, Shape.front, Span.stop]
    omega
  · obtain ⟨b, here, carved⟩ := proper.placed r.span inner
    exact ⟨b, here, carved.covers⟩

/-- Every record is in the used part of a block or in a region of its own. -/
theorem settled (proper : Proper s) {r : Record} (member : r ∈ s.records) :
    (∃ b ∈ s.blocks, b.Covers r.span) ∨ ∃ q ∈ s.outer, r.span.Within q := by
  simp only [Shape.records, Shape.body, List.mem_append, List.mem_cons] at member
  rcases member with header | front | large | cleanup | small | grant | loose
  · exact Or.inl (proper.carved (Or.inl header))
  · exact Or.inl (proper.carved (Or.inr (Or.inl front)))
  · obtain ⟨n, here, next, rfl⟩ := mem_links large
    refine Or.inl (proper.carved (Or.inr (Or.inr ?_)))
    simp only [Shape.inner, List.mem_append]
    exact Or.inl (List.mem_map_of_mem here)
  · obtain ⟨n, here, next, rfl⟩ := mem_links cleanup
    refine Or.inl (proper.carved (Or.inr (Or.inr ?_)))
    simp only [Shape.inner, List.mem_append]
    exact Or.inr (Or.inl (List.mem_map_of_mem here))
  · obtain ⟨n, here, rfl⟩ := List.mem_map.mp small
    refine Or.inl (proper.carved (Or.inr (Or.inr ?_)))
    simp only [Shape.inner, List.mem_append]
    exact Or.inr (Or.inr (List.mem_map_of_mem here))
  · have inside : r.span ∈ s.grants.map Record.span := List.mem_map_of_mem grant
    rw [grants_spans] at inside
    exact Or.inr ⟨r.span, List.mem_append_left _ inside, Span.Within.refl _⟩
  · exact Or.inr ⟨r.span, List.mem_append_right _ (List.mem_map_of_mem loose), Span.Within.refl _⟩

theorem home (proper : Proper s) {r : Record} (member : r ∈ s.records) :
    ∃ q ∈ s.regions, r.span.Within q := by
  rcases proper.settled member with ⟨b, here, covers⟩ | ⟨q, there, within⟩
  · exact ⟨b.region s.size, List.mem_append_left _ (List.mem_map_of_mem here),
      covers_within covers (proper.bumped b here).2.1⟩
  · exact ⟨q, List.mem_append_right _ there, within⟩

end Proper

namespace Fits

/-- A region goes back to malloc that no record is in any more. -/
theorem freed (proper : Proper s) (sound : h.Sound) (live : h.live.Perm (q :: s.regions))
    (held : Held h s.records) : Fits s (h.freed q.start) := by
  have here : q ∈ h.live := live.mem_iff.mpr List.mem_cons_self
  refine ⟨proper, sound.freed fun _ => ⟨q, here, rfl⟩, sound.freed_perm live, held.freed ?_⟩
  intro r member
  obtain ⟨p, region, within⟩ := proper.home member
  exact ⟨p, live.mem_iff.mpr (List.mem_cons_of_mem _ region), sound.other_start live region, within⟩

theorem region_live (fits : Fits s h) (member : b ∈ s.blocks) : b.region s.size ∈ h.live := by
  rw [fits.live.mem_iff, Shape.regions, List.mem_append]
  exact Or.inl (List.mem_map_of_mem member)

theorem outer_live (fits : Fits s h) (member : p ∈ s.outer) : p ∈ h.live := by
  rw [fits.live.mem_iff, Shape.regions, List.mem_append]
  exact Or.inr member

theorem regions_apart (fits : Fits s h) : s.regions.Pairwise Span.Apart :=
  (Span.apart_pairwise fits.live).mp fits.sound.apart

theorem blocks_apart (fits : Fits s h) (left : b ∈ s.blocks) (right : c ∈ s.blocks)
    (different : b ≠ c) : (b.region s.size).Apart (c.region s.size) := by
  have apart := (List.pairwise_append.mp fits.regions_apart).1
  have : Std.Symm fun b c => (Block.region s.size b).Apart (Block.region s.size c) :=
    ⟨fun _ _ => Span.Apart.symm⟩
  exact List.Pairwise.forall (List.pairwise_map.mp apart) left right different

theorem outer_apart (fits : Fits s h) (left : b ∈ s.blocks) (right : p ∈ s.outer) :
    (b.region s.size).Apart p :=
  (List.pairwise_append.mp fits.regions_apart).2.2 _ (List.mem_map_of_mem left) p right

theorem block_place (fits : Fits s h) (member : b ∈ s.blocks) :
    16 ∣ b.base ∧ 0 < b.base ∧ b.base + s.size < 2 ^ 64 := by
  have live := fits.region_live member
  obtain ⟨start, _, stop⟩ := fits.sound.placed _ live
  exact ⟨fits.sound.aligned _ live, start, stop⟩

/-- What a block still has free is apart from every record. -/
theorem free_apart (fits : Fits s h) {r : Record} (here : b ∈ s.blocks)
    (member : r ∈ s.records) (low : b.last ≤ p.start) (high : p.stop ≤ b.base + s.size) :
    p.Apart r.span := by
  have bound := (fits.floor_low here).1
  have inside : p.Within (b.region s.size) := by
    simp only [Span.Within, Block.region, Span.stop] at *
    omega
  rcases fits.settled member with ⟨c, there, covers⟩ | ⟨q, there, within⟩
  · by_cases same : c = b
    · subst same
      exact Or.inr (Nat.le_trans covers.2 low)
    · have apart := fits.blocks_apart here there fun equal => same equal.symm
      exact apart.within_both inside (covers_within covers (fits.bumped c there).2.1)
  · exact (fits.outer_apart here there).within_both inside within

end Fits

end NgxMemPool
