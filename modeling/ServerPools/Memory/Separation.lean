import ServerPools.Memory.Runs

/- What clients hold is apart from everything else, whatever is called in whatever order. -/
namespace NgxMemPool
open Malloc Records Linked Machine

variable {s : State} {shape : Shape} {h : Heap} {l : Lease}

def State.word (s : State) (a : Nat) : Nat := Bytes.load s.heap.bytes a 8

def State.blockNext (s : State) (p : Nat) : Nat := s.word (nextAt p)

def State.blockFailed (s : State) (p : Nat) : Nat := Bytes.load s.heap.bytes (failedAt p) 4

def State.largeNext (s : State) (l : Nat) : Nat := s.word (largeNextAt l)

/-- ngx_pool_s in the first block, ngx_pool_data_t in the others. -/
def State.header (s : State) (b : Nat) : Span :=
  ⟨b, if b = s.pool then sizeofPool else sizeofPoolData⟩

/-- blocks is the chain from pool_ on and larges the large list. -/
structure Separated (s : State) (blocks larges : List Nat) : Prop where
  chain : Follows s.blockNext s.pool blocks
  list : Follows s.largeNext (s.word (largeAt s.pool)) larges
  apart : s.leases.Pairwise fun a b => ¬a.span.Meets b.span
  inside : ∀ l ∈ s.leases, ∃ r ∈ s.heap.live, l.span.Within r
  headers : ∀ l ∈ s.leases, ∀ b ∈ blocks, ¬l.span.Meets (s.header b)
  larges : ∀ l ∈ s.leases, ∀ n ∈ larges, ¬l.span.Meets ⟨n, sizeofLarge⟩
  cleanups : ∀ l ∈ s.leases, ∀ c ∈ s.nodes, ¬l.span.Meets ⟨c, sizeofCleanup⟩
  aligned : ∀ p ∈ s.aligned, ngxAlignment ∣ p

/-- The records of what clients hold, and those of what they do not. -/
def Shape.lent (s : Shape) : List Record := s.smalls.map Small.record ++ s.grants

def Shape.kept (s : Shape) : List Record :=
  s.headers 0 s.blocks ++ s.front :: (links LargeNode.addr LargeNode.record 0 s.larges ++
    links CleanupNode.addr CleanupNode.record s.stale s.cleanups)

theorem kept_lent (idle : shape.loose = []) : shape.records = shape.kept ++ shape.lent := by
  simp [Shape.records, Shape.body, Shape.kept, Shape.lent, idle]

theorem lent_spans (s : Shape) : s.lent.map Record.span = s.leases.map Lease.span := by
  have larges : s.larges.filterMap LargeNode.region =
      (s.larges.filterMap LargeNode.lease).map Lease.span := by
    rw [List.map_filterMap]
    refine List.filterMap_congr fun n _ => ?_
    unfold LargeNode.region LargeNode.lease
    split <;> rfl
  rw [Shape.lent, Shape.leases, List.map_append, List.map_append, grants_spans, larges,
    List.map_map, List.map_map]
  rfl

/-- A lease is a record that lies apart from all that is not lent. -/
theorem Fits.lease (fits : Fits shape h) (idle : shape.loose = []) (member : l ∈ shape.leases) :
    ∃ r ∈ shape.records, r.span = l.span ∧ ∀ q ∈ shape.kept, l.span.Apart q.span := by
  have span : l.span ∈ shape.lent.map Record.span := by
    rw [lent_spans]
    exact List.mem_map_of_mem member
  obtain ⟨r, here, same⟩ := List.mem_map.mp span
  have apart := fits.held.apart
  rw [kept_lent idle] at apart ⊢
  refine ⟨r, List.mem_append_right _ here, same, fun q kept => ?_⟩
  rw [← same]
  exact ((List.pairwise_append.mp apart).2.2 q kept r here).symm

theorem Fits.leases_apart (fits : Fits shape h) (idle : shape.loose = []) :
    shape.leases.Pairwise fun a b => a.span.Apart b.span := by
  have apart := fits.held.apart
  rw [kept_lent idle] at apart
  have lent : (shape.lent.map Record.span).Pairwise Span.Apart :=
    List.pairwise_map.mpr (List.pairwise_append.mp apart).2.1
  rw [lent_spans] at lent
  exact List.pairwise_map.mp lent

/-- A field of a record as the code reads it. -/
theorem Represents.word_of {r : Record} {o v : Nat} (held : Represents s shape)
    (member : r ∈ shape.records) (field : ⟨o, 8, v⟩ ∈ r.fields) : s.word (r.addr + o) = v := by
  have value := held.fits.held.value member field
  rw [State.word]
  exact value

theorem Represents.chain (held : Represents s shape) :
    Follows s.blockNext s.pool (shape.blocks.map Block.base) := by
  rw [← held.pool, ← held.fits.start]
  apply follows_of_links
  · intro b here
    exact Nat.ne_of_gt (held.fits.block_place here).2.1
  · intro pre b post split
    have next := held.word_of (o := 16) (v := headOr Block.base 0 post) (header_at split)
      (by simp [Block.record])
    exact next

theorem Represents.list (held : Represents s shape) :
    Follows s.largeNext (s.word (largeAt s.pool)) (shape.larges.map LargeNode.addr) := by
  have head : s.word (largeAt s.pool) = headOr LargeNode.addr 0 shape.larges := by
    rw [← held.pool]
    have first := held.word_of (o := 16) (v := headOr LargeNode.addr 0 shape.larges)
      (front_mem shape) (by simp [Shape.front])
    exact first
  rw [head]
  apply follows_of_links
  · intro n here
    exact (held.fits.large_place here).1
  · intro xs n ys split
    have next := held.word_of (o := 0) (v := headOr LargeNode.addr 0 ys) (large_mem split)
      (by simp [LargeNode.record])
    exact next

theorem kept_spine (s : Shape) : s.kept =
    s.spine ++ links CleanupNode.addr CleanupNode.record s.stale s.cleanups := by
  simp [Shape.kept, Shape.spine]

theorem spine_kept {r : Record} (spine : r ∈ shape.spine) : r ∈ shape.kept := by
  rw [kept_spine]
  exact List.mem_append_left _ spine

theorem large_spine {n : LargeNode} (here : n ∈ shape.larges) :
    ∃ r ∈ shape.spine, r.span = n.span := by
  have ⟨next, member⟩ : ∃ next,
      n.record next ∈ links LargeNode.addr LargeNode.record 0 shape.larges := links_mem here
  exact ⟨_, List.mem_append_right _ (List.mem_cons_of_mem _ member), rfl⟩

theorem cleanup_kept {c : CleanupNode} (here : c ∈ shape.cleanups) :
    ∃ r ∈ shape.kept, r.span = c.span := by
  have ⟨next, member⟩ : ∃ next, c.record next ∈
      links CleanupNode.addr CleanupNode.record shape.stale shape.cleanups := cleanup_link here
  exact ⟨_, List.mem_append_right _ (List.mem_cons_of_mem _ (List.mem_append_right _ member)), rfl⟩

/-- The two parts of ngx_pool_s cover all of it. -/
theorem Represents.header_spine (held : Represents s shape) {b x : Nat}
    (block : b ∈ shape.blocks.map Block.base) (inside : (s.header b).Has x) :
    ∃ r ∈ shape.spine, r.span.Has x := by
  obtain ⟨c, here, rfl⟩ := List.mem_map.mp block
  have ⟨next, member⟩ : ∃ next, c.record shape.size next ∈ shape.headers 0 shape.blocks :=
    links_mem here
  have header : c.record shape.size next ∈ shape.spine := List.mem_append_left _ member
  have front : shape.front ∈ shape.spine := by simp [Shape.spine]
  by_cases first : c.base = s.pool
  · simp only [State.header, if_pos first, Span.Has, Span.stop, sizeofPool] at inside
    by_cases early : x < c.base + 32
    · exact ⟨_, header, inside.1, early⟩
    · refine ⟨_, front, ?_⟩
      simp only [Shape.front, Span.Has, Span.stop, held.pool]
      omega
  · rw [State.header, if_neg first] at inside
    exact ⟨_, header, inside⟩

theorem Represents.header_apart (held : Represents s shape)
    (member : l ∈ s.leases) {b : Nat} (block : b ∈ shape.blocks.map Block.base) :
    ¬l.span.Meets (s.header b) := by
  obtain ⟨_, _, _, apart⟩ := held.fits.lease held.idle (held.leases.mem_iff.mp member)
  rintro ⟨x, inside, header⟩
  obtain ⟨r, spine, has⟩ := held.header_spine block header
  exact (apart r (spine_kept spine)).not_has inside has

theorem Represents.separated (held : Represents s shape) :
    Separated s (shape.blocks.map Block.base) (shape.larges.map LargeNode.addr) where
  chain := held.chain
  list := held.list
  apart := by
    have shaped : shape.leases.Pairwise fun a b => ¬a.span.Meets b.span :=
      (held.fits.leases_apart held.idle).imp Span.Apart.not_meets
    refine (held.leases.pairwise_iff ?_).mpr shaped
    rintro a b apart ⟨x, right, left⟩
    exact apart ⟨x, left, right⟩
  inside := by
    intro l member
    obtain ⟨r, here, span, _⟩ := held.fits.lease held.idle (held.leases.mem_iff.mp member)
    rw [← span]
    exact held.fits.held.inside r here
  headers := fun l member b block => held.header_apart member block
  larges := by
    intro l member n node
    obtain ⟨_, _, _, apart⟩ := held.fits.lease held.idle (held.leases.mem_iff.mp member)
    obtain ⟨u, here, rfl⟩ := List.mem_map.mp node
    obtain ⟨r, spine, span⟩ := large_spine here
    have clear := (apart r (spine_kept spine)).not_meets
    rwa [span] at clear
  cleanups := by
    intro l member c node
    obtain ⟨_, _, _, apart⟩ := held.fits.lease held.idle (held.leases.mem_iff.mp member)
    rw [held.nodes] at node
    obtain ⟨u, here, rfl⟩ := List.mem_map.mp node
    obtain ⟨r, kept, span⟩ := cleanup_kept here
    have clear := (apart r kept).not_meets
    rwa [span] at clear
  aligned := held.aligned

/-- In every state of every run of a pool with a proper size, no two regions that clients
    hold share a byte, each is inside a region from malloc, and none touches a header, a
    node of the large list or a cleanup node since the last reset; and no call gets stuck. -/
theorem leases_separated (reached : Reach step WellSized initial s)
    (running : s.phase = .running) :
    (∃ blocks larges, Separated s blocks larges) ∧ ∀ a, Request a → s.Returns a := by
  obtain ⟨shape, held⟩ := represents_of_reach reached running
  exact ⟨⟨_, _, held.separated⟩, fun a request => held.returns running request⟩

/-- Two small regions, a cleanup node in a block of its own and a large region. -/
def mixedRequests : List Action :=
  [.ngxCreatePool 96 (malloced [16]), .ngxPnalloc 3 3 [], .ngxPalloc 3 8 [],
    .ngxPoolCleanupAdd 3 0 (malloced [128]), .ngxPcalloc 3 100 (malloced [1024])]

theorem mixedRequests_sized : Obeys step WellSized initial mixedRequests := by decide +kernel

theorem leases_separated_mixed : ∃ t, run step initial mixedRequests = some t ∧
    t.leases = [⟨1024, 100, true⟩, ⟨88, 8, false⟩, ⟨80, 3, false⟩] ∧ t.nodes = [160] ∧
    ((∃ blocks larges, Separated t blocks larges) ∧ ∀ a, Request a → t.Returns a) := by
  have ran : ∃ t ∈ run step initial mixedRequests, t.phase = .running ∧
      t.leases = [⟨1024, 100, true⟩, ⟨88, 8, false⟩, ⟨80, 3, false⟩] ∧ t.nodes = [160] := by
    decide +kernel
  obtain ⟨t, taken, running, leases, nodes⟩ := ran
  exact ⟨t, taken, leases, nodes,
    leases_separated (reach_of_run mixedRequests_sized taken) running⟩

end NgxMemPool
