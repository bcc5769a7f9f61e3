import ServerPools.Memory.Contents
import ServerPools.Memory.BlockBounds

/- Calls that return null. A request that cannot be served leaves all of memory as it was;
   ngx_pool_cleanup_add may leave a node behind that it has carved and written to, and after a
   reset that node can lie on the old cleanup list. -/
namespace NgxMemPool
open Malloc Records Linked Fuel Machine

variable {s : State} {shape after : Shape} {k : Heap} {n fuel : Nat} {answers : List Answer}

inductive Allocator : (Nat → Nat → Nat → Code Nat) → Prop where
  | ngxPalloc : Allocator ngxPalloc
  | ngxPnalloc : Allocator ngxPnalloc
  | ngxPcalloc : Allocator ngxPcalloc

/-- The state after a call that gave nothing. -/
def State.leaving (s : State) (k : Heap) : State := { s with heap := k }

/-- The fields of a cleanup node. -/
def State.cleanupNode (s : State) (c : Nat) : Nat × Nat × Nat :=
  (s.word (handlerAt c), s.word (dataAt c), s.cleanupNext c)

/-- cleanups speaks of whatever list can be read from pool_->cleanup on. -/
structure NoTrace (s t : State) (blocks larges : List Nat) : Prop where
  chain : Follows s.blockNext s.pool blocks
  list : Follows s.largeNext (s.word (largeAt s.pool)) larges
  last : ∀ b ∈ blocks, t.blockLast b = s.blockLast b
  failed : ∀ b ∈ blocks, t.blockFailed b = s.blockFailed b
  next : ∀ b ∈ blocks, t.blockNext b = s.blockNext b
  current : t.word (currentAt s.pool) = s.word (currentAt s.pool)
  large : t.word (largeAt s.pool) = s.word (largeAt s.pool)
  largeNext : ∀ l ∈ larges, t.largeNext l = s.largeNext l
  alloc : ∀ l ∈ larges, t.word (allocAt l) = s.word (allocAt l)
  cleanup : t.word (cleanupAt s.pool) = s.word (cleanupAt s.pool)
  cleanups : ∀ list, Follows s.cleanupNext (s.word (cleanupAt s.pool)) list →
    (∀ c ∈ list, s.heap.Open ⟨c, sizeofCleanup⟩) →
    Follows t.cleanupNext (t.word (cleanupAt s.pool)) list ∧
      ∀ c ∈ list, t.cleanupNode c = s.cleanupNode c
  memory : s.heap.Untouched t.heap

theorem Represents.refused {call : Nat → Nat → Nat → Code Nat} (held : Represents s shape)
    (allocator : Allocator call)
    (ran : (call s.pool fuel n).run (s.answering answers) = some (0, k)) :
    s.heap.Untouched k := by
  have fits := held.answering answers
  cases allocator with
  | ngxPalloc =>
    obtain ⟨_, m, _, j, settles, _, _, untouched, _⟩ := pallocWith_settles fits n true
    rw [held.pool] at settles
    obtain ⟨rfl, rfl⟩ := Prod.mk.inj (settles.only fuel _ ran)
    exact (untouched rfl).of_answering
  | ngxPnalloc =>
    obtain ⟨_, m, _, j, settles, _, _, untouched, _⟩ := pallocWith_settles fits n false
    rw [held.pool] at settles
    obtain ⟨rfl, rfl⟩ := Prod.mk.inj (settles.only fuel _ ran)
    exact (untouched rfl).of_answering
  | ngxPcalloc =>
    obtain ⟨_, m, _, j, settles, _, _, _, untouched, _⟩ := ngxPcalloc_settles fits n
    rw [held.pool] at settles
    obtain ⟨rfl, rfl⟩ := Prod.mk.inj (settles.only fuel _ ran)
    exact (untouched rfl).of_answering

/-- A number in live memory is read again. -/
theorem load_untouched {h : Heap} (untouched : h.Untouched k) {a w : Nat} (live : h.Open ⟨a, w⟩) :
    Bytes.load k.bytes a w = Bytes.load h.bytes a w := by
  obtain ⟨r, member, within⟩ := live
  exact Bytes.load_congr fun x inside => untouched.bytes r member x (within.has inside)

theorem Represents.field_untouched (held : Represents s shape) (untouched : s.heap.Untouched k)
    {r : Record} {o w v : Nat} (member : r ∈ shape.records) (field : ⟨o, w, v⟩ ∈ r.fields) :
    Bytes.load k.bytes (r.addr + o) w = Bytes.load s.heap.bytes (r.addr + o) w := by
  have opens := held.fits.held.opens member field
  exact load_untouched untouched opens

theorem cleanupNode_untouched (untouched : s.heap.Untouched k) {c : Nat}
    (live : s.heap.Open ⟨c, sizeofCleanup⟩) : (s.leaving k).cleanupNode c = s.cleanupNode c := by
  have word : ∀ o, o + 8 ≤ sizeofCleanup → (s.leaving k).word (c + o) = s.word (c + o) := fun o fits =>
    load_untouched untouched (Open.within live (field_within fits))
  have handler := word 0 (by decide)
  have data := word 8 (by decide)
  have next := word 16 (by decide)
  exact Prod.ext handler (Prod.ext data next)

theorem Represents.noTrace (held : Represents s shape) (untouched : s.heap.Untouched k) :
    NoTrace s (s.leaving k) (shape.blocks.map Block.base) (shape.larges.map LargeNode.addr) := by
  have front {o v : Nat} (field : ⟨o, 8, v⟩ ∈ shape.front.fields) :
      (s.leaving k).word (s.pool + 32 + o) = s.word (s.pool + 32 + o) := by
    have same := held.field_untouched untouched (front_mem shape) field
    rw [← held.pool]
    exact same
  have header {o w : Nat} (field : ∀ (b : Block) next, ∃ v, ⟨o, w, v⟩ ∈ (b.record shape.size next).fields) :
      ∀ p ∈ shape.blocks.map Block.base,
        Bytes.load k.bytes (p + o) w = Bytes.load s.heap.bytes (p + o) w := by
    intro p member
    obtain ⟨b, here, rfl⟩ := List.mem_map.mp member
    obtain ⟨next, inside⟩ := header_mem here
    obtain ⟨v, known⟩ := field b next
    exact held.field_untouched untouched inside known
  have node {o : Nat} (field : ∀ l next, ∃ v, ⟨o, 8, v⟩ ∈ (LargeNode.record l next).fields) :
      ∀ p ∈ shape.larges.map LargeNode.addr, (s.leaving k).word (p + o) = s.word (p + o) := by
    intro p member
    obtain ⟨l, here, rfl⟩ := List.mem_map.mp member
    obtain ⟨xs, ys, split⟩ := List.append_of_mem here
    obtain ⟨v, known⟩ := field l (headOr LargeNode.addr 0 ys)
    have same := held.field_untouched untouched (large_mem split) known
    exact same
  have head : (s.leaving k).word (cleanupAt s.pool) = s.word (cleanupAt s.pool) :=
    front (o := 24) (v := headOr CleanupNode.addr shape.stale shape.cleanups) (by simp [Shape.front])
  constructor
  · exact held.chain
  · exact held.list
  · exact header (o := 0) fun b next => ⟨b.last, by simp [Block.record]⟩
  · exact header (o := 24) fun b next => ⟨b.failed, by simp [Block.record]⟩
  · exact header (o := 16) fun b next => ⟨next, by simp [Block.record]⟩
  · exact front (o := 8) (v := shape.current) (by simp [Shape.front])
  · exact front (o := 16) (v := headOr LargeNode.addr 0 shape.larges) (by simp [Shape.front])
  · exact node (o := 0) fun l next => ⟨next, by simp [LargeNode.record]⟩
  · exact node (o := 8) fun l next => ⟨l.alloc, by simp [LargeNode.record]⟩
  · exact head
  · intro list follows live
    have nodes : ∀ c ∈ list, (s.leaving k).cleanupNode c = s.cleanupNode c :=
      fun c member => cleanupNode_untouched untouched (live c member)
    rw [head]
    exact ⟨follows.congr fun c member => congrArg (fun f => f.2.2) (nodes c member), nodes⟩
  · exact untouched

section Appends
variable {pool size p tries : Nat} {align : Bool}

theorem appends_scanBlocks (fuel p : Nat) : Appends (scanBlocks size align fuel p) := by
  induction fuel generalizing p with
  | zero => exact appends_stuck
  | succ fuel ih =>
    refine appends_bind appends_load fun last => appends_bind appends_load fun stop => ?_
    apply appends_ite
    · exact appends_bind appends_store fun _ => appends_pure _
    · exact appends_bind appends_load fun next => appends_ite (appends_pure _) (ih next)

theorem appends_missBlocks (fuel p : Nat) : Appends (missBlocks pool fuel p) := by
  induction fuel generalizing p with
  | zero => exact appends_stuck
  | succ fuel ih =>
    refine appends_bind appends_load fun next => appends_ite (appends_pure _) ?_
    refine appends_bind appends_load fun failed => appends_bind appends_store fun _ => ?_
    have rest : Appends (load 8 (nextAt p) >>= missBlocks pool fuel) := appends_bind appends_load ih
    dsimp only
    apply appends_ite
    · exact appends_bind appends_load fun _ => appends_bind appends_store fun _ => rest
    · exact rest

theorem appends_ngxPallocBlock (fuel : Nat) : Appends (ngxPallocBlock pool fuel size) := by
  refine appends_bind appends_load fun stop => appends_bind appends_malloc fun m => ?_
  apply appends_ite (appends_pure _)
  refine appends_bind appends_store fun _ => appends_bind appends_store fun _ => ?_
  refine appends_bind appends_store fun _ => appends_bind appends_store fun _ => ?_
  refine appends_bind appends_load fun current => ?_
  exact appends_bind (appends_missBlocks fuel current) fun p =>
    appends_bind appends_store fun _ => appends_pure _

theorem appends_ngxPallocSmall (fuel : Nat) : Appends (ngxPallocSmall pool fuel size align) := by
  refine appends_bind appends_load fun current => ?_
  refine appends_bind (appends_scanBlocks fuel current) fun found => ?_
  cases found with
  | some m => exact appends_pure m
  | none => exact appends_ngxPallocBlock fuel

theorem appends_reuseNode (fuel tries large : Nat) : Appends (reuseNode p fuel tries large) := by
  induction fuel generalizing tries large with
  | zero => exact appends_stuck
  | succ fuel ih =>
    apply appends_ite (appends_pure _)
    refine appends_bind appends_load fun alloc => ?_
    apply appends_ite
    · exact appends_bind appends_store fun _ => appends_pure _
    · apply appends_ite (appends_pure _)
      exact appends_bind appends_load fun next => ih (tries + 1) next

theorem appends_ngxPallocLarge (fuel : Nat) : Appends (ngxPallocLarge pool fuel size) := by
  refine appends_bind appends_malloc fun p => appends_ite (appends_pure _) ?_
  refine appends_bind appends_load fun head => ?_
  refine appends_bind (appends_reuseNode fuel 0 head) fun reused => appends_ite (appends_pure _) ?_
  refine appends_bind (appends_ngxPallocSmall fuel) fun large => ?_
  apply appends_ite
  · exact appends_bind appends_free fun _ => appends_pure _
  · refine appends_bind appends_store fun _ => appends_bind appends_load fun _ => ?_
    exact appends_bind appends_store fun _ => appends_bind appends_store fun _ => appends_pure _

theorem appends_ngxPalloc (fuel : Nat) : Appends (ngxPalloc pool fuel size) :=
  appends_bind appends_load fun _ =>
    appends_ite (appends_ngxPallocSmall fuel) (appends_ngxPallocLarge fuel)

theorem appends_linkCleanup (c : Nat) : Appends (linkCleanup pool c) :=
  appends_bind appends_store fun _ => appends_bind appends_load fun _ =>
    appends_bind appends_store fun _ => appends_bind appends_store fun _ => appends_pure _

theorem appends_ngxPoolCleanupAdd (fuel : Nat) : Appends (ngxPoolCleanupAdd pool fuel size) := by
  refine appends_bind (appends_ngxPalloc fuel) fun c => appends_ite (appends_pure _) ?_
  apply appends_ite
  · refine appends_bind (appends_ngxPalloc fuel) fun data => ?_
    refine appends_bind appends_store fun _ => appends_bind appends_load fun stored => ?_
    exact appends_ite (appends_pure _) (appends_linkCleanup c)
  · exact appends_bind appends_store fun _ => appends_linkCleanup c

end Appends

/-- What malloc gave out in a call is gone again or in the chain or the large list. -/
def Accounted (s t : State) (blocks larges : List Nat) : Prop :=
  Follows t.blockNext t.pool blocks ∧ Follows t.largeNext (t.word (largeAt t.pool)) larges ∧
    ∃ events, t.heap.log = events ++ s.heap.log ∧ ∀ r, .malloc r ∈ events →
      .free r.start ∈ events ∨ r.start ∈ blocks ∨ ∃ l ∈ larges, t.word (allocAt l) = r.start

theorem Represents.accounted {t : State} (held : Represents t shape)
    (grown : s.heap.log <:+ t.heap.log) :
    Accounted s t (shape.blocks.map Block.base) (shape.larges.map LargeNode.addr) := by
  obtain ⟨events, log⟩ := grown
  refine ⟨held.chain, held.list, events, log.symm, fun r given => ?_⟩
  have audited := held.fits.sound.audited
  rw [← log] at audited
  rcases audit_accounts audited given with live | freed
  · rw [held.fits.live.mem_iff, Shape.regions, Shape.outer, held.idle] at live
    simp only [List.mem_append, List.map_nil, List.append_nil] at live
    rcases live with block | large
    · obtain ⟨b, here, rfl⟩ := List.mem_map.mp block
      exact Or.inr (Or.inl (List.mem_map_of_mem here))
    · obtain ⟨l, here, region⟩ := List.mem_filterMap.mp large
      unfold LargeNode.region at region
      split at region
      · contradiction
      · cases region
        obtain ⟨xs, ys, split⟩ := List.append_of_mem here
        have alloc := held.word_of (o := 8) (v := l.alloc) (large_mem split)
          (by simp [LargeNode.record])
        exact Or.inr (Or.inr ⟨l.addr, List.mem_map_of_mem here, alloc⟩)
  · exact Or.inl freed

/-- What ngx_pool_cleanup_add leaves alone when it returns null. -/
structure CleanupRefused (s t : State) : Prop where
  leases : ∀ l ∈ s.leases, t.heap.Open l.span ∧
    ∀ x, l.span.Has x → t.heap.bytes x = s.heap.bytes x
  head : t.word (cleanupAt s.pool) = s.word (cleanupAt s.pool)
  nodes : ∀ c ∈ s.nodes, t.cleanupNode c = s.cleanupNode c
  accounted : ∃ blocks larges, Accounted s t blocks larges

theorem CleanupMove.refused_frame {h : Heap} (fits : Fits shape h)
    (move : CleanupMove shape n 0 after) : SameFrame shape after := by
  rcases move.registered fits with ⟨_, frame, _⟩ | ⟨given, _⟩
  · exact frame
  · exact absurd rfl given

/-- A node that both states have, with the bytes its client had put there. -/
theorem Represents.node_kept {t : State} (held : Represents s shape) (represents : Represents t after)
    (frame : SameFrame (shape.remember s.heap.bytes) after) {c : Nat} (member : c ∈ s.nodes) :
    t.cleanupNode c = s.cleanupNode c := by
  have here := remember_mem held member
  have there : ⟨c, spelled s.heap.bytes c 16⟩ ∈ after.cleanups := frame.cleanups ▸ here
  have bytes : ∀ x, (Span.mk c 16).Has x → t.heap.bytes x = s.heap.bytes x :=
    fun x inside => represents.node_bytes there inside
  have word : ∀ o, o + 8 ≤ 16 → t.word (c + o) = s.word (c + o) := by
    intro o fits
    refine Bytes.load_congr fun x inside => bytes x ?_
    simp only [Span.Has, Span.stop] at inside ⊢
    omega
  obtain ⟨xs, ys, split⟩ := List.append_of_mem here
  have before := held.remember.word_of (o := 16)
    (v := headOr CleanupNode.addr (shape.remember s.heap.bytes).stale ys) (cleanup_mem split)
    (by simp [CleanupNode.record])
  have behind := represents.word_of (o := 16) (v := headOr CleanupNode.addr after.stale ys)
    (cleanup_mem (frame.cleanups.trans split)) (by simp [CleanupNode.record])
  rw [frame.stale] at behind
  have handler := word 0 (by decide)
  have data := word 8 (by decide)
  exact Prod.ext handler (Prod.ext data (behind.trans before.symm))

theorem Represents.refused_cleanup (held : Represents s shape) (running : s.phase = .running)
    (ran : (ngxPoolCleanupAdd s.pool fuel n).run (s.answering answers) = some (0, k)) :
    CleanupRefused s (s.leaving k) := by
  have noted := held.remember
  have taken : s.operate (.ngxPoolCleanupAdd fuel n answers) = some (s.leaving k) := by
    rw [State.operate, ran]
    rfl
  obtain ⟨bound, c, after, j, settles, move, fits, _⟩ :=
    ngxPoolCleanupAdd_settles (noted.answering answers) n
  rw [noted.pool] at settles
  obtain ⟨rfl, rfl⟩ := Prod.mk.inj (settles.only fuel _ ran)
  have represents : Represents (s.leaving k) after := noted.addCleanup fits move
  have frame := move.refused_frame noted.fits
  have grown : s.heap.log <:+ k.log :=
    appends_ngxPoolCleanupAdd fuel (s.answering answers) k 0 ran
  refine ⟨fun l member => ⟨?_, fun x inside => ?_⟩, ?_, fun c member => ?_, _, _,
    represents.accounted grown⟩
  · obtain ⟨r, here, span, _⟩ :=
      represents.fits.lease represents.idle (represents.leases.mem_iff.mp member)
    rw [← span]
    exact represents.fits.held.inside r here
  · exact held.bytes_kept (a := .ngxPoolCleanupAdd fuel n answers) trivial taken running member id
      inside
  · have head := represents.cleanup_head
    rw [frame.stale, frame.cleanups, ← noted.cleanup_head] at head
    exact head
  · exact held.node_kept represents frame member

/-- The same list of cleanup nodes, with the same fields. -/
def SameCleanups (s t : State) (list : List Nat) : Prop :=
  Follows s.cleanupNext (s.word (cleanupAt s.pool)) list ∧
    Follows t.cleanupNext (t.word (cleanupAt s.pool)) list ∧
    ∀ c ∈ list, t.cleanupNode c = s.cleanupNode c

theorem CleanupRefused.same_list {t : State} (refused : CleanupRefused s t) (tidy : Tidy s shape) :
    SameCleanups s t s.nodes := by
  refine ⟨tidy.follows, ?_, refused.nodes⟩
  rw [refused.head]
  exact tidy.follows.congr fun c member => congrArg (fun f => f.2.2) (refused.nodes c member)

/-- In every state a request that returns null leaves no trace, and ngx_pool_cleanup_add that
    returns null leaves all that clients hold and owns what it allocated. The list from
    pool_->cleanup on is unchanged too, unless a reset has left it in recycled memory. -/
theorem refusals_unchanged (reached : Reach step WellSized initial s)
    (running : s.phase = .running) :
    (∀ call, Allocator call → ∀ fuel n answers k,
      (call s.pool fuel n).run (s.answering answers) = some (0, k) →
      ∃ blocks larges, NoTrace s (s.leaving k) blocks larges) ∧
    (∀ fuel n answers k, (ngxPoolCleanupAdd s.pool fuel n).run (s.answering answers) = some (0, k) →
      CleanupRefused s (s.leaving k)) ∧
    (Reach step Orderly initial s → ∀ fuel n answers k,
      (ngxPoolCleanupAdd s.pool fuel n).run (s.answering answers) = some (0, k) →
      ∃ list, SameCleanups s (s.leaving k) list) := by
  obtain ⟨shape, held⟩ := represents_of_reach reached running
  refine ⟨?_, ?_, ?_⟩
  · intro call allocator fuel n answers k ran
    exact ⟨_, _, held.noTrace (held.refused allocator ran)⟩
  · exact fun fuel n answers k ran => held.refused_cleanup running ran
  · intro orderly fuel n answers k ran
    obtain ⟨other, tidy⟩ := tidy_of_reach orderly running
    exact ⟨_, (tidy.toRepresents.refused_cleanup running ran).same_list tidy⟩

/-- A pool that is reset before it gets a cleanup node, and for which malloc then has nothing
    more to give. -/
def resetThenNode : List Action :=
  [.ngxCreatePool 128 (malloced [16]), .ngxPalloc 4 20 [], .ngxResetPool 4, .ngxPoolCleanupAdd 4 8 []]

theorem refusals_unchanged_after_reset : ∃ s j k, run step initial resetThenNode = some s ∧
    (ngxPalloc s.pool 4 100).run (s.answering []) = some (0, j) ∧
    (∃ blocks larges, NoTrace s (s.leaving j) blocks larges) ∧
    (ngxPoolCleanupAdd s.pool 4 100).run (s.answering []) = some (0, k) ∧
    ∃ list, SameCleanups s (s.leaving k) list := by
  have ran : ∃ s ∈ run step initial resetThenNode, s.phase = .running ∧
      (∃ r ∈ (ngxPalloc s.pool 4 100).run (s.answering []), r.1 = 0) ∧
      ∃ r ∈ (ngxPoolCleanupAdd s.pool 4 100).run (s.answering []), r.1 = 0 := by
    decide +kernel
  obtain ⟨s, taken, running, ⟨⟨p, j⟩, first, rfl⟩, ⟨c, k⟩, second, rfl⟩ := ran
  have orderly : Obeys step Orderly initial resetThenNode := by decide +kernel
  have reached := reach_of_run orderly taken
  obtain ⟨quiet, _, list⟩ := refusals_unchanged (reached.weaken fun _ _ h => h.1) running
  exact ⟨s, j, k, taken, first, quiet _ .ngxPalloc 4 100 [] j first, second,
    list reached 4 100 [] k second⟩

/-- Two cleanup nodes, at 80 and 104, are on the list when the pool is reset. -/
def resetWithNodes : List Action :=
  [.ngxCreatePool 128 (malloced [16]), .ngxPoolCleanupAdd 4 0 [], .ngxPoolCleanupAdd 4 0 [],
    .ngxResetPool 4, .ngxPalloc 4 32 []]

/-- A refused ngx_pool_cleanup_add clears data of the node it has carved, at 112, which is
    next of the old node at 104. -/
theorem refused_cleanup_cuts : ∃ s k, Reach step WellSized initial s ∧ s.phase = .running ∧
    (ngxPoolCleanupAdd s.pool 4 100).run (s.answering []) = some (0, k) ∧
    Follows s.cleanupNext (s.word (cleanupAt s.pool)) [104, 80] ∧
    Follows (s.leaving k).cleanupNext ((s.leaving k).word (cleanupAt s.pool)) [104] := by
  have ran : ∃ s ∈ run step initial resetWithNodes, s.phase = .running ∧
      Follows s.cleanupNext (s.word (cleanupAt s.pool)) [104, 80] ∧
      ∃ r ∈ (ngxPoolCleanupAdd s.pool 4 100).run (s.answering []), r.1 = 0 ∧
        Follows (s.leaving r.2).cleanupNext ((s.leaving r.2).word (cleanupAt s.pool)) [104] := by
    decide +kernel
  obtain ⟨s, taken, running, before, ⟨c, k⟩, refused, rfl, cut⟩ := ran
  have sized : Obeys step WellSized initial resetWithNodes := by decide +kernel
  exact ⟨s, k, reach_of_run sized taken, running, refused, before, cut⟩

end NgxMemPool
