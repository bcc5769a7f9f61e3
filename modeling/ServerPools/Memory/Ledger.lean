import ServerPools.Memory.CleanupList

/- The balance of malloc and free over whole runs. -/
namespace NgxMemPool
open Malloc Records Linked Fuel Machine

variable {s : State} {shape : Shape}

/-- Every free so far was of something live, and what is live now are the blocks of the
    chain and what the nodes of the large list point to, each once. -/
structure Balanced (s : State) (blocks larges : List Nat) : Prop where
  audited : audit s.heap.log = some s.heap.live
  chain : Follows s.blockNext s.pool blocks
  list : Follows s.largeNext (s.word (largeAt s.pool)) larges
  live : (s.heap.live.map Span.start).Perm
    (blocks ++ (larges.map fun l => s.word (allocAt l)).filter fun p => p ≠ 0)

/-- The alloc fields that are not null. -/
theorem allocs_of_larges (list : List LargeNode) :
    (list.filterMap LargeNode.region).map Span.start =
      (list.map LargeNode.alloc).filter fun p => p ≠ 0 := by
  induction list with
  | nil => rfl
  | cons l rest ih =>
    by_cases empty : l.alloc = 0
    · have region : l.region = none := if_pos empty
      rw [List.filterMap_cons_none region, List.map_cons, List.filter_cons_of_neg (by simp [empty]), ih]
    · have region : l.region = some ⟨l.alloc, l.bytes⟩ := if_neg empty
      rw [List.filterMap_cons_some region, List.map_cons, List.map_cons,
        List.filter_cons_of_pos (by simp [empty]), ih]

theorem Represents.allocs (held : Represents s shape) :
    (shape.larges.map LargeNode.addr).map (fun l => s.word (allocAt l)) =
      shape.larges.map LargeNode.alloc := by
  rw [List.map_map]
  refine List.map_congr_left fun l here => ?_
  obtain ⟨xs, ys, split⟩ := List.append_of_mem here
  have alloc := held.word_of (o := 8) (v := l.alloc) (large_mem split) (by simp [LargeNode.record])
  exact alloc

theorem Represents.balanced (held : Represents s shape) :
    Balanced s (shape.blocks.map Block.base) (shape.larges.map LargeNode.addr) where
  audited := held.fits.sound.audited
  chain := held.chain
  list := held.list
  live := by
    refine (held.fits.live.map Span.start).trans ?_
    rw [held.allocs, ← allocs_of_larges, Shape.regions, Shape.outer, held.idle, List.map_nil,
      List.append_nil, List.map_append, List.map_map]
    exact List.Perm.refl _

/-- A pool that comes to its end owns nothing, and it can always come to its end. -/
theorem ledger_balances (reached : Reach step Orderly initial s) :
    (s.phase = .running → (∃ blocks larges, Balanced s blocks larges) ∧
      (∀ a, Request a → s.Returns a) ∧ ∀ fuel, s.Returns (.ngxDestroyPool fuel)) ∧
    (s.phase = .destroyed → audit s.heap.log = some [] ∧ s.heap.live = []) := by
  constructor
  · intro running
    obtain ⟨shape, tidy⟩ := tidy_of_reach reached running
    obtain ⟨_, _, _, _, settles, _⟩ := tidy.destroys
    exact ⟨⟨_, _, tidy.balanced⟩, fun a request => tidy.returns running request,
      fun _ => ⟨_, isSome_of_settles settles running fun _ => rfl⟩⟩
  · intro destroyed
    cases tended_of_reach reached with
    | unborn unborn => simp [unborn.phase] at destroyed
    | running running _ => simp [destroyed] at running
    | destroyed _ empty sound =>
      refine ⟨?_, empty⟩
      rw [sound.audited, empty]

/-- Two large regions, one given back early and once more for nothing, and the end. -/
def wholeLife : List Action :=
  [.ngxCreatePool 96 (malloced [16]), .ngxPalloc 4 100 (malloced [1024]),
    .ngxPalloc 4 200 (malloced [2048]), .ngxPfree 4 1024, .ngxPfree 4 1024,
    .ngxPoolCleanupAdd 4 0 (malloced [512]), .ngxDestroyPool 4]

theorem ledger_balances_wholeLife : ∃ t, run step initial wholeLife = some t ∧
    t.heap.log.length = 8 ∧ (audit t.heap.log = some [] ∧ t.heap.live = []) := by
  have ran : ∃ t ∈ run step initial wholeLife, t.phase = .destroyed ∧ t.heap.log.length = 8 := by
    decide +kernel
  have obeys : Obeys step Orderly initial wholeLife := by decide +kernel
  obtain ⟨t, taken, destroyed, events⟩ := ran
  exact ⟨t, taken, events, (ledger_balances (reach_of_run obeys taken)).2 destroyed⟩

end NgxMemPool
