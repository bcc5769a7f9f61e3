import ServerPools.Memory.Growth

/- The large list: ngx_palloc_large and ngx_pfree, and the two sizes of ngx_palloc. -/
namespace NgxMemPool
open Malloc Records Linked Fuel

variable {s t : Shape} {h k : Heap} {l u : LargeNode} {xs ys : List LargeNode} {m n p : Nat}
  {align : Bool} {r : Record} {rest : List Record} {x : Small} {smalls : List Small}

theorem SmallMove.lent (fits : Fits s h) (move : SmallMove s n align m t) :
    (m = 0 ∧ t = s) ∨ (m ≠ 0 ∧ (align = true → 8 ∣ m) ∧ ∃ blocks current,
      t = { s with blocks := blocks, current := current, smalls := ⟨m, n, []⟩ :: s.smalls }) := by
  cases move with
  | failed => exact Or.inl ⟨rfl, rfl⟩
  | @carved pre full post b split start none enough =>
    have here : b ∈ s.blocks := by simp [split]
    obtain ⟨low, _, aligned⟩ := fits.room_bounds here align
    have bound := (fits.floor_low here).1
    exact Or.inr ⟨by omega, aligned, _, s.current, rfl⟩
  | grown split start nonempty none aligned =>
    exact Or.inr ⟨by omega, fun _ => by omega, _, _, rfl⟩

def Shape.keep (s : Shape) (smalls : List Small) : Shape := { s with smalls := smalls }

theorem small_records (s : Shape) (x : Small) (smalls : List Small) :
    (s.keep (x :: smalls)).records.Perm (x.record :: (s.keep smalls).records) := by
  apply List.perm_iff_count.mpr
  intro q
  simp only [Shape.records, Shape.body, Shape.keep, Shape.headers, Shape.front, Shape.grants,
    List.map_cons, List.count_append, List.count_cons]
  omega

theorem Proper.keep {others : List Small} (proper : Proper (s.keep smalls))
    (same : others.map Small.span = smalls.map Small.span) : Proper (s.keep others) :=
  ⟨proper.enough, proper.multiple, proper.start, proper.current, proper.bumped, by
    intro q member
    apply proper.placed q
    simpa only [Shape.inner, Shape.keep, same] using member⟩

/-- The pool fills a region it has carved for itself. -/
theorem Fits.write_small (fits : Fits (s.keep (x :: smalls)) h) {o w v value : Nat}
    (inside : o + w ≤ x.size) (stored : v % 256 ^ w = value)
    (away : ∀ f ∈ x.known, f.offset + f.width ≤ o ∨ o + w ≤ f.offset) :
    (store w (x.addr + o) v).run h = some ((), h.write (x.addr + o) w v) ∧
      Fits (s.keep (⟨x.addr, x.size, ⟨o, w, value⟩ :: x.known⟩ :: smalls))
        (h.write (x.addr + o) w v) := by
  obtain ⟨ran, held⟩ := (fits.held.perm (small_records s x smalls)).add_field inside stored away
  exact ⟨ran, fits.toProper.keep rfl, fits.sound.wrote _, fits.live,
    held.perm (small_records s ⟨x.addr, x.size, ⟨o, w, value⟩ :: x.known⟩ smalls).symm⟩

/-- What a node is not part of, with the regions of all other nodes. -/
def Shape.beside (s : Shape) (xs : List LargeNode) (addr : Nat) (ys : List LargeNode) :
    List Record :=
  s.headers 0 s.blocks ++ s.front :: (links LargeNode.addr LargeNode.record addr xs ++
    (links LargeNode.addr LargeNode.record 0 ys ++
      (links CleanupNode.addr CleanupNode.record s.stale s.cleanups ++
        (s.smalls.map Small.record ++
          (xs.filterMap LargeNode.grant ++ ys.filterMap LargeNode.grant)))))

theorem records_large (split : s.larges = xs ++ l :: ys) : s.records.Perm
    (l.record (headOr LargeNode.addr 0 ys) ::
      (l.grant.toList ++ s.loose ++ s.beside xs l.addr ys)) := by
  apply List.perm_iff_count.mpr
  intro q
  have one : List.filterMap LargeNode.grant (l :: ys) =
      l.grant.toList ++ ys.filterMap LargeNode.grant := by
    cases granted : l.grant <;> simp [granted]
  simp only [Shape.records, Shape.body, Shape.beside, Shape.headers, Shape.grants, split,
    links_append, links_cons, headOr_cons, List.filterMap_append, one, List.count_append,
    List.count_cons]
  omega

/-- One node points to another region or to none, and loose regions are others. -/
def Shape.setLarge (s : Shape) (xs : List LargeNode) (u : LargeNode) (ys : List LargeNode)
    (loose : List Record) : Shape := { s with larges := xs ++ u :: ys, loose := loose }

theorem setLarge_records (split : s.larges = xs ++ l :: ys) (same : u.addr = l.addr)
    (loose : List Record) : (s.setLarge xs u ys loose).records.Perm
      (u.record (headOr LargeNode.addr 0 ys) ::
        (u.grant.toList ++ loose ++ s.beside xs l.addr ys)) := by
  have there : (s.setLarge xs u ys loose).larges = xs ++ u :: ys := rfl
  have front : (s.setLarge xs u ys loose).front = s.front := by
    simp [Shape.front, Shape.setLarge, split, headOr_append, same]
  have perm := records_large there
  rw [Shape.beside, front, same] at perm
  exact perm

theorem regions_large (split : s.larges = xs ++ l :: ys) : s.regions.Perm
    (l.region.toList ++ s.loose.map Record.span ++ (s.blocks.map (Block.region s.size) ++
      (xs.filterMap LargeNode.region ++ ys.filterMap LargeNode.region))) := by
  apply List.perm_iff_count.mpr
  intro q
  have one : List.filterMap LargeNode.region (l :: ys) =
      l.region.toList ++ ys.filterMap LargeNode.region := by
    cases region : l.region <;> simp [region]
  simp only [Shape.regions, Shape.outer, split, List.filterMap_append, one, List.count_append]
  omega

theorem setLarge_regions (s : Shape) (loose : List Record) :
    (s.setLarge xs u ys loose).regions.Perm (u.region.toList ++ loose.map Record.span ++
      (s.blocks.map (Block.region s.size) ++
        (xs.filterMap LargeNode.region ++ ys.filterMap LargeNode.region))) :=
  regions_large (s := s.setLarge xs u ys loose) rfl

theorem Proper.set_large (proper : Proper s) (split : s.larges = xs ++ l :: ys)
    (same : u.addr = l.addr) (loose : List Record) : Proper (s.setLarge xs u ys loose) :=
  ⟨proper.enough, proper.multiple, proper.start, proper.current, proper.bumped, by
    intro q member
    apply proper.placed q
    simpa [Shape.inner, Shape.setLarge, split, LargeNode.span, same] using member⟩

theorem large_mem (split : s.larges = xs ++ l :: ys) :
    l.record (headOr LargeNode.addr 0 ys) ∈ s.records :=
  (records_large split).mem_iff.mpr List.mem_cons_self

theorem Fits.read_alloc (fits : Fits s h) (split : s.larges = xs ++ l :: ys) :
    (load 8 (allocAt l.addr)).run h = some (l.alloc, h) :=
  fits.held.read (large_mem split) (f := ⟨8, 8, l.alloc⟩) (by simp [LargeNode.record])

theorem Fits.read_large_next (fits : Fits s h) (split : s.larges = xs ++ l :: ys) :
    (load 8 (largeNextAt l.addr)).run h = some (headOr LargeNode.addr 0 ys, h) :=
  fits.held.read (large_mem split) (f := ⟨0, 8, headOr LargeNode.addr 0 ys⟩)
    (by simp [LargeNode.record])

theorem Fits.large_place (fits : Fits s h) (here : l ∈ s.larges) :
    l.addr ≠ 0 ∧ l.addr < 2 ^ 64 := by
  have inside : l.span ∈ s.inner := by
    simp only [Shape.inner, List.mem_append]
    exact Or.inl (List.mem_map_of_mem here)
  obtain ⟨b, there, carved⟩ := fits.placed _ inside
  obtain ⟨_, positive, small⟩ := fits.block_place there
  have last := (fits.bumped b there).2.1
  simp only [Block.Carved, LargeNode.span, Span.stop] at carved
  omega

/-- A node that holds nothing takes over the region that was to get one. -/
theorem Fits.reuse (fits : Fits (s.hold (⟨⟨p, n⟩, []⟩ :: rest)) h)
    (split : s.larges = xs ++ l :: ys) (empty : l.alloc = 0) :
    (store 8 (allocAt l.addr) p).run h = some ((), h.write (l.addr + 8) 8 p) ∧
      Fits (s.setLarge xs ⟨l.addr, p, n, []⟩ ys rest) (h.write (l.addr + 8) 8 p) := by
  have loose : Span.mk p n ∈ (s.hold (⟨⟨p, n⟩, []⟩ :: rest)).outer := by
    simp [Shape.outer, Shape.hold]
  obtain ⟨positive, _, stop⟩ := fits.sound.placed _ (fits.outer_live loose)
  simp only [Span.stop] at positive stop
  have nonzero : p ≠ 0 := by omega
  have whole : (s.hold (⟨⟨p, n⟩, []⟩ :: rest)).larges = xs ++ l :: ys := split
  have held_none : l.grant = none ∧ l.region = none := by
    simp [LargeNode.grant, LargeNode.region, empty]
  have holds : (LargeNode.mk l.addr p n []).grant = some ⟨⟨p, n⟩, []⟩ ∧
      (LargeNode.mk l.addr p n []).region = some ⟨p, n⟩ := by
    simp [LargeNode.grant, LargeNode.region, nonzero]
  obtain ⟨ran, held⟩ := (fits.held.perm (records_large whole)).write (o := 8) (w := 8) (v := p)
    (t := (LargeNode.mk l.addr p n []).record (headOr LargeNode.addr 0 ys))
    (by simp [LargeNode.record, LargeNode.span, sizeofLarge]) (Nat.mod_eq_of_lt (by omega)) rfl
    (by simp [LargeNode.record])
  have live := fits.live.trans (regions_large whole)
  refine ⟨ran, fits.toProper.set_large (u := ⟨l.addr, p, n, []⟩) whole rfl rest,
    fits.sound.wrote _, ?_, ?_⟩
  · refine live.trans (List.Perm.trans ?_ (setLarge_regions _ rest).symm)
    rw [held_none.2, holds.2]
    exact List.Perm.refl _
  · rw [held_none.1] at held
    refine Held.perm ?_ (setLarge_records (u := ⟨l.addr, p, n, []⟩) whole rfl rest).symm
    rw [holds.1]
    exact held

/-- One round of the loop of ngx_palloc_large at the node it looks at. -/
theorem run_reuseNode (fits : Fits s h) (split : s.larges = xs ++ l :: ys) (fuel tries : Nat) :
    (reuseNode p (fuel + 1) tries l.addr).run h =
      if l.alloc = 0 then ((store 8 (allocAt l.addr) p).run h).bind fun r => some (true, r.2)
      else if tries > 3 then some (false, h)
      else (reuseNode p fuel (tries + 1) (headOr LargeNode.addr 0 ys)).run h := by
  have nonzero := (fits.large_place (l := l) (by simp [split])).1
  simp only [reuseNode, run_ite, if_neg nonzero, StateT.run_bind, fits.read_alloc split,
    Option.bind_eq_bind, Option.bind_some, fits.read_large_next split]
  rfl

theorem run_reuseNode_null (fuel tries : Nat) :
    (reuseNode p (fuel + 1) tries 0).run h = some (false, h) := rfl

/-- The first five nodes are looked at for one that holds nothing. -/
theorem reuseNode_settles (fits : Fits (s.hold (⟨⟨p, n⟩, []⟩ :: rest)) h)
    (split : s.larges = xs ++ ys) (tries : Nat) (near : tries ≤ 4) :
    (∃ full l behind k, ys = full ++ l :: behind ∧ (∀ x ∈ full, x.alloc ≠ 0) ∧ l.alloc = 0 ∧
      tries + full.length ≤ 4 ∧
      Settles (fun fuel => (reuseNode p fuel tries (headOr LargeNode.addr 0 ys)).run h)
        (4 - tries + 1) (true, k) ∧
      Fits (s.setLarge (xs ++ full) ⟨l.addr, p, n, []⟩ behind rest) k) ∨
    (∀ full l behind, ys = full ++ l :: behind → tries + full.length ≤ 4 → l.alloc ≠ 0) ∧
      Settles (fun fuel => (reuseNode p fuel tries (headOr LargeNode.addr 0 ys)).run h)
        (4 - tries + 1) (false, h) := by
  induction ys generalizing xs tries with
  | nil =>
    refine Or.inr ⟨by simp, Settles.round rfl (fun fuel => ?_)
      ((settles_of_eq fun _ => rfl).widen (Nat.zero_le _))⟩
    exact run_reuseNode_null fuel tries
  | cons l behind ih =>
    have whole : (s.hold (⟨⟨p, n⟩, []⟩ :: rest)).larges = xs ++ l :: behind := split
    by_cases empty : l.alloc = 0
    · obtain ⟨ran, after⟩ := fits.reuse split empty
      refine Or.inl ⟨[], l, behind, _, rfl, by simp, empty, near, ?_, by simpa using after⟩
      refine Settles.round rfl (fun fuel => ?_) ((settles_of_eq fun _ => rfl).widen (Nat.zero_le _))
      rw [headOr_cons, run_reuseNode fits whole, if_pos empty, ran, Option.bind_some]
    · by_cases enough : tries > 3
      · refine Or.inr ⟨?_, ?_⟩
        · intro full other later found bound
          have none : full = [] := List.length_eq_zero_iff.mp (by omega)
          simp only [none, List.nil_append, List.cons.injEq] at found
          rwa [← found.1]
        · refine Settles.round rfl (fun fuel => ?_)
            ((settles_of_eq fun _ => rfl).widen (Nat.zero_le _))
          rw [headOr_cons, run_reuseNode fits whole, if_neg empty, if_pos enough]
      · have round : ∀ fuel, (reuseNode p (fuel + 1) tries l.addr).run h =
            (reuseNode p fuel (tries + 1) (headOr LargeNode.addr 0 behind)).run h := by
          intro fuel
          rw [run_reuseNode fits whole, if_neg empty, if_neg enough]
        have later : s.larges = (xs ++ [l]) ++ behind := by simp [split]
        rcases ih later (tries + 1) (by omega) with
          ⟨full, u, after, k, found, held, free, bound, settles, fitted⟩ | ⟨held, settles⟩
        · refine Or.inl ⟨l :: full, u, after, k, by simp [found], ?_, free,
            by simp only [List.length_cons]; omega,
            Settles.round rfl round (settles.widen (by omega)), by simpa using fitted⟩
          intro x member
          rcases List.mem_cons.mp member with rfl | inside
          · exact empty
          · exact held x inside
        · refine Or.inr ⟨?_, Settles.round rfl round (settles.widen (by omega))⟩
          intro full u after found bound
          cases full with
          | nil =>
            simp only [List.nil_append, List.cons.injEq] at found
            rwa [← found.1]
          | cons x full =>
            simp only [List.cons_append, List.cons.injEq, List.length_cons] at found bound
            exact held full u after found.2 (by omega)

/-- A region that was not linked goes back. -/
theorem Fits.release (fits : Fits (s.hold (r :: rest)) h) :
    Fits (s.hold rest) (h.freed r.span.start) := by
  apply Fits.freed (fits.toProper.hold rest) fits.sound
  · exact fits.live.trans (loose_regions s rest)
  · exact (fits.held.perm (loose_records s rest)).tail

/-- A carved region becomes the first node of the large list. -/
def Shape.pushLarge (s : Shape) (m p n : Nat) : Shape :=
  { s with larges := ⟨m, p, n, []⟩ :: s.larges }

/-- The node as ngx_palloc_large leaves it before it sets pool_->large. -/
def nodeSmall (m next p : Nat) : Small := ⟨m, sizeofLarge, [⟨0, 8, next⟩, ⟨8, 8, p⟩]⟩

theorem nodeSmall_record (m next p n : Nat) :
    (nodeSmall m next p).record = (LargeNode.mk m p n []).record next := rfl

theorem Fits.push_large (fits : Fits ((s.hold (⟨⟨p, n⟩, []⟩ :: rest)).keep
      (nodeSmall m (headOr LargeNode.addr 0 s.larges) p :: smalls)) h) :
    (store 8 (largeAt s.pool) m).run h = some ((), h.write (s.pool + 32 + 16) 8 m) ∧
      Fits (((s.hold rest).keep smalls).pushLarge m p n) (h.write (s.pool + 32 + 16) 8 m) := by
  have loose : Span.mk p n ∈ ((s.hold (⟨⟨p, n⟩, []⟩ :: rest)).keep
      (nodeSmall m (headOr LargeNode.addr 0 s.larges) p :: smalls)).outer := by
    simp [Shape.outer, Shape.hold, Shape.keep]
  have nonzero : p ≠ 0 := by
    have positive := (fits.sound.placed _ (fits.outer_live loose)).1
    simp only at positive
    omega
  have granted : (LargeNode.mk m p n []).grant = some ⟨⟨p, n⟩, []⟩ ∧
      (LargeNode.mk m p n []).region = some ⟨p, n⟩ := by
    simp [LargeNode.grant, LargeNode.region, nonzero]
  obtain ⟨b, here, carved⟩ := fits.placed ⟨m, sizeofLarge⟩ (by
    simp [Shape.inner, Shape.keep, nodeSmall, Small.span])
  have small := (fits.block_place here).2.2
  have last := (fits.bumped b here).2.1
  simp only [Block.Carved, Span.stop, sizeofLarge] at carved
  obtain ⟨ran, held⟩ := (fits.held.perm (records_front _)).write (o := 16) (w := 8) (v := m)
    (t := (((s.hold rest).keep smalls).pushLarge m p n).front) (by simp [Shape.front])
    (Nat.mod_eq_of_lt (by omega)) rfl (by simp [Shape.front, Shape.pushLarge, Shape.keep, Shape.hold])
  refine ⟨ran, ⟨fits.enough, fits.multiple, fits.start, fits.current, fits.bumped, ?_⟩,
    fits.sound.wrote _, fits.live.trans ?_, held.perm ?_⟩
  · intro q member
    apply fits.placed q
    simp only [Shape.inner, Shape.pushLarge, Shape.keep, Shape.hold, List.map_cons, List.mem_append,
      List.mem_cons, LargeNode.span, nodeSmall, Small.span] at member ⊢
    tauto
  · apply List.perm_iff_count.mpr
    intro q
    simp only [Shape.regions, Shape.outer, Shape.pushLarge, Shape.keep, Shape.hold,
      List.filterMap_cons, granted.2, List.map_cons, List.count_append, List.count_cons]
    omega
  · apply List.perm_iff_count.mpr
    intro q
    simp only [Shape.records, Shape.headers, Shape.body, Shape.grants, Shape.pushLarge, Shape.keep,
      Shape.hold, List.filterMap_cons, granted.1, links_cons, List.map_cons, nodeSmall_record m _ p n,
      List.count_append, List.count_cons]
    omega

/-- All that ngx_palloc_large can do: give the region to one of the first five nodes, or to
    a new node at the head, or fail. -/
inductive LargeMove (s : Shape) (n : Nat) : Nat → Shape → Prop where
  | reused {full behind : List LargeNode} {l : LargeNode} {p : Nat}
      (split : s.larges = full ++ l :: behind) (held : ∀ x ∈ full, x.alloc ≠ 0)
      (empty : l.alloc = 0) (near : full.length ≤ 4) (given : p ≠ 0 ∧ 16 ∣ p) :
      LargeMove s n p (s.setLarge full ⟨l.addr, p, n, []⟩ behind s.loose)
  | pushed {m p : Nat} {t : Shape}
      (held : ∀ full l behind, s.larges = full ++ l :: behind → full.length ≤ 4 → l.alloc ≠ 0)
      (carved : SmallMove s sizeofLarge true m t) (node : m ≠ 0) (given : p ≠ 0 ∧ 16 ∣ p) :
      LargeMove s n p ((t.keep s.smalls).pushLarge m p n)
  | failed : LargeMove s n 0 s

/-- ngx_palloc_small takes no notice of regions that are not linked yet. -/
theorem SmallMove.drop {loose : List Record} (move : SmallMove (s.hold loose) n align m t) :
    SmallMove s n align m (t.hold s.loose) := by
  cases move with
  | failed => exact SmallMove.failed
  | carved split start none enough => exact SmallMove.carved split start none enough
  | grown split start nonempty none aligned =>
    exact SmallMove.grown split start nonempty none aligned

/-- ngx_palloc_large once it has a node of its own. -/
theorem Fits.link_large (fits : Fits ((s.hold (⟨⟨p, n⟩, []⟩ :: rest)).keep
      (⟨m, sizeofLarge, []⟩ :: smalls)) h) :
    ∃ k₁ k₂ k₃, (store 8 (allocAt m) p).run h = some ((), k₁) ∧
      (load 8 (largeAt s.pool)).run k₁ = some (headOr LargeNode.addr 0 s.larges, k₁) ∧
      (store 8 (largeNextAt m) (headOr LargeNode.addr 0 s.larges)).run k₁ = some ((), k₂) ∧
      (store 8 (largeAt s.pool) m).run k₂ = some ((), k₃) ∧
      Fits (((s.hold rest).keep smalls).pushLarge m p n) k₃ := by
  have place : p < 2 ^ 64 := by
    have loose : Span.mk p n ∈ ((s.hold (⟨⟨p, n⟩, []⟩ :: rest)).keep
        (⟨m, sizeofLarge, []⟩ :: smalls)).outer := by
      simp [Shape.outer, Shape.hold, Shape.keep]
    have stop := (fits.sound.placed _ (fits.outer_live loose)).2.2
    simp only [Span.stop] at stop
    omega
  have head : headOr LargeNode.addr 0 s.larges < 2 ^ 64 := by
    cases list : s.larges with
    | nil => simp
    | cons l others =>
      have here : l ∈ ((s.hold (⟨⟨p, n⟩, []⟩ :: rest)).keep (⟨m, sizeofLarge, []⟩ :: smalls)).larges := by
        simp [Shape.hold, Shape.keep, list]
      exact (fits.large_place here).2
  obtain ⟨first, one⟩ := fits.write_small (o := 8) (w := 8) (v := p) (by simp [sizeofLarge])
    (Nat.mod_eq_of_lt (by omega)) (by simp)
  obtain ⟨second, two⟩ := one.write_small (o := 0) (w := 8)
    (v := headOr LargeNode.addr 0 s.larges) (by simp [sizeofLarge])
    (Nat.mod_eq_of_lt (by omega)) (by simp)
  obtain ⟨third, after⟩ := two.push_large
  exact ⟨_, _, _, first, one.read_large, second, third, after⟩

theorem ngxPallocLarge_fails {others : List Answer}
    (null : h.mallocResult n = (0, { h with answers := others })) (pool fuel : Nat) :
    (ngxPallocLarge pool fuel n).run h = some (0, { h with answers := others }) := by
  simp only [ngxPallocLarge, StateT.run_bind, run_malloc, null, Option.bind_eq_bind,
    Option.bind_some, run_ite, if_pos, StateT.run_pure, Option.pure_def]

theorem ngxPallocLarge_settles (fits : Fits s h) (n : Nat) :
    ∃ bound m t k, Settles (fun fuel => (ngxPallocLarge s.pool fuel n).run h) bound (m, k) ∧
      LargeMove s n m t ∧ Fits t k ∧ (m = 0 → h.Untouched k) ∧
      ∀ limit, 5 ≤ limit → s.Near limit → bound ≤ limit := by
  rcases malloc_cases h n with ⟨others, null⟩ | ⟨answer, others, fresh, given⟩
  · exact ⟨0, 0, s, _, settles_of_eq fun fuel => ngxPallocLarge_fails null s.pool fuel,
      LargeMove.failed, fits.answering others, fun _ => h.untouched_answering others,
      fun limit _ _ => Nat.zero_le limit⟩
  · obtain ⟨aligned, positive, _⟩ := id fresh
    simp only at aligned positive
    have nonzero : answer.base ≠ 0 := by omega
    have taken := (fits.answering others).took fresh
    have start : ∀ fuel, (ngxPallocLarge s.pool fuel n).run h =
        ((reuseNode answer.base fuel 0 (headOr LargeNode.addr 0 s.larges)).run
          (Heap.taken { h with answers := others } n answer)).bind fun r =>
        if r.1 = true then some (answer.base, r.2)
        else ((ngxPallocSmall s.pool fuel sizeofLarge true).run r.2).bind fun r =>
          if r.1 = 0 then some (0, r.2.freed answer.base)
          else ((store 8 (allocAt r.1) answer.base).run r.2).bind fun q =>
            ((load 8 (largeAt s.pool)).run q.2).bind fun q =>
              ((store 8 (largeNextAt r.1) q.1).run q.2).bind fun q =>
                ((store 8 (largeAt s.pool) r.1).run q.2).bind fun q => some (answer.base, q.2) := by
      intro fuel
      have head : (load 8 (largeAt s.pool)).run (Heap.taken { h with answers := others } n answer) =
          some (headOr LargeNode.addr 0 s.larges, _) := taken.read_large
      simp only [ngxPallocLarge, StateT.run_bind, run_malloc, given, Option.bind_eq_bind,
        Option.bind_some, run_ite, if_neg nonzero, head, run_free, StateT.run_pure, Option.pure_def]
    have whole : s.larges = [] ++ s.larges := rfl
    rcases reuseNode_settles taken whole 0 (Nat.zero_le 4) with
      ⟨full, l, behind, k, split, held, empty, near, reuse, after⟩ | ⟨held, reuse⟩
    · refine ⟨_, answer.base, _, k, (reuse.bind (settles_of_eq fun fuel => ?_)).congr start,
        LargeMove.reused split held empty (by omega) ⟨nonzero, aligned⟩, after,
        fun null => absurd null nonzero, fun limit five _ => by omega⟩
      rfl
    · obtain ⟨bound, m, t, k, small, move, after, same, bounded⟩ :=
        ngxPallocSmall_settles taken (n := sizeofLarge) (by
          have enough := taken.enough
          simp only [sizeofLarge]
          omega) true
      have within : ∀ limit, 5 ≤ limit → s.Near limit → max (4 - 0 + 1) (max bound 0) ≤ limit := by
        intro limit five near
        have rest := bounded limit near
        omega
      rcases move.lent taken with ⟨rfl, rfl⟩ | ⟨node, _, blocks, current, rfl⟩
      · obtain ⟨left, rfl⟩ := same rfl
        have untouched : Heap.Untouched { h with answers := others }
            (Heap.freed { Heap.taken { h with answers := others } n answer with answers := left }
              answer.base) :=
          (Heap.untouched_answering _ left).took_freed (fits.sound.answering others) fresh
        refine ⟨_, 0, s, _, (reuse.bind (small.bind (settles_of_eq fun fuel => ?_))).congr start,
          LargeMove.failed, after.release, fun _ => untouched.of_answering, within⟩
        rfl
      · have named : Fits (({ s with blocks := blocks, current := current }.hold
            (⟨⟨answer.base, n⟩, []⟩ :: s.loose)).keep (⟨m, sizeofLarge, []⟩ :: s.smalls)) k := after
        obtain ⟨k₁, k₂, k₃, first, head, second, third, linked⟩ := named.link_large
        simp only at head second third
        refine ⟨_, answer.base, _, k₃,
          (reuse.bind (small.bind (settles_of_eq fun fuel => ?_))).congr start,
          LargeMove.pushed (fun full l behind split near => held full l behind split (by omega))
            move.drop node ⟨nonzero, aligned⟩, linked, fun null => absurd null nonzero, within⟩
        simp only [if_neg node, first, head, second, third, Option.bind_some]

end NgxMemPool
