import ServerPools.Memory.Requests

/- What is remembered of the contents of handed out regions is free to choose, as long as
   it is true; so a client may write where nothing is remembered. -/
namespace NgxMemPool
open Malloc Records Linked

variable {s : Shape} {h : Heap} {small : Small → List Field} {large : LargeNode → List Field}
  {cleanup : CleanupNode → List Field} {x : Nat}

def Small.note (small : Small → List Field) (p : Small) : Small := ⟨p.addr, p.size, small p⟩

def LargeNode.note (large : LargeNode → List Field) (l : LargeNode) : LargeNode :=
  ⟨l.addr, l.alloc, l.bytes, large l⟩

def CleanupNode.note (cleanup : CleanupNode → List Field) (c : CleanupNode) : CleanupNode :=
  ⟨c.addr, cleanup c⟩

def Shape.noting (s : Shape) (small : Small → List Field) (large : LargeNode → List Field)
    (cleanup : CleanupNode → List Field) : Shape :=
  { s with
    smalls := s.smalls.map (Small.note small)
    larges := s.larges.map (LargeNode.note large)
    cleanups := s.cleanups.map (CleanupNode.note cleanup) }

theorem noting_front (s : Shape) : (s.noting small large cleanup).front = s.front := by
  simp only [Shape.front, Shape.noting]
  rw [headOr_map (f := LargeNode.note large) fun _ => rfl,
    headOr_map (f := CleanupNode.note cleanup) fun _ => rfl]

theorem noting_regions (s : Shape) : (s.noting small large cleanup).regions = s.regions := by
  simp only [Shape.regions, Shape.outer, Shape.noting, List.filterMap_map]
  rfl

theorem noting_inner (s : Shape) : (s.noting small large cleanup).inner = s.inner := by
  simp only [Shape.inner, Shape.noting, List.map_map]
  rfl

theorem noting_leases (s : Shape) : (s.noting small large cleanup).leases = s.leases := by
  simp only [Shape.leases, Shape.noting, List.map_map, List.filterMap_map]
  rfl

theorem noting_nodes (s : Shape) : (s.noting small large cleanup).cleanups.map CleanupNode.addr =
    s.cleanups.map CleanupNode.addr := by
  simp only [Shape.noting, List.map_map]
  rfl

theorem noting_spans (s : Shape) :
    (s.noting small large cleanup).records.map Record.span = s.records.map Record.span := by
  have grants : (s.noting small large cleanup).grants.map Record.span = s.grants.map Record.span := by
    rw [grants_spans, grants_spans, Shape.noting, List.filterMap_map]
    rfl
  have larges : ∀ list, (links LargeNode.addr LargeNode.record 0 list).map Record.span =
      list.map LargeNode.span := map_links fun _ _ => rfl
  have cleanups : ∀ list, (links CleanupNode.addr CleanupNode.record s.stale list).map Record.span =
      list.map CleanupNode.span := map_links fun _ _ => rfl
  have smalls : ∀ list : List Small, (list.map Small.record).map Record.span =
      list.map Small.span := fun list => List.map_map
  simp only [Shape.records, Shape.body, List.map_append, List.map_cons, grants, larges, smalls,
    noting_front]
  rw [cleanups s.cleanups, show (s.noting small large cleanup).stale = s.stale from rfl, cleanups]
  simp only [Shape.noting, List.map_map, Function.comp_def]
  rfl

theorem cleanup_link {stale : Nat} {list : List CleanupNode} {c : CleanupNode} (here : c ∈ list) :
    ∃ next, c.record next ∈ links CleanupNode.addr CleanupNode.record stale list :=
  links_mem here

theorem Proper.noting (proper : Proper s) : Proper (s.noting small large cleanup) :=
  ⟨proper.enough, proper.multiple, proper.start, proper.current, proper.bumped, by
    rw [noting_inner]
    exact proper.placed⟩

theorem Fits.noting (fits : Fits s h) (smalls : ∀ p ∈ s.smalls, ∀ f ∈ small p, f.Holds h.bytes p.span)
    (larges : ∀ l ∈ s.larges, l.alloc ≠ 0 → ∀ f ∈ large l, f.Holds h.bytes ⟨l.alloc, l.bytes⟩)
    (cleanups : ∀ c ∈ s.cleanups, ∀ f ∈ cleanup c, f.Holds h.bytes c.span) :
    Fits (s.noting small large cleanup) h := by
  have old : ∀ r ∈ s.records, r.Holds h.bytes := fits.held.holds
  refine ⟨fits.toProper.noting, fits.sound, by rw [noting_regions]; exact fits.live,
    fits.held.known (noting_spans s) ?_⟩
  intro r member
  simp only [Shape.records, Shape.body, List.mem_append, List.mem_cons, noting_front] at member
  rcases member with header | front | node | added | carved | grant | loose
  · exact old r (by simp only [Shape.records, List.mem_append]; exact Or.inl header)
  · exact old r (by simp [Shape.records, front])
  · apply old r
    simp only [Shape.noting] at node
    rw [links_map (f := LargeNode.note large) fun _ => rfl] at node
    simp only [Shape.records, Shape.body, List.mem_append, List.mem_cons]
    exact Or.inr (Or.inr (Or.inl node))
  · simp only [Shape.noting] at added
    rw [links_map (f := CleanupNode.note cleanup) fun _ => rfl] at added
    obtain ⟨c, here, next, rfl, whole⟩ := mem_links_both added
    have inside : c.record next ∈ s.records := by
      simp only [Shape.records, Shape.body, List.mem_append, List.mem_cons]
      exact Or.inr (Or.inr (Or.inr (Or.inl whole)))
    intro f field
    rcases List.mem_cons.mp field with rfl | noted
    · exact old _ inside _ List.mem_cons_self
    · exact cleanups c here f noted
  · obtain ⟨q, noted, rfl⟩ := List.mem_map.mp carved
    obtain ⟨p, here, rfl⟩ := List.mem_map.mp noted
    exact smalls p here
  · obtain ⟨q, noted, granted⟩ := List.mem_filterMap.mp grant
    obtain ⟨l, here, rfl⟩ := List.mem_map.mp noted
    unfold LargeNode.grant at granted
    split at granted
    · contradiction
    · rename_i full
      cases granted
      exact larges l here full
  · exact old r (by
      simp only [Shape.records, Shape.body, List.mem_append, List.mem_cons]
      exact Or.inr (Or.inr (Or.inr (Or.inr (Or.inr (Or.inr loose))))))

def Shape.forget (s : Shape) : Shape := s.noting (fun _ => []) (fun _ => []) fun _ => []

theorem Fits.forget (fits : Fits s h) : Fits s.forget h := by
  apply fits.noting <;> simp

/-- The bytes that clients may write: those of their regions and the first two fields of
    the cleanup nodes. -/
def Shape.Open (s : Shape) (x : Nat) : Prop :=
  (∃ l ∈ s.leases, l.span.Has x) ∨ ∃ c ∈ s.cleanups, (Span.mk c.addr 16).Has x

theorem lease_record {l : Lease} (member : l ∈ s.leases) :
    Record.mk l.span [] ∈ s.forget.records := by
  rcases lease_cases member with ⟨p, here, rfl⟩ | ⟨u, here, full, rfl⟩
  · have inside : (p.note fun _ => []).record ∈ s.forget.smalls.map Small.record :=
      List.mem_map_of_mem (List.mem_map_of_mem here)
    simp only [Shape.records, Shape.body, List.mem_append, List.mem_cons]
    exact Or.inr (Or.inr (Or.inr (Or.inr (Or.inl inside))))
  · have inside : Record.mk ⟨u.alloc, u.bytes⟩ [] ∈ s.forget.grants :=
      List.mem_filterMap.mpr ⟨u.note fun _ => [], List.mem_map_of_mem here, if_neg full⟩
    simp only [Shape.records, Shape.body, List.mem_append, List.mem_cons]
    exact Or.inr (Or.inr (Or.inr (Or.inr (Or.inr (Or.inl inside)))))

theorem node_record {c : CleanupNode} (member : c ∈ s.cleanups) :
    ∃ next, Record.mk c.span [⟨16, 8, next⟩] ∈ s.forget.records := by
  have here : (c.note fun _ => []) ∈ s.forget.cleanups := List.mem_map_of_mem member
  obtain ⟨next, inside⟩ := cleanup_link here
  refine ⟨next, ?_⟩
  simp only [Shape.records, Shape.body, List.mem_append, List.mem_cons]
  exact Or.inr (Or.inr (Or.inr (Or.inl inside)))

/-- A client's write changes nothing that the pool relies on. -/
theorem Fits.poke (fits : Fits s h) (writable : s.Open x) (byte : UInt8) :
    Fits s.forget { h with bytes := Function.update h.bytes x byte } := by
  have elsewhere : ∀ y, y ≠ x → Function.update h.bytes x byte y = h.bytes y :=
    fun y other => Function.update_of_ne other byte h.bytes
  rcases writable with ⟨l, member, inside⟩ | ⟨c, member, inside⟩
  · apply fits.forget.scribble (lease_record member)
    · intro y outside
      exact elsewhere y fun same => outside (same ▸ inside)
    · simp [Record.Holds]
  · obtain ⟨next, record⟩ := node_record member
    simp only [Span.Has, Span.stop] at inside
    apply fits.forget.scribble record
    · intro y outside
      refine elsewhere y fun same => outside ?_
      subst same
      simp only [Span.Has, Span.stop, CleanupNode.span, sizeofCleanup]
      omega
    · intro f field
      obtain rfl := List.mem_singleton.mp field
      obtain ⟨fit, stored⟩ := fits.forget.held.holds _ record _ field
      refine ⟨fit, ?_⟩
      rw [← stored]
      refine Bytes.load_congr fun y here => elsewhere y fun same => ?_
      simp only [Span.Has, Span.stop, CleanupNode.span] at here
      omega

end NgxMemPool
