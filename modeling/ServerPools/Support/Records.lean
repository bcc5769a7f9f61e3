import ServerPools.Support.Malloc
import Mathlib.Data.List.Basic

/- Records in a heap: ranges that lie apart from each other inside live regions, each with
   the fields it is known to hold. The order of a list of records means nothing. -/
namespace Records
open Malloc

structure Field where
  offset : Nat
  width : Nat
  value : Nat
  deriving DecidableEq, Repr

structure Record where
  span : Span
  fields : List Field
  deriving DecidableEq, Repr

abbrev Record.addr (r : Record) : Nat := r.span.start

def Field.Holds (m : Nat → UInt8) (span : Span) (f : Field) : Prop :=
  f.offset + f.width ≤ span.length ∧ Bytes.load m (span.start + f.offset) f.width = f.value

def Record.Holds (m : Nat → UInt8) (r : Record) : Prop := ∀ f ∈ r.fields, f.Holds m r.span

structure Held (h : Heap) (records : List Record) : Prop where
  inside : ∀ r ∈ records, h.Open r.span
  apart : records.Pairwise fun a b => a.span.Apart b.span
  holds : ∀ r ∈ records, r.Holds h.bytes

variable {h : Heap} {records others : List Record} {r q : Record} {m : Nat → UInt8}
  {o w v kept : Nat}

/-- The first n bytes from a on, each a field of its own. -/
def spelled (m : Nat → UInt8) (a n : Nat) : List Field :=
  (List.range n).map fun i => ⟨i, 1, (m (a + i)).toNat⟩

theorem spelled_holds {a n : Nat} {span : Span} (start : span.start = a) (fits : n ≤ span.length)
    {f : Field} (member : f ∈ spelled m a n) : f.Holds m span := by
  obtain ⟨i, small, rfl⟩ := List.mem_map.mp member
  have bound := List.mem_range.mp small
  constructor
  · simp only
    omega
  · rw [start]
    exact Bytes.load_byte m (a + i)

/-- Where these fields still hold, the bytes are the same. -/
theorem spelled_same {a n x : Nat} {span : Span} {later : Nat → UInt8} (start : span.start = a)
    (holds : ∀ f ∈ spelled m a n, f.Holds later span) (inside : (Span.mk a n).Has x) :
    later x = m x := by
  simp only [Span.Has, Span.stop] at inside
  have back : a + (x - a) = x := by omega
  have field : (⟨x - a, 1, (m (a + (x - a))).toNat⟩ : Field) ∈ spelled m a n :=
    List.mem_map.mpr ⟨x - a, List.mem_range.mpr (by omega), rfl⟩
  have value := (holds _ field).2
  rw [start, Bytes.load_byte, back] at value
  exact UInt8.toNat_inj.mp value

theorem held_nil : Held h [] := ⟨by simp, .nil, by simp⟩

theorem Held.perm (held : Held h records) (same : records.Perm others) : Held h others := by
  constructor
  · exact fun r member => held.inside r (same.mem_iff.mpr member)
  · exact (same.pairwise_iff Span.Apart.symm).mp held.apart
  · exact fun r member => held.holds r (same.mem_iff.mpr member)

theorem Held.sublist (held : Held h records) (fewer : others.Sublist records) :
    Held h others := by
  constructor
  · exact fun r member => held.inside r (fewer.subset member)
  · exact held.apart.sublist fewer
  · exact fun r member => held.holds r (fewer.subset member)

theorem Held.tail (held : Held h (r :: records)) : Held h records :=
  held.sublist (List.sublist_cons_self _ _)

theorem Held.head_apart (held : Held h (r :: records)) (member : q ∈ records) :
    r.span.Apart q.span :=
  (List.pairwise_cons.mp held.apart).1 q member

theorem Open.within {a b : Span} (inside : h.Open b) (inner : a.Within b) : h.Open a := by
  obtain ⟨region, live, outer⟩ := inside
  exact ⟨region, live, inner.trans outer⟩

theorem field_within {span : Span} (fits : o + w ≤ span.length) :
    (Span.mk (span.start + o) w).Within span := by
  simp only [Span.Within, Span.stop]
  omega

theorem Held.value {f : Field} (held : Held h records) (member : r ∈ records)
    (field : f ∈ r.fields) : Bytes.load h.bytes (r.addr + f.offset) f.width = f.value :=
  (held.holds r member f field).2

theorem Held.opens {f : Field} (held : Held h records) (member : r ∈ records)
    (field : f ∈ r.fields) : h.Open ⟨r.addr + f.offset, f.width⟩ :=
  Open.within (held.inside r member) (field_within (held.holds r member f field).1)

theorem Held.read {f : Field} (held : Held h records) (member : r ∈ records)
    (field : f ∈ r.fields) :
    (load f.width (r.addr + f.offset)).run h = some (f.value, h) := by
  rw [run_load (held.opens member field), held.value member field]

theorem Record.Holds.congr (holds : r.Holds h.bytes)
    (same : ∀ x, r.span.Has x → m x = h.bytes x) : r.Holds m := by
  intro f field
  obtain ⟨fits, value⟩ := holds f field
  refine ⟨fits, ?_⟩
  rw [← value]
  exact Bytes.load_congr fun x here => same x ((field_within fits).has here)

/-- Only bytes of one record change, and it is known what it holds then. -/
theorem Held.changed {t : Record} (held : Held h (r :: records))
    (same : ∀ x, ¬r.span.Has x → m x = h.bytes x) (place : t.span = r.span)
    (holds : t.Holds m) : Held { h with bytes := m } (t :: records) := by
  constructor
  · intro q member
    rcases List.mem_cons.mp member with rfl | old
    · rw [place]
      exact held.inside r (by simp)
    · exact held.inside q (by simp [old])
  · refine List.pairwise_cons.mpr ⟨fun q member => ?_, (List.pairwise_cons.mp held.apart).2⟩
    rw [place]
    exact held.head_apart member
  · intro q member
    rcases List.mem_cons.mp member with rfl | old
    · exact holds
    · refine (held.holds q (by simp [old])).congr fun x here => same x ?_
      exact (held.head_apart old).symm.not_has here

/-- A store into a record changes the fields it covers and no other. -/
theorem Held.write {t : Record} (held : Held h (r :: records))
    (fits : o + w ≤ r.span.length) (stored : v % 256 ^ w = kept) (place : t.span = r.span)
    (fields : ∀ f ∈ t.fields, f = ⟨o, w, kept⟩ ∨
      f ∈ r.fields ∧ (f.offset + f.width ≤ o ∨ o + w ≤ f.offset)) :
    (store w (r.addr + o) v).run h = some ((), h.write (r.addr + o) w v) ∧
      Held (h.write (r.addr + o) w v) (t :: records) := by
  have inner : (Span.mk (r.addr + o) w).Within r.span := field_within fits
  constructor
  · exact run_store (Open.within (held.inside r (by simp)) inner)
  · apply held.changed _ place
    · intro f member
      rw [place]
      rcases fields f member with rfl | ⟨old, away⟩
      · refine ⟨fits, ?_⟩
        rw [Bytes.load_store_same, stored]
      · obtain ⟨within, value⟩ := held.holds r (by simp) f old
        refine ⟨within, ?_⟩
        rw [← value]
        refine Bytes.load_congr fun x here => Bytes.store_outside fun there => ?_
        simp only [Span.Has, Span.stop, Record.addr] at here there
        omega
    · intro x outside
      exact Bytes.store_outside fun here => outside (inner.has here)

/-- A store beside all known fields is one known field more. -/
theorem Held.add_field {span : Span} {fields : List Field}
    (held : Held h (⟨span, fields⟩ :: records)) (fits : o + w ≤ span.length)
    (stored : v % 256 ^ w = kept)
    (away : ∀ f ∈ fields, f.offset + f.width ≤ o ∨ o + w ≤ f.offset) :
    (store w (span.start + o) v).run h = some ((), h.write (span.start + o) w v) ∧
      Held (h.write (span.start + o) w v) (⟨span, ⟨o, w, kept⟩ :: fields⟩ :: records) := by
  refine held.write (t := ⟨span, ⟨o, w, kept⟩ :: fields⟩) fits stored rfl ?_
  intro f member
  rcases List.mem_cons.mp member with rfl | old
  · exact Or.inl rfl
  · exact Or.inr ⟨old, away f old⟩

/-- Other knowledge about the same ranges. -/
theorem Held.known (held : Held h records)
    (same : others.map Record.span = records.map Record.span)
    (holds : ∀ r ∈ others, r.Holds h.bytes) : Held h others := by
  refine ⟨?_, ?_, holds⟩
  · intro r member
    have inside : r.span ∈ records.map Record.span := same ▸ List.mem_map_of_mem member
    obtain ⟨q, old, equal⟩ := List.mem_map.mp inside
    rw [← equal]
    exact held.inside q old
  · have spans := List.pairwise_map.mpr held.apart
    rw [← same] at spans
    exact List.pairwise_map.mp spans

/-- A range of its own inside a live region becomes a record of which nothing is known. -/
theorem Held.carve (held : Held h records) {span : Span} (inside : h.Open span)
    (apart : ∀ q ∈ records, span.Apart q.span) : Held h (⟨span, []⟩ :: records) := by
  constructor
  · intro q member
    rcases List.mem_cons.mp member with rfl | old
    · exact inside
    · exact held.inside q old
  · exact List.pairwise_cons.mpr ⟨apart, held.apart⟩
  · intro q member
    rcases List.mem_cons.mp member with rfl | old
    · simp [Record.Holds]
    · exact held.holds q old

/-- Two parts of a record that lie apart, with what each of them holds. -/
theorem Held.split {left right : Record} (held : Held h (r :: records))
    (first : left.span.Within r.span) (second : right.span.Within r.span)
    (apart : left.span.Apart right.span) (holdsFirst : left.Holds h.bytes)
    (holdsSecond : right.Holds h.bytes) : Held h (left :: right :: records) := by
  have open_r := held.inside r (by simp)
  constructor
  · intro q member
    simp only [List.mem_cons] at member
    rcases member with rfl | rfl | old
    · exact Open.within open_r first
    · exact Open.within open_r second
    · exact held.inside q (by simp [old])
  · refine List.pairwise_cons.mpr ⟨fun q member => ?_, List.pairwise_cons.mpr
      ⟨fun q member => (held.head_apart member).within second, (List.pairwise_cons.mp held.apart).2⟩⟩
    rcases List.mem_cons.mp member with rfl | old
    · exact apart
    · exact (held.head_apart old).within first
  · intro q member
    simp only [List.mem_cons] at member
    rcases member with rfl | rfl | old
    · exact holdsFirst
    · exact holdsSecond
    · exact held.holds q (by simp [old])

theorem Held.answering (held : Held h records) (answers : List Answer) :
    Held { h with answers := answers } records :=
  ⟨held.inside, held.apart, held.holds⟩

theorem Held.called (held : Held h records) (handler data : Nat) :
    Held { h with log := .call handler data :: h.log } records :=
  ⟨held.inside, held.apart, held.holds⟩

/-- A fresh region is a record of which nothing is known. -/
theorem Held.took {size : Nat} {answer : Answer} (held : Held h records)
    (fresh : h.Fresh ⟨answer.base, size⟩) :
    Held (h.taken size answer) (⟨⟨answer.base, size⟩, []⟩ :: records) := by
  have away : ∀ q ∈ records, (Span.mk answer.base size).Apart q.span := by
    intro q member
    obtain ⟨region, live, inner⟩ := held.inside q member
    exact ((fresh.2.2.2.2 region live).symm.within inner).symm
  apply Held.carve
  · constructor
    · intro q member
      obtain ⟨region, live, inner⟩ := held.inside q member
      exact ⟨region, by simp [Heap.taken, live], inner⟩
    · exact held.apart
    · intro q member
      refine (held.holds q member).congr fun x here => Bytes.paste_outside ?_
      exact (away q member).symm.not_has here
  · exact ⟨_, by simp [Heap.taken], Span.Within.refl _⟩
  · exact away

/-- free keeps the records that are inside regions it leaves. -/
theorem Held.freed {p : Nat} (held : Held h records)
    (kept : ∀ q ∈ records, ∃ region ∈ h.live, region.start ≠ p ∧ q.span.Within region) :
    Held (h.freed p) records := by
  unfold Heap.freed
  split
  · exact held
  · constructor
    · intro q member
      obtain ⟨region, live, other, inner⟩ := kept q member
      exact ⟨region, by simp [live, other], inner⟩
    · exact held.apart
    · exact held.holds

end Records
