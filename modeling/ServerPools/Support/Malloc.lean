import ServerPools.Support.Bytes
import Mathlib.Data.List.Pairwise

/- A C heap: bytes, the regions malloc has given out and free has not taken back, and a
   record of every call. An access outside the live regions is undefined and gives none;
   a free of anything else than a live region is let through and stays in the record. -/
namespace Malloc

/-- What malloc would answer next. It counts as a failure unless it is a region malloc
    may give. contents is what the fresh bytes hold, by their offset. -/
structure Answer where
  base : Nat
  contents : Nat → UInt8

inductive Event where
  | malloc (region : Span)
  | free (p : Nat)
  | call (handler data : Nat)
  deriving DecidableEq, Repr

/-- log has the last event first. -/
structure Heap where
  bytes : Nat → UInt8
  live : List Span
  answers : List Answer
  log : List Event

def blank : Heap := ⟨fun _ => 0, [], [], []⟩

abbrev Code := StateT Heap Option

def Heap.Open (h : Heap) (a : Span) : Prop := ∃ r ∈ h.live, a.Within r

instance {h : Heap} {a : Span} : Decidable (h.Open a) :=
  inferInstanceAs (Decidable (∃ r ∈ h.live, a.Within r))

/-- 16-aligned, not null, not past the end of memory, apart from every live region. -/
def Heap.Fresh (h : Heap) (r : Span) : Prop :=
  16 ∣ r.start ∧ 0 < r.start ∧ 0 < r.length ∧ r.stop < 2 ^ 64 ∧ ∀ q ∈ h.live, r.Apart q

instance {h : Heap} {r : Span} : Decidable (h.Fresh r) :=
  inferInstanceAs (Decidable (_ ∧ _ ∧ _ ∧ _ ∧ ∀ q ∈ h.live, r.Apart q))

def Heap.write (h : Heap) (a w v : Nat) : Heap := { h with bytes := Bytes.store h.bytes a w v }

def Heap.fill (h : Heap) (a n : Nat) (byte : UInt8) : Heap :=
  { h with bytes := Bytes.fill h.bytes a n byte }

def Heap.taken (h : Heap) (size : Nat) (answer : Answer) : Heap :=
  { h with
    bytes := Bytes.paste h.bytes answer.base size answer.contents
    live := ⟨answer.base, size⟩ :: h.live
    log := .malloc ⟨answer.base, size⟩ :: h.log }

def Heap.mallocResult (h : Heap) (size : Nat) : Nat × Heap :=
  match h.answers with
  | [] => (0, h)
  | answer :: rest =>
    if h.Fresh ⟨answer.base, size⟩ then
      (answer.base, Heap.taken { h with answers := rest } size answer)
    else (0, { h with answers := rest })

def Heap.freed (h : Heap) (p : Nat) : Heap :=
  if p = 0 then h
  else { h with live := h.live.filter (fun r => r.start ≠ p), log := .free p :: h.log }

def load (w a : Nat) : Code Nat := fun h =>
  if h.Open ⟨a, w⟩ then some (Bytes.load h.bytes a w, h) else none

def store (w a v : Nat) : Code Unit := fun h =>
  if h.Open ⟨a, w⟩ then some ((), h.write a w v) else none

def memset (a : Nat) (byte : UInt8) (n : Nat) : Code Unit := fun h =>
  if h.Open ⟨a, n⟩ then some ((), h.fill a n byte) else none

def malloc (size : Nat) : Code Nat := fun h => some (h.mallocResult size)

def free (p : Nat) : Code Unit := fun h => some ((), h.freed p)

/-- A call through a function pointer, of a function that leaves this memory alone. -/
def call (handler data : Nat) : Code Unit := fun h =>
  some ((), { h with log := .call handler data :: h.log })

/-- Fuel has run out. -/
def stuck {α : Type} : Code α := fun _ => none

/-- The record replayed, first event last: what is live after it, or none where a free
    was of something that was not live. -/
def audit : List Event → Option (List Span)
  | [] => some []
  | .malloc r :: log => (audit log).map (r :: ·)
  | .free p :: log => (audit log).bind fun live =>
    if ∃ r ∈ live, r.start = p then some (live.filter (fun r => r.start ≠ p)) else none
  | .call _ _ :: log => audit log

def calls : List Event → List (Nat × Nat)
  | [] => []
  | .call handler data :: log => (handler, data) :: calls log
  | _ :: log => calls log

variable {h : Heap} {a p w v n size : Nat} {byte : UInt8}

theorem run_load (inside : h.Open ⟨a, w⟩) : (load w a).run h = some (Bytes.load h.bytes a w, h) :=
  if_pos inside

theorem run_store (inside : h.Open ⟨a, w⟩) : (store w a v).run h = some ((), h.write a w v) :=
  if_pos inside

theorem run_memset (inside : h.Open ⟨a, n⟩) :
    (memset a byte n).run h = some ((), h.fill a n byte) :=
  if_pos inside

@[simp] theorem run_malloc : (malloc size).run h = some (h.mallocResult size) := rfl

@[simp] theorem run_free : (free p).run h = some ((), h.freed p) := rfl

@[simp] theorem run_call {handler data : Nat} :
    (call handler data).run h = some ((), { h with log := .call handler data :: h.log }) := rfl

@[simp] theorem run_stuck {α : Type} : (stuck : Code α).run h = none := rfl

@[simp] theorem run_ite {α : Type} {c : Prop} [Decidable c] (x y : Code α) :
    (if c then x else y).run h = if c then x.run h else y.run h := by
  split <;> rfl

/-- Live regions lie apart, start where malloc may start them, and are what the record
    says; so every free so far was of a live region. -/
structure Heap.Sound (h : Heap) : Prop where
  apart : h.live.Pairwise Span.Apart
  aligned : ∀ r ∈ h.live, 16 ∣ r.start
  placed : ∀ r ∈ h.live, 0 < r.start ∧ 0 < r.length ∧ r.stop < 2 ^ 64
  audited : audit h.log = some h.live

theorem blank_sound : blank.Sound := ⟨.nil, by simp [blank], by simp [blank], rfl⟩

theorem Heap.Sound.answering (sound : h.Sound) (answers : List Answer) :
    Heap.Sound { h with answers := answers } :=
  ⟨sound.apart, sound.aligned, sound.placed, sound.audited⟩

theorem Heap.Sound.wrote (sound : h.Sound) (m : Nat → UInt8) : Heap.Sound { h with bytes := m } :=
  ⟨sound.apart, sound.aligned, sound.placed, sound.audited⟩

theorem Heap.Sound.called (sound : h.Sound) (handler data : Nat) :
    Heap.Sound { h with log := .call handler data :: h.log } :=
  ⟨sound.apart, sound.aligned, sound.placed, sound.audited⟩

theorem Heap.Sound.took (sound : h.Sound) {answer : Answer}
    (fresh : h.Fresh ⟨answer.base, size⟩) : (h.taken size answer).Sound := by
  obtain ⟨aligned, start, length, stop, apart⟩ := fresh
  constructor
  · exact List.Pairwise.cons apart sound.apart
  · intro r member
    rcases List.mem_cons.mp member with rfl | old
    · exact aligned
    · exact sound.aligned r old
  · intro r member
    rcases List.mem_cons.mp member with rfl | old
    · exact ⟨start, length, stop⟩
    · exact sound.placed r old
  · simp [taken, audit, sound.audited]

theorem Heap.Sound.freed (sound : h.Sound) (held : p ≠ 0 → ∃ r ∈ h.live, r.start = p) :
    (h.freed p).Sound := by
  by_cases null : p = 0
  · simpa [Heap.freed, null] using sound
  · have here := held null
    simp only [Heap.freed, if_neg null]
    constructor
    · exact sound.apart.filter _
    · exact fun r member => sound.aligned r (List.mem_filter.mp member).1
    · exact fun r member => sound.placed r (List.mem_filter.mp member).1
    · simp only [audit, sound.audited, Option.bind_some, if_pos here]

/-- malloc returns null and changes nothing but the answers left, or a fresh region. -/
theorem malloc_cases (h : Heap) (size : Nat) :
    (∃ rest, h.mallocResult size = (0, { h with answers := rest })) ∨
    ∃ answer rest, h.Fresh ⟨answer.base, size⟩ ∧
      h.mallocResult size = (answer.base, Heap.taken { h with answers := rest } size answer) := by
  unfold Heap.mallocResult
  split
  · rename_i empty
    exact Or.inl ⟨[], by rw [← empty]⟩
  · rename_i answer rest _
    by_cases fresh : h.Fresh ⟨answer.base, size⟩
    · exact Or.inr ⟨answer, rest, fresh, if_pos fresh⟩
    · exact Or.inl ⟨rest, if_neg fresh⟩

/-- Of the regions beside one that is live, none starts where it starts. -/
theorem Heap.Sound.other_start (sound : h.Sound) {r q : Span} {rest : List Span}
    (live : h.live.Perm (r :: rest)) (member : q ∈ rest) : q.start ≠ r.start := by
  intro same
  have apart := (List.pairwise_cons.mp ((Span.apart_pairwise live).mp sound.apart)).1 q member
  have full := (sound.placed r (live.mem_iff.mpr (by simp))).2.1
  have fuller := (sound.placed q (live.mem_iff.mpr (by simp [member]))).2.1
  simp only [Span.Apart, Span.stop] at apart
  omega

theorem Heap.Sound.freed_perm (sound : h.Sound) {r : Span} {rest : List Span}
    (live : h.live.Perm (r :: rest)) : (h.freed r.start).live.Perm rest := by
  have positive := (sound.placed r (live.mem_iff.mpr (by simp))).1
  have nonzero : r.start ≠ 0 := by omega
  have others : rest.filter (fun q => q.start ≠ r.start) = rest :=
    List.filter_eq_self.mpr fun q member => decide_eq_true (sound.other_start live member)
  have kept := live.filter fun q => decide (q.start ≠ r.start)
  rw [List.filter_cons_of_neg (by simp), others] at kept
  rw [Heap.freed, if_neg nonzero]
  exact kept

/-- What was live before has not changed, and all that malloc gave out since is gone again. -/
structure Heap.Untouched (h k : Heap) : Prop where
  live : k.live = h.live
  bytes : ∀ r ∈ h.live, ∀ x, r.Has x → k.bytes x = h.bytes x
  returned : ∃ events, k.log = events ++ h.log ∧ ∀ r, .malloc r ∈ events → .free r.start ∈ events

theorem Heap.untouched_answering (h : Heap) (answers : List Answer) :
    h.Untouched { h with answers := answers } :=
  ⟨rfl, fun _ _ _ _ => rfl, [], rfl, by simp⟩

theorem Heap.Untouched.of_answering {k : Heap} {answers : List Answer}
    (untouched : Heap.Untouched { h with answers := answers } k) : h.Untouched k :=
  ⟨untouched.live, untouched.bytes, untouched.returned⟩

/-- A region is taken and given back with nothing done in between. -/
theorem Heap.Untouched.took_freed {k : Heap} {answer : Answer} (sound : h.Sound)
    (fresh : h.Fresh ⟨answer.base, size⟩) (untouched : (h.taken size answer).Untouched k) :
    h.Untouched (k.freed answer.base) := by
  obtain ⟨_, positive, full, _, apart⟩ := fresh
  have nonzero : answer.base ≠ 0 := Nat.ne_of_gt positive
  rw [Heap.freed, if_neg nonzero]
  constructor
  · have others : ∀ r ∈ h.live, decide (r.start ≠ answer.base) = true := by
      intro r member
      have away := apart r member
      have filled := (sound.placed r member).2.1
      simp only [Span.Apart, Span.stop] at away full
      apply decide_eq_true
      omega
    simp only [untouched.live, Heap.taken]
    rw [List.filter_cons_of_neg (by simp), List.filter_eq_self.mpr others]
  · intro r member x inside
    have away := (apart r member).symm.not_has inside
    exact (untouched.bytes r (List.mem_cons_of_mem _ member) x inside).trans
      (Bytes.paste_outside away)
  · obtain ⟨events, log, returned⟩ := untouched.returned
    refine ⟨.free answer.base :: (events ++ [.malloc ⟨answer.base, size⟩]), ?_, ?_⟩
    · simp [log, Heap.taken]
    · intro r member
      simp only [List.mem_cons, List.mem_append, List.not_mem_nil, or_false, reduceCtorEq,
        false_or] at member ⊢
      rcases member with earlier | own
      · exact Or.inr (returned r earlier)
      · cases own
        exact Or.inl rfl

/-- What the record says was given out is live or was freed since. -/
theorem audit_accounts {events log : List Event} {live : List Span} {r : Span}
    (audited : audit (events ++ log) = some live) (given : .malloc r ∈ events) :
    r ∈ live ∨ .free r.start ∈ events := by
  induction events generalizing live with
  | nil => simp at given
  | cons e rest ih =>
    cases e with
    | malloc q =>
      obtain ⟨earlier, before, rfl⟩ := Option.map_eq_some_iff.mp audited
      rcases List.mem_cons.mp given with same | old
      · cases same
        exact Or.inl List.mem_cons_self
      · rcases ih before old with kept | gone
        · exact Or.inl (List.mem_cons_of_mem _ kept)
        · exact Or.inr (List.mem_cons_of_mem _ gone)
    | free p =>
      obtain ⟨earlier, before, after⟩ := Option.bind_eq_some_iff.mp audited
      have old : Event.malloc r ∈ rest := by simpa using given
      split at after
      · cases after
        rcases ih before old with kept | gone
        · by_cases same : r.start = p
          · exact Or.inr (by simp [same])
          · exact Or.inl (List.mem_filter.mpr ⟨kept, decide_eq_true same⟩)
        · exact Or.inr (List.mem_cons_of_mem _ gone)
      · contradiction
    | call handler data =>
      have old : Event.malloc r ∈ rest := by simpa using given
      rcases ih audited old with kept | gone
      · exact Or.inl kept
      · exact Or.inr (List.mem_cons_of_mem _ gone)

/-- A program that only adds to the record, as all of them do. -/
def Appends {α : Type} (c : Code α) : Prop :=
  ∀ (h k : Heap) (a : α), c.run h = some (a, k) → h.log <:+ k.log

section Appends
variable {α β : Type} {c : Code α}

theorem appends_pure (a : α) : Appends (pure a) := by
  intro h k b ran
  cases ran
  exact List.suffix_rfl

theorem appends_bind {f : α → Code β} (first : Appends c) (second : ∀ a, Appends (f a)) :
    Appends (c >>= f) := by
  intro h k b ran
  rw [StateT.run_bind] at ran
  obtain ⟨r, one, two⟩ := Option.bind_eq_some_iff.mp ran
  exact (first h r.2 r.1 one).trans (second r.1 r.2 k b two)

theorem appends_ite {p : Prop} [Decidable p] {d : Code α} (yes : Appends c) (no : Appends d) :
    Appends (if p then c else d) := by
  split
  · exact yes
  · exact no

theorem appends_stuck : Appends (stuck : Code α) := by
  intro h k a ran
  contradiction

theorem appends_load : Appends (load w a) := by
  intro h k b ran
  simp only [load, StateT.run, Option.ite_none_right_eq_some] at ran
  cases ran.2
  exact List.suffix_rfl

theorem appends_store : Appends (store w a v) := by
  intro h k b ran
  simp only [store, StateT.run, Option.ite_none_right_eq_some] at ran
  cases ran.2
  exact List.suffix_rfl

theorem appends_malloc : Appends (malloc size) := by
  intro h k b ran
  have result : h.mallocResult size = (b, k) := Option.some.inj ran
  rcases malloc_cases h size with ⟨rest, null⟩ | ⟨answer, rest, _, given⟩
  · obtain ⟨rfl, rfl⟩ := Prod.mk.inj (result.symm.trans null)
    exact List.suffix_rfl
  · obtain ⟨rfl, rfl⟩ := Prod.mk.inj (result.symm.trans given)
    exact List.suffix_cons _ _

theorem appends_free : Appends (free p) := by
  intro h k b ran
  cases ran
  unfold Heap.freed
  split
  · exact List.suffix_rfl
  · exact List.suffix_cons _ _

end Appends

end Malloc
