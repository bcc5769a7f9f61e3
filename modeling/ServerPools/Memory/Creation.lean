import ServerPools.Memory.Blocks

/- ngx_create_pool, and how to forget or to note what handed out regions hold. -/
namespace NgxMemPool
open Malloc Records Linked

variable {s : Shape} {h : Heap} {p size : Nat} {others : List Answer}

/-- The pool that ngx_create_pool makes of a region. -/
def newShape (p size : Nat) : Shape := ⟨p, size, [⟨p, p + sizeofPool, 0⟩], p, [], [], 0, [], []⟩

theorem newShape_proper (enough : 96 ≤ size) (multiple : 8 ∣ size) : Proper (newShape p size) := by
  refine ⟨enough, multiple, rfl, ⟨_, List.mem_cons_self, rfl⟩, ?_, by simp [newShape, Shape.inner]⟩
  intro b member
  obtain rfl := List.mem_singleton.mp member
  have floor : (newShape p size).floor ⟨p, p + sizeofPool, 0⟩ = p + sizeofPool := by
    simp [Shape.floor, newShape]
  rw [floor]
  refine ⟨Nat.le_refl _, ?_, by simp⟩
  simp only [newShape, sizeofPool]
  omega

theorem ngxCreatePool_fails (null : h.mallocResult size = (0, { h with answers := others })) :
    (ngxCreatePool size).run h = some (0, { h with answers := others }) := by
  simp only [ngxCreatePool, StateT.run_bind, run_malloc, null, Option.bind_eq_bind,
    Option.bind_some, run_ite, if_pos, StateT.run_pure, Option.pure_def]

/-- The region as ngx_create_pool fills it. -/
def created (p size : Nat) : Record :=
  ⟨⟨p, size⟩, [⟨56, 8, 0⟩, ⟨48, 8, 0⟩, ⟨40, 8, p⟩, ⟨32, 8, poolMax (size - sizeofPool)⟩,
    ⟨24, 4, 0⟩, ⟨16, 8, 0⟩, ⟨8, 8, p + size⟩, ⟨0, 8, p + sizeofPool⟩]⟩

/-- The header and the rest of ngx_pool_s lie apart in it. -/
theorem created_parts (held : Held h [created p size]) (enough : 96 ≤ size) :
    Held h (newShape p size).records := by
  have known := held.holds _ List.mem_cons_self
  have parts : Held h [(Block.mk p (p + sizeofPool) 0).record size 0, (newShape p size).front] := by
    apply held.split
    · simp only [Span.Within, Block.record, created, Span.stop, sizeofPoolData]
      omega
    · simp only [Span.Within, Shape.front, newShape, created, Span.stop]
      omega
    · exact Or.inl (by simp [Block.record, Shape.front, newShape, Span.stop, sizeofPoolData])
    · intro f member
      simp only [Block.record, List.mem_cons, List.not_mem_nil, or_false] at member
      rcases member with rfl | rfl | rfl | rfl
      · exact ⟨by simp [Block.record, sizeofPoolData], (known ⟨0, 8, p + sizeofPool⟩ (by simp [created])).2⟩
      · exact ⟨by simp [Block.record, sizeofPoolData], (known ⟨8, 8, p + size⟩ (by simp [created])).2⟩
      · exact ⟨by simp [Block.record, sizeofPoolData], (known ⟨16, 8, 0⟩ (by simp [created])).2⟩
      · exact ⟨by simp [Block.record, sizeofPoolData], (known ⟨24, 4, 0⟩ (by simp [created])).2⟩
    · intro f member
      simp only [Shape.front, newShape, headOr_nil, List.mem_cons, List.not_mem_nil, or_false] at member
      rcases member with rfl | rfl | rfl | rfl
      · exact ⟨by simp [Shape.front], (known ⟨32, 8, poolMax (size - sizeofPool)⟩ (by simp [created])).2⟩
      · exact ⟨by simp [Shape.front], (known ⟨40, 8, p⟩ (by simp [created])).2⟩
      · exact ⟨by simp [Shape.front], (known ⟨48, 8, 0⟩ (by simp [created])).2⟩
      · exact ⟨by simp [Shape.front], (known ⟨56, 8, 0⟩ (by simp [created])).2⟩
  exact parts

/-- The eight stores of ngx_create_pool. -/
theorem fillPool_run (held : Held h [⟨⟨p, size⟩, []⟩]) (enough : 96 ≤ size)
    (small : p + size < 2 ^ 64) :
    ∃ bytes, (fillPool p size).run h = some ((), { h with bytes := bytes }) ∧
      Held { h with bytes := bytes } [created p size] := by
  have max : poolMax (size - sizeofPool) < 2 ^ 64 := by
    have below := poolMax_le (size - sizeofPool)
    omega
  have inside : ∀ o, o ≤ 64 → o ≤ (Span.mk p size).length := fun o low => by
    simp only
    omega
  obtain ⟨r₁, h₁⟩ := held.add_field (o := 0) (w := 8) (v := p + sizeofPool)
    (inside _ (by omega)) (Nat.mod_eq_of_lt (by simp only [sizeofPool]; omega)) (by simp)
  obtain ⟨r₂, h₂⟩ := h₁.add_field (o := 8) (w := 8) (v := p + size)
    (inside _ (by omega)) (Nat.mod_eq_of_lt (by omega)) (by simp)
  obtain ⟨r₃, h₃⟩ := h₂.add_field (o := 16) (w := 8) (v := 0) (inside _ (by omega)) rfl (by simp)
  obtain ⟨r₄, h₄⟩ := h₃.add_field (o := 24) (w := 4) (v := 0) (inside _ (by omega)) rfl (by simp)
  obtain ⟨r₅, h₅⟩ := h₄.add_field (o := 32) (w := 8) (v := poolMax (size - sizeofPool))
    (inside _ (by omega)) (Nat.mod_eq_of_lt (by omega)) (by simp)
  obtain ⟨r₆, h₆⟩ := h₅.add_field (o := 40) (w := 8) (v := p)
    (inside _ (by omega)) (Nat.mod_eq_of_lt (by omega)) (by simp)
  obtain ⟨r₇, h₇⟩ := h₆.add_field (o := 48) (w := 8) (v := 0) (inside _ (by omega)) rfl (by simp)
  obtain ⟨r₈, h₈⟩ := h₇.add_field (o := 56) (w := 8) (v := 0) (inside _ (by omega)) rfl (by simp)
  have rest : sizeMinus size sizeofPool = size - sizeofPool := by
    apply sizeMinus_value
    · simp only [sizeofPool]
      omega
    · omega
  refine ⟨_, ?_, h₈⟩
  simp only [fillPool, StateT.run_bind, Option.bind_eq_bind, rest]
  rw [show (store 8 (lastAt p) _).run _ = _ from r₁, Option.bind_some]
  rw [show (store 8 (endAt p) _).run _ = _ from r₂, Option.bind_some]
  rw [show (store 8 (nextAt p) _).run _ = _ from r₃, Option.bind_some]
  rw [show (store 4 (failedAt p) _).run _ = _ from r₄, Option.bind_some]
  rw [show (store 8 (maxAt p) _).run _ = _ from r₅, Option.bind_some]
  rw [show (store 8 (currentAt p) _).run _ = _ from r₆, Option.bind_some]
  rw [show (store 8 (largeAt p) _).run _ = _ from r₇, Option.bind_some]
  exact r₈

/-- Whatever the size, the header and the rest of ngx_pool_s are what they should be. -/
theorem ngxCreatePool_fills (enough : 96 ≤ size) {answer : Answer}
    (fresh : h.Fresh ⟨answer.base, size⟩)
    (given : h.mallocResult size =
      (answer.base, Heap.taken { h with answers := others } size answer)) :
    ∃ bytes, (ngxCreatePool size).run h = some (answer.base,
        { Heap.taken { h with answers := others } size answer with bytes := bytes }) ∧
      Held { Heap.taken { h with answers := others } size answer with bytes := bytes }
        (newShape answer.base size).records := by
  obtain ⟨_, positive, _, top, _⟩ := id fresh
  simp only [Span.stop] at positive top
  have nonzero : answer.base ≠ 0 := by omega
  have taken := (held_nil (h := { h with answers := others })).took fresh
  obtain ⟨bytes, ran, held⟩ := fillPool_run taken enough top
  refine ⟨bytes, ?_, created_parts held enough⟩
  simp only [ngxCreatePool, StateT.run_bind, run_malloc, given, Option.bind_eq_bind,
    Option.bind_some, run_ite, if_neg nonzero, ran, StateT.run_pure, Option.pure_def]

theorem ngxCreatePool_makes (none : h.live = []) (sound : h.Sound) (enough : 96 ≤ size)
    (multiple : 8 ∣ size) {answer : Answer} (fresh : h.Fresh ⟨answer.base, size⟩)
    (given : h.mallocResult size =
      (answer.base, Heap.taken { h with answers := others } size answer)) :
    ∃ k, (ngxCreatePool size).run h = some (answer.base, k) ∧ Fits (newShape answer.base size) k := by
  obtain ⟨bytes, ran, held⟩ := ngxCreatePool_fills enough fresh given
  have live : (Heap.taken { h with answers := others } size answer).live = [⟨answer.base, size⟩] := by
    simp [Heap.taken, none]
  exact ⟨_, ran, newShape_proper enough multiple, ((sound.answering others).took fresh).wrote bytes,
    List.Perm.of_eq live, held⟩

end NgxMemPool
