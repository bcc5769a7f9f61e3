import ServerPools.Support.FirstFit
import ServerPools.Memory.Separation

/- The same small requests again after a reset. ngx_reset_pool rewinds every block to behind
   an ngx_pool_s, though only the first block has one; the blocks that ngx_palloc_block made
   had served from behind their ngx_pool_data_t. -/
namespace NgxMemPool
open Malloc Records Linked Fuel Machine

variable {s t u : State} {shape after : Shape} {h k : Heap} {b c : Block} {pre post : List Block}
  {m n size : Nat} {align : Bool}

/-- A request to ngx_palloc, where align is set, or else to ngx_pnalloc. -/
structure Ask where
  align : Bool
  size : Nat
  deriving DecidableEq, Repr

structure Call where
  ask : Ask
  fuel : Nat
  answers : List Answer

def Call.action (c : Call) : Action :=
  if c.ask.align then .ngxPalloc c.fuel c.ask.size c.answers
  else .ngxPnalloc c.fuel c.ask.size c.answers

/-- The calls in their order, as long as each gets a region. -/
def serve : State → List Call → Option State
  | s, [] => some s
  | s, c :: rest => (step s c.action).bind fun t =>
    if t.leases.length = s.leases.length + 1 then serve t rest else none

/-- The running pool that ngx_create_pool has just made. -/
structure Created (size : Nat) (s : State) : Prop where
  running : s.phase = .running
  made : ∃ q answers, Reach step WellSized initial q ∧ step q (.ngxCreatePool size answers) = some s

/-- Whatever malloc would answer, the requests are served and malloc is not called: the log
    has nothing new, and a call that failed would have left a request unserved. -/
def Recycles (s : State) (asks : List Ask) : Prop :=
  ∃ bound, ∀ calls, calls.map Call.ask = asks → (∀ c ∈ calls, bound ≤ c.fuel) →
    ∃ t, serve s calls = some t ∧ t.heap.log = s.heap.log

/-- Where a request starts in a bin of which so much is used. -/
def Ask.start (q : Ask) (used : Nat) : Nat := if q.align then (used + 7) / 8 * 8 else used

def Ask.fit (capacity : Nat) (q : Ask) (used : Nat) : Option Nat :=
  if q.start used + q.size ≤ capacity then some (q.start used + q.size) else none

/-- First fit packs the requests into n bins. -/
def Packs (capacity n : Nat) (asks : List Ask) : Prop :=
  (FirstFit.pack (Ask.fit capacity) asks (List.replicate n 0)).isSome

instance {capacity n : Nat} {asks : List Ask} : Decidable (Packs capacity n asks) :=
  inferInstanceAs (Decidable (_ = true))

/-- What is used of a block behind the part that a reset keeps. -/
def Block.filled (b : Block) : Nat := b.last - (b.base + sizeofPool)

/-- The blocks are searched from the first on. -/
structure Level (shape : Shape) : Prop where
  current : shape.current = shape.pool
  low : ∀ b ∈ shape.blocks, b.base + sizeofPool ≤ b.last

theorem Level.room_start (level : Level shape) (fits : Fits shape h) (here : b ∈ shape.blocks)
    (q : Ask) : room q.align b.last = b.base + sizeofPool + q.start b.filled := by
  have low := level.low b here
  have last := (fits.bumped b here).2.1
  obtain ⟨aligned, _, small⟩ := fits.block_place here
  have multiple := fits.multiple
  simp only [Ask.start, Block.filled, sizeofPool] at low ⊢
  cases q.align with
  | false =>
    simp only [room, Bool.false_eq_true, if_false]
    omega
  | true =>
    have value : room true b.last = (b.last + 7) / 8 * 8 := by
      rw [room, if_pos rfl]
      exact ngxAlignPtr_value (by omega)
    rw [value, if_pos rfl]
    omega

theorem Level.takes (level : Level shape) (fits : Fits shape h) (here : b ∈ shape.blocks) {q : Ask}
    (enough : shape.HasRoom q.size q.align b) : q.fit (shape.size - sizeofPool) b.filled =
      some { b with last := room q.align b.last + q.size }.filled := by
  have start := level.room_start fits here q
  have inside : q.start b.filled + q.size ≤ shape.size - sizeofPool := by
    simp only [Shape.HasRoom] at enough
    omega
  rw [Ask.fit, if_pos inside, start]
  simp only [Block.filled, Option.some.injEq]
  omega

theorem Level.refuses (level : Level shape) (fits : Fits shape h) (here : b ∈ shape.blocks)
    {q : Ask} (full : ¬shape.HasRoom q.size q.align b) :
    q.fit (shape.size - sizeofPool) b.filled = none := by
  have start := level.room_start fits here q
  have size := fits.enough
  apply if_neg
  simp only [Shape.HasRoom, sizeofPool] at full start ⊢
  omega

/-- The state after a request that returned p. -/
def State.receive (s : State) (align : Bool) (size p : Nat) (h : Heap) : State :=
  if align then s.handOutAligned size p h else s.handOut size p h

theorem step_call (running : s.phase = .running) (c : Call) : step s c.action =
    ((pallocWith c.ask.align s.pool c.fuel c.ask.size).run (s.answering c.answers)).map fun r =>
      s.receive c.ask.align c.ask.size r.1 r.2 := by
  obtain ⟨⟨align, size⟩, fuel, answers⟩ := c
  rw [step_running running]
  cases align <;> rfl

theorem receive_fields (s : State) (align : Bool) (size p : Nat) (h : Heap) :
    (s.receive align size p h).heap = h ∧ (s.receive align size p h).phase = s.phase ∧
      (s.receive align size p h).leases = s.lend p size := by
  cases align <;> exact ⟨rfl, rfl, rfl⟩

theorem Represents.receive (held : Represents s shape) (fits : Fits after k)
    (served : (m = 0 ∧ after = shape) ∨ Served shape n align m after) :
    Represents (s.receive align n m k) after := by
  cases align with
  | false => exact held.handOut fits served
  | true => exact held.handOutAligned fits served

theorem Level.first (level : Level shape) (fits : Fits shape h) :
    ∃ b post, shape.blocks = [] ++ b :: post ∧ b.base = shape.current := by
  have start := fits.start
  obtain ⟨c, member, _⟩ := fits.first_block
  rw [level.current]
  cases blocks : shape.blocks with
  | nil => simp [blocks] at member
  | cons b post =>
    rw [blocks] at start
    exact ⟨b, post, rfl, start⟩

theorem Level.carve (level : Level shape) (fits : Fits shape h)
    (split : shape.blocks = pre ++ b :: post) (align : Bool) (n : Nat) :
    Level (shape.carve pre b post (room align b.last) n) := by
  have here : b ∈ shape.blocks := by simp [split]
  have up := (fits.room_bounds here align).1
  refine ⟨level.current, fun d member => ?_⟩
  rcases setBlock_mem split member with rfl | old
  · have low := level.low b here
    simp only
    omega
  · exact level.low d old

/-- A carved request, as first fit sees it. -/
structure Placed (shape : Shape) (q : Ask) (m : Nat) (after : Shape) : Prop where
  move : SmallMove shape q.size q.align m after
  given : m ≠ 0
  level : Level after
  bins : FirstFit.place (Ask.fit (shape.size - sizeofPool)) q (shape.blocks.map Block.filled) =
    some (after.blocks.map Block.filled)
  size : after.size = shape.size
  count : after.blocks.length = shape.blocks.length

theorem Level.placed (level : Level shape) (fits : Fits shape h) (q : Ask)
    {full behind : List Block} (split : shape.blocks = full ++ c :: behind)
    (start : headOr Block.base 0 (full ++ c :: behind) = shape.current)
    (refuse : ∀ d ∈ full, ¬shape.HasRoom q.size q.align d) (enough : shape.HasRoom q.size q.align c) :
    Placed shape q (room q.align c.last)
      (shape.carve full c behind (room q.align c.last) q.size) := by
  have here : c ∈ shape.blocks := by simp [split]
  constructor
  · have whole : shape.blocks = [] ++ (full ++ c :: behind) := split
    exact SmallMove.carved whole start refuse enough
  · have up := (fits.room_bounds here q.align).1
    have low := level.low c here
    simp only [sizeofPool] at low
    omega
  · exact level.carve fits split q.align q.size
  · have blocks : (shape.carve full c behind (room q.align c.last) q.size).blocks.map Block.filled =
        full.map Block.filled ++ { c with last := room q.align c.last + q.size }.filled ::
          behind.map Block.filled := by
      simp [Shape.carve, Shape.lend, Shape.setBlock]
    rw [blocks, split, List.map_append, List.map_cons]
    apply FirstFit.place_first
    · intro used member
      obtain ⟨d, inside, rfl⟩ := List.mem_map.mp member
      exact level.refuses fits (by simp [split, inside]) (refuse d inside)
    · exact level.takes fits here enough
  · rfl
  · simp [Shape.carve, Shape.lend, Shape.setBlock, split]

/-- ngx_palloc_small places a request as first fit does, and malloc is called where it is
    not placed. -/
theorem Level.search (level : Level shape) (fits : Fits shape h) (q : Ask) :
    (∃ m after k, Settles (fun fuel => (ngxPallocSmall shape.pool fuel q.size q.align).run h)
        shape.blocks.length (m, k) ∧
      Placed shape q m after ∧ Fits after k ∧ k.log = h.log) ∨
    FirstFit.place (Ask.fit (shape.size - sizeofPool)) q (shape.blocks.map Block.filled) = none ∧
      (h.answers = [] → Settles (fun fuel =>
        (ngxPallocSmall shape.pool fuel q.size q.align).run h) shape.blocks.length (0, h)) := by
  obtain ⟨b, post, split, base⟩ := level.first fits
  have start : ∀ fuel, (ngxPallocSmall shape.pool fuel q.size q.align).run h = _ :=
    run_ngxPallocSmall fits base
  have length : shape.blocks.length = post.length + 1 := by rw [split]; rfl
  rw [length]
  rcases scanBlocks_settles fits split q.size q.align with
    ⟨full, c, behind, found, refuse, enough, scan, after⟩ | ⟨refuse, scan⟩
  · have whole : shape.blocks = full ++ c :: behind := split.trans found
    refine Or.inl ⟨_, _, _, ((scan.bind (settles_of_eq fun fuel => ?_)).congr start).widen
      (by omega), level.placed fits q whole (by rw [← found]; exact base) refuse enough, after, rfl⟩
    rfl
  · refine Or.inr ⟨?_, fun poor => ?_⟩
    · apply FirstFit.place_none
      intro used member
      obtain ⟨d, inside, rfl⟩ := List.mem_map.mp member
      exact level.refuses fits inside (refuse d (by rwa [split] at inside))
    · have null : h.mallocResult shape.size = (0, { h with answers := h.answers }) := by
        simp only [Heap.mallocResult, poor]
      exact ((scan.bind (settles_of_eq fun fuel =>
        ngxPallocBlock_fails fits null fuel)).congr start).widen (by omega)

structure Ready (s : State) (shape : Shape) : Prop where
  running : s.phase = .running
  held : Represents s shape
  level : Level shape

theorem Ready.call (ready : Ready s shape) (c : Call)
    (small : c.ask.size ≤ poolMax (shape.size - sizeofPool)) (enough : shape.blocks.length ≤ c.fuel) :
    (∃ m t after, step s c.action = some t ∧ t.leases.length = s.leases.length + 1 ∧
      t.heap.log = s.heap.log ∧ Ready t after ∧ Placed shape c.ask m after) ∨
    FirstFit.place (Ask.fit (shape.size - sizeofPool)) c.ask (shape.blocks.map Block.filled) = none ∧
      (c.answers = [] → ∃ t, step s c.action = some t ∧ t.leases = s.leases) := by
  have fits := ready.held.answering c.answers
  have run : ∀ m k, (ngxPallocSmall shape.pool c.fuel c.ask.size c.ask.align).run
      (s.answering c.answers) = some (m, k) →
      step s c.action = some (s.receive c.ask.align c.ask.size m k) := by
    intro m k ran
    rw [step_call ready.running, ← ready.held.pool, run_pallocWith_small fits small, ran]
    rfl
  rcases ready.level.search fits c.ask with
    ⟨m, after, k, settles, placed, fitted, log⟩ | ⟨refused, poor⟩
  · have served := placed.move.served fits small
    obtain ⟨heap, phase, leases⟩ := receive_fields s c.ask.align c.ask.size m k
    refine Or.inl ⟨m, _, after, run m k (settles.enough c.fuel enough), ?_, ?_, ?_, placed⟩
    · rw [leases, State.lend, if_neg placed.given, List.length_cons]
    · rw [heap, log]
      rfl
    · exact ⟨phase.trans ready.running, ready.held.receive fitted served, placed.level⟩
  · refine Or.inr ⟨refused, fun none => ⟨_, run 0 _ ((poor none).enough c.fuel enough), ?_⟩⟩
    exact (receive_fields _ _ _ _ _).2.2

variable {calls : List Call} {asks : List Ask}

/-- What first fit packs is served from the blocks that are there. -/
theorem Ready.serves (ready : Ready s shape)
    (small : ∀ c ∈ calls, c.ask.size ≤ poolMax (shape.size - sizeofPool))
    (enough : ∀ c ∈ calls, shape.blocks.length ≤ c.fuel)
    (packs : (FirstFit.pack (Ask.fit (shape.size - sizeofPool)) (calls.map Call.ask)
      (shape.blocks.map Block.filled)).isSome) :
    ∃ t, serve s calls = some t ∧ t.heap.log = s.heap.log := by
  induction calls generalizing s shape with
  | nil => exact ⟨s, rfl, rfl⟩
  | cons c rest ih =>
    have here := List.mem_cons_self (a := c) (l := rest)
    rw [List.map_cons, FirstFit.pack] at packs
    rcases ready.call c (small c here) (enough c here) with
      ⟨m, t, after, taken, leases, log, again, placed⟩ | ⟨refused, _⟩
    · rw [placed.bins, Option.bind_some, ← placed.size] at packs
      obtain ⟨u, later, same⟩ := ih again
        (fun d member => placed.size ▸ small d (List.mem_cons_of_mem c member))
        (fun d member => placed.count ▸ enough d (List.mem_cons_of_mem c member)) packs
      refine ⟨u, ?_, same.trans log⟩
      rw [serve, taken, Option.bind_some, if_pos leases]
      exact later
    · simp [refused] at packs

/-- Without malloc nothing else is served. -/
theorem Ready.packs (ready : Ready s shape)
    (small : ∀ c ∈ calls, c.ask.size ≤ poolMax (shape.size - sizeofPool))
    (enough : ∀ c ∈ calls, shape.blocks.length ≤ c.fuel) (poor : ∀ c ∈ calls, c.answers = [])
    (served : serve s calls = some t) :
    (FirstFit.pack (Ask.fit (shape.size - sizeofPool)) (calls.map Call.ask)
      (shape.blocks.map Block.filled)).isSome := by
  induction calls generalizing s shape with
  | nil => rfl
  | cons c rest ih =>
    have here := List.mem_cons_self (a := c) (l := rest)
    rw [List.map_cons, FirstFit.pack]
    rcases ready.call c (small c here) (enough c here) with
      ⟨m, u, after, taken, leases, _, again, placed⟩ | ⟨refused, fails⟩
    · rw [serve, taken, Option.bind_some, if_pos leases] at served
      have later := ih again
        (fun d member => placed.size ▸ small d (List.mem_cons_of_mem c member))
        (fun d member => placed.count ▸ enough d (List.mem_cons_of_mem c member))
        (fun d member => poor d (List.mem_cons_of_mem c member)) served
      rw [placed.bins, Option.bind_some, ← placed.size]
      exact later
    · obtain ⟨u, taken, leases⟩ := fails (poor c here)
      simp [serve, taken, leases] at served

theorem Ready.recycles_iff (ready : Ready s shape)
    (small : ∀ q ∈ asks, q.size ≤ poolMax (shape.size - sizeofPool)) :
    Recycles s asks ↔ (FirstFit.pack (Ask.fit (shape.size - sizeofPool)) asks
      (shape.blocks.map Block.filled)).isSome := by
  have sizes : ∀ calls : List Call, calls.map Call.ask = asks →
      ∀ c ∈ calls, c.ask.size ≤ poolMax (shape.size - sizeofPool) := by
    rintro calls rfl c member
    exact small c.ask (List.mem_map_of_mem member)
  constructor
  · rintro ⟨bound, served⟩
    -- enough fuel for both, and malloc always fails
    have same : (asks.map fun q => Call.mk q (max bound shape.blocks.length) []).map Call.ask =
        asks := by
      simp [List.map_map, Function.comp_def]
    have each : ∀ c ∈ asks.map fun q => Call.mk q (max bound shape.blocks.length) [],
        c.fuel = max bound shape.blocks.length ∧ c.answers = [] := by
      intro c member
      obtain ⟨q, _, rfl⟩ := List.mem_map.mp member
      exact ⟨rfl, rfl⟩
    obtain ⟨t, ran, _⟩ := served _ same fun c member => by
      rw [(each c member).1]
      exact Nat.le_max_left _ _
    rw [← same]
    refine ready.packs (sizes _ same) (fun c member => ?_) (fun c member => (each c member).2) ran
    rw [(each c member).1]
    exact Nat.le_max_right _ _
  · intro packs
    refine ⟨shape.blocks.length, fun calls same enough => ?_⟩
    rw [← same] at packs
    exact ready.serves (sizes calls same) enough packs

theorem Represents.call (held : Represents s shape) (running : s.phase = .running) {c : Call}
    (taken : step s c.action = some t) :
    t.phase = .running ∧ ∃ after, Represents t after ∧ after.size = shape.size := by
  rw [step_call running] at taken
  obtain ⟨r, ran, rfl⟩ := Option.map_eq_some_iff.mp taken
  obtain ⟨_, m, after, k, settles, move, fits, _⟩ :=
    pallocWith_settles (held.answering c.answers) c.ask.size c.ask.align
  rw [held.pool] at settles
  obtain rfl := settles.only c.fuel r ran
  have served := move.served held.fits
  refine ⟨(receive_fields s _ _ _ _).2.1.trans running, after, held.receive fits served, ?_⟩
  rcases served with ⟨_, rfl⟩ | served
  · rfl
  · exact served.frame.size

theorem Represents.serve (held : Represents s shape) (running : s.phase = .running)
    (served : serve s calls = some t) :
    t.phase = .running ∧ ∃ after, Represents t after ∧ after.size = shape.size := by
  induction calls generalizing s shape with
  | nil =>
    obtain rfl := Option.some.inj served
    exact ⟨running, shape, held, rfl⟩
  | cons c rest ih =>
    obtain ⟨u, taken, later⟩ := Option.bind_eq_some_iff.mp served
    obtain ⟨still, mid, represents, size⟩ := held.call running taken
    split at later
    · obtain ⟨ended, after, represents, same⟩ := ih represents still later
      exact ⟨ended, after, represents, same.trans size⟩
    · contradiction

theorem Created.represents (created : Created size s) (enough : ngxMinPoolSize ≤ size)
    (multiple : ngxAlignment ∣ size) : ∃ shape, Represents s shape ∧ shape.size = size := by
  obtain ⟨q, answers, reached, taken⟩ := created.made
  cases standing_of_reach reached with
  | destroyed ended => simp [step_destroyed ended] at taken
  | running running held => simp [step_running running, State.operate] at taken
  | unborn unborn =>
    rcases unborn.create ⟨enough, multiple⟩ taken with still | ⟨p, _, held⟩
    · exact absurd (still.phase.symm.trans created.running) (by decide)
    · exact ⟨newShape p size, held, rfl⟩

/-- After a reset every block has the same room, behind an ngx_pool_s. -/
theorem Represents.resets (held : Represents t shape) (running : t.phase = .running) {fuel : Nat}
    (taken : step t (.ngxResetPool fuel) = some u) :
    Ready u shape.reset ∧
      shape.reset.blocks.map Block.filled = List.replicate shape.blocks.length 0 := by
  obtain ⟨still, after, move, represents⟩ : u.phase = .running ∧
      ∃ after, Move shape (.ngxResetPool fuel) after ∧ Represents u after := by
    rcases held.moves running taken with moved | ⟨_, _, other⟩
    · exact moved
    · contradiction
  cases move
  have zero : Block.filled ∘ Block.rewound = fun _ => 0 := by
    funext b
    exact Nat.sub_self _
  refine ⟨⟨still, represents, rfl, fun b member => ?_⟩, ?_⟩
  · obtain ⟨c, _, rfl⟩ := List.mem_map.mp member
    exact Nat.le_refl _
  · rw [Shape.reset, List.map_map, zero, List.map_const']

theorem Represents.recycles_iff (held : Represents t shape) (running : t.phase = .running)
    {fuel : Nat} {blocks : List Nat} (taken : step t (.ngxResetPool fuel) = some u)
    (chain : Follows t.blockNext t.pool blocks)
    (small : ∀ q ∈ asks, q.size ≤ poolMax (shape.size - sizeofPool)) :
    Recycles u asks ↔ Packs (shape.size - sizeofPool) blocks.length asks := by
  obtain ⟨ready, empty⟩ := held.resets running taken
  have length : blocks.length = shape.blocks.length := by
    rw [chain.unique held.chain, List.length_map]
  rw [ready.recycles_iff small, empty, length]
  rfl

/-- A list of small requests that a new pool has served is served again after a reset
    without malloc exactly if first fit packs it into as many bins as there are blocks, each
    as large as the first block's room. -/
theorem reset_recycles_iff {calls : List Call} {blocks : List Nat} {fuel : Nat}
    (created : Created size s) (enough : ngxMinPoolSize ≤ size) (multiple : ngxAlignment ∣ size)
    (small : ∀ c ∈ calls, c.ask.size ≤ s.word (maxAt s.pool)) (served : serve s calls = some t)
    (chain : Follows t.blockNext t.pool blocks) (taken : step t (.ngxResetPool fuel) = some u) :
    Recycles u (calls.map Call.ask) ↔
      Packs (size - sizeofPool) blocks.length (calls.map Call.ask) := by
  obtain ⟨first, held, rfl⟩ := created.represents enough multiple
  obtain ⟨running, shape, represents, same⟩ := held.serve created.running served
  have max : s.word (maxAt s.pool) = poolMax (first.size - sizeofPool) := held.max
  rw [max, ← same] at small
  rw [← same]
  apply represents.recycles_iff running taken chain
  intro q member
  obtain ⟨c, here, rfl⟩ := List.mem_map.mp member
  exact small c here

/-- As large as max allows: one fits into the first block of 96 bytes, two into another. -/
def equalCalls (n : Nat) : List Call :=
  List.replicate n ⟨⟨true, 32⟩, 3, malloced [128]⟩

theorem reset_recycles_two : ∃ s t u, serve s (equalCalls 2) = some t ∧
    step t (.ngxResetPool 3) = some u ∧ Packs 32 2 ((equalCalls 2).map Call.ask) ∧
    (Recycles u ((equalCalls 2).map Call.ask) ↔
      Packs (96 - sizeofPool) [16, 128].length ((equalCalls 2).map Call.ask)) := by
  have ran : ∃ s ∈ step initial (.ngxCreatePool 96 (malloced [16])), s.phase = .running ∧
      (∀ c ∈ equalCalls 2, c.ask.size ≤ s.word (maxAt s.pool)) ∧
      ∃ t ∈ serve s (equalCalls 2), Follows t.blockNext t.pool [16, 128] ∧
      ∃ u ∈ step t (.ngxResetPool 3), u.phase = .running := by decide +kernel
  obtain ⟨s, made, running, small, t, served, chain, u, taken, _⟩ := ran
  exact ⟨s, t, u, served, taken, by decide, reset_recycles_iff ⟨running, initial, _, .start, made⟩
    (by decide) (by decide) small served chain taken⟩

/-- The second block had served two requests. After the reset it has room for one. -/
theorem reset_loses_room : ∃ s t u, Created 96 s ∧
    (∀ c ∈ equalCalls 3, c.ask.size ≤ s.word (maxAt s.pool)) ∧
    serve s (equalCalls 3) = some t ∧ step t (.ngxResetPool 3) = some u ∧
    ¬Recycles u ((equalCalls 3).map Call.ask) := by
  have ran : ∃ s ∈ step initial (.ngxCreatePool 96 (malloced [16])), s.phase = .running ∧
      (∀ c ∈ equalCalls 3, c.ask.size ≤ s.word (maxAt s.pool)) ∧
      ∃ t ∈ serve s (equalCalls 3), Follows t.blockNext t.pool [16, 128] ∧
      ∃ u ∈ step t (.ngxResetPool 3), u.phase = .running := by decide +kernel
  obtain ⟨s, made, running, small, t, served, chain, u, taken, _⟩ := ran
  have created : Created 96 s := ⟨running, initial, _, .start, made⟩
  obtain ⟨first, held, size⟩ := created.represents (by decide) (by decide)
  obtain ⟨still, shape, represents, same⟩ := held.serve running served
  have fits : ∀ q ∈ (equalCalls 3).map Call.ask, q.size ≤ poolMax (shape.size - sizeofPool) := by
    rw [same, size]
    decide
  refine ⟨s, t, u, created, small, served, taken, ?_⟩
  rw [represents.recycles_iff still taken chain fits, same, size]
  decide

end NgxMemPool
