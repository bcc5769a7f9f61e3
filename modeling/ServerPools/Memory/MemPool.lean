import ServerPools.Support.Malloc
import ServerPools.Support.Machine

/- nginx/ngx_mem_pool.h and .cpp on a machine with 64-bit pointers and size_t. Pointers
   are addresses and null is 0; the member pool_ is the parameter pool. A loop takes fuel,
   one unit for each test of its condition, and is stuck when it has none. -/
namespace NgxMemPool
open Malloc

def wrap (x : Nat) : Nat := x % 2 ^ 64

def sizeMinus (a b : Nat) : Nat := wrap (a + 2 ^ 64 - b)

def ngxAlign (d a : Nat) : Nat := wrap (d + (a - 1)) &&& (2 ^ 64 - 1 - (a - 1))

def ngxAlignPtr (p a : Nat) : Nat := ngxAlign p a

def ngxAlignment : Nat := 8
def sizeofPoolData : Nat := 32
def sizeofPool : Nat := 64
def sizeofLarge : Nat := 16
def sizeofCleanup : Nat := 24

def ngxPagesize : Nat := 4096
def ngxMaxAllocFromPool : Nat := ngxPagesize - 1
def ngxPoolAlignment : Nat := 16
def ngxMinPoolSize : Nat := ngxAlign (sizeofPool + 2 * sizeofLarge) ngxPoolAlignment

/- ngx_pool_data_t, the start of every block. failed has four bytes, all else eight. -/
def lastAt (p : Nat) : Nat := p
def endAt (p : Nat) : Nat := p + 8
def nextAt (p : Nat) : Nat := p + 16
def failedAt (p : Nat) : Nat := p + 24

/- The rest of ngx_pool_s. -/
def maxAt (p : Nat) : Nat := p + 32
def currentAt (p : Nat) : Nat := p + 40
def largeAt (p : Nat) : Nat := p + 48
def cleanupAt (p : Nat) : Nat := p + 56

/- ngx_pool_large_s. -/
def largeNextAt (l : Nat) : Nat := l
def allocAt (l : Nat) : Nat := l + 8

/- ngx_pool_cleanup_s. -/
def handlerAt (c : Nat) : Nat := c
def dataAt (c : Nat) : Nat := c + 8
def cleanupNextAt (c : Nat) : Nat := c + 16

def poolMax (size : Nat) : Nat :=
  if size < ngxMaxAllocFromPool then size else ngxMaxAllocFromPool

/-- The stores of ngx_create_pool. -/
def fillPool (p size : Nat) : Code Unit := do
  store 8 (lastAt p) (p + sizeofPool)
  store 8 (endAt p) (p + size)
  store 8 (nextAt p) 0
  store 4 (failedAt p) 0
  store 8 (maxAt p) (poolMax (sizeMinus size sizeofPool))
  store 8 (currentAt p) p
  store 8 (largeAt p) 0
  store 8 (cleanupAt p) 0

def ngxCreatePool (size : Nat) : Code Nat := do
  let p ← malloc size
  if p = 0 then return 0
  else do
    fillPool p size
    return p

def room (align : Bool) (last : Nat) : Nat :=
  if align then ngxAlignPtr last ngxAlignment else last

/-- The do loop of ngx_palloc_small; none where it ends without a return. -/
def scanBlocks (size : Nat) (align : Bool) : Nat → Nat → Code (Option Nat)
  | 0, _ => stuck
  | fuel + 1, p => do
    let last ← load 8 (lastAt p)
    let stop ← load 8 (endAt p)
    if sizeMinus stop (room align last) ≥ size then do
      store 8 (lastAt p) (room align last + size)
      return some (room align last)
    else do
      let next ← load 8 (nextAt p)
      if next = 0 then return none else scanBlocks size align fuel next

/-- The loop of ngx_palloc_block; returns the p it stops at. -/
def missBlocks (pool : Nat) : Nat → Nat → Code Nat
  | 0, _ => stuck
  | fuel + 1, p => do
    let next ← load 8 (nextAt p)
    if next = 0 then return p
    else do
      let failed ← load 4 (failedAt p)
      store 4 (failedAt p) (failed + 1)
      if failed > 4 then do
        let next ← load 8 (nextAt p)
        store 8 (currentAt pool) next
      else pure ()
      let next ← load 8 (nextAt p)
      missBlocks pool fuel next

def ngxPallocBlock (pool fuel size : Nat) : Code Nat := do
  let stop ← load 8 (endAt pool)
  let psize := sizeMinus stop pool
  let m ← malloc psize
  if m = 0 then return 0
  else do
    store 8 (endAt m) (m + psize)
    store 8 (nextAt m) 0
    store 4 (failedAt m) 0
    let start := ngxAlignPtr (m + sizeofPoolData) ngxAlignment
    store 8 (lastAt m) (start + size)
    let current ← load 8 (currentAt pool)
    let p ← missBlocks pool fuel current
    store 8 (nextAt p) m
    return start

def ngxPallocSmall (pool fuel size : Nat) (align : Bool) : Code Nat := do
  let current ← load 8 (currentAt pool)
  let found ← scanBlocks size align fuel current
  match found with
  | some m => return m
  | none => ngxPallocBlock pool fuel size

/-- The loop of ngx_palloc_large; whether a node took the region. -/
def reuseNode (p : Nat) : Nat → Nat → Nat → Code Bool
  | 0, _, _ => stuck
  | fuel + 1, n, large =>
    if large = 0 then return false
    else do
      let alloc ← load 8 (allocAt large)
      if alloc = 0 then do
        store 8 (allocAt large) p
        return true
      else if n > 3 then return false
      else do
        let next ← load 8 (largeNextAt large)
        reuseNode p fuel (n + 1) next

def ngxPallocLarge (pool fuel size : Nat) : Code Nat := do
  let p ← malloc size
  if p = 0 then return 0
  else do
    let head ← load 8 (largeAt pool)
    let reused ← reuseNode p fuel 0 head
    if reused = true then return p
    else do
      let large ← ngxPallocSmall pool fuel sizeofLarge true
      if large = 0 then do
        free p
        return 0
      else do
        store 8 (allocAt large) p
        let head ← load 8 (largeAt pool)
        store 8 (largeNextAt large) head
        store 8 (largeAt pool) large
        return p

def pallocWith (align : Bool) (pool fuel size : Nat) : Code Nat := do
  let max ← load 8 (maxAt pool)
  if size ≤ max then ngxPallocSmall pool fuel size align else ngxPallocLarge pool fuel size

def ngxPalloc (pool fuel size : Nat) : Code Nat := pallocWith true pool fuel size

def ngxPnalloc (pool fuel size : Nat) : Code Nat := pallocWith false pool fuel size

def ngxPcalloc (pool fuel size : Nat) : Code Nat := do
  let p ← ngxPalloc pool fuel size
  if p ≠ 0 then memset p 0 size else pure ()
  return p

def freeNode (p : Nat) : Nat → Nat → Code Unit
  | 0, _ => stuck
  | fuel + 1, l =>
    if l = 0 then return ()
    else do
      let alloc ← load 8 (allocAt l)
      if p = alloc then do
        free alloc
        store 8 (allocAt l) 0
      else do
        let next ← load 8 (largeNextAt l)
        freeNode p fuel next

def ngxPfree (pool fuel p : Nat) : Code Unit := do
  let head ← load 8 (largeAt pool)
  freeNode p fuel head

/-- The loop over the large list that ngx_reset_pool and ngx_destroy_pool both have. -/
def freeLarges : Nat → Nat → Code Unit
  | 0, _ => stuck
  | fuel + 1, l =>
    if l = 0 then return ()
    else do
      let alloc ← load 8 (allocAt l)
      if alloc ≠ 0 then free alloc else pure ()
      let next ← load 8 (largeNextAt l)
      freeLarges fuel next

def rewindBlocks : Nat → Nat → Code Unit
  | 0, _ => stuck
  | fuel + 1, p =>
    if p = 0 then return ()
    else do
      store 8 (lastAt p) (p + sizeofPool)
      store 4 (failedAt p) 0
      let next ← load 8 (nextAt p)
      rewindBlocks fuel next

def ngxResetPool (pool fuel : Nat) : Code Unit := do
  let head ← load 8 (largeAt pool)
  freeLarges fuel head
  store 8 (lastAt pool) (pool + sizeofPool)
  store 4 (failedAt pool) 0
  let next ← load 8 (nextAt pool)
  rewindBlocks fuel next
  store 8 (currentAt pool) pool
  store 8 (largeAt pool) 0

def runCleanups : Nat → Nat → Code Unit
  | 0, _ => stuck
  | fuel + 1, c =>
    if c = 0 then return ()
    else do
      let handler ← load 8 (handlerAt c)
      if handler ≠ 0 then do
        let data ← load 8 (dataAt c)
        call handler data
      else pure ()
      let next ← load 8 (cleanupNextAt c)
      runCleanups fuel next

/-- n->d.next is read before n itself is freed. -/
def freeBlocks : Nat → Nat → Nat → Code Unit
  | 0, _, _ => stuck
  | fuel + 1, p, n => do
    free p
    if n = 0 then return ()
    else do
      let next ← load 8 (nextAt n)
      freeBlocks fuel n next

def ngxDestroyPool (pool fuel : Nat) : Code Unit := do
  let c ← load 8 (cleanupAt pool)
  runCleanups fuel c
  let l ← load 8 (largeAt pool)
  freeLarges fuel l
  let n ← load 8 (nextAt pool)
  freeBlocks fuel pool n

/-- ngx_pool_cleanup_add from handler = NULL on. -/
def linkCleanup (pool c : Nat) : Code Nat := do
  store 8 (handlerAt c) 0
  let head ← load 8 (cleanupAt pool)
  store 8 (cleanupNextAt c) head
  store 8 (cleanupAt pool) c
  return c

/-- The branch for a size that is not 0, from the assignment to c->data on. -/
def storeData (pool c data : Nat) : Code Nat := do
  store 8 (dataAt c) data
  let stored ← load 8 (dataAt c)
  if stored = 0 then return 0 else linkCleanup pool c

def ngxPoolCleanupAdd (pool fuel size : Nat) : Code Nat := do
  let c ← ngxPalloc pool fuel sizeofCleanup
  if c = 0 then return 0
  else if size ≠ 0 then do
    let data ← ngxPalloc pool fuel size
    storeData pool c data
  else do
    store 8 (dataAt c) 0
    linkCleanup pool c

inductive Phase where
  | unborn
  | running
  | destroyed
  deriving DecidableEq, Repr

/-- A region in a client's hands; large ones are those above max. -/
structure Lease where
  addr : Nat
  size : Nat
  large : Bool
  deriving DecidableEq, Repr

def Lease.span (l : Lease) : Span := ⟨l.addr, l.size⟩

/-- leases: what clients hold. nodes: the cleanup nodes added since the last reset, last one
    first. aligned: all that ngx_palloc and ngx_pcalloc ever returned. stored: what handler
    and data of the nodes were when clients got them, or what clients have stored there
    since. These four are history. -/
structure State where
  heap : Heap
  pool : Nat
  phase : Phase
  leases : List Lease
  nodes : List Nat
  aligned : List Nat
  stored : Nat → UInt8

/-- Each call comes with its fuel and what malloc will answer during it. -/
inductive Action where
  | ngxCreatePool (size : Nat) (answers : List Answer)
  | ngxPalloc (fuel size : Nat) (answers : List Answer)
  | ngxPnalloc (fuel size : Nat) (answers : List Answer)
  | ngxPcalloc (fuel size : Nat) (answers : List Answer)
  | ngxPoolCleanupAdd (fuel size : Nat) (answers : List Answer)
  | ngxPfree (fuel p : Nat)
  | ngxResetPool (fuel : Nat)
  | ngxDestroyPool (fuel : Nat)
  | poke (x : Nat) (byte : UInt8)

def initial : State := ⟨blank, 0, .unborn, [], [], [], fun _ => 0⟩

def State.answering (s : State) (answers : List Answer) : Heap :=
  { s.heap with answers := answers }

/-- What ngx_palloc will compare with max. -/
def State.isLarge (s : State) (size : Nat) : Bool :=
  decide (Bytes.load s.heap.bytes (maxAt s.pool) 8 < size)

def State.lend (s : State) (p size : Nat) : List Lease :=
  if p = 0 then s.leases else ⟨p, size, s.isLarge size⟩ :: s.leases

def State.create (s : State) (p : Nat) (h : Heap) : State :=
  if p = 0 then { s with heap := h } else { s with heap := h, pool := p, phase := .running }

def State.handOut (s : State) (size p : Nat) (h : Heap) : State :=
  { s with heap := h, leases := s.lend p size }

def State.handOutAligned (s : State) (size p : Nat) (h : Heap) : State :=
  { s with heap := h, leases := s.lend p size, aligned := p :: s.aligned }

/-- handler and data of a node as the client gets them. -/
def State.noted (s : State) (c : Nat) (h : Heap) : Nat → UInt8 :=
  Bytes.paste s.stored c 16 fun i => h.bytes (c + i)

/-- A cleanup node is lent with the region its data points to, if it has one. -/
def State.addCleanup (s : State) (size c : Nat) (h : Heap) : State :=
  if c = 0 then { s with heap := h }
  else if size = 0 then { s with heap := h, nodes := c :: s.nodes, stored := s.noted c h }
  else { s with
    heap := h
    leases := s.lend (Bytes.load h.bytes (dataAt c) 8) size
    nodes := c :: s.nodes
    stored := s.noted c h }

def State.giveBack (s : State) (p : Nat) (h : Heap) : State :=
  { s with heap := h, leases := s.leases.filter fun l => !(l.large && l.addr = p) }

def State.recycle (s : State) (h : Heap) : State := { s with heap := h, leases := [], nodes := [] }

def State.destroy (s : State) (h : Heap) : State :=
  { s with heap := h, phase := .destroyed, leases := [], nodes := [] }

/-- Clients write into the regions they hold and into handler and data of their nodes. -/
def State.Writable (s : State) (x : Nat) : Prop :=
  (∃ l ∈ s.leases, l.span.Has x) ∨ ∃ c ∈ s.nodes, (Span.mk c 16).Has x

instance {s : State} {x : Nat} : Decidable (s.Writable x) :=
  inferInstanceAs (Decidable ((∃ l ∈ s.leases, l.span.Has x) ∨ ∃ c ∈ s.nodes, (Span.mk c 16).Has x))

def State.poke (s : State) (x : Nat) (byte : UInt8) : State :=
  { s with
    heap := { s.heap with bytes := Function.update s.heap.bytes x byte }
    stored := Function.update s.stored x byte }

def State.operate (s : State) : Action → Option State
  | .ngxCreatePool _ _ => none
  | .ngxPalloc fuel size answers =>
    ((ngxPalloc s.pool fuel size).run (s.answering answers)).map fun r =>
      s.handOutAligned size r.1 r.2
  | .ngxPnalloc fuel size answers =>
    ((ngxPnalloc s.pool fuel size).run (s.answering answers)).map fun r => s.handOut size r.1 r.2
  | .ngxPcalloc fuel size answers =>
    ((ngxPcalloc s.pool fuel size).run (s.answering answers)).map fun r =>
      s.handOutAligned size r.1 r.2
  | .ngxPoolCleanupAdd fuel size answers =>
    ((ngxPoolCleanupAdd s.pool fuel size).run (s.answering answers)).map fun r =>
      s.addCleanup size r.1 r.2
  | .ngxPfree fuel p => ((ngxPfree s.pool fuel p).run s.heap).map fun r => s.giveBack p r.2
  | .ngxResetPool fuel => ((ngxResetPool s.pool fuel).run s.heap).map fun r => s.recycle r.2
  | .ngxDestroyPool fuel => ((ngxDestroyPool s.pool fuel).run s.heap).map fun r => s.destroy r.2
  | .poke x byte => if s.Writable x then some (s.poke x byte) else none

/-- One pool: created once, then used, then destroyed. -/
def step (s : State) (a : Action) : Option State :=
  match s.phase, a with
  | .unborn, .ngxCreatePool size answers =>
    ((ngxCreatePool size).run (s.answering answers)).map fun r => s.create r.1 r.2
  | .running, a => s.operate a
  | _, _ => none

/-- The pool is made with a size that is large enough and a multiple of the alignment. -/
def WellSized : State → Action → Prop
  | _, .ngxCreatePool size _ => ngxMinPoolSize ≤ size ∧ ngxAlignment ∣ size
  | _, _ => True

/-- ngx_reset_pool is called only while pool_->cleanup is null. -/
def ResetUncleaned (s : State) : Action → Prop
  | .ngxResetPool _ => Bytes.load s.heap.bytes (cleanupAt s.pool) 8 = 0
  | _ => True

/-- ngx_reset_pool is not called at all. -/
def ResetFree : State → Action → Prop
  | _, .ngxResetPool _ => False
  | _, _ => True

instance {s : State} {a : Action} : Decidable (WellSized s a) :=
  match a with
  | .ngxCreatePool _ _ => inferInstanceAs (Decidable (_ ∧ _))
  | .ngxPalloc _ _ _ | .ngxPnalloc _ _ _ | .ngxPcalloc _ _ _ | .ngxPoolCleanupAdd _ _ _
  | .ngxPfree _ _ | .ngxResetPool _ | .ngxDestroyPool _ | .poke _ _ => .isTrue trivial

instance {s : State} {a : Action} : Decidable (ResetUncleaned s a) :=
  match a with
  | .ngxResetPool _ => inferInstanceAs (Decidable (_ = _))
  | .ngxPalloc _ _ _ | .ngxPnalloc _ _ _ | .ngxPcalloc _ _ _ | .ngxPoolCleanupAdd _ _ _
  | .ngxPfree _ _ | .ngxCreatePool _ _ | .ngxDestroyPool _ | .poke _ _ => .isTrue trivial

instance {s : State} {a : Action} : Decidable (ResetFree s a) :=
  match a with
  | .ngxResetPool _ => .isFalse id
  | .ngxPalloc _ _ _ | .ngxPnalloc _ _ _ | .ngxPcalloc _ _ _ | .ngxPoolCleanupAdd _ _ _
  | .ngxPfree _ _ | .ngxCreatePool _ _ | .ngxDestroyPool _ | .poke _ _ => .isTrue trivial

end NgxMemPool
