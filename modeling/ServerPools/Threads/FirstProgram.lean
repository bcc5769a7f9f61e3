import ServerPools.Threads.FirstResults
import ServerPools.Threads.ProgramEnd

/- main.cpp over the first pool. Its run is followed by one of the same main over the second pool
   in the fixed mode, up to the destructor of the pool, which is an empty function here. -/
namespace FirstPool
open ThreadPool (Entry Submit Backend Getter Script MainPc)
variable {τ ρ ρ' σ χ κ ν : Type}

structure Program (τ ρ σ ν : Type) where
  pool : Pool τ ρ σ
  main : MainPc
  answers : List ν

inductive Turn (τ χ κ : Type) where
  | main
  | env (a : Action τ χ κ)
  deriving DecidableEq, Repr

def onPool (B : Backend τ ρ σ χ κ) (s : Program τ ρ σ ν) (a : Action τ χ κ) (pc : MainPc) :
    Option (Program τ ρ σ ν) :=
  (step B s.pool a).map fun pool => { s with pool := pool, main := pc }

/-- The next atomic step of main; dropping 0 is its end. -/
def mainNext (B : Backend τ ρ σ χ κ) (G : Getter B ν) (script : Script τ χ) (s : Program τ ρ σ ν) :
    Option (Program τ ρ σ ν) :=
  match s.main with
  | .entered => onPool B s (.callStart script.initThreadSize) .starting
  | .starting =>
    if s.pool.startCall = .returned then some { s with main := .submitting 0 }
    else onPool B s .start .starting
  | .submitting i =>
    match script.tasks[i]? with
    | some task => onPool B s (.call task) (.awaiting i)
    | none => some { s with main := .asking 0 }
  | .awaiting i =>
    match s.pool.submits[i]? with
    | none => none
    | some c =>
      if c.pc.final then some { s with main := .submitting (i + 1) }
      else onPool B s (.submit i) (.awaiting i)
  | .asking i =>
    if i < script.tasks.length then
      (G.call s.pool.results i).map fun results =>
        { s with pool := { s.pool with results := results }, main := .getting i }
    else some { s with main := .dropping script.tasks.length }
  | .getting i =>
    match G.next s.pool.results i with
    | none => none
    | some (results, none) => some { s with pool := { s.pool with results := results } }
    | some (results, some value) =>
      some { s with
        pool := { s.pool with results := results }
        main := .asking (i + 1)
        answers := s.answers ++ [value] }
  | .dropping 0 => none
  | .dropping (left + 1) =>
    (G.drop s.pool.results left).map fun results =>
      { s with pool := { s.pool with results := results }, main := .dropping left }
  | .leaving | .returned => none

def programStep (B : Backend τ ρ σ χ κ) (G : Getter B ν) (script : Script τ χ)
    (s : Program τ ρ σ ν) : Turn τ χ κ → Option (Program τ ρ σ ν)
  | .main => mainNext B G script s
  | .env a => (step B s.pool a).map fun pool => { s with pool := pool }

/-- What happens beside main. -/
def Ambient {B : Backend τ ρ σ χ κ} (G : Getter B ν) (script : Script τ χ) (p : Pool τ ρ σ) :
    Action τ χ κ → Prop
  | .exec w x => ∀ worker e stage, p.workers[w]? = some worker → worker.pc = .running e stage →
      x = script.run e.task
  | .worker _ | .workerStir _ | .submitTimeout _ | .submitStir _ => True
  | .client k => G.stirs k
  | _ => False

def Scheduled {B : Backend τ ρ σ χ κ} (G : Getter B ν) (script : Script τ χ) (s : Program τ ρ σ ν) :
    Turn τ χ κ → Prop
  | .main => True
  | .env a => Ambient G script s.pool a

section Decide
variable {B : Backend τ ρ σ χ κ} {G : Getter B ν} [DecidableEq χ] [DecidablePred G.stirs]

def Worker.entry (w : Worker τ σ) : Option (Entry τ × σ) :=
  match w.pc with
  | .running e stage => some (e, stage)
  | _ => none

instance (script : Script τ χ) (p : Pool τ ρ σ) : (a : Action τ χ κ) → Decidable (Ambient G script p a)
  | .exec w x =>
    decidable_of_iff (∀ job ∈ p.workers[w]?.bind Worker.entry, x = script.run job.1.task) <| by
      constructor
      · intro all worker e stage here pc
        exact all (e, stage) (by simp [here, Worker.entry, pc])
      · rintro all ⟨e, stage⟩ member
        obtain ⟨worker, here, own⟩ := Option.mem_bind_iff.mp member
        refine all worker e stage here ?_
        cases pc : worker.pc <;> simp_all [Worker.entry]
  | .worker _ | .workerStir _ | .submitTimeout _ | .submitStir _ => .isTrue trivial
  | .client k => inferInstanceAs (Decidable (G.stirs k))
  | .call _ | .submit _ | .callStart _ | .start => .isFalse id

instance (script : Script τ χ) (s : Program τ ρ σ ν) :
    (turn : Turn τ χ κ) → Decidable (Scheduled G script s turn)
  | .main => .isTrue trivial
  | .env a => inferInstanceAs (Decidable (Ambient G script s.pool a))

end Decide

/-- No wait times out or ends by itself. -/
def Calm : Action τ χ κ → Prop
  | .worker _ | .exec _ _ => True
  | _ => False

def Brisk {B : Backend τ ρ σ χ κ} (G : Getter B ν) (script : Script τ χ) (s : Program τ ρ σ ν) :
    Turn τ χ κ → Prop
  | .main => True
  | .env a => Ambient G script s.pool a ∧ Calm a

def launch (mode : ThreadPool.PoolMode) (t : Int) (results : ρ) : Program τ ρ σ ν :=
  ⟨configured results mode t, .entered, []⟩

/-- The gets and the destructors of the first value side, followed by those of the second. -/
structure Follows {B : Backend τ ρ σ χ κ} {B' : Backend τ ρ' σ χ κ} (h : ρ → ρ') (G : Getter B ν)
    (G' : Getter B' ν) : Prop where
  call : ∀ {r r' : ρ} {i : Nat}, G.call r i = some r' → G'.call (h r) i = some (h r')
  next : ∀ {r r' : ρ} {i : Nat} {v : Option ν}, G.next r i = some (r', v) →
    G'.next (h r) i = some (h r', v)
  drop : ∀ {r r' : ρ} {i : Nat}, G.drop r i = some r' → G'.drop (h r) i = some (h r')
  stirs : ∀ {k : κ}, G.stirs k → G'.stirs k

def Program.up (h : ρ → ρ') (idle : Int) (s : Program τ ρ σ ν) : ThreadPool.Program τ ρ' σ ν :=
  ⟨s.pool.up h idle, s.main, s.answers⟩

variable {B : Backend τ ρ σ χ κ} {B' : Backend τ ρ' σ χ κ} {h : ρ → ρ'} {G : Getter B ν}
  {G' : Getter B' ν} {script : Script τ χ} {s s' : Program τ ρ σ ν}

/-- A run of the pool beside main. -/
theorem env_run (G' : Getter B' ν) (script : Script τ χ) {p q : ThreadPool.Pool τ ρ' σ} (main : MainPc) (answers : List ν)
    {actions : List (ThreadPool.Action τ χ κ)}
    (ran : Machine.run (ThreadPool.step B') p actions = some q) :
    Machine.run (ThreadPool.programStep B' G' script) ⟨p, main, answers⟩ (actions.map .env) =
      some ⟨q, main, answers⟩ := by
  induction actions generalizing p with
  | nil =>
    cases ran
    rfl
  | cons a rest ih =>
    obtain ⟨mid, taken, later⟩ := Option.bind_eq_some_iff.mp ran
    simp only [List.map_cons, Machine.run, ThreadPool.programStep, taken, Option.map_some,
      Option.bind_some]
    exact ih later

/-- The statements of start while main is in it. -/
theorem start_run (G' : Getter B' ν) (script : Script τ χ) {p q : ThreadPool.Pool τ ρ' σ} (answers : List ν)
    {actions : List (ThreadPool.Action τ χ κ)} (starts : ∀ a ∈ actions, a = .start)
    (ran : Machine.run (ThreadPool.step B') p actions = some q) :
    Machine.run (ThreadPool.programStep B' G' script) ⟨p, .starting, answers⟩
      (actions.map fun _ => .main) = some ⟨q, .starting, answers⟩ := by
  induction actions generalizing p with
  | nil =>
    cases ran
    rfl
  | cons a rest ih =>
    obtain ⟨mid, taken, later⟩ := Option.bind_eq_some_iff.mp ran
    obtain rfl := starts a (by simp)
    have running : p.startCall ≠ .returned := by
      intro returned
      simp [ThreadPool.step, ThreadPool.perform, ThreadPool.startNext, returned] at taken
    simp only [List.map_cons, Machine.run, ThreadPool.programStep, ThreadPool.mainNext,
      if_neg running, ThreadPool.onPool, taken, Option.map_some, Option.bind_some]
    exact ih (fun b member => starts b (List.mem_cons_of_mem _ member)) later

theorem single_carried (laws : Carries B B' h) (idle : Int) {p q : Pool τ ρ σ} (law : Begun p)
    {a : Action τ χ κ} (single : ∀ b, ¬ Then b a) (taken : step B p a = some q) :
    ∃ idle', ThreadPool.step B' (p.up h idle) a.up = some (q.up h idle') := by
  obtain ⟨idle', rest, others, ran⟩ := step_carried laws idle law taken
  cases rest with
  | cons b rest => exact absurd (others b (by simp)) (single b)
  | nil =>
    obtain ⟨mid, stepped, done⟩ := Option.bind_eq_some_iff.mp ran
    cases done
    exact ⟨idle', stepped⟩

/-- Every step of main over the first pool is one or two steps of main over the second. -/
theorem main_carried (laws : Carries B B' h) (follows : Follows h G G') (idle : Int)
    (law : Begun s.pool) (taken : mainNext B G script s = some s') :
    Begun s'.pool ∧ ∃ idle' rest, (∀ turn ∈ rest, turn = .main) ∧
      Machine.run (ThreadPool.programStep B' G' script) (s.up h idle) (.main :: rest) =
        some (s'.up h idle') := by
  have once (idle' : Int) (next : ThreadPool.mainNext B' G' script (s.up h idle) = some (s'.up h idle')) :
      ∃ idle' rest, (∀ turn ∈ rest, turn = .main) ∧
        Machine.run (ThreadPool.programStep B' G' script) (s.up h idle) (.main :: rest) =
          some (s'.up h idle') :=
    ⟨idle', [], by simp, by simp [Machine.run, ThreadPool.programStep, next]⟩
  cases place : s.main with
  | entered =>
    simp only [mainNext, place] at taken
    obtain ⟨pool, stepped, rfl⟩ := Option.map_eq_some_iff.mp taken
    obtain ⟨idle', rest, others, ran⟩ := step_carried laws idle law stepped
    obtain ⟨mid, first, later⟩ := Option.bind_eq_some_iff.mp ran
    have started := start_run G' script s.answers others later
    refine ⟨step_begun law stepped, idle', rest.map fun _ => .main, by simp, ?_⟩
    have above : (s.up h idle).main = .entered := place
    have first : ThreadPool.step B' (s.up h idle).pool (.callStart script.initThreadSize) = some mid := first
    simp only [Machine.run, ThreadPool.programStep, ThreadPool.mainNext, above, ThreadPool.onPool,
      first, Option.map_some, Option.bind_some]
    exact started
  | starting =>
    have above : (s.up h idle).main = .starting := place
    simp only [mainNext, place] at taken
    split at taken <;> rename_i returned
    · cases taken
      have returned' : (s.up h idle).pool.startCall = .returned := by
        simp [Program.up, Pool.up, returned, StartPc.up]
      refine ⟨law, once idle ?_⟩
      simp only [ThreadPool.mainNext, above, if_pos returned']
      rfl
    · obtain ⟨pool, stepped, rfl⟩ := Option.map_eq_some_iff.mp taken
      obtain ⟨idle', rest, others, ran⟩ := step_carried laws idle law stepped
      refine ⟨step_begun law stepped, idle', rest.map fun _ => .main, by simp, ?_⟩
      have all : ∀ a ∈ Action.up .start :: rest, a = .start := by
        intro a member
        rcases List.mem_cons.mp member with rfl | later
        · rfl
        · exact others a later
      have started := start_run G' script s.answers all ran
      have same : s.up h idle = ⟨s.pool.up h idle, .starting, s.answers⟩ := by
        simp [Program.up, place]
      rw [same]
      exact started
  | submitting i =>
    have above : (s.up h idle).main = .submitting i := place
    simp only [mainNext, place] at taken
    cases more : script.tasks[i]? with
    | some task =>
      simp only [more] at taken
      obtain ⟨pool, stepped, rfl⟩ := Option.map_eq_some_iff.mp taken
      obtain ⟨idle', stepped'⟩ := single_carried laws idle law (fun _ => id) stepped
      have stepped' : ThreadPool.step B' (s.up h idle).pool (.call task) = some (pool.up h idle') := stepped'
      refine ⟨step_begun law stepped, once idle' ?_⟩
      simp only [ThreadPool.mainNext, above, more, ThreadPool.onPool, stepped', Option.map_some]
      rfl
    | none =>
      simp only [more] at taken
      cases taken
      refine ⟨law, once idle ?_⟩
      simp only [ThreadPool.mainNext, above, more]
      rfl
  | awaiting i =>
    have above : (s.up h idle).main = .awaiting i := place
    simp only [mainNext, place] at taken
    cases here : s.pool.submits[i]? with
    | none => simp [here] at taken
    | some c =>
      have there : (s.up h idle).pool.submits[i]? = some c := here
      simp only [here] at taken
      split at taken <;> rename_i final
      · cases taken
        refine ⟨law, once idle ?_⟩
        simp only [ThreadPool.mainNext, above, there, if_pos final]
        rfl
      · obtain ⟨pool, stepped, rfl⟩ := Option.map_eq_some_iff.mp taken
        obtain ⟨idle', stepped'⟩ := single_carried laws idle law (fun _ => id) stepped
        have stepped' : ThreadPool.step B' (s.up h idle).pool (.submit i) = some (pool.up h idle') := stepped'
        refine ⟨step_begun law stepped, once idle' ?_⟩
        simp only [ThreadPool.mainNext, above, there, if_neg final, ThreadPool.onPool, stepped',
          Option.map_some]
        rfl
  | asking i =>
    have above : (s.up h idle).main = .asking i := place
    simp only [mainNext, place] at taken
    split at taken <;> rename_i more
    · obtain ⟨results, called, rfl⟩ := Option.map_eq_some_iff.mp taken
      have called' : G'.call (s.up h idle).pool.results i = some (h results) := follows.call called
      refine ⟨law, once idle ?_⟩
      simp only [ThreadPool.mainNext, above, if_pos more, called', Option.map_some]
      rfl
    · cases taken
      refine ⟨law, once idle ?_⟩
      simp only [ThreadPool.mainNext, above, if_neg more]
      rfl
  | getting i =>
    have above : (s.up h idle).main = .getting i := place
    simp only [mainNext, place] at taken
    split at taken
    · contradiction
    · rename_i results next
      cases taken
      have next' : G'.next (s.up h idle).pool.results i = some (h results, none) := follows.next next
      refine ⟨law, once idle ?_⟩
      simp only [ThreadPool.mainNext, above, next']
      simp [Program.up, Pool.up, place]
    · rename_i results value next
      cases taken
      have next' : G'.next (s.up h idle).pool.results i = some (h results, some value) :=
        follows.next next
      refine ⟨law, once idle ?_⟩
      simp only [ThreadPool.mainNext, above, next']
      rfl
  | dropping left =>
    cases left with
    | zero => simp [mainNext, place] at taken
    | succ left =>
      have above : (s.up h idle).main = .dropping (left + 1) := place
      simp only [mainNext, place] at taken
      obtain ⟨results, dropped, rfl⟩ := Option.map_eq_some_iff.mp taken
      have dropped' : G'.drop (s.up h idle).pool.results left = some (h results) := follows.drop dropped
      refine ⟨law, once idle ?_⟩
      simp only [ThreadPool.mainNext, above, dropped', Option.map_some]
      rfl
  | leaving | returned => simp [mainNext, place] at taken

theorem ambient_up (follows : Follows h G G') (idle : Int) {p : Pool τ ρ σ} {a : Action τ χ κ}
    (ambient : Ambient G script p a) : ThreadPool.Ambient G' script (p.up h idle) a.up := by
  cases a with
  | exec w x =>
    intro worker e stage here pc
    change (p.workers.map Worker.up)[w]? = some worker at here
    rw [List.getElem?_map] at here
    obtain ⟨below, there, rfl⟩ := Option.map_eq_some_iff.mp here
    refine ambient below e stage there ?_
    rcases below with ⟨thread, pc'⟩
    cases pc' <;> simp_all [Worker.up, WorkerPc.up]
  | client k => exact follows.stirs ambient
  | worker | workerStir | submitTimeout | submitStir => trivial
  | call | submit | callStart | start => exact ambient.elim

/-- The step that follows in the second pool is a thread's own. -/
theorem then_ambient {p : Pool τ ρ σ} {a : Action τ χ κ} (ambient : Ambient G script p a)
    {b : ThreadPool.Action τ χ κ} (later : Then b a) : ∃ w, b = .idle w := by
  cases a with
  | exec w x => exact ⟨w, later⟩
  | callStart | start => exact ambient.elim
  | call | submit | submitTimeout | submitStir | worker | workerStir | client => exact later.elim

theorem env_carried (laws : Carries B B' h) (G' : Getter B' ν) (idle : Int) (law : Begun s.pool)
    {a : Action τ χ κ} (taken : programStep B G script s (.env a) = some s') :
    Begun s'.pool ∧ ∃ (idle' : Int) (rest : List (ThreadPool.Action τ χ κ)), (∀ b ∈ rest, Then b a) ∧
      Machine.run (ThreadPool.programStep B' G' script) (s.up h idle) (.env a.up :: rest.map .env) =
        some (s'.up h idle') := by
  obtain ⟨q, stepped, rfl⟩ := Option.map_eq_some_iff.mp taken
  obtain ⟨idle', rest, others, ran⟩ := step_carried laws idle law stepped
  exact ⟨step_begun law stepped, idle', rest, others, env_run G' script s.main s.answers ran⟩

def ProgramRelated (h : ρ → ρ') (s : Program τ ρ σ ν) (r : ThreadPool.Program τ ρ' σ ν) : Prop :=
  Begun s.pool ∧ ∃ idle, r = s.up h idle

theorem program_simulation (laws : Carries B B' h) (follows : Follows h G G') :
    Machine.Simulation (programStep B G script) (Scheduled G script)
      (ThreadPool.programStep B' G' script) (ThreadPool.Scheduled G' script) (ProgramRelated h) where
  carries {s s' turn r} related permit taken := by
    obtain ⟨law, idle, rfl⟩ := related
    cases turn with
    | main =>
      obtain ⟨law', idle', rest, mains, ran⟩ := main_carried laws follows idle law taken
      refine ⟨.main, rest, _, Machine.obeys_head trivial fun b member _ => ?_, ran, law', idle', rfl⟩
      rw [mains b member]
      trivial
    | env a =>
      obtain ⟨law', idle', rest, others, ran⟩ := env_carried laws G' idle law taken
      refine ⟨.env a.up, rest.map .env, _, Machine.obeys_head (ambient_up follows idle permit)
        fun b member _ => ?_, ran, law', idle', rfl⟩
      obtain ⟨c, inside, rfl⟩ := List.mem_map.mp member
      obtain ⟨w, rfl⟩ := then_ambient permit (others c inside)
      trivial

theorem brisk_simulation (laws : Carries B B' h) (follows : Follows h G G') :
    Machine.Simulation (programStep B G script) (Brisk G script)
      (ThreadPool.programStep B' G' script) (ThreadPool.Brisk G' script) (ProgramRelated h) where
  carries {s s' turn r} related permit taken := by
    obtain ⟨law, idle, rfl⟩ := related
    cases turn with
    | main =>
      obtain ⟨law', idle', rest, mains, ran⟩ := main_carried laws follows idle law taken
      refine ⟨.main, rest, _, Machine.obeys_head trivial fun b member _ => ?_, ran, law', idle', rfl⟩
      rw [mains b member]
      trivial
    | env a =>
      obtain ⟨ambient, calm⟩ := permit
      obtain ⟨law', idle', rest, others, ran⟩ := env_carried laws G' idle law taken
      refine ⟨.env a.up, rest.map .env, _, Machine.obeys_head ⟨ambient_up follows idle ambient, ?_⟩
        fun b member _ => ?_, ran, law', idle', rfl⟩
      · cases a <;> first | exact calm.elim | trivial
      · obtain ⟨c, inside, rfl⟩ := List.mem_map.mp member
        obtain ⟨w, rfl⟩ := then_ambient ambient (others c inside)
        exact ⟨trivial, trivial⟩

theorem launch_related (results : ρ) (mode : ThreadPool.PoolMode) (t threshold : Int) :
    ProgramRelated h (launch mode t results : Program τ ρ σ ν)
      (ThreadPool.launch .modeFixd t threshold (h results)) := by
  obtain ⟨law, idle, same⟩ := configured_related (τ := τ) (σ := σ) (h := h) results mode t threshold
  refine ⟨law, idle, ?_⟩
  unfold ThreadPool.launch
  rw [same]
  rfl

end FirstPool
