import ServerPools.Threads.Handshake
import ServerPools.Threads.Orderly

/- A main function that uses a pool the way main.cpp and threadpool/main.cpp do: start, one
   submission after the other, one get after the other, and on return the destructors of what
   the submissions returned and then of the pool. main is a thread of control of its own beside
   the threads of the pool. -/
namespace ThreadPool

/-- get on what a submission returned: the call, and then its atomic steps up to the value; no
    step while get blocks or after it has thrown. drop is the destructor of what was returned.
    own and parting are the steps of clients that these make, stirs those that happen beside
    them. -/
structure Getter {τ ρ σ χ κ : Type} (B : Backend τ ρ σ χ κ) (ν : Type) where
  call : ρ → Nat → Option ρ
  next : ρ → Nat → Option (ρ × Option ν)
  drop : ρ → Nat → Option ρ
  own : κ → Prop
  parting : κ → Prop
  stirs : κ → Prop
  call_client : ∀ {r r' : ρ} {i : Nat}, call r i = some r' →
    r' = r ∨ ∃ k, own k ∧ B.client r k = some r'
  next_client : ∀ {r r' : ρ} {i : Nat} {v : Option ν}, next r i = some (r', v) →
    r' = r ∨ ∃ k, own k ∧ B.client r k = some r'
  drop_client : ∀ {r r' : ρ} {i : Nat}, drop r i = some r' →
    r' = r ∨ ∃ k, parting k ∧ B.client r k = some r'

/-- The argument of start, the tasks in the order main submits them, and what each computes. -/
structure Script (τ χ : Type) where
  initThreadSize : Int
  tasks : List τ
  run : τ → χ

/-- Where main is, named by what comes next; awaiting and getting are inside the call, and
    dropping counts what is left to destroy. -/
inductive MainPc where
  | entered
  | starting
  | submitting (i : Nat)
  | awaiting (i : Nat)
  | asking (i : Nat)
  | getting (i : Nat)
  | dropping (left : Nat)
  | leaving
  | returned
  deriving DecidableEq, Repr

structure Program (τ ρ σ ν : Type) where
  pool : Pool τ ρ σ
  main : MainPc
  answers : List ν

inductive Turn (τ χ κ : Type) where
  | main
  | env (a : Action τ χ κ)
  deriving DecidableEq, Repr

variable {τ ρ σ χ κ ν : Type} {B : Backend τ ρ σ χ κ} {G : Getter B ν} {p q : Pool τ ρ σ}

def onPool (B : Backend τ ρ σ χ κ) (s : Program τ ρ σ ν) (a : Action τ χ κ) (pc : MainPc) :
    Option (Program τ ρ σ ν) :=
  (step B s.pool a).map fun pool => { s with pool := pool, main := pc }

/-- The next atomic step of main. -/
def mainNext (B : Backend τ ρ σ χ κ) (G : Getter B ν) (script : Script τ χ) (s : Program τ ρ σ ν) :
    Option (Program τ ρ σ ν) :=
  match s.main with
  | .entered => onPool B s (.callStart script.initThreadSize) .starting
  | .starting =>
    if s.pool.startCall = .returned then some { s with main := .submitting 0 }
    else onPool B s .start .starting
  | .submitting i =>
    match script.tasks[i]? with
    | some task => onPool B s (.call task) (.awaiting i)
    | none => some { s with main := .asking 0 }
  | .awaiting i =>
    match s.pool.submits[i]? with
    | none => none
    | some c =>
      if c.pc.final then some { s with main := .submitting (i + 1) }
      else onPool B s (.submit i) (.awaiting i)
  | .asking i =>
    if i < script.tasks.length then
      (G.call s.pool.results i).map fun results =>
        { s with pool := { s.pool with results := results }, main := .getting i }
    else some { s with main := .dropping script.tasks.length }
  | .getting i =>
    match G.next s.pool.results i with
    | none => none
    | some (results, none) => some { s with pool := { s.pool with results := results } }
    | some (results, some value) =>
      some { s with
        pool := { s.pool with results := results }
        main := .asking (i + 1)
        answers := s.answers ++ [value] }
  | .dropping 0 => onPool B s .destroy .leaving
  | .dropping (left + 1) =>
    (G.drop s.pool.results left).map fun results =>
      { s with pool := { s.pool with results := results }, main := .dropping left }
  | .leaving =>
    if s.pool.destroyCall = .returned then some { s with main := .returned }
    else onPool B s .destroyNext .leaving
  | .returned => none

def programStep (B : Backend τ ρ σ χ κ) (G : Getter B ν) (script : Script τ χ)
    (s : Program τ ρ σ ν) : Turn τ χ κ → Option (Program τ ρ σ ν)
  | .main => mainNext B G script s
  | .env a => (step B s.pool a).map fun pool => { s with pool := pool }

/-- What happens beside main: the threads work, waits time out or end by themselves, and a task
    computes what it computes. -/
def Ambient (G : Getter B ν) (script : Script τ χ) (p : Pool τ ρ σ) : Action τ χ κ → Prop
  | .exec w x => ∀ worker e stage, p.workers[w]? = some worker → worker.pc = .running e stage →
      x = script.run e.task
  | .worker _ _ | .workerTimeout _ | .workerStir _ | .idle _ | .submitTimeout _ | .submitStir _
  | .destroyStir => True
  | .client k => G.stirs k
  | _ => False

def Scheduled (G : Getter B ν) (script : Script τ χ) (s : Program τ ρ σ ν) : Turn τ χ κ → Prop
  | .main => True
  | .env a => Ambient G script s.pool a

instance [DecidableEq χ] [DecidablePred G.stirs] (script : Script τ χ) (p : Pool τ ρ σ) :
    (a : Action τ χ κ) → Decidable (Ambient G script p a)
  | .exec w x =>
    decidable_of_iff (∀ job ∈ p.workers[w]?.bind Worker.job, x = script.run job.1.task) <| by
      constructor
      · intro all worker e stage here pc
        exact all (e, stage) (by simp [here, Worker.job, pc])
      · rintro all ⟨e, stage⟩ member
        obtain ⟨worker, here, own⟩ := Option.mem_bind_iff.mp member
        refine all worker e stage here ?_
        cases pc : worker.pc <;> simp_all [Worker.job]
  | .worker _ _ | .workerTimeout _ | .workerStir _ | .idle _ | .submitTimeout _ | .submitStir _
  | .destroyStir => .isTrue trivial
  | .client k => inferInstanceAs (Decidable (G.stirs k))
  | .call _ | .submit _ | .callStart _ | .start | .destroy | .destroyNext | .otherThread => .isFalse id

instance [DecidableEq χ] [DecidablePred G.stirs] (script : Script τ χ) (s : Program τ ρ σ ν) :
    (turn : Turn τ χ κ) → Decidable (Scheduled G script s turn)
  | .main => .isTrue trivial
  | .env a => inferInstanceAs (Decidable (Ambient G script s.pool a))

def launch (mode : PoolMode) (t threshold : Int) (results : ρ) : Program τ ρ σ ν :=
  ⟨configured 0 results mode t threshold, .entered, []⟩

/-- Everything a step of main can do. -/
inductive MainStep (B : Backend τ ρ σ χ κ) (G : Getter B ν) (script : Script τ χ)
    (s : Program τ ρ σ ν) : Program τ ρ σ ν → Prop where
  | calls {pool : Pool τ ρ σ} (place : s.main = .entered)
      (taken : step B s.pool (.callStart script.initThreadSize) = some pool) :
      MainStep B G script s { s with pool := pool, main := .starting }
  | starts {pool : Pool τ ρ σ} (place : s.main = .starting)
      (running : s.pool.startCall ≠ .returned) (taken : step B s.pool .start = some pool) :
      MainStep B G script s { s with pool := pool, main := .starting }
  | started (place : s.main = .starting) (done : s.pool.startCall = .returned) :
      MainStep B G script s { s with main := .submitting 0 }
  | submits {i : Nat} {task : τ} {pool : Pool τ ρ σ} (place : s.main = .submitting i)
      (more : script.tasks[i]? = some task) (taken : step B s.pool (.call task) = some pool) :
      MainStep B G script s { s with pool := pool, main := .awaiting i }
  | submitted {i : Nat} (place : s.main = .submitting i) (all : script.tasks[i]? = none) :
      MainStep B G script s { s with main := .asking 0 }
  | waits {i : Nat} {c : Submit τ} {pool : Pool τ ρ σ} (place : s.main = .awaiting i)
      (here : s.pool.submits[i]? = some c) (open_ : c.pc.final = false)
      (taken : step B s.pool (.submit i) = some pool) :
      MainStep B G script s { s with pool := pool, main := .awaiting i }
  | settles {i : Nat} {c : Submit τ} (place : s.main = .awaiting i)
      (here : s.pool.submits[i]? = some c) (final : c.pc.final) :
      MainStep B G script s { s with main := .submitting (i + 1) }
  | asks {i : Nat} {results : ρ} (place : s.main = .asking i) (more : i < script.tasks.length)
      (called : G.call s.pool.results i = some results) :
      MainStep B G script s
        { s with pool := { s.pool with results := results }, main := .getting i }
  | asked {i : Nat} (place : s.main = .asking i) (all : ¬ i < script.tasks.length) :
      MainStep B G script s { s with main := .dropping script.tasks.length }
  | gets {i : Nat} {results : ρ} (place : s.main = .getting i)
      (next : G.next s.pool.results i = some (results, none)) :
      MainStep B G script s { s with pool := { s.pool with results := results } }
  | answers {i : Nat} {results : ρ} {value : ν} (place : s.main = .getting i)
      (next : G.next s.pool.results i = some (results, some value)) :
      MainStep B G script s
        { s with
          pool := { s.pool with results := results }
          main := .asking (i + 1)
          answers := s.answers ++ [value] }
  | drops {left : Nat} {results : ρ} (place : s.main = .dropping (left + 1))
      (dropped : G.drop s.pool.results left = some results) :
      MainStep B G script s
        { s with pool := { s.pool with results := results }, main := .dropping left }
  | leaves {pool : Pool τ ρ σ} (place : s.main = .dropping 0)
      (taken : step B s.pool .destroy = some pool) :
      MainStep B G script s { s with pool := pool, main := .leaving }
  | destroys {pool : Pool τ ρ σ} (place : s.main = .leaving)
      (alive : s.pool.destroyCall ≠ .returned) (taken : step B s.pool .destroyNext = some pool) :
      MainStep B G script s { s with pool := pool, main := .leaving }
  | returns (place : s.main = .leaving) (gone : s.pool.destroyCall = .returned) :
      MainStep B G script s { s with main := .returned }

variable {script : Script τ χ} {s s' : Program τ ρ σ ν}

theorem mainNext_step (taken : mainNext B G script s = some s') : MainStep B G script s s' := by
  unfold mainNext at taken
  split at taken <;> rename_i place
  · obtain ⟨pool, stepped, rfl⟩ := Option.map_eq_some_iff.mp taken
    exact .calls place stepped
  · split at taken
    · rename_i done
      cases taken
      exact .started place done
    · rename_i running
      obtain ⟨pool, stepped, rfl⟩ := Option.map_eq_some_iff.mp taken
      exact .starts place running stepped
  · split at taken
    · rename_i task more
      obtain ⟨pool, stepped, rfl⟩ := Option.map_eq_some_iff.mp taken
      exact .submits place more stepped
    · rename_i all
      cases taken
      exact .submitted place all
  · split at taken
    · contradiction
    · rename_i c here
      split at taken
      · rename_i final
        cases taken
        exact .settles place here final
      · rename_i open_
        obtain ⟨pool, stepped, rfl⟩ := Option.map_eq_some_iff.mp taken
        exact .waits place here (by simpa using open_) stepped
  · split at taken
    · rename_i more
      obtain ⟨results, called, rfl⟩ := Option.map_eq_some_iff.mp taken
      exact .asks place more called
    · rename_i all
      cases taken
      exact .asked place all
  · split at taken
    · contradiction
    · rename_i results next
      cases taken
      exact .gets place next
    · rename_i results value next
      cases taken
      exact .answers place next
  · obtain ⟨pool, stepped, rfl⟩ := Option.map_eq_some_iff.mp taken
    exact .leaves place stepped
  · obtain ⟨results, dropped, rfl⟩ := Option.map_eq_some_iff.mp taken
    exact .drops place dropped
  · split at taken
    · rename_i gone
      cases taken
      exact .returns place gone
    · rename_i alive
      obtain ⟨pool, stepped, rfl⟩ := Option.map_eq_some_iff.mp taken
      exact .destroys place alive stepped
  · contradiction

/-- What every action but the four that begin something leaves alone. -/
structure Frame (p q : Pool τ ρ σ) : Prop where
  start : q.startCall = p.startCall
  destroy : q.destroyCall ≠ .notCalled ↔ p.destroyCall ≠ .notCalled
  tasks : q.submits.map Submit.task = p.submits.map Submit.task
  final : ∀ (j : Nat) (c : Submit τ), c.pc.final → p.submits[j]? = some c → q.submits[j]? = some c
  gone : p.destroyCall = .returned → q.destroyCall = .returned

def Begins : Action τ χ κ → Prop
  | .callStart _ | .start | .call _ | .destroy => True
  | _ => False

theorem move_final {a : Action τ χ κ} (move : QueueMove B p q a) {j : Nat} {d : Submit τ}
    (final : d.pc.final) (there : p.submits[j]? = some d) : q.submits[j]? = some d := by
  have apart {i : Nat} {c : Submit τ} (here : p.submits[i]? = some c) (open_ : c.pc.final = false) :
      i ≠ j := by
    rintro rfl
    obtain rfl : c = d := Option.some.inj (here.symm.trans there)
    rw [open_] at final
    contradiction
  cases move with
  | quiet quiet results => exact (quiet.settled j d final).mpr there
  | accepts here awake room after =>
    rw [after, (acceptTask_fields B p _ _).2.2.2.1, List.getElem?_set_ne (apart here (awake_open awake))]
    exact there
  | @rejects _ i c here pc full after =>
    subst after
    change (p.submits.set i _)[j]? = some d
    rw [List.getElem?_set_ne (apart here (by simp [pc, SubmitPc.final]))]
    exact there
  | takes here awake queue quiet results => exact (quiet.settled j d final).mpr there
  | execs here pc ran after | finishes here pc ran after =>
    subst after
    exact there
  | clients quiet done => exact (quiet.settled j d final).mpr there

theorem step_frame {a : Action τ χ κ} (taken : step B p a = some q) (other : ¬ Begins a) :
    Frame p q := by
  obtain ⟨⟨_, on⟩, outcome⟩ := step_outcome taken
  have life := outcome_life outcome
  have starting : a ≠ .start := by
    rintro rfl
    exact other trivial
  refine ⟨?_, ?_, ?_, fun j c final => move_final (outcome_move outcome) final, ?_⟩
  · cases outcome_roster outcome with
    | called m => exact absurd trivial other
    | starts next => exact absurd trivial other
    | quiet roster threads cur init ids start | grows mode below caller roster threads cur init ids start
    | exits here empty stopped roster threads cur init ids start
    | retires here expired surplus roster threads cur init ids start => exact start
  · refine ⟨fun begun => ?_, life.begun⟩
    rcases life.begins begun with before | rfl
    · exact before
    · exact absurd trivial other
  · rcases TaskResult.outcome_tasks outcome with same | ⟨task, rfl, _⟩
    · exact same
    · exact absurd trivial other
  · intro gone
    cases a with
    | client k =>
      cases outcome with
      | clients done => exact gone
      | submitAwakes here blocked how => simp at how
      | workerAwakes here blocked how => simp at how
    | _ => exact absurd gone on

section Beginnings

theorem step_callStart {n : Int} (taken : step B p (.callStart n) = some q) :
    q = { p with startCall := .setRunning n } := by
  cases (step_outcome taken).2 with
  | startCalled n settled standing => rfl
  | submitAwakes here blocked how => simp at how
  | workerAwakes here blocked how => simp at how

theorem step_call {task : τ} (taken : step B p (.call task) = some q) :
    q = { p with submits := p.submits ++ [⟨task, .entering⟩] } := by
  cases (step_outcome taken).2 with
  | called task => rfl
  | submitAwakes here blocked how => simp at how
  | workerAwakes here blocked how => simp at how

theorem step_destroy (taken : step B p .destroy = some q) :
    q = { p with isPoolRunning := false, destroyCall := .flagged } := by
  cases (step_outcome taken).2 with
  | flagged settled standing => rfl
  | submitAwakes here blocked how => simp at how
  | workerAwakes here blocked how => simp at how

theorem step_start (taken : step B p .start = some q) : q.startCall ≠ .notCalled ∧
    q.destroyCall = p.destroyCall ∧ q.submits = p.submits ∧ q.results = p.results := by
  have next := start_outcome (step_outcome taken).2
  cases next with
  | dereferencesNull i place => exact ⟨by simp [place], rfl, rfl, rfl⟩
  | setsRunning | setsInit | setsCur | creates | created | launches | launched | counts =>
    exact ⟨by simp, rfl, rfl, rfl⟩

end Beginnings

/-- The submissions main has made, and those whose call has returned. -/
def MainPc.called (all : Nat) : MainPc → Nat
  | .entered | .starting => 0
  | .submitting i => i
  | .awaiting i => i + 1
  | .asking _ | .getting _ | .dropping _ | .leaving | .returned => all

def MainPc.settled (all : Nat) : MainPc → Nat
  | .entered | .starting => 0
  | .submitting i | .awaiting i => i
  | .asking _ | .getting _ | .dropping _ | .leaving | .returned => all

def MainPc.answered (all : Nat) : MainPc → Nat
  | .entered | .starting | .submitting _ | .awaiting _ => 0
  | .asking i | .getting i => i
  | .dropping _ | .leaving | .returned => all

def MainPc.closing : MainPc → Bool
  | .leaving | .returned => true
  | _ => false

def MainPc.inside (all : Nat) : MainPc → Prop
  | .submitting i | .asking i | .dropping i => i ≤ all
  | .awaiting i | .getting i => i < all
  | _ => True

/-- Where start is while main is here. -/
def MainPc.startsAt (start : StartPc) : MainPc → Prop
  | .entered => start = .notCalled
  | .starting => start ≠ .notCalled
  | _ => start = .returned

/-- The pool is as far as main has brought it. -/
structure Tracks (script : Script τ χ) (s : Program τ ρ σ ν) : Prop where
  inside : s.main.inside script.tasks.length
  start : s.main.startsAt s.pool.startCall
  tasks : s.pool.submits.map Submit.task = script.tasks.take (s.main.called script.tasks.length)
  final : ∀ (j : Nat) (c : Submit τ), j < s.main.settled script.tasks.length →
    s.pool.submits[j]? = some c → c.pc.final
  destroy : s.main.closing ↔ s.pool.destroyCall ≠ .notCalled
  gone : s.main = .returned → s.pool.destroyCall = .returned
  answers : s.answers.length = s.main.answered script.tasks.length

theorem Tracks.calls_length (tracks : Tracks script s) :
    s.pool.submits.length = s.main.called script.tasks.length := by
  have within : s.main.called script.tasks.length ≤ script.tasks.length := by
    have inside := tracks.inside
    cases place : s.main <;> simp only [place, MainPc.called, MainPc.inside] at inside ⊢ <;> omega
  have same := congrArg List.length tracks.tasks
  rw [List.length_map, List.length_take] at same
  omega

/-- The i-th call is about the i-th task. -/
theorem Tracks.task (tracks : Tracks script s) {i : Nat} {c : Submit τ}
    (here : s.pool.submits[i]? = some c) : script.tasks[i]? = some c.task := by
  have listed : (s.pool.submits.map Submit.task)[i]? = some c.task := by
    rw [List.getElem?_map, here]
    rfl
  rw [tracks.tasks, List.getElem?_take] at listed
  split at listed
  · exact listed
  · contradiction

/-- A step of the pool that begins nothing. -/
theorem Tracks.framed (tracks : Tracks script s) (frame : Frame s.pool s'.pool)
    (main : s'.main = s.main) (answers : s'.answers = s.answers) : Tracks script s' where
  inside := main ▸ tracks.inside
  start := by
    rw [main, frame.start]
    exact tracks.start
  tasks := by
    rw [main, frame.tasks]
    exact tracks.tasks
  final j c before there := by
    rw [main] at before
    have short : j < s.pool.submits.length := by
      have same : s'.pool.submits.length = s.pool.submits.length := by
        simpa using congrArg List.length frame.tasks
      rw [← same]
      exact (List.getElem?_eq_some_iff.mp there).1
    have here := List.getElem?_eq_getElem short
    have final := tracks.final j _ before here
    obtain rfl : s.pool.submits[j] = c :=
      Option.some.inj ((frame.final j _ final here).symm.trans there)
    exact final
  destroy := by
    rw [main, frame.destroy]
    exact tracks.destroy
  gone returned := frame.gone (tracks.gone (main ▸ returned))
  answers := by
    rw [main, answers]
    exact tracks.answers

theorem results_frame (p : Pool τ ρ σ) (results : ρ) : Frame p { p with results := results } :=
  ⟨rfl, Iff.rfl, rfl, fun _ _ _ here => here, id⟩

theorem main_tracks (tracks : Tracks script s) (taken : MainStep B G script s s') :
    Tracks script s' := by
  have inside := tracks.inside
  have start := tracks.start
  have tasks := tracks.tasks
  have final := tracks.final
  have destroy := tracks.destroy
  have answers := tracks.answers
  cases taken with
  | calls place taken =>
    obtain rfl := step_callStart taken
    rw [place] at tasks destroy answers
    exact ⟨trivial, by simp [MainPc.startsAt], tasks, by simp [MainPc.settled], destroy, by simp, answers⟩
  | starts place running taken =>
    obtain ⟨begun, same, submits, _⟩ := step_start taken
    rw [place] at tasks destroy answers
    exact ⟨trivial, begun, by simpa only [submits] using tasks, by simp [MainPc.settled],
      by simpa only [same] using destroy, by simp, answers⟩
  | started place done =>
    rw [place] at tasks destroy answers
    exact ⟨Nat.zero_le _, done, tasks, by simp [MainPc.settled], destroy, by simp, answers⟩
  | @submits i task pool place more taken =>
    obtain rfl := step_call taken
    have short : i < script.tasks.length := (List.getElem?_eq_some_iff.mp more).1
    rw [place] at start tasks destroy answers final
    refine ⟨short, start, ?_, ?_, destroy, by simp, answers⟩
    · simp only [MainPc.called] at tasks ⊢
      rw [List.map_append, tasks, List.take_add_one, more]
      rfl
    · intro j c before there
      have old : j < s.pool.submits.length := by
        rw [tracks.calls_length, place]
        exact before
      rw [List.getElem?_append_left old] at there
      exact final j c before there
  | @submitted i place all =>
    rw [place] at inside start tasks destroy answers final
    have last : i = script.tasks.length := by
      have beyond := List.getElem?_eq_none_iff.mp all
      simp only [MainPc.inside] at inside
      omega
    subst last
    exact ⟨Nat.zero_le _, start, tasks, final, destroy, by simp, answers⟩
  | waits place here open_ taken =>
    exact tracks.framed (step_frame taken id) place.symm rfl
  | @settles i c place here settled =>
    rw [place] at inside start tasks destroy answers final
    refine ⟨inside, start, tasks, ?_, destroy, by simp, answers⟩
    intro j d before there
    rcases Nat.lt_succ_iff_lt_or_eq.mp before with earlier | rfl
    · exact final j d earlier there
    · obtain rfl : c = d := Option.some.inj (here.symm.trans there)
      exact settled
  | asks place more called =>
    rw [place] at start tasks destroy answers final
    exact ⟨more, start, tasks, final, destroy, by simp, answers⟩
  | @asked i place all =>
    rw [place] at inside start tasks destroy answers final
    have last : i = script.tasks.length := by
      simp only [MainPc.inside] at inside
      omega
    exact ⟨Nat.le_refl _, start, tasks, final, destroy, by simp, last ▸ answers⟩
  | drops place dropped =>
    rw [place] at inside start tasks destroy answers final
    exact ⟨Nat.le_of_succ_le inside, start, tasks, final, destroy, by simp, answers⟩
  | leaves place taken =>
    obtain rfl := step_destroy taken
    rw [place] at start tasks answers final
    exact ⟨trivial, start, tasks, final, by simp [MainPc.closing], by simp, answers⟩
  | gets place next => exact tracks.framed (results_frame _ _) rfl rfl
  | @answers i results value place next =>
    rw [place] at inside start tasks destroy answers final
    refine ⟨inside, start, tasks, final, destroy, by simp, ?_⟩
    simp only [List.length_append, List.length_singleton, answers, MainPc.answered]
  | destroys place alive taken =>
    exact tracks.framed (step_frame taken id) place.symm rfl
  | returns place gone =>
    rw [place] at start tasks destroy answers final
    exact ⟨trivial, start, tasks, final, destroy, fun _ => gone, answers⟩

/-- The steps of a pool under such a main. -/
def Driven (G : Getter B ν) (script : Script τ χ) (p : Pool τ ρ σ) : Action τ χ κ → Prop
  | .callStart n => n = script.initThreadSize ∧ p.startCall = .notCalled
  | .call task => p.startCall = .returned ∧ p.destroyCall = .notCalled ∧
      script.tasks[p.submits.length]? = some task ∧
      p.submits.map Submit.task = script.tasks.take p.submits.length
  | .destroy => p.startCall = .returned ∧ ∀ c ∈ p.submits, c.pc.pending = false
  | .exec w x => ∀ worker e stage, p.workers[w]? = some worker → worker.pc = .running e stage →
      x = script.run e.task
  | .client k => G.own k ∨ G.parting k ∨ G.stirs k
  | .otherThread => False
  | _ => True

/-- The steps that main takes itself. -/
def Own (G : Getter B ν) (main : MainPc) : Action τ χ κ → Prop
  | .callStart _ | .start | .call _ | .submit _ | .destroy | .destroyNext => True
  | .client k => G.own k ∨ G.parting k ∧ ∃ left, main = .dropping left
  | _ => False

theorem ambient_driven {a : Action τ χ κ} (ambient : Ambient G script p a) :
    Driven G script p a ∧ ¬ Begins a := by
  cases a with
  | client k => exact ⟨Or.inr (Or.inr ambient), id⟩
  | _ => first | exact ⟨ambient, id⟩ | exact ⟨trivial, id⟩ | exact ambient.elim

theorem final_not_pending {pc : SubmitPc} (final : pc.final) : pc.pending = false := by
  cases pc <;> simp_all [SubmitPc.final, SubmitPc.pending]

theorem driven_orderly {a : Action τ χ κ} (driven : Driven G script p a) :
    Orderly script.initThreadSize p a := by
  cases a <;> first | exact driven | exact ⟨driven.1, driven.2.1⟩ | exact trivial | exact driven.elim

/-- A step of main is nothing to the pool, a step of the pool, or a polite step of a client. -/
theorem main_pool (tracks : Tracks script s) (found : s.pool.nullThread = false)
    (taken : MainStep B G script s s') :
    s'.pool = s.pool ∨
      ∃ a, Driven G script s.pool a ∧ Own G s.main a ∧ step B s.pool a = some s'.pool := by
  have start := tracks.start
  have destroy := tracks.destroy
  have length := tracks.calls_length
  have tasks := tracks.tasks
  have client {results : ρ} {k : κ} (done : B.client s.pool.results k = some results) :
      step B s.pool (.client k) = some { s.pool with results := results } := by
    simp [step, found, enabled, perform, done]
  have gets {results : ρ} (moved : results = s.pool.results ∨
      ∃ k, G.own k ∧ B.client s.pool.results k = some results) :
      ({ s.pool with results := results } : Pool τ ρ σ) = s.pool ∨
        ∃ a, Driven G script s.pool a ∧ Own G s.main a ∧
          step B s.pool a = some { s.pool with results := results } := by
    rcases moved with rfl | ⟨k, own, done⟩
    · exact Or.inl rfl
    · exact Or.inr ⟨.client k, Or.inl own, Or.inl own, client done⟩
  cases taken with
  | calls place taken =>
    rw [place] at start
    exact Or.inr ⟨.callStart _, ⟨rfl, start⟩, trivial, taken⟩
  | starts place running taken => exact Or.inr ⟨.start, trivial, trivial, taken⟩
  | @submits i task pool place more taken =>
    rw [place] at start destroy length tasks
    simp only [MainPc.called] at length tasks
    refine Or.inr ⟨.call task, ⟨start, ?_, ?_, ?_⟩, trivial, taken⟩
    · by_contra begun
      simpa [MainPc.closing] using destroy.mpr begun
    · rw [length]
      exact more
    · rw [length]
      exact tasks
  | waits place here open_ taken => exact Or.inr ⟨.submit _, trivial, trivial, taken⟩
  | asks place more called => exact gets (G.call_client called)
  | drops place dropped =>
    rcases G.drop_client dropped with rfl | ⟨k, parting, done⟩
    · exact Or.inl rfl
    · exact Or.inr ⟨.client k, Or.inr (Or.inl parting), Or.inr ⟨parting, _, place⟩, client done⟩
  | leaves place taken =>
    have final := tracks.final
    rw [place] at start final length
    simp only [MainPc.called, MainPc.settled] at final length
    refine Or.inr ⟨.destroy, ⟨start, fun c member => ?_⟩, trivial, taken⟩
    obtain ⟨j, here⟩ := List.getElem?_of_mem member
    have short := (List.getElem?_eq_some_iff.mp here).1
    exact final_not_pending (final j c (length ▸ short) here)
  | gets place next => exact gets (G.next_client next)
  | answers place next => exact gets (G.next_client next)
  | destroys place alive taken => exact Or.inr ⟨.destroyNext, trivial, trivial, taken⟩
  | started | submitted | settles | asked | returns => exact Or.inl rfl

/-- Every run of the program is one of its pool, which main has brought as far as it is. -/
theorem program_pool {n : Nat} (size : script.initThreadSize = n) {mode : PoolMode} {t threshold : Int}
    {results : ρ}
    (reached : Machine.Reach (programStep B G script) (Scheduled G script)
      (launch mode t threshold results) s) :
    Tracks script s ∧
      Machine.Reach (step B) (Driven G script) (configured 0 results mode t threshold) s.pool := by
  induction reached with
  | start =>
    refine ⟨?_, .start⟩
    unfold launch
    rw [configured_fields]
    constructor <;> simp [MainPc.inside, MainPc.startsAt, MainPc.called, MainPc.settled,
      MainPc.closing, MainPc.answered, newPool]
  | @next s s' turn before permit taken ih =>
    obtain ⟨tracks, pool⟩ := ih
    cases turn with
    | main =>
      have moved := mainNext_step taken
      have orderly : Machine.Reach (step B) (Orderly n) (configured 0 results mode t threshold) s.pool :=
        pool.weaken fun p a driven => size ▸ driven_orderly driven
      refine ⟨main_tracks tracks moved, ?_⟩
      rcases main_pool tracks (reachable_manned (by omega) orderly).found moved with
        same | ⟨a, driven, _, stepped⟩
      · rwa [same]
      · exact pool.next driven stepped
    | env a =>
      obtain ⟨q, stepped, rfl⟩ := Option.map_eq_some_iff.mp taken
      obtain ⟨driven, other⟩ := ambient_driven permit
      exact ⟨tracks.framed (step_frame stepped other) rfl rfl, pool.next driven stepped⟩

end ThreadPool
