import ServerPools.Threads.Semaphore
import ServerPools.Threads.Delivery

/- The semaphore inside a Result is the semaphore of threadpool.h by itself: what the pool and
   its clients do to one that is not destroyed is a run of calls of wait and post. -/
namespace TaskResult
open ThreadPool

namespace Semaphore
variable {limit : Int} {s t : Calls} {j : Nat} {pc : CallPc}

abbrev Run (limit : Int) (s : Calls) : Prop := Machine.Reach step Kept (construct limit) s

/-- A call of wait gets to the lock, for the first time or again. -/
theorem Run.arrives (run : Run limit s) (open_ : s.sem.isExit = false)
    (here : s.calls[j]? = some pc) (comes : pc = .waitCalled ∨ pc = .woken) :
    ∃ t, Run limit t ∧ t.sem = s.sem ∧ (t.calls[j]? = some .waitLocking ∨ t.calls[j]? = some .woken) ∧
      ∀ next, t.calls.set j next = s.calls.set j next := by
  rcases comes with rfl | rfl
  · have checked : step s (.check j) = some (setCall s j .waitLocking) := by
      simp [step, check, here, open_]
    have inside := (List.getElem?_eq_some_iff.mp here).1
    refine ⟨_, run.next (by simp [Kept]) checked, rfl, Or.inl ?_, ?_⟩
    · simp [setCall, inside]
    · intro next
      exact List.set_set ..
  · exact ⟨s, run, rfl, Or.inr here, fun _ => rfl⟩

theorem Run.acquires (run : Run limit s) (open_ : s.sem.isExit = false)
    (here : s.calls[j]? = some pc) (comes : pc = .waitCalled ∨ pc = .woken)
    (free : 0 < s.sem.resLimit) : ∃ t, Run limit t ∧
      t.sem = { s.sem with resLimit := s.sem.resLimit - 1 } ∧ t.calls = s.calls.set j .waited := by
  obtain ⟨mid, arrived, sem, at_lock, same⟩ := run.arrives open_ here comes
  have taken : step mid (.wait j) = some (setCall { mid with
      sem := { mid.sem with resLimit := mid.sem.resLimit - 1 } } j .waited) := by
    rcases at_lock with there | there <;> simp [step, wait, there, sem, free]
  refine ⟨_, arrived.next (by simp [Kept]) taken, ?_, same .waited⟩
  simp only [setCall, sem]

theorem Run.blocks (run : Run limit s) (open_ : s.sem.isExit = false)
    (here : s.calls[j]? = some pc) (comes : pc = .waitCalled ∨ pc = .woken)
    (taken : ¬ 0 < s.sem.resLimit) :
    ∃ t, Run limit t ∧ t.sem = s.sem ∧ t.calls = s.calls.set j .blocked := by
  obtain ⟨mid, arrived, sem, at_lock, same⟩ := run.arrives open_ here comes
  have stepped : step mid (.wait j) = some (setCall mid j .blocked) := by
    rcases at_lock with there | there <;> simp [step, wait, there, sem, taken]
  exact ⟨_, arrived.next (by simp [Kept]) stepped, sem, same .blocked⟩

/-- A whole call of post. -/
theorem Run.posts (run : Run limit s) (open_ : s.sem.isExit = false) : ∃ t, Run limit t ∧
    t.sem = { s.sem with resLimit := s.sem.resLimit + 1 } ∧
      t.calls = s.calls.map CallPc.wake ++ [.posted] := by
  let n := s.calls.length
  let called : Calls := { s with calls := s.calls ++ [.postCalled] }
  let locking : Calls := { s with calls := s.calls ++ [.postLocking] }
  have call : step s .callPost = some called := rfl
  have checked : step called (.check n) = some locking := by
    simp [step, check, called, locking, n, setCall, open_]
  have posted : step locking (.post n) = some ⟨{ s.sem with resLimit := s.sem.resLimit + 1 },
      s.calls.map CallPc.wake ++ [.posted]⟩ := by
    simp [step, post, locking, n, setCall]
  exact ⟨_, ((run.next (by simp [Kept]) call).next (by simp [Kept]) checked).next (by simp [Kept])
    posted, rfl, rfl⟩

end Semaphore

open Semaphore

variable {τ α : Type}

/-- Where the call of wait inside a get is, until it returns. -/
def GetPc.place : GetPc α → Option CallPc
  | .entering => some .waitCalled
  | .blocked => some .blocked
  | .woken => some .woken
  | .acquired | .returned _ => none

/-- The semaphore of the Result r is in the state t of a run, and the gets on r that have not
    passed are among its calls. -/
structure Mirror (v : View α) (r : Result α) (t : Calls) : Prop where
  run : Run 0 t
  sem : t.sem = r.sem
  open_ : r.sem.isExit = false
  calls : ∃ others, t.calls.Perm (v.gets.filterMap GetPc.place ++ others)

structure View.Mirrored (v : View α) : Prop where
  unborn : v.object = none → v.gets = []
  live : ∀ r, v.object = some r → r.live = true → ∃ t, Mirror v r t

section Calls
variable {v v' : View α} {r r' : Result α} {t : Calls}

/-- One get that has not passed is one of the calls, and the others are there beside it. -/
theorem Mirror.single_out (mirror : Mirror v r t) {pc : GetPc α} {rest : List (GetPc α)}
    {at_ : CallPc} (before : v.gets.Perm (pc :: rest)) (place : pc.place = some at_) :
    ∃ j others, t.calls[j]? = some at_ ∧ ∀ next, (t.calls.set j next).Perm
      (next :: (rest.filterMap GetPc.place ++ others)) := by
  obtain ⟨others, calls⟩ := mirror.calls
  have places := before.filterMap GetPc.place
  rw [List.filterMap_cons_some place] at places
  have split : t.calls.Perm (at_ :: (rest.filterMap GetPc.place ++ others)) :=
    calls.trans (places.append_right others)
  obtain ⟨j, here⟩ := List.getElem?_of_mem (split.mem_iff.mpr List.mem_cons_self)
  obtain ⟨left, out, set⟩ := Agents.single_out here
  have same := List.Perm.cons_inv (out.symm.trans split)
  exact ⟨j, others, here, fun next => (set next).trans (same.cons next)⟩

/-- The get goes on to another place of its call, or is done with it. -/
theorem Mirror.moved {pc : GetPc α} {rest : List (GetPc α)} {others : List CallPc} {next : CallPc}
    (run : Run 0 t) (sem : t.sem = r'.sem) (open_ : r'.sem.isExit = false)
    (calls : t.calls.Perm (next :: (rest.filterMap GetPc.place ++ others)))
    (after : v'.gets.Perm (pc :: rest)) (place : pc.place = some next ∨ pc.place = none) :
    Mirror v' r' t := by
  have places := after.filterMap GetPc.place
  refine ⟨run, sem, open_, ?_⟩
  rcases place with same | none_
  · rw [List.filterMap_cons_some same] at places
    exact ⟨others, calls.trans (places.symm.append_right others)⟩
  · rw [List.filterMap_cons_none none_] at places
    refine ⟨next :: others, calls.trans ?_⟩
    exact List.perm_middle.symm.trans (places.symm.append_right _)

/-- A get that leaves the semaphore alone drops out of the calls, or was not among them. -/
theorem Mirror.left (mirror : Mirror v r t) {pc pc' : GetPc α} {rest : List (GetPc α)}
    (before : v.gets.Perm (pc :: rest)) (after : v'.gets.Perm (pc' :: rest))
    (sem : r'.sem = r.sem) (place : pc'.place = none) : Mirror v' r' t := by
  obtain ⟨others, calls⟩ := mirror.calls
  have places := after.filterMap GetPc.place
  rw [List.filterMap_cons_none place] at places
  refine ⟨mirror.run, mirror.sem.trans sem.symm, sem ▸ mirror.open_, ?_⟩
  have first := calls.trans ((before.filterMap GetPc.place).append_right others)
  cases here : pc.place with
  | none =>
    rw [List.filterMap_cons_none here] at first
    exact ⟨others, first.trans (places.symm.append_right others)⟩
  | some at_ =>
    rw [List.filterMap_cons_some here] at first
    exact ⟨at_ :: others, first.trans (List.perm_middle.symm.trans (places.symm.append_right _))⟩

/-- A step of a get is a step of its call of wait. -/
theorem Mirror.steps (mirror : Mirror v r t) {pc pc' : GetPc α} {rest : List (GetPc α)}
    (taken : GetStep r pc r' pc') (before : v.gets.Perm (pc :: rest))
    (after : v'.gets.Perm (pc' :: rest)) : ∃ t', Mirror v' r' t' := by
  have comes (at_wait : pc = .entering ∧ r.isValid = true ∨ pc = .woken) :
      ∃ at_, pc.place = some at_ ∧ (at_ = .waitCalled ∨ at_ = .woken) := by
    rcases at_wait with ⟨rfl, _⟩ | rfl
    · exact ⟨_, rfl, Or.inl rfl⟩
    · exact ⟨_, rfl, Or.inr rfl⟩
  have still : t.sem.isExit = false := mirror.sem ▸ mirror.open_
  cases taken with
  | refused invalid => exact ⟨t, mirror.left before after rfl rfl⟩
  | exited valid exit => simp [mirror.open_] at exit
  | acquires at_wait free =>
    obtain ⟨at_, place, waits⟩ := comes at_wait
    obtain ⟨j, others, here, set⟩ := mirror.single_out before place
    obtain ⟨t', run, sem, calls⟩ := mirror.run.acquires still here waits (mirror.sem ▸ free)
    refine ⟨t', Mirror.moved run ?_ mirror.open_ (calls ▸ set .waited) after (Or.inr rfl)⟩
    rw [sem, mirror.sem]
  | blocks at_wait unfree =>
    obtain ⟨at_, place, waits⟩ := comes at_wait
    obtain ⟨j, others, here, set⟩ := mirror.single_out before place
    obtain ⟨t', run, sem, calls⟩ := mirror.run.blocks still here waits (mirror.sem ▸ unfree)
    exact ⟨t', Mirror.moved run (sem.trans mirror.sem) mirror.open_ (calls ▸ set .blocked) after
      (Or.inl rfl)⟩
  | takes => exact ⟨t, mirror.left before after rfl rfl⟩

theorem Mirror.stirred (mirror : Mirror v r t) {rest : List (GetPc α)}
    (before : v.gets.Perm (.blocked :: rest)) (after : v'.gets.Perm (.woken :: rest)) :
    ∃ t', Mirror v' r t' := by
  obtain ⟨j, others, here, set⟩ := mirror.single_out before rfl
  have stirs : Semaphore.step t (.stir j) = some (setCall t j .woken) := by
    simp [Semaphore.step, stir, here]
  exact ⟨_, Mirror.moved (mirror.run.next (by simp [Kept]) stirs) mirror.sem mirror.open_
    (set .woken) after (Or.inl rfl)⟩

theorem Mirror.called (mirror : Mirror v r t) :
    ∃ t', Mirror { v with gets := v.gets ++ [.entering] } r t' := by
  obtain ⟨others, calls⟩ := mirror.calls
  have call : Semaphore.step t .callWait = some { t with calls := t.calls ++ [.waitCalled] } := rfl
  refine ⟨_, mirror.run.next (by simp [Kept]) call, mirror.sem, mirror.open_, others, ?_⟩
  rw [List.filterMap_append, List.append_assoc]
  refine (calls.append_right _).trans ?_
  rw [List.append_assoc]
  exact List.perm_append_comm.append_left _

/-- The post wakes the gets that are blocked. -/
theorem Mirror.posted (mirror : Mirror v r t) : ∃ t', Mirror
    { v with
      object := some { r with sem := { r.sem with resLimit := r.sem.resLimit + 1 } }
      gets := v.gets.map GetPc.wake }
    { r with sem := { r.sem with resLimit := r.sem.resLimit + 1 } } t' := by
  obtain ⟨others, calls⟩ := mirror.calls
  obtain ⟨t', run, sem, after⟩ := mirror.run.posts (mirror.sem ▸ mirror.open_)
  refine ⟨t', run, by rw [sem, mirror.sem], mirror.open_, others.map CallPc.wake ++ [.posted], ?_⟩
  have woken : (v.gets.map GetPc.wake).filterMap GetPc.place =
      (v.gets.filterMap GetPc.place).map CallPc.wake := by
    rw [List.filterMap_map, List.map_filterMap]
    apply List.filterMap_congr
    intro pc _
    cases pc <;> rfl
  rw [after, woken, ← List.append_assoc, ← List.map_append]
  exact (calls.map CallPc.wake).append_right _

theorem move_mirrored {i : Nat} {k : ClientAction} (mirrored : v.Mirrored)
    (move : ViewMove i v v' k) : v'.Mirrored := by
  cases move with
  | @called r object live after =>
    subst after
    refine ⟨fun absent => absurd (object.symm.trans absent) (by simp), fun r' object' live' => ?_⟩
    obtain ⟨t, mirror⟩ := mirrored.live r' object' live'
    exact mirror.called
  | @moved _ r r' pc pc' rest object taken before object' produced' after =>
    refine ⟨fun absent => by simp [absent] at object', fun r₁ object₁ live' => ?_⟩
    obtain rfl : r' = r₁ := Option.some.inj (object'.symm.trans object₁)
    obtain ⟨t, mirror⟩ := mirrored.live r object ((getStep_kept taken).2 ▸ live')
    exact mirror.steps taken before after
  | @stirred _ rest object' produced' before after =>
    constructor
    · intro absent
      have nobody := mirrored.unborn (object' ▸ absent)
      rw [nobody] at before
      simp at before
    · intro r object₁ live
      obtain ⟨t, mirror⟩ := mirrored.live r (object' ▸ object₁) live
      exact mirror.stirred before after
  | @dropped r object live idle after =>
    subst after
    refine ⟨fun absent => by simp at absent, fun r' object' live' => ?_⟩
    obtain rfl := Option.some.inj object'
    simp at live'

/-- The other fields of a Result are nothing to its semaphore. -/
theorem View.Mirrored.rewritten (mirrored : v.Mirrored) (gets : v'.gets = v.gets)
    (object : v.object = some r) (object' : v'.object = some r') (sem : r'.sem = r.sem)
    (live : r'.live = r.live) : v'.Mirrored := by
  refine ⟨fun absent => by simp [absent] at object', fun r₁ object₁ live₁ => ?_⟩
  obtain rfl : r' = r₁ := Option.some.inj (object'.symm.trans object₁)
  obtain ⟨t, mirror⟩ := mirrored.live r object (live ▸ live₁)
  exact ⟨t, mirror.run, mirror.sem.trans sem.symm, sem ▸ mirror.open_, gets ▸ mirror.calls⟩

end Calls

section Side
variable {s s' : Side τ α}

/-- What is done to one Result leaves the others as they are. -/
theorem mirrored_beside {i : Nat} (mirrored : ∀ j, (s.view j).Mirrored)
    (away : ∀ j ≠ i, s'.view j = s.view j) (own : (s'.view i).Mirrored) :
    ∀ j, (s'.view j).Mirrored := by
  intro j
  by_cases same : j = i
  · exact same ▸ own
  · rw [away j same]
    exact mirrored j

theorem post_mirrored {i : Nat} (mirrored : ∀ j, (s.view j).Mirrored) (taken : post s i = some s') :
    ∀ j, (s'.view j).Mirrored := by
  cases object : s.objects i with
  | none => simp [post, object] at taken
  | some r =>
    cases exit : r.sem.isExit with
    | true =>
      simp only [post, object, exit, if_true] at taken
      cases taken
      exact mirrored
    | false =>
      obtain ⟨_, others, own⟩ := post_view object exit taken
      apply mirrored_beside mirrored others
      rw [own]
      refine ⟨fun absent => by simp at absent, fun r' object' live => ?_⟩
      obtain rfl := Option.some.inj object'
      obtain ⟨t, mirror⟩ := (mirrored i).live r object live
      exact mirror.posted

theorem exec_mirrored {e : Entry τ} {stage : Stage α} {value : Any α} {next : Option (Stage α)}
    (mirrored : ∀ j, (s.view j).Mirrored) (taken : exec s e stage value = some (s', next)) :
    ∀ j, (s'.view j).Mirrored := by
  cases stage with
  | test =>
    simp only [exec] at taken
    split at taken <;> cases taken <;> exact mirrored
  | load =>
    obtain ⟨i, _, after⟩ := Option.map_eq_some_iff.mp taken
    cases after
    exact mirrored
  | runTask i =>
    cases taken
    intro j
    refine ⟨(mirrored j).unborn, fun r object live => ?_⟩
    obtain ⟨t, mirror⟩ := (mirrored j).live r object live
    exact ⟨t, mirror.run, mirror.sem, mirror.open_, mirror.calls⟩
  | store i any =>
    obtain ⟨r, object, after⟩ := Option.map_eq_some_iff.mp taken
    cases after
    apply mirrored_beside mirrored fun j other => setObject_view s i _ other
    exact (mirrored i).rewritten rfl object (setObject_object s i _) rfl rfl
  | post i =>
    obtain ⟨after, posted, same⟩ := Option.map_eq_some_iff.mp taken
    cases same
    exact post_mirrored mirrored posted

theorem client_mirrored {k : ClientAction} (mirrored : ∀ j, (s.view j).Mirrored)
    (taken : client s k = some s') : ∀ j, (s'.view j).Mirrored := by
  obtain ⟨_, i, away, move⟩ := client_moved taken
  exact mirrored_beside mirrored away (move_mirrored (mirrored i) move)

/-- A semaphore starts with nothing to hand out and nobody waiting. -/
theorem construct_mirrored [DecidableEq τ] {i : Nat} (mirrored : ∀ j, (s.view j).Mirrored)
    (unborn : s.objects i = none) (isValid : Bool) (task : τ) :
    ∀ j, ((construct isValid s i task).view j).Mirrored := by
  apply mirrored_beside mirrored fun j other => construct_others s isValid i task other
  rw [construct_view]
  refine ⟨fun absent => by simp at absent, fun r object live => ?_⟩
  obtain rfl := Option.some.inj object
  refine ⟨Semaphore.construct 0, .start, rfl, rfl, [], ?_⟩
  simp [(mirrored i).unborn unborn, Semaphore.construct]

end Side

/-- A Result exists when its submission has returned. -/
structure Mirroring (p : ResultPool τ α) : Prop where
  constructed : ∀ i, p.results.objects i ≠ none → ∃ c, p.submits[i]? = some c ∧ c.pc.final
  mirrored : ∀ i, (p.results.view i).Mirrored

section Pool
variable {p q : ResultPool τ α}

theorem Mirroring.kept (law : Mirroring p) (mirrored : ∀ i, (q.results.view i).Mirrored)
    (objects : ∀ i, p.results.objects i = none → q.results.objects i = none)
    (settled : ∀ (i : Nat) (c : Submit τ), c.pc.final →
      (q.submits[i]? = some c ↔ p.submits[i]? = some c)) : Mirroring q := by
  refine ⟨fun i present => ?_, mirrored⟩
  obtain ⟨c, here, final⟩ := law.constructed i fun absent => present (objects i absent)
  exact ⟨c, (settled i c final).mpr here, final⟩

theorem exec_unborn {s s' : Side τ α} {e : Entry τ} {stage : Stage α} {value : Any α}
    {next : Option (Stage α)} (taken : exec s e stage value = some (s', next)) (i : Nat)
    (absent : s.objects i = none) : s'.objects i = none := by
  have same : s'.lives i = s.lives i := (exec_kept taken).2.1 i
  simpa [Side.lives, absent] using same

theorem client_unborn {s s' : Side τ α} {k : ClientAction} (taken : client s k = some s') (i : Nat)
    (absent : s.objects i = none) : s'.objects i = none := by
  have same : s'.setVals i = s.setVals i := (client_kept taken).2.1 i
  simpa [Side.setVals, absent] using same

variable [DecidableEq τ]

theorem constructs_mirroring (law : Mirroring p) {i : Nat} {c : Submit τ} {pc : SubmitPc}
    (isValid : Bool) (here : p.submits[i]? = some c) (open_ : c.pc.final = false)
    (final : pc.final) (results : q.results = construct isValid p.results i c.task)
    (submits : q.submits = p.submits.set i { c with pc := pc }) : Mirroring q := by
  have unborn : p.results.objects i = none := by
    by_contra present
    obtain ⟨d, there, done⟩ := law.constructed i present
    obtain rfl := Option.some.inj (here.symm.trans there)
    simp [open_] at done
  constructor
  · intro j present
    rw [results] at present
    rw [submits]
    by_cases same : j = i
    · subst same
      have inside := (List.getElem?_eq_some_iff.mp here).1
      exact ⟨_, List.getElem?_set_self inside, final⟩
    · have old : p.results.objects j ≠ none := by
        simpa [construct, setResult, setObject, Function.update_of_ne same] using present
      obtain ⟨d, there, done⟩ := law.constructed j old
      exact ⟨d, (List.getElem?_set_ne (Ne.symm same)).trans there, done⟩
  · rw [results]
    exact construct_mirrored law.mirrored unborn isValid c.task

theorem move_mirroring {a : Action τ (Any α) ClientAction} (law : Mirroring p)
    (move : QueueMove resultBackend p q a) : Mirroring q := by
  cases move with
  | quiet quiet results =>
    exact law.kept (results ▸ law.mirrored) (fun i absent => results ▸ absent) quiet.settled
  | @accepts _ i c here awake room after =>
    subst after
    obtain ⟨_, _, _, submits, _⟩ := acceptTask_fields resultBackend p i c
    exact constructs_mirroring law true here (awake_open awake) rfl rfl submits
  | rejects here pc full after =>
    subst after
    exact constructs_mirroring law false here (by simp [pc, SubmitPc.final]) rfl rfl rfl
  | takes here awake queue quiet results =>
    exact law.kept (results ▸ law.mirrored) (fun i absent => results ▸ absent) quiet.settled
  | execs here pc ran after =>
    subst after
    exact law.kept (exec_mirrored law.mirrored ran) (exec_unborn ran) fun _ _ _ => Iff.rfl
  | finishes here pc ran after =>
    subst after
    exact law.kept (exec_mirrored law.mirrored ran) (exec_unborn ran) fun _ _ _ => Iff.rfl
  | clients quiet done =>
    exact law.kept (client_mirrored law.mirrored done) (client_unborn done) quiet.settled

theorem reachable_mirroring {generateID : Nat} {mode : PoolMode} {threadhold threshold : Int}
    (reached : Machine.Reachable (step resultBackend)
      (configured generateID emptySide mode threadhold threshold) p) : Mirroring p := by
  refine reached.invariant ?_ fun _ law _ taken => move_mirroring law (outcome_move (step_outcome taken).2)
  rw [configured_fields]
  refine ⟨?_, fun i => ⟨fun _ => rfl, ?_⟩⟩ <;> simp [newPool, emptySide, Side.view]

/-- In every state of every run, whatever is submitted twice or destroyed: the semaphore of a
    Result that is not destroyed is not negative, and when a get could pass it none is blocked. -/
theorem result_unblocked {generateID : Nat} {mode : PoolMode} {threadhold threshold : Int}
    (reached : Machine.Reachable (step resultBackend)
      (configured generateID emptySide mode threadhold threshold) p) {i : Nat} {r : Result α}
    (object : p.results.objects i = some r) (live : r.live = true) :
    0 ≤ r.sem.resLimit ∧ (0 < r.sem.resLimit → ∀ g ∈ p.results.gets, g.result = i →
      g.pc ≠ .blocked) := by
  obtain ⟨t, mirror⟩ := ((reachable_mirroring reached).mirrored i).live r object live
  have law := run_conserved (construct_conserved (Int.le_refl 0)) mirror.run
  rw [← mirror.sem]
  refine ⟨law.nonneg, fun free g member on blocked => law.noneBlocked free ?_⟩
  obtain ⟨others, calls⟩ := mirror.calls
  have inside : .blocked ∈ (p.results.view i).gets :=
    List.mem_filterMap.mpr ⟨g, member, by rw [← blocked]; exact if_pos on⟩
  have place : CallPc.blocked ∈ (p.results.view i).gets.filterMap GetPc.place :=
    List.mem_filterMap.mpr ⟨_, inside, rfl⟩
  exact calls.mem_iff.mpr (List.mem_append_left others place)

end Pool

end TaskResult
