import ServerPools.Connections.Ownership

/- How long a call of getConnection may wait. Each wait_for is given the whole timeout, also
   when the call has been woken before and found the queue empty again. -/
namespace ConnectionPool
open Machine

variable {p q : Pool} {a : Action} {i : Nat} {b : Borrower}

/-- timeout microseconds from its first wait on, no wait of the call is to last. -/
def Borrower.Patient (timeout : Int) (b : Borrower) : Prop :=
  ∀ deadline, b.pc = .blocked deadline →
    ∃ first, b.firstWait = some first ∧ deadline ≤ first + timeout

/-- No call of getConnection is to wait beyond the timeout counted from its first wait. -/
def Patient (p : Pool) : Prop :=
  ∀ b ∈ p.borrowers, b.Patient (p.config.connectionTimeout * 1000)

/-- A caller that is notified and has the lock back before its deadline finds a connection. -/
def WokenServed (p : Pool) : Action → Prop
  | .getConnection i => ∀ b ∈ p.borrowers[i]?, b.pc.inTime p.now → p.connetionQueue ≠ []
  | _ => True

instance : Decidable (WokenServed p a) :=
  match a with
  | .getConnection i =>
    inferInstanceAs (Decidable (∀ b ∈ p.borrowers[i]?, b.pc.inTime p.now → p.connetionQueue ≠ []))
  | .construct _ _ | .call | .expire _ | .stir _ | .deleter _ | .produce _ _ | .stirProducer
  | .scan | .pass _ _ => .isTrue trivial

def BorrowerPc.deadline : BorrowerPc → Option Int
  | .blocked deadline | .woken deadline => some deadline
  | _ => none

/-- What holds of a call whose wait was never renewed: a new call has not waited, and the
    deadline is the timeout after the first wait. -/
structure Borrower.WaitsOnce (timeout now : Int) (b : Borrower) : Prop where
  fresh : b.pc = .entering → b.firstWait = none
  once : ∀ deadline, b.pc.deadline = some deadline →
    ∃ first, b.firstWait = some first ∧ first ≤ now ∧ deadline = first + timeout

/-- No call has renewed its wait. -/
def WaitsOnce (p : Pool) : Prop :=
  ∀ b ∈ p.borrowers, b.WaitsOnce (p.config.connectionTimeout * 1000) p.now

theorem Borrower.WaitsOnce.patient {timeout now : Int} (once : b.WaitsOnce timeout now) :
    b.Patient timeout := by
  intro deadline blocked
  obtain ⟨first, waited, _, same⟩ := once.once deadline (by simp [blocked, BorrowerPc.deadline])
  exact ⟨first, waited, Int.le_of_eq same⟩

theorem WaitsOnce.patient (once : WaitsOnce p) : Patient p :=
  fun b member => (once b member).patient

/-- A call that does not wait keeps no deadline. -/
theorem waits_once_elsewhere {timeout now : Int} (entered : b.pc ≠ .entering)
    (free : b.pc.deadline = none) : b.WaitsOnce timeout now :=
  ⟨fun entering => absurd entering entered, fun deadline waits => by simp [free] at waits⟩

theorem wake_once {timeout now : Int} (once : b.WaitsOnce timeout now) :
    b.wake.WaitsOnce timeout now := by
  rcases b with ⟨pc, first⟩
  cases pc with
  | blocked deadline => exact ⟨by simp [Borrower.wake], fun d same => once.once d same⟩
  | _ => exact once

theorem notifyAll_once (once : WaitsOnce p) : WaitsOnce (notifyAll p) :=
  Agents.forall_map fun b member => wake_once (once b member)

theorem setBorrower_once (before : WaitsOnce p)
    (once : b.WaitsOnce (p.config.connectionTimeout * 1000) p.now) :
    WaitsOnce (setBorrower p i b) :=
  Agents.forall_set before once

/-- The first wait of a call. -/
theorem waitFor_once (before : WaitsOnce p) (unwaited : b.firstWait = none) :
    WaitsOnce (waitFor p i b) := by
  refine setBorrower_once before ⟨by simp, fun deadline same => ⟨p.now, ?_, Int.le_refl _, ?_⟩⟩
  · simp [unwaited]
  · exact (Option.some.inj same).symm

theorem step_once (before : WaitsOnce p) (permit : WokenServed p a) (taken : step p a = some q) :
    WaitsOnce q := by
  cases (step_outcome taken).2 with
  | @waits i b here pc empty =>
    have once := before b (Agents.mem_of_position here)
    rcases pc with entering | woken
    · exact waitFor_once before (once.fresh entering)
    · exact absurd empty (permit b here woken)
  | refused here pc empty => exact setBorrower_once before (waits_once_elsewhere (by simp) rfl)
  | lends here pc queue =>
    exact notifyAll_once (setBorrower_once before (waits_once_elsewhere (by simp) rfl))
  | called built =>
    intro b member
    rcases List.mem_append.mp member with old | new
    · exact before b old
    · obtain rfl := List.mem_singleton.mp new
      exact ⟨fun _ => rfl, by simp [BorrowerPc.deadline]⟩
  | expires here pc due => exact setBorrower_once before (waits_once_elsewhere (by simp) rfl)
  | @stirs i b deadline here pc =>
    have once := before b (Agents.mem_of_position here)
    refine setBorrower_once before ⟨by simp, fun d same => once.once d ?_⟩
    rw [pc]
    exact same
  | releases here pc => exact Agents.forall_set before (waits_once_elsewhere (by simp) rfl)
  | produces awake empty room fresh | producerFull awake empty full => exact notifyAll_once before
  | scans asleep due move => cases move <;> exact before
  | passes wall cpu =>
    intro b member
    have once := before b member
    refine ⟨once.fresh, fun deadline waits => ?_⟩
    obtain ⟨first, waited, past, same⟩ := once.once deadline waits
    exact ⟨first, waited, by simp only; omega, same⟩
  | _ => exact before

/-- A caller that finds the queue empty once more gets a deadline that is too late, unless no
    time has passed since its first wait. -/
theorem renewal_late (before : WaitsOnce p) (taken : step p (.getConnection i) = some q)
    (here : p.borrowers[i]? = some b) (woken : b.pc.inTime p.now) (empty : p.connetionQueue = [])
    (later : b.firstWait ≠ some p.now) : ¬ Patient q := by
  intro patient
  cases (step_outcome taken).2 with
  | lends there pc queue => simp [queue] at empty
  | @refused _ c there pc =>
    obtain rfl : b = c := Option.some.inj (here.symm.trans there)
    cases place : b.pc <;> simp_all [BorrowerPc.late, BorrowerPc.inTime]
    omega
  | @waits _ c there pc =>
    obtain rfl : b = c := Option.some.inj (here.symm.trans there)
    obtain ⟨deadline, place⟩ : ∃ deadline, b.pc.deadline = some deadline := by
      cases place : b.pc <;> simp_all [BorrowerPc.deadline, BorrowerPc.inTime]
    obtain ⟨first, waited, past, _⟩ := (before b (Agents.mem_of_position here)).once deadline place
    have bound := (List.getElem?_eq_some_iff.mp here).1
    have member : (⟨.blocked (p.now + p.config.connectionTimeout * 1000),
        some (b.firstWait.getD p.now)⟩ : Borrower) ∈ (waitFor p i b).borrowers :=
      List.mem_set bound _
    obtain ⟨began, same, late⟩ := patient _ member _ rfl
    simp only [waited, Option.getD_some, Option.some.injEq] at same
    simp only [waited, ne_eq, Option.some.injEq] at later
    simp only [waitFor, setBorrower] at late
    omega

/-- In runs in which every caller that is notified in time finds a connection, every deadline
    is in time; and a caller that does not find one, later than at its first wait, gets a
    deadline that is not. -/
theorem patience_kept {settings : Option Config} {now clock : Int}
    (reached : Reach step WokenServed (start settings now clock) p) :
    Patient p ∧ ∀ i q, step p (.getConnection i) = some q → ∀ b ∈ p.borrowers[i]?,
      b.firstWait ≠ some p.now → (Patient q ↔ WokenServed p (.getConnection i)) := by
  have once : WaitsOnce p := by
    apply reached.invariant
    · simp [WaitsOnce, start]
    · intro s a t _ before permit taken
      exact step_once before permit taken
  refine ⟨once.patient, fun i q taken b here later => ⟨fun patient c there woken empty => ?_, ?_⟩⟩
  · obtain rfl : b = c := Option.some.inj (here.symm.trans there)
    exact renewal_late once taken here woken empty later patient
  · exact fun permit => (step_once once permit taken).patient

/-- The pool of one connection. The second call waits, is woken by the producer, and finds what
    the first has released; the third waits, is woken and gets the lock at its deadline; the
    fourth begins to wait then. -/
def wokenInTime : List Action :=
  [.construct 7 true, .construct 0 true, .call, .call, .call, .call, .getConnection 0,
    .getConnection 1, .pass 50000 0, .produce 0 true, .deleter 0, .getConnection 1,
    .getConnection 2, .produce 0 true, .pass 100000 0, .getConnection 2, .getConnection 3]

theorem patience_kept_woken :
    ∃ p, Reach step WokenServed (start (some ⟨1, 1, 60, 100⟩) 0 0) p ∧
      p.borrowers = [⟨.released, none⟩, ⟨.holding 7, some 0⟩, ⟨.refused, some 50000⟩,
        ⟨.blocked 250000, some 150000⟩] ∧ Patient p := by
  have obeys : Obeys step WokenServed (start (some ⟨1, 1, 60, 100⟩) 0 0) wokenInTime := by
    decide +kernel
  have ran : ∃ p ∈ run step (start (some ⟨1, 1, 60, 100⟩) 0 0) wokenInTime,
      p.borrowers = [⟨.released, none⟩, ⟨.holding 7, some 0⟩, ⟨.refused, some 50000⟩,
        ⟨.blocked 250000, some 150000⟩] := by decide +kernel
  obtain ⟨p, ran, borrowers⟩ := ran
  have reached := reach_of_run obeys ran
  exact ⟨p, reached, borrowers, (patience_kept reached).1⟩

/-- The same wait, woken after 99 milliseconds with nothing in the queue. -/
def wokenForNothing : List Action :=
  [.construct 7 true, .construct 0 true, .call, .call, .getConnection 0, .getConnection 1,
    .pass 99000 0, .produce 0 true, .getConnection 1]

theorem patience_renewed :
    (∃ p ∈ run step (start (some ⟨1, 1, 60, 100⟩) 0 0) wokenForNothing,
      p.borrowers[1]? = some ⟨.blocked 199000, some 0⟩) ∧
    ¬∀ (settings : Option Config) (now clock : Int) (p : Pool),
      Reachable step (start settings now clock) p → Patient p := by
  have ran : ∃ p ∈ run step (start (some ⟨1, 1, 60, 100⟩) 0 0) wokenForNothing,
      p.borrowers[1]? = some ⟨.blocked 199000, some 0⟩ ∧ p.config.connectionTimeout = 100 := by
    decide +kernel
  obtain ⟨p, ran, late, timeout⟩ := ran
  refine ⟨⟨p, ran, late⟩, fun supposed => ?_⟩
  have patient := supposed _ _ _ p (reachable_of_run ran) _ (List.mem_of_getElem? late)
  obtain ⟨first, began, early⟩ := patient 199000 rfl
  obtain rfl := Option.some.inj began
  omega

end ConnectionPool
