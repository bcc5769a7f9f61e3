import ServerPools.Connections.IdleTime

/- The order of the idle queue. Every push stamps the connection under the same lock, so the
   queue is ordered by its stamps as long as clock() does not go back. -/
namespace ConnectionPool
open Machine

variable {p q : Pool} {a : Action} {c d : Addr} {conn : Connection}

/-- clock() does not go back. -/
def ClockForward (_ : Pool) : Action → Prop
  | .pass _ cpu => 0 ≤ cpu
  | _ => True

instance : Decidable (ClockForward p a) :=
  match a with
  | .pass _ _ => inferInstanceAs (Decidable (_ ≤ _))
  | .construct _ _ | .call | .getConnection _ | .expire _ | .stir _ | .deleter _ | .produce _ _
  | .stirProducer | .scan => .isTrue trivial

/-- The connection at c was stamped no later than the one at d. -/
def StampedBefore (p : Pool) (c d : Addr) : Prop :=
  ∀ older ∈ p.connections c, ∀ newer ∈ p.connections d, older.aliveTime ≤ newer.aliveTime

structure InOrder (p : Pool) : Prop where
  past : ∀ c ∈ p.connetionQueue, ∀ conn ∈ p.connections c, conn.aliveTime ≤ p.clock
  ordered : p.connetionQueue.Pairwise (StampedBefore p)

theorem step_clock_forward (forward : ClockForward p a) (taken : step p a = some q) :
    p.clock ≤ q.clock := by
  cases (step_outcome taken).2 with
  | passes wall cpu => exact Int.le_add_of_nonneg_right forward
  | scans asleep due move => cases move <;> exact Int.le_refl _
  | _ => exact Int.le_refl _

/-- The queue loses its front or gains one connection at its end. -/
theorem moves_queue (moves : Moves p q) : q.connetionQueue.Sublist p.connetionQueue ∨
    ∃ c, q.connetionQueue = p.connetionQueue ++ [c] := by
  cases moves with
  | quiet queue =>
    left
    rw [queue]
  | lent c queue | retired c queue =>
    left
    rw [queue]
    exact List.sublist_cons_self c q.connetionQueue
  | created c fresh queue => exact Or.inr ⟨c, queue⟩
  | returned c queue => exact Or.inr ⟨c, queue⟩

/-- What was in the queue before the step and still is has its old stamp. -/
theorem queued_kept (parts : Partition p) (taken : step p a = some q)
    (stays : c ∈ q.connetionQueue) (old : c ∈ p.connetionQueue) (object : conn ∈ q.connections c) :
    conn ∈ p.connections c := by
  rcases step_queue parts taken stays object with pushed | ⟨_, same⟩
  · exact absurd old pushed.absent
  · exact same

theorem step_in_order (parts : Partition p) (before : InOrder p) (forward : ClockForward p a)
    (taken : step p a = some q) : InOrder q := by
  have later := step_clock_forward forward taken
  have moves := (step_effect taken).moves
  have kept {c d : Addr} (here : c ∈ p.connetionQueue ∧ c ∈ q.connetionQueue)
      (there : d ∈ p.connetionQueue ∧ d ∈ q.connetionQueue) (stamped : StampedBefore p c d) :
      StampedBefore q c d := fun older first newer second =>
    stamped older (queued_kept parts taken here.2 here.1 first) newer
      (queued_kept parts taken there.2 there.1 second)
  constructor
  · intro c member conn object
    rcases step_queue parts taken member object with pushed | ⟨old, same⟩
    · rw [pushed.aliveTime]
      exact later
    · exact Int.le_trans (before.past c old conn same) later
  · rcases moves_queue moves with fewer | ⟨c, queue⟩
    · apply (before.ordered.sublist fewer).imp_of_mem
      intro c d here there stamped
      exact kept ⟨fewer.subset here, here⟩ ⟨fewer.subset there, there⟩ stamped
    · have apart := (List.nodup_append.mp (moves_partition parts moves).distinct).1
      have stays {d : Addr} (old : d ∈ p.connetionQueue) : d ∈ q.connetionQueue := by
        rw [queue]
        exact List.mem_append_left _ old
      have new : c ∈ q.connetionQueue := by simp [queue]
      rw [queue] at apart ⊢
      have absent : c ∉ p.connetionQueue := fun old =>
        (List.nodup_append.mp apart).2.2 c old c (List.mem_singleton_self c) rfl
      apply List.pairwise_append.mpr
      refine ⟨before.ordered.imp_of_mem ?_, List.pairwise_singleton _ _, ?_⟩
      · intro d e here there stamped
        exact kept ⟨here, stays here⟩ ⟨there, stays there⟩ stamped
      · intro d old e last older first newer second
        obtain rfl := List.mem_singleton.mp last
        rcases step_queue parts taken new second with pushed | ⟨inside, _⟩
        · rw [pushed.aliveTime]
          exact before.past d old older (queued_kept parts taken (stays old) old first)
        · exact absurd inside absent

theorem reach_in_order {settings : Option Config} {now clock : Int}
    (reached : Reach step ClockForward (start settings now clock) p) : InOrder p := by
  apply reached.invariant
  · constructor <;> simp [start]
  · intro s a t before ordered forward taken
    exact step_in_order (reachable_partition before.reachable) ordered forward taken

/-- The stamps rise from front to back, and the front has been idle the longest. -/
structure IdleOrdered (p : Pool) : Prop where
  present : ∀ c ∈ p.connetionQueue, p.connections c ≠ none
  ordered : p.connetionQueue.Pairwise (StampedBefore p)
  front : ∀ limit : Int, ∀ c ∈ p.connetionQueue.head?, ∀ conn ∈ p.connections c,
    conn.getAliveTime p.clock < limit →
      ∀ d ∈ p.connetionQueue, ∀ other ∈ p.connections d, other.getAliveTime p.clock < limit
  scan : ∀ c ∈ p.connetionQueue.head?, ¬Expired p c → ∀ d ∈ p.connetionQueue, ¬Expired p d

theorem front_stamp (ordered : p.connetionQueue.Pairwise (StampedBefore p))
    (front : c ∈ p.connetionQueue.head?) (object : conn ∈ p.connections c)
    (member : d ∈ p.connetionQueue) {other : Connection} (there : other ∈ p.connections d) :
    conn.aliveTime ≤ other.aliveTime := by
  cases queue : p.connetionQueue with
  | nil => simp [queue] at member
  | cons first rest =>
    obtain rfl : first = c := by simpa [queue] using front
    rw [queue] at ordered member
    rcases List.mem_cons.mp member with rfl | later
    · obtain rfl := Option.mem_unique object there
      exact Int.le_refl _
    · exact (List.pairwise_cons.mp ordered).1 d later conn object other there

/-- In every state of every run whose clock() does not go back. -/
theorem idle_ordered {settings : Option Config} {now clock : Int}
    (reached : Reach step ClockForward (start settings now clock) p) : IdleOrdered p := by
  have parts := reachable_partition reached.reachable
  have ordered := (reach_in_order reached).ordered
  have present (c : Addr) (member : c ∈ p.connetionQueue) : p.connections c ≠ none :=
    parts.undeleted c (List.mem_append_left _ member)
  refine ⟨present, ordered, ?_, ?_⟩
  · intro limit c front conn object recent d member other there
    have stamps := front_stamp ordered front object member there
    simp only [Connection.getAliveTime] at recent ⊢
    omega
  · intro c front recent d member
    rintro ⟨other, there, old⟩
    obtain ⟨conn, object⟩ := Option.ne_none_iff_exists'.mp (present c (List.mem_of_head? front))
    have stamps := front_stamp ordered front object member there
    apply recent
    refine ⟨conn, object, ?_⟩
    simp only [Connection.getAliveTime] at old ⊢
    omega

/-- A connection is pushed by the constructor, one by the producer and one by a client. -/
def threePushes : List Action :=
  [.construct 7 true, .construct 0 true, .call, .getConnection 0, .pass 5 3, .produce 8 true,
    .pass 5 0, .deleter 0, .pass 9 4]

theorem idle_ordered_three : ∃ p, p.connetionQueue = [8, 7] ∧
    (p.connections 8).map (·.getAliveTime p.clock) = some 4 ∧ IdleOrdered p := by
  have obeys : Obeys step ClockForward (start (some ⟨1, 2, 60, 100⟩) 0 0) threePushes := by
    decide +kernel
  have ran : ∃ p ∈ run step (start (some ⟨1, 2, 60, 100⟩) 0 0) threePushes,
      p.connetionQueue = [8, 7] ∧ (p.connections 8).map (·.getAliveTime p.clock) = some 4 := by
    decide +kernel
  obtain ⟨p, ran, queue, idle⟩ := ran
  exact ⟨p, queue, idle, idle_ordered (reach_of_run obeys ran)⟩

end ConnectionPool
