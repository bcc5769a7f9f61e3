import ServerPools.Support.Stdio
import ServerPools.Support.Fuel
import ServerPools.Connections.ConnectionPool

/- ConnectionPool::loadConfigFile. The loop asks feof before each read and drops what fgets
   returns, so it ends when a read meets the end of the file and in no other way. -/
namespace ConnectionPool
open Strings Stdio

/-- The fields that the file sets. -/
structure Settings where
  ip : Text
  port : Int
  username : Text
  passwd : Text
  dbname : Text
  initSize : Int
  maxSize : Int
  maxIdleTime : Int
  connectionTimeout : Int
  deriving DecidableEq, Repr

/-- The fields that the threads of the pool read. -/
def Settings.config (c : Settings) : Config :=
  ⟨c.initSize, c.maxSize, c.maxIdleTime, c.connectionTimeout⟩

def equals : UInt8 := 61

section Load
variable (outside : Int → Int)

/-- The chain of comparisons with the names of the settings. -/
def assign (c : Settings) (key value : Text) : Settings :=
  if key = ofString "ip" then { c with ip := value }
  else if key = ofString "port" then { c with port := atoi outside value }
  else if key = ofString "username" then { c with username := value }
  else if key = ofString "dbname" then { c with dbname := value }
  else if key = ofString "passwd" then { c with passwd := value }
  else if key = ofString "initSize" then { c with initSize := atoi outside value }
  else if key = ofString "maxSize" then { c with maxSize := atoi outside value }
  else if key = ofString "maxIdleTime" then { c with maxIdleTime := atoi outside value }
  else if key = ofString "maxConnectionTimeOut" then
    { c with connectionTimeout := atoi outside value }
  else c

/-- The body of the loop after the read; none when substr throws. -/
def readLine (c : Settings) (str : Text) : Option Settings :=
  let idx := asInt (find str equals 0)
  if idx = -1 then some c
  else
    let endidx := asInt (find str newline (asSize idx))
    (substr str 0 (asSize idx)).bind fun key =>
      (substr str (asSize (idx + 1)) (asSize (endidx - idx - 1))).map fun value =>
        assign outside c key value

inductive Loading where
  | thrown
  | returned (ok : Bool) (settings : Settings)
  deriving DecidableEq, Repr

/-- char line[1024] = {0}. -/
def zeroed : Text := List.replicate 1024 0

/-- One round of the loop: the read and the assignment. -/
def loadRound (at_ : Stream × Settings) : Option (Stream × Settings) :=
  let read := fgets zeroed 1024 at_.1
  (readLine outside at_.2 (cString read.array)).map fun c => (read.stream, c)

/-- The while loop; each test of feof costs one unit of fuel. -/
def loadLoop (fuel : Nat) (pf : Stream) (c : Settings) : Option Loading :=
  (Fuel.loop (fun at_ => feof at_.1) (loadRound outside) fuel (pf, c)).map fun left =>
    match left with
    | none => .thrown
    | some (_, c) => .returned true c

/-- fopen is the file that was opened, or none for a null pointer. -/
def loadConfigFile (fopen : Option (Nat → Got)) (c : Settings) (fuel : Nat) : Option Loading :=
  match fopen with
  | none => some (.returned false c)
  | some file => loadLoop outside fuel (opened file) c

end Load

variable {outside : Int → Int} {c : Settings} {key value str : Text} {fuel : Nat} {pf : Stream}

theorem readLine_plain (absent : equals ∉ str) : readLine outside c str = some c := by
  have missing : find str equals 0 = npos := find_absent absent
  unfold readLine
  rw [missing, asInt_npos]
  rfl

section Split
variable {tail : Text}

theorem find_equals (first : equals ∉ key) (small : key.length < 2 ^ 31) :
    asInt (find (key ++ equals :: tail) equals 0) = key.length := by
  rw [find_present key tail (by simp) first, Nat.zero_add, asInt_small small]

/-- The body on a line with a first '=', by what find says about the newline. -/
theorem readLine_split (first : equals ∉ key) (small : key.length < 2 ^ 31) :
    readLine outside c (key ++ equals :: tail) =
      (substr (key ++ equals :: tail) (key.length + 1) (asSize
        (asInt (find (key ++ equals :: tail) newline key.length) - key.length - 1))).map fun value =>
          assign outside c key value := by
  have present : (key.length : Int) ≠ -1 := by omega
  have next : asSize ((key.length + 1 : Nat) : Int) = key.length + 1 := asSize_small (by omega)
  unfold readLine
  simp only [find_equals first small, if_neg present, asSize_small (n := key.length) (by omega)]
  rw [← Int.natCast_succ, Nat.succ_eq_add_one, next, substr_front, Option.bind_some]

/-- The value stops at the newline. -/
theorem readLine_value (first : equals ∉ key) (whole : newline ∉ value)
    (small : (key ++ equals :: value).length < 2 ^ 31) :
    readLine outside c (key ++ equals :: value ++ newline :: tail) =
      some (assign outside c key value) := by
  simp only [List.length_append, List.length_cons] at small
  have stop : find (key ++ equals :: value ++ newline :: tail) newline key.length =
      key.length + (value.length + 1) := by
    apply find_present (equals :: value) tail
    · simp
    · simpa [equals, newline] using whole
  have middle := substr_middle (c := equals) key value (newline :: tail)
  rw [List.append_assoc] at stop middle ⊢
  rw [List.cons_append] at stop middle ⊢
  rw [readLine_split first (by omega), stop, asInt_small (by omega)]
  have length : ((key.length + (value.length + 1) : Nat) : Int) - key.length - 1 = value.length := by
    omega
  rw [length, asSize_small (by omega), middle, Option.map_some]

/-- Without a newline find returns npos, and the length asked for is more than there is. -/
theorem readLine_rest (first : equals ∉ key) (whole : newline ∉ value)
    (small : (key ++ equals :: value).length < 2 ^ 31) :
    readLine outside c (key ++ equals :: value) = some (assign outside c key value) := by
  simp only [List.length_append, List.length_cons] at small
  have missing : find (key ++ equals :: value) newline key.length = npos := by
    apply find_absent
    simpa [equals, newline] using whole
  have enough := asSize_negative (i := -1 - key.length - 1) (by omega) (by omega)
  rw [readLine_split first (by omega), missing, asInt_npos, substr_rest key value (by omega),
    Option.map_some]

end Split

/-- The positions that substr gets are inside the string. -/
theorem readLine_returns (outside : Int → Int) (c : Settings) (small : str.length < 2 ^ 31) :
    ∃ next, readLine outside c str = some next := by
  by_cases present : equals ∈ str
  · obtain ⟨key, tail, rfl, first⟩ := List.eq_append_cons_of_mem present
    by_cases line : newline ∈ tail
    · obtain ⟨value, more, rfl, whole⟩ := List.eq_append_cons_of_mem line
      refine ⟨assign outside c key value, ?_⟩
      rw [← List.cons_append, ← List.append_assoc]
      apply readLine_value first whole
      simp only [List.length_append, List.length_cons] at small ⊢
      omega
    · exact ⟨_, readLine_rest first line small⟩
  · exact ⟨c, readLine_plain present⟩

/-- A round reads and assigns; the read has at most the length of the array. -/
theorem loadRound_returns (outside : Int → Int) (at_ : Stream × Settings) : ∃ c,
    readLine outside at_.2 (cString (fgets zeroed 1024 at_.1).array) = some c ∧
      loadRound outside at_ = some ((fgets zeroed 1024 at_.1).stream, c) := by
  have size : (fgets zeroed 1024 at_.1).array.length = 1024 :=
    fgets_length at_.1 (List.length_replicate ..) (by decide)
  have short := cString_length (fgets zeroed 1024 at_.1).array
  rw [size] at short
  obtain ⟨c, assigned⟩ := readLine_returns outside at_.2
    (Nat.lt_of_le_of_lt short (by decide))
  refine ⟨c, assigned, ?_⟩
  simp only [loadRound, assigned, Option.map_some]

theorem loadLoop_left {c' : Settings} (left : loadLoop outside fuel pf c = some (.returned true c')) :
    ∃ pf', Fuel.loop (fun at_ => feof at_.1) (loadRound outside) fuel (pf, c) =
      some (some (pf', c')) := by
  obtain ⟨last, ran, same⟩ := Option.map_eq_some_iff.mp left
  cases last with
  | none => contradiction
  | some last =>
    obtain ⟨pf', c''⟩ := last
    cases same
    exact ⟨pf', ran⟩

/-- No file makes loadConfigFile throw. -/
theorem load_not_thrown (fopen : Option (Nat → Got)) :
    loadConfigFile outside fopen c fuel ≠ some .thrown := by
  cases fopen with
  | none => simp [loadConfigFile]
  | some file =>
    intro thrown
    obtain ⟨last, ran, same⟩ := Option.map_eq_some_iff.mp thrown
    cases last with
    | none =>
      refine Fuel.loop_not_thrown (fun at_ => ?_) ran
      obtain ⟨c, _, round⟩ := loadRound_returns outside at_
      exact ⟨_, round⟩
    | some last => contradiction

/-- loadConfigFile returns false only without a file, and then has changed nothing. -/
theorem load_false {fopen : Option (Nat → Got)} {c' : Settings}
    (returned : loadConfigFile outside fopen c fuel = some (.returned false c')) :
    fopen = none ∧ c' = c := by
  cases fopen with
  | none =>
    cases returned
    exact ⟨rfl, rfl⟩
  | some file =>
    obtain ⟨last, _, same⟩ := Option.map_eq_some_iff.mp returned
    rcases last with _ | ⟨pf, c''⟩ <;> cases same

/-- The loop is somewhere in its file. -/
structure Inside (file : Nat → Got) (at_ : Stream × Settings) : Prop where
  steady : Steady at_.1
  same : at_.1.file = file

/-- The loop has been left, so a read has met the end of the file. -/
theorem loadLoop_ends {c' : Settings} (steady : Steady pf)
    (left : loadLoop outside fuel pf c = some (.returned true c')) : Ends pf.file := by
  obtain ⟨pf', ran⟩ := loadLoop_left left
  have kept := Fuel.loop_left (Inside pf.file) ?_ ⟨steady, rfl⟩ ran
  · obtain ⟨set, steady', same⟩ := kept
    exact same ▸ steady'.ends set
  · rintro at_ next ⟨before, same⟩ unset round
    obtain ⟨c, _, again⟩ := loadRound_returns outside at_
    obtain rfl := Option.some.inj (again.symm.trans round)
    have advance := fgets_advance zeroed 1024 before.passed
    exact ⟨advance.steady unset, advance.same_file.trans same⟩

/-- In a file that ends, a round meets the end or leaves less to read. -/
theorem loadRound_falls (outside : Int → Int) {file : Nat → Got} {stop : Nat} (here : file stop = .eof)
    (whole : Passed file stop) (at_ : Stream × Settings) (inside : Inside file at_)
    (unset : ¬feof at_.1) : ∃ next, loadRound outside at_ = some next ∧
      (feof next.1 ∨ Inside file next ∧ stop - next.1.pos < stop - at_.1.pos) := by
  obtain ⟨before, same⟩ := inside
  obtain ⟨c, _, round⟩ := loadRound_returns outside at_
  have advance := fgets_advance zeroed 1024 before.passed
  refine ⟨_, round, ?_⟩
  rw [← same] at here whole
  rcases advance.toward_end (by decide) here whole with ended | ⟨further, within⟩
  · exact Or.inl ended
  · refine Or.inr ⟨⟨advance.steady unset, advance.same_file.trans same⟩, ?_⟩
    change stop - (fgets zeroed 1024 at_.1).stream.pos < stop - at_.1.pos
    omega

/-- The distance to the end of the file bounds the rounds. -/
theorem loadLoop_returns (outside : Int → Int) (c : Settings) {stop : Nat} (steady : Steady pf)
    (here : pf.file stop = .eof) (whole : Passed pf.file stop) :
    ∃ c', loadLoop outside (stop - pf.pos + 2) pf c = some (.returned true c') := by
  have inside : Inside pf.file (pf, c) := ⟨steady, rfl⟩
  obtain ⟨⟨pf', c'⟩, ran⟩ := Fuel.loop_leaves (Inside pf.file) (fun at_ => stop - at_.1.pos)
    (loadRound_falls outside here whole) inside (Nat.le_refl _)
  refine ⟨c', ?_⟩
  simp only [loadLoop, ran, Option.map_some]

/-- The loop is left after finitely many rounds. -/
def Terminates (outside : Int → Int) (file : Nat → Got) (c : Settings) : Prop :=
  ∃ fuel c', loadConfigFile outside (some file) c fuel = some (.returned true c')

theorem load_ends {file : Nat → Got} {c' : Settings}
    (returned : loadConfigFile outside (some file) c fuel = some (.returned true c')) : Ends file :=
  loadLoop_ends (opened_steady file) returned

theorem load_returns (outside : Int → Int) {file : Nat → Got} (ends : Ends file) (c : Settings) :
    Terminates outside file c := by
  obtain ⟨stop, here, whole⟩ := ends
  obtain ⟨c', returned⟩ := loadLoop_returns outside c (opened_steady file) here whole
  exact ⟨_, c', returned⟩

/-- The loop ends on the files that end, and on no others: a failing read sets no end-of-file
    indicator, and nothing else stops the loop. -/
theorem load_terminates_iff (outside : Int → Int) (file : Nat → Got) (c : Settings) :
    Terminates outside file c ↔ Ends file := by
  constructor
  · rintro ⟨fuel, c', returned⟩
    exact load_ends returned
  · exact fun ends => load_returns outside ends c

/-- A file of which text can be read before its device fails; a directory fails at once. -/
def failing (text : Text) : Nat → Got := fun i =>
  match text[i]? with
  | some b => .byte b
  | none => .error fun _ => 0

theorem failing_endless (text : Text) : ¬Ends (failing text) := by
  rintro ⟨n, here, _⟩
  unfold failing at here
  split at here <;> contradiction

/-- Whatever was read before it, a failure keeps the loop going. -/
theorem failing_never_left (outside : Int → Int) (text : Text) (c : Settings) (fuel : Nat) :
    loadConfigFile outside (some (failing text)) c fuel = none := by
  cases result : loadConfigFile outside (some (failing text)) c fuel with
  | none => rfl
  | some loading =>
    cases loading with
    | thrown => exact absurd result (load_not_thrown _)
    | returned ok c' =>
      cases ok with
      | false =>
        have missing := (load_false result).1
        contradiction
      | true => exact absurd (load_ends result) (failing_endless text)

/-- The fields of a static pool before its constructor runs. -/
def blank : Settings := ⟨[], 0, [], [], [], 0, 0, 0, 0⟩

/-- On a directory, and when the device fails after the first line. -/
theorem load_spins :
    (∀ fuel, loadConfigFile id (some (failing [])) blank fuel = none) ∧
      (∀ fuel, loadConfigFile id (some (failing (ofString "ip=localhost\n"))) blank fuel = none) ∧
      ¬∀ (outside : Int → Int) (file : Nat → Got) (c : Settings), Terminates outside file c := by
  refine ⟨failing_never_left id _ _, failing_never_left id _ _, fun supposed => ?_⟩
  obtain ⟨fuel, c', returned⟩ := supposed id (failing []) blank
  rw [failing_never_left] at returned
  contradiction

/-- The constructor up to its loop: it starts no thread when the file cannot be opened. -/
def enter (outside : Int → Int) (fopen : Option (Nat → Got)) (now clock : Int) (fuel : Nat) :
    Option Pool :=
  match loadConfigFile outside fopen blank fuel with
  | some (.returned true c) => some (start (some c.config) now clock)
  | some (.returned false c) => some { start none now clock with config := c.config }
  | _ => none

variable {now clock : Int} {p : Pool}

/-- Whatever the file holds, the constructor enters its loop at a start of the machine. -/
theorem enter_starts {fopen : Option (Nat → Got)}
    (entered : enter outside fopen now clock fuel = some p) :
    ∃ settings, p = start settings now clock := by
  unfold enter at entered
  split at entered
  · rename_i c returned
    exact ⟨some c.config, (Option.some.inj entered).symm⟩
  · rename_i c returned
    obtain ⟨_, rfl⟩ := load_false returned
    exact ⟨none, (Option.some.inj entered).symm⟩
  · contradiction

/-- getConnectionPool returns on the files that end, and hangs on the others. -/
theorem enter_iff (outside : Int → Int) (file : Nat → Got) (now clock : Int) :
    (∃ fuel p, enter outside (some file) now clock fuel = some p) ↔ Ends file := by
  constructor
  · rintro ⟨fuel, p, entered⟩
    unfold enter at entered
    split at entered
    · rename_i c returned
      exact load_ends returned
    · rename_i c returned
      have missing := (load_false returned).1
      contradiction
    · contradiction
  · intro ends
    obtain ⟨fuel, c, returned⟩ := load_returns outside ends blank
    refine ⟨fuel, start (some c.config) now clock, ?_⟩
    simp only [enter, returned]

end ConnectionPool
