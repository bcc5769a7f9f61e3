import ServerPools.Support.Strings

/- An opened file as fgets and feof see it. The characters are fetched one by one; the
   position moves past a character only, so an end of file or a failing device is met again
   by the next read. -/
namespace Stdio
open Strings

/-- What fetching one character gives. A failed read leaves the caller's array indeterminate;
    array says what is in it. -/
inductive Got where
  | byte (b : UInt8)
  | eof
  | error (array : Nat → UInt8)

structure Stream where
  file : Nat → Got
  pos : Nat
  eofSet : Bool
  errorSet : Bool

/-- The stream that fopen returns. -/
def opened (file : Nat → Got) : Stream := ⟨file, 0, false, false⟩

def feof (s : Stream) : Bool := s.eofSet

/-- Why a read stops. -/
inductive Ending where
  | newline
  | full
  | eof
  | error (array : Nat → UInt8)

/-- The characters up to and including a newline, room of them at most. -/
def scan (file : Nat → Got) : Nat → Nat → Text × Ending
  | 0, _ => ([], .full)
  | room + 1, pos =>
    match file pos with
    | .eof => ([], .eof)
    | .error array => ([], .error array)
    | .byte b =>
      if b = newline then ([b], .newline)
      else
        let rest := scan file room (pos + 1)
        (b :: rest.1, rest.2)

/-- ok is false where fgets returns NULL. -/
structure Fgets where
  ok : Bool
  array : Text
  stream : Stream

/-- A string and its zero byte written to the front of an array. -/
def putString (array s : Text) : Text := s ++ 0 :: array.drop (s.length + 1)

/-- What is left of the array and the stream when a read stops. -/
def finish (array read : Text) (after : Stream) : Ending → Fgets
  | .error left => ⟨false, (List.range array.length).map left, { after with errorSet := true }⟩
  | .eof =>
    if read = [] then ⟨false, array, { after with eofSet := true }⟩
    else ⟨true, putString array read, { after with eofSet := true }⟩
  | .newline | .full => ⟨true, putString array read, after⟩

def fgets (array : Text) (size : Nat) (s : Stream) : Fgets :=
  let read := scan s.file (size - 1) s.pos
  finish array read.1 { s with pos := s.pos + read.1.length } read.2

/-- The file with these contents, all of which can be read. -/
def contents (text : Text) : Nat → Got := fun i =>
  match text[i]? with
  | some b => .byte b
  | none => .eof

variable {file : Nat → Got} {s t : Stream} {text line rest array : Text} {room pos size : Nat}

/-- Everything before the position has been read. -/
def Passed (file : Nat → Got) (pos : Nat) : Prop := ∀ i, i < pos → ∃ b, file i = .byte b

/-- The file is finite, and no read fails before its end. -/
def Ends (file : Nat → Got) : Prop := ∃ n, file n = .eof ∧ Passed file n

/-- What the place says at which a read of length characters stops. -/
def Ending.stops (file : Nat → Got) (room stop length : Nat) : Ending → Prop
  | .eof => file stop = .eof
  | .error left => file stop = .error left
  | .newline => 0 < length
  | .full => length = room

theorem scan_eof (here : file pos = .eof) : scan file (room + 1) pos = ([], .eof) := by
  rw [scan, here]

theorem scan_error {left : Nat → UInt8} (here : file pos = .error left) :
    scan file (room + 1) pos = ([], .error left) := by
  rw [scan, here]

theorem scan_newline (here : file pos = .byte newline) :
    scan file (room + 1) pos = ([newline], .newline) := by
  simp [scan, here]

theorem scan_byte {b : UInt8} (here : file pos = .byte b) (other : b ≠ newline) :
    scan file (room + 1) pos =
      (b :: (scan file room (pos + 1)).1, (scan file room (pos + 1)).2) := by
  simp [scan, here, other]

theorem Passed.next {b : UInt8} (passed : Passed file pos) (here : file pos = .byte b) :
    Passed file (pos + 1) := by
  intro i below
  rcases Nat.lt_succ_iff_lt_or_eq.mp below with earlier | rfl
  · exact passed i earlier
  · exact ⟨b, here⟩

/-- A read passes the characters that it returns and stops for the reason that it gives. -/
theorem scan_stops (room : Nat) (passed : Passed file pos) :
    Passed file (pos + (scan file room pos).1.length) ∧
      (scan file room pos).2.stops file room (pos + (scan file room pos).1.length)
        (scan file room pos).1.length := by
  induction room generalizing pos with
  | zero => exact ⟨passed, rfl⟩
  | succ room ih =>
    cases here : file pos with
    | eof =>
      rw [scan_eof here]
      exact ⟨passed, here⟩
    | error left =>
      rw [scan_error here]
      exact ⟨passed, here⟩
    | byte b =>
      have further := passed.next here
      by_cases line : b = newline
      · subst line
        rw [scan_newline here]
        exact ⟨further, Nat.one_pos⟩
      · rw [scan_byte here line]
        obtain ⟨later, stops⟩ := ih further
        simp only [List.length_cons]
        rw [← Nat.add_assoc, Nat.add_right_comm]
        refine ⟨later, ?_⟩
        cases ending : (scan file room (pos + 1)).2 <;> rw [ending] at stops
        · exact Nat.succ_pos _
        · exact congrArg (· + 1) stops
        · exact stops
        · exact stops

/-- A stream whose flag and position agree with its file. -/
structure Steady (s : Stream) : Prop where
  passed : Passed s.file s.pos
  atEnd : s.eofSet → s.file s.pos = .eof

theorem opened_steady (file : Nat → Got) : Steady (opened file) :=
  ⟨fun i below => absurd below (Nat.not_lt_zero i), fun set => absurd set Bool.false_ne_true⟩

theorem Steady.ends (steady : Steady s) (set : feof s) : Ends s.file :=
  ⟨s.pos, steady.atEnd set, steady.passed⟩

/-- All that fgets can do to a stream before its end of file. -/
inductive Advance (size : Nat) (s : Stream) : Stream → Prop where
  | reads (length : Nat) (more : 1 < size → 0 < length)
      (passed : Passed s.file (s.pos + length)) :
      Advance size s { s with pos := s.pos + length }
  | ends (length : Nat) (passed : Passed s.file (s.pos + length))
      (here : s.file (s.pos + length) = .eof) :
      Advance size s { s with pos := s.pos + length, eofSet := true }
  | fails (length : Nat) (passed : Passed s.file (s.pos + length)) {left : Nat → UInt8}
      (here : s.file (s.pos + length) = .error left) :
      Advance size s { s with pos := s.pos + length, errorSet := true }

theorem fgets_advance (array : Text) (size : Nat) (passed : Passed s.file s.pos) :
    Advance size s (fgets array size s).stream := by
  obtain ⟨later, stops⟩ := scan_stops (size - 1) passed
  unfold fgets
  revert later stops
  generalize scan s.file (size - 1) s.pos = read
  obtain ⟨read, ending⟩ := read
  intro later stops
  cases ending with
  | newline => exact .reads _ (fun _ => stops) later
  | full =>
    have whole : read.length = size - 1 := stops
    exact .reads _ (fun more => by change 0 < read.length; omega) later
  | eof =>
    simp only [finish]
    split
    · exact .ends _ later stops
    · exact .ends _ later stops
  | error left => exact .fails _ later stops

theorem Advance.same_file (advance : Advance size s t) : t.file = s.file := by cases advance <;> rfl

theorem Advance.steady (advance : Advance size s t) (unset : ¬feof s) : Steady t := by
  cases advance with
  | reads length more passed => exact ⟨passed, fun set => absurd set unset⟩
  | ends length passed here => exact ⟨passed, fun _ => here⟩
  | fails length passed here => exact ⟨passed, fun set => absurd set unset⟩

/-- Nothing behind the end of a file is ever passed. -/
theorem Passed.before_end {stop : Nat} (passed : Passed file pos) (here : file stop = .eof) :
    pos ≤ stop := by
  by_contra beyond
  obtain ⟨b, byte⟩ := passed stop (by omega)
  rw [here] at byte
  contradiction

/-- In a file that ends, a read that does not meet the end makes progress towards it. -/
theorem Advance.toward_end {stop : Nat} (advance : Advance size s t) (more : 1 < size)
    (stop_here : s.file stop = .eof) (whole : Passed s.file stop) :
    feof t ∨ s.pos < t.pos ∧ t.pos ≤ stop := by
  cases advance with
  | ends length passed here => exact Or.inl rfl
  | reads length progress passed =>
    have longer := progress more
    exact Or.inr ⟨Nat.lt_add_of_pos_right longer, passed.before_end stop_here⟩
  | fails length passed here =>
    -- the device cannot fail at or before the end of a file that has one
    rcases Nat.lt_or_eq_of_le (passed.before_end stop_here) with earlier | same
    · obtain ⟨b, byte⟩ := whole _ earlier
      rw [here] at byte
      contradiction
    · rw [same, stop_here] at here
      contradiction

theorem scan_length (file : Nat → Got) (room pos : Nat) : (scan file room pos).1.length ≤ room := by
  induction room generalizing pos with
  | zero => exact Nat.le_refl 0
  | succ room ih =>
    have later := ih (pos + 1)
    cases here : file pos with
    | eof => simp [scan_eof here]
    | error left => simp [scan_error here]
    | byte b =>
      by_cases line : b = newline
      · subst line
        simp [scan_newline here]
      · rw [scan_byte here line]
        exact Nat.succ_le_succ later

/-- The array keeps its length. -/
theorem fgets_length (s : Stream) (whole : array.length = size) (room : 0 < size) :
    (fgets array size s).array.length = size := by
  have fits := scan_length s.file (size - 1) s.pos
  have put : (putString array (scan s.file (size - 1) s.pos).1).length = size := by
    simp only [putString, List.length_append, List.length_cons, List.length_drop]
    omega
  unfold fgets
  revert put
  generalize scan s.file (size - 1) s.pos = read
  obtain ⟨read, ending⟩ := read
  intro put
  cases ending with
  | newline | full => exact put
  | error left => simpa [finish] using whole
  | eof =>
    simp only [finish]
    split
    · exact whole
    · exact put

section Contents

theorem contents_here {b : UInt8} (here : text.drop pos = b :: rest) :
    contents text pos = .byte b ∧ text.drop (pos + 1) = rest := by
  constructor
  · have first : text[pos]? = some b := by
      rw [← List.head?_drop, here]
      rfl
    rw [contents, first]
  · rw [← List.tail_drop, here]
    rfl

theorem contents_end (here : text.drop pos = []) : contents text pos = .eof := by
  have last : text[pos]? = none := by
    rw [← List.head?_drop, here]
    rfl
  rw [contents, last]

/-- A line that fits is read with its newline. -/
theorem scan_line (here : text.drop pos = line ++ newline :: rest) (whole : newline ∉ line)
    (fits : line.length < room) : scan (contents text) room pos = (line ++ [newline], .newline) := by
  induction line generalizing pos room with
  | nil =>
    obtain ⟨room, rfl⟩ := Nat.exists_eq_succ_of_ne_zero (Nat.ne_of_gt fits)
    exact scan_newline (contents_here here).1
  | cons b line ih =>
    obtain ⟨room, rfl⟩ := Nat.exists_eq_succ_of_ne_zero (Nat.ne_of_gt (Nat.zero_lt_of_lt fits))
    obtain ⟨byte, tail⟩ := contents_here here
    obtain ⟨other, later⟩ := List.ne_and_not_mem_of_not_mem_cons whole
    rw [scan_byte byte (Ne.symm other), ih tail later (Nat.lt_of_succ_lt_succ fits)]
    rfl

/-- The last line is read up to the end of the file. -/
theorem scan_last (here : text.drop pos = line) (whole : newline ∉ line)
    (fits : line.length < room) : scan (contents text) room pos = (line, .eof) := by
  induction line generalizing pos room with
  | nil =>
    obtain ⟨room, rfl⟩ := Nat.exists_eq_succ_of_ne_zero (Nat.ne_of_gt fits)
    exact scan_eof (contents_end here)
  | cons b line ih =>
    obtain ⟨room, rfl⟩ := Nat.exists_eq_succ_of_ne_zero (Nat.ne_of_gt (Nat.zero_lt_of_lt fits))
    obtain ⟨byte, tail⟩ := contents_here here
    obtain ⟨other, later⟩ := List.ne_and_not_mem_of_not_mem_cons whole
    rw [scan_byte byte (Ne.symm other), ih tail later (Nat.lt_of_succ_lt_succ fits)]

theorem fgets_line (file : s.file = contents text)
    (here : text.drop s.pos = line ++ newline :: rest) (whole : newline ∉ line)
    (fits : line.length < size - 1) : fgets array size s =
      ⟨true, putString array (line ++ [newline]), { s with pos := s.pos + (line.length + 1) }⟩ := by
  unfold fgets
  rw [file, scan_line here whole fits]
  simp [finish, ← file]

theorem fgets_last (file : s.file = contents text) (here : text.drop s.pos = line)
    (whole : newline ∉ line) (fits : line.length < size - 1) : fgets array size s =
      ⟨line ≠ [], if line = [] then array else putString array line,
        { s with pos := s.pos + line.length, eofSet := true }⟩ := by
  unfold fgets
  rw [file, scan_last here whole fits]
  simp only [finish]
  split <;> simp_all

/-- Reading a zeroed array as a string gives what was read into it. -/
theorem cString_putString (array : Text) (nonzero : 0 ∉ line) :
    cString (putString array line) = line :=
  cString_zeroed _ nonzero

end Contents

end Stdio
