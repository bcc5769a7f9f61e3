import Mathlib.Data.List.Perm.Basic
import ServerPools.Connections.ConfigFile

/- What a configuration file means, line by line, and that loadConfigFile finds it. The
   reference reading knows nothing of arrays, positions and end-of-file indicators. -/
namespace ConnectionPool
open Strings Stdio Fuel

/-- The settings, by the names they have in the file. -/
inductive Key where
  | ip
  | port
  | username
  | dbname
  | passwd
  | initSize
  | maxSize
  | maxIdleTime
  | maxConnectionTimeOut
  deriving DecidableEq, Repr

def Key.name : Key → Text
  | .ip => ofString "ip"
  | .port => ofString "port"
  | .username => ofString "username"
  | .dbname => ofString "dbname"
  | .passwd => ofString "passwd"
  | .initSize => ofString "initSize"
  | .maxSize => ofString "maxSize"
  | .maxIdleTime => ofString "maxIdleTime"
  | .maxConnectionTimeOut => ofString "maxConnectionTimeOut"

def Key.all : List Key :=
  [.ip, .port, .username, .dbname, .passwd, .initSize, .maxSize, .maxIdleTime, .maxConnectionTimeOut]

inductive Value where
  | text (s : Text)
  | number (n : Int)
  deriving DecidableEq, Repr

def Settings.get (c : Settings) : Key → Value
  | .ip => .text c.ip
  | .port => .number c.port
  | .username => .text c.username
  | .dbname => .text c.dbname
  | .passwd => .text c.passwd
  | .initSize => .number c.initSize
  | .maxSize => .number c.maxSize
  | .maxIdleTime => .number c.maxIdleTime
  | .maxConnectionTimeOut => .number c.connectionTimeout

/-- The value that a text gives to a setting. -/
def Key.value (outside : Int → Int) : Key → Text → Value
  | .ip, s | .username, s | .dbname, s | .passwd, s => .text s
  | .port, s | .initSize, s | .maxSize, s | .maxIdleTime, s | .maxConnectionTimeOut, s =>
    .number (atoi outside s)

/-- A line split at its first '='; a line without one has no entry. -/
def entry (line : Text) : Option (Text × Text) :=
  if equals ∈ line then
    some (line.takeWhile (· ≠ equals), (line.dropWhile (· ≠ equals)).tail)
  else none

/-- The text of the last line with this key. -/
def lastText (lines : List Text) (k : Key) : Option Text :=
  (((lines.filterMap entry).filter fun e => e.1 = k.name).getLast?).map Prod.snd

/-- The reference reading: later lines override earlier ones, and a setting whose key never
    occurs stays as it was. -/
def reference (outside : Int → Int) (before : Key → Value) (lines : List Text) (k : Key) : Value :=
  match lastText lines k with
  | none => before k
  | some s => k.value outside s

variable {outside : Int → Int} {c : Settings} {k : Key} {key value line s : Text} {pf : Stream}

def Settings.set (outside : Int → Int) (c : Settings) (k : Key) (s : Text) : Settings :=
  match k with
  | .ip => { c with ip := s }
  | .port => { c with port := atoi outside s }
  | .username => { c with username := s }
  | .dbname => { c with dbname := s }
  | .passwd => { c with passwd := s }
  | .initSize => { c with initSize := atoi outside s }
  | .maxSize => { c with maxSize := atoi outside s }
  | .maxIdleTime => { c with maxIdleTime := atoi outside s }
  | .maxConnectionTimeOut => { c with connectionTimeout := atoi outside s }

theorem name_injective {k k' : Key} (same : k.name = k'.name) : k = k' := by
  revert same
  cases k <;> cases k' <;> decide

theorem assign_name (outside : Int → Int) (c : Settings) (k : Key) (s : Text) :
    assign outside c k.name s = c.set outside k s := by
  cases k <;> rfl

theorem assign_unknown (unknown : ∀ k : Key, key ≠ k.name) : assign outside c key s = c := by
  have ip : key ≠ ofString "ip" := unknown .ip
  have port : key ≠ ofString "port" := unknown .port
  have username : key ≠ ofString "username" := unknown .username
  have dbname : key ≠ ofString "dbname" := unknown .dbname
  have passwd : key ≠ ofString "passwd" := unknown .passwd
  have initSize : key ≠ ofString "initSize" := unknown .initSize
  have maxSize : key ≠ ofString "maxSize" := unknown .maxSize
  have maxIdleTime : key ≠ ofString "maxIdleTime" := unknown .maxIdleTime
  have timeout : key ≠ ofString "maxConnectionTimeOut" := unknown .maxConnectionTimeOut
  simp only [assign, ip, port, username, dbname, passwd, initSize, maxSize, maxIdleTime, timeout,
    if_false]

theorem set_get (outside : Int → Int) (c : Settings) (k k' : Key) (s : Text) :
    (c.set outside k s).get k' = if k = k' then k'.value outside s else c.get k' := by
  cases k <;> cases k' <;> rfl

/-- The chain of comparisons assigns to the setting with exactly the name, and to no other. -/
theorem assign_get (outside : Int → Int) (c : Settings) (key s : Text) (k : Key) :
    (assign outside c key s).get k = if key = k.name then k.value outside s else c.get k := by
  by_cases known : ∃ k' : Key, key = k'.name
  · obtain ⟨k', rfl⟩ := known
    rw [assign_name, set_get]
    by_cases same : k' = k
    · rw [if_pos same, if_pos (same ▸ rfl)]
    · rw [if_neg same, if_neg fun names => same (name_injective names)]
  · have unknown (k' : Key) : key ≠ k'.name := fun same => known ⟨k', same⟩
    rw [assign_unknown unknown, if_neg (unknown k)]

/-- What a line does to the settings. -/
def readEntry (outside : Int → Int) (c : Settings) (line : Text) : Settings :=
  match entry line with
  | none => c
  | some (key, s) => assign outside c key s

theorem entry_split (first : equals ∉ key) : entry (key ++ equals :: value) = some (key, value) := by
  have before : ∀ b ∈ key, decide (b ≠ equals) = true := by
    intro b member
    simp only [decide_eq_true_eq]
    exact fun same => first (same ▸ member)
  unfold entry
  rw [if_pos (by simp), List.takeWhile_append_of_pos before, List.dropWhile_append_of_pos before]
  simp

theorem readEntry_plain (absent : equals ∉ line) : readEntry outside c line = c := by
  unfold readEntry entry
  rw [if_neg absent]

theorem readEntry_split (first : equals ∉ key) :
    readEntry outside c (key ++ equals :: value) = assign outside c key value := by
  unfold readEntry
  rw [entry_split first]

/-- The body of the loop does what the line says, with and without its newline. -/
theorem readLine_entry (whole : newline ∉ line) (small : line.length < 2 ^ 31) :
    readLine outside c (line ++ [newline]) = some (readEntry outside c line) ∧
      readLine outside c line = some (readEntry outside c line) := by
  by_cases present : equals ∈ line
  · obtain ⟨key, value, rfl, first⟩ := List.eq_append_cons_of_mem present
    have rest : newline ∉ value := fun inside => whole (by simp [inside])
    rw [readEntry_split first]
    exact ⟨readLine_value first rest small, readLine_rest first rest small⟩
  · rw [readEntry_plain present]
    refine ⟨readLine_plain ?_, readLine_plain present⟩
    simpa [equals, newline] using present

/-- A line with an entry for a key sets it; the other lines leave it. -/
theorem readEntry_get (outside : Int → Int) (c : Settings) (line : Text) (k : Key) :
    (readEntry outside c line).get k = match lastText [line] k with
      | none => c.get k
      | some s => k.value outside s := by
  unfold readEntry lastText
  cases here : entry line with
  | none => simp [here]
  | some e =>
    obtain ⟨key, s⟩ := e
    simp only [assign_get]
    by_cases named : key = k.name <;> simp [here, named]

theorem lastText_cons (line : Text) (lines : List Text) (k : Key) :
    lastText (line :: lines) k = (lastText lines k).or (lastText [line] k) := by
  unfold lastText
  rw [← List.singleton_append, List.filterMap_append, List.filter_append, List.getLast?_append,
    Option.map_or]

/-- Lines in a row, by the last line for each key. -/
theorem foldl_reference (outside : Int → Int) (c : Settings) (lines : List Text) (k : Key) :
    (lines.foldl (readEntry outside) c).get k = reference outside c.get lines k := by
  induction lines generalizing c with
  | nil => rfl
  | cons line lines ih =>
    rw [List.foldl_cons, ih]
    unfold reference
    rw [lastText_cons]
    cases lastText lines k with
    | some s => rfl
    | none => rw [readEntry_get, Option.none_or]

section Rounds
variable {text rest : Text}

/-- A round on a line with its newline. -/
theorem round_line (outside : Int → Int) (c : Settings) (file : pf.file = contents text)
    (here : text.drop pf.pos = line ++ newline :: rest) (whole : newline ∉ line)
    (nonzero : 0 ∉ line) (fits : line.length ≤ 1022) :
    loadRound outside (pf, c) =
      some ({ pf with pos := pf.pos + (line.length + 1) }, readEntry outside c line) := by
  have read : fgets zeroed 1024 pf = ⟨true, putString zeroed (line ++ [newline]), _⟩ :=
    fgets_line file here whole (by omega)
  have str : cString (putString zeroed (line ++ [newline])) = line ++ [newline] :=
    cString_putString zeroed (by simpa [newline] using nonzero)
  simp only [loadRound, read, str, (readLine_entry whole (by omega)).1, Option.map_some]

/-- A round on what follows the last newline; fgets leaves the array alone when that is nothing. -/
theorem round_last (outside : Int → Int) (c : Settings) (file : pf.file = contents text)
    (here : text.drop pf.pos = line) (whole : newline ∉ line) (nonzero : 0 ∉ line)
    (fits : line.length ≤ 1022) :
    loadRound outside (pf, c) =
      some ({ pf with pos := pf.pos + line.length, eofSet := true }, readEntry outside c line) := by
  have read : fgets zeroed 1024 pf = ⟨_, if line = [] then zeroed else putString zeroed line, _⟩ :=
    fgets_last file here whole (by omega)
  have str : cString (if line = [] then zeroed else putString zeroed line) = line := by
    split
    · rename_i nothing
      subst nothing
      exact cString_zeroed (s := []) (List.replicate 1023 0) (by simp)
    · exact cString_putString zeroed nonzero
  simp only [loadRound, read, str, (readLine_entry whole (by omega)).2, Option.map_some]

/-- The loop reads the lines that are left, one a round. -/
theorem loop_lines (outside : Int → Int) (c : Settings) (file : pf.file = contents text)
    (unset : ¬feof pf) (here : text.drop pf.pos = rest) (nonzero : 0 ∉ rest)
    (short : ∀ line ∈ rest.splitOn newline, line.length ≤ 1022) :
    ∃ pf' bound, Settles
      (fun n => loop (fun at_ => feof at_.1) (loadRound outside) n (pf, c)) bound
      (some (pf', (rest.splitOn newline).foldl (readEntry outside) c)) := by
  induction size_eq : rest.length using Nat.strongRecOn generalizing pf c rest with
  | ind size ih =>
    by_cases more : newline ∈ rest
    · obtain ⟨line, later, split, whole⟩ := List.eq_append_cons_of_mem more
      subst split
      rw [List.splitOn_append_cons_self_of_not_mem whole] at short ⊢
      have round := round_line outside c file here whole (fun zero => nonzero (by simp [zero]))
        (short line (by simp))
      have next : text.drop (pf.pos + (line.length + 1)) = later := by
        rw [← List.drop_drop, here]
        simp [List.drop_append, List.drop_eq_nil_of_le]
      have less : later.length < size := by
        rw [← size_eq, List.length_append, List.length_cons]
        omega
      have same : ({ pf with pos := pf.pos + (line.length + 1) } : Stream).file = contents text := file
      obtain ⟨pf', bound, settles⟩ := ih later.length less _ same unset next
        (fun zero => nonzero (by simp [zero])) (fun l member => short l (by simp [member])) rfl
      exact ⟨pf', bound + 1, loop_settles_round unset round settles⟩
    · rw [List.splitOn_eq_singleton more] at short ⊢
      have round := round_last outside c file here more nonzero (short rest (by simp))
      exact ⟨_, 2, loop_settles_round unset round (loop_settles_done rfl)⟩

end Rounds

/-- loadConfigFile returns true with these settings. -/
def Loads (outside : Int → Int) (file : Nat → Got) (before after : Settings) : Prop :=
  ∃ bound, Settles (loadConfigFile outside (some file) before) bound (.returned true after)

theorem load_lines (outside : Int → Int) {text : Text} (before : Settings) (nonzero : 0 ∉ text)
    (short : ∀ line ∈ text.splitOn newline, line.length ≤ 1022) : Loads outside (contents text) before
      ((text.splitOn newline).foldl (readEntry outside) before) := by
  have start : (opened (contents text)).file = contents text := rfl
  obtain ⟨pf, bound, settles⟩ := loop_lines outside before start Bool.false_ne_true rfl nonzero short
  exact ⟨bound, settles.map⟩

/-- A line that sets nothing: a comment, or a line without '='. -/
def remark (line : Text) : Bool := line.head? = some 35 ∨ equals ∉ line

def Value.spelling : Value → Text
  | .text s => s
  | .number n => decimal n

/-- The line of a configuration for one of its settings. -/
def Settings.lineOf (c : Settings) (k : Key) : Text := k.name ++ equals :: (c.get k).spelling

/-- The numeric settings are ints. -/
def Settings.Ranged (c : Settings) : Prop := ∀ k n, c.get k = .number n → isInt n

/-- A rendering: one line for each setting, in any order, and remarks anywhere. -/
def Renders (c : Settings) (lines : List Text) : Prop :=
  (lines.filter fun line => !remark line).Perm (Key.all.map c.lineOf)

instance (c : Settings) (lines : List Text) : Decidable (Renders c lines) :=
  inferInstanceAs (Decidable (List.Perm _ _))

theorem get_injective {c d : Settings} (same : ∀ k, c.get k = d.get k) : c = d := by
  have ip := same .ip
  have port := same .port
  have username := same .username
  have dbname := same .dbname
  have passwd := same .passwd
  have initSize := same .initSize
  have maxSize := same .maxSize
  have maxIdleTime := same .maxIdleTime
  have timeout := same .maxConnectionTimeOut
  cases c
  cases d
  simp_all [Settings.get]

theorem spelling_value (outside : Int → Int) (ranged : c.Ranged) (k : Key) :
    k.value outside (c.get k).spelling = c.get k := by
  have range := ranged k
  cases k with
  | ip | username | dbname | passwd => rfl
  | port | initSize | maxSize | maxIdleTime | maxConnectionTimeOut =>
    exact congrArg Value.number (atoi_decimal outside (range _ rfl))

/-- A name is nothing that a comment or a value could start with. -/
theorem name_plain (k : Key) : equals ∉ k.name ∧ k.name.head? ≠ some 35 := by
  cases k <;> decide

/-- The text of a line for k alone. -/
def textFor (k : Key) (line : Text) : Option Text :=
  (entry line).bind fun e => if e.1 = k.name then some e.2 else none

theorem lastText_filterMap (lines : List Text) (k : Key) :
    lastText lines k = (lines.filterMap (textFor k)).getLast? := by
  induction lines with
  | nil => rfl
  | cons line lines ih =>
    rw [lastText_cons, ih, ← List.singleton_append (l := lines), List.filterMap_append,
      List.getLast?_append]
    congr 1
    unfold lastText textFor
    cases here : entry line with
    | none => simp [here]
    | some e => by_cases named : e.1 = k.name <;> simp [here, named]

theorem remark_textFor (quiet : remark line) (k : Key) : textFor k line = none := by
  unfold textFor entry
  split
  · rename_i present
    simp only [remark, present, not_true_eq_false, or_false, decide_eq_true_eq] at quiet
    cases line with
    | nil => simp at quiet
    | cons b rest =>
      obtain rfl : b = 35 := by simpa using quiet
      have other : (35 :: rest).takeWhile (· ≠ equals) ≠ k.name := by
        intro same
        apply (name_plain k).2
        rw [← same]
        rfl
      rw [Option.bind_some, if_neg other]
  · rfl

theorem line_textFor (c : Settings) (k k' : Key) :
    textFor k (c.lineOf k') = if k' = k then some (c.get k').spelling else none := by
  unfold textFor Settings.lineOf
  rw [entry_split (name_plain k').1, Option.bind_some]
  by_cases same : k' = k
  · rw [if_pos same, if_pos (same ▸ rfl)]
  · rw [if_neg same, if_neg fun names => same (name_injective names)]

/-- In a rendering exactly one line has the key, whatever the order. -/
theorem renders_lastText {lines : List Text} (renders : Renders c lines) (k : Key) :
    lastText lines k = some (c.get k).spelling := by
  have quiet : lines.filterMap (textFor k) =
      (lines.filter fun line => !remark line).filterMap (textFor k) := by
    rw [List.filterMap_filter]
    apply List.filterMap_congr
    intro line _
    cases silent : remark line with
    | true => simp [remark_textFor silent]
    | false => simp
  have own : (Key.all.map c.lineOf).filterMap (textFor k) = [(c.get k).spelling] := by
    rw [List.filterMap_map]
    have each : textFor k ∘ c.lineOf = fun k' => if k' = k then some (c.get k').spelling else none :=
      funext fun k' => line_textFor c k k'
    rw [each]
    cases k <;> rfl
  have only := renders.filterMap (textFor k)
  rw [own, List.perm_singleton] at only
  rw [lastText_filterMap, quiet, only]
  rfl

theorem renders_reference {lines : List Text} (renders : Renders c lines) (ranged : c.Ranged)
    (outside : Int → Int) (before : Settings) :
    lines.foldl (readEntry outside) before = c := by
  apply get_injective
  intro k
  rw [foldl_reference, reference, renders_lastText renders]
  exact spelling_value outside ranged k

theorem intercalate_mem {lines : List Text} {b : UInt8} (member : b ∈ [newline].intercalate lines) :
    b = newline ∨ ∃ line ∈ lines, b ∈ line := by
  induction lines with
  | nil => simp at member
  | cons line lines ih =>
    cases lines with
    | nil =>
      rw [List.intercalate_singleton] at member
      exact Or.inr ⟨line, List.mem_singleton_self line, member⟩
    | cons next lines =>
      rw [List.intercalate_cons_cons, List.append_assoc] at member
      rcases List.mem_append.mp member with first | later
      · exact Or.inr ⟨line, List.mem_cons_self, first⟩
      · rcases List.mem_cons.mp later with same | later
        · exact Or.inl same
        · rcases ih later with same | ⟨other, inside, here⟩
          · exact Or.inl same
          · exact Or.inr ⟨other, List.mem_cons_of_mem line inside, here⟩

/-- The lines of a rendering, with or without a newline after the last. -/
theorem rendering_lines {lines : List Text} {text : Text} (some_line : lines ≠ [])
    (whole : ∀ line ∈ lines, newline ∉ line)
    (joined : text = [newline].intercalate lines ∨ text = [newline].intercalate lines ++ [newline]) :
    text.splitOn newline = lines ∨ text.splitOn newline = lines ++ [[]] := by
  have split : ([newline].intercalate lines).splitOn newline = lines :=
    List.splitOn_intercalate newline whole some_line
  rcases joined with rfl | rfl
  · exact Or.inl split
  · right
    rw [List.splitOn_append_cons_self, split, List.splitOn_nil]

/-- A rendering is read back as the configuration. -/
theorem load_rendering (outside : Int → Int) (before : Settings) {lines : List Text} {text : Text}
    (ranged : c.Ranged) (renders : Renders c lines)
    (plain : ∀ line ∈ lines, newline ∉ line ∧ 0 ∉ line ∧ line.length ≤ 1022)
    (joined : text = [newline].intercalate lines ∨ text = [newline].intercalate lines ++ [newline]) :
    Loads outside (contents text) before c := by
  have some_line : lines ≠ [] := by
    rintro rfl
    have lengths := renders.length_eq
    simp [Key.all] at lengths
  have nonzero : 0 ∉ text := by
    intro zero
    have inside : 0 ∈ [newline].intercalate lines := by
      rcases joined with rfl | rfl
      · exact zero
      · simpa [newline] using zero
    rcases intercalate_mem inside with same | ⟨line, member, here⟩
    · exact absurd same (by decide)
    · exact (plain line member).2.1 here
  have read := renders_reference renders ranged outside before
  rcases rendering_lines some_line (fun line member => (plain line member).1) joined with
    split | split
  · have loads := load_lines outside before nonzero fun line member =>
      (plain line (split ▸ member)).2.2
    rwa [split, read] at loads
  · have short : ∀ line ∈ text.splitOn newline, line.length ≤ 1022 := by
      intro line member
      rw [split] at member
      rcases List.mem_append.mp member with old | last
      · exact (plain line old).2.2
      · obtain rfl := List.mem_singleton.mp last
        exact Nat.zero_le _
    have loads := load_lines outside before nonzero short
    rw [split, List.foldl_append, read] at loads
    exact loads

/-- The texts of the settings fit on a line each. -/
def Settings.Plain (c : Settings) : Prop :=
  ∀ k s, c.get k = .text s → newline ∉ s ∧ 0 ∉ s ∧ s.length ≤ 1000

/-- A configuration as a file of nine lines. -/
def Settings.saved (c : Settings) : Text := [newline].intercalate (Key.all.map c.lineOf)

theorem lineOf_not_remark (c : Settings) (k : Key) : remark (c.lineOf k) = false := by
  have present : equals ∈ c.lineOf k := by simp [Settings.lineOf]
  have start : (c.lineOf k).head? ≠ some 35 := by
    rw [Settings.lineOf, List.head?_append]
    cases first : k.name.head? with
    | none => simp [equals]
    | some b =>
      rw [Option.some_or, ← first]
      exact (name_plain k).2
  simp only [remark, present, start, not_true_eq_false, or_false, decide_false]

theorem saved_renders (c : Settings) : Renders c (Key.all.map c.lineOf) := by
  have all : (Key.all.map c.lineOf).filter (fun line => !remark line) = Key.all.map c.lineOf := by
    apply List.filter_eq_self.mpr
    intro line member
    obtain ⟨k, _, rfl⟩ := List.mem_map.mp member
    rw [lineOf_not_remark]
    rfl
  unfold Renders
  rw [all]

theorem name_writable (k : Key) : newline ∉ k.name ∧ 0 ∉ k.name ∧ k.name.length ≤ 20 := by
  cases k <;> decide

theorem spelling_writable (ranged : c.Ranged) (plain : c.Plain) (k : Key) :
    newline ∉ (c.get k).spelling ∧ 0 ∉ (c.get k).spelling ∧ (c.get k).spelling.length ≤ 1000 := by
  cases value : c.get k with
  | text s => exact plain k s value
  | number n =>
    have bytes := decimal_plain n
    have short := decimal_length (ranged k n value)
    refine ⟨fun line => ?_, fun zero => ?_, Nat.le_trans short (by decide)⟩
    · exact absurd (bytes newline line) (by decide)
    · exact absurd (bytes 0 zero) (by decide)

theorem lineOf_writable (ranged : c.Ranged) (plain : c.Plain) (k : Key) :
    newline ∉ c.lineOf k ∧ 0 ∉ c.lineOf k ∧ (c.lineOf k).length ≤ 1022 := by
  obtain ⟨line, zero, short⟩ := name_writable k
  obtain ⟨line', zero', short'⟩ := spelling_writable ranged plain k
  unfold Settings.lineOf
  refine ⟨?_, ?_, ?_⟩
  · simp only [List.mem_append, List.mem_cons, line, line', or_false, false_or]
    decide
  · simp only [List.mem_append, List.mem_cons, zero, zero', or_false, false_or]
    decide
  · rw [List.length_append, List.length_cons]
    omega

/-- Every configuration whose texts fit can be saved and loaded again. -/
theorem load_saved (outside : Int → Int) (before : Settings) (ranged : c.Ranged) (plain : c.Plain) :
    Loads outside (contents c.saved) before c := by
  apply load_rendering outside before ranged (saved_renders c) _ (Or.inl rfl)
  intro line member
  obtain ⟨k, _, rfl⟩ := List.mem_map.mp member
  exact lineOf_writable ranged plain k

/-- A pool whose file loads starts with what was loaded. -/
theorem Loads.enters {file : Nat → Got} (loads : Loads outside file blank c) (now clock : Int) :
    ∃ bound, Settles (enter outside (some file) now clock) bound
      (start (some c.config) now clock) := by
  obtain ⟨bound, settles⟩ := loads
  refine ⟨bound, fun n large => ?_, fun n p entered => ?_⟩
  · simp only [enter, settles.enough n large]
  · unfold enter at entered
    split at entered
    · rename_i c' returned
      cases settles.only n _ returned
      exact (Option.some.inj entered).symm
    · rename_i c' returned
      cases settles.only n _ returned
    · contradiction

/-- The pool of a file that renders a configuration runs with its numbers. -/
theorem enter_rendering (outside : Int → Int) {lines : List Text} {text : Text} (ranged : c.Ranged)
    (renders : Renders c lines)
    (plain : ∀ line ∈ lines, newline ∉ line ∧ 0 ∉ line ∧ line.length ≤ 1022)
    (joined : text = [newline].intercalate lines ∨ text = [newline].intercalate lines ++ [newline])
    (now clock : Int) : ∃ bound, Settles (enter outside (some (contents text)) now clock) bound
      (start (some c.config) now clock) :=
  (load_rendering outside blank ranged renders plain joined).enters now clock

/-- On a file without zero bytes whose lines fit into the array, loadConfigFile does what the
    reference reading does; so it reads every rendering of a configuration back. -/
theorem load_reads (outside : Int → Int) :
    (∀ (text : Text) (before : Settings), 0 ∉ text →
      (∀ line ∈ text.splitOn newline, line.length ≤ 1022) →
      ∃ after, Loads outside (contents text) before after ∧
        ∀ k, after.get k = reference outside before.get (text.splitOn newline) k) ∧
    ∀ (c before : Settings) (lines : List Text) (text : Text), c.Ranged → Renders c lines →
      (∀ line ∈ lines, newline ∉ line ∧ 0 ∉ line ∧ line.length ≤ 1022) →
      (text = [newline].intercalate lines ∨ text = [newline].intercalate lines ++ [newline]) →
      Loads outside (contents text) before c := by
  constructor
  · intro text before nonzero short
    exact ⟨_, load_lines outside before nonzero short, foldl_reference outside before _⟩
  · intro c before lines text ranged renders plain joined
    exact load_rendering outside before ranged renders plain joined

/-- mysql.cnf, whose last line has no newline. -/
def mysqlCnf : List Text :=
  [ofString "# 数据库连接池的配置文件", ofString "ip=localhost", ofString "port=3306",
    ofString "username=root", ofString "passwd=shiyulong", ofString "dbname=chat",
    ofString "initSize=10", ofString "maxSize=1024", ofString "maxIdleTime=60",
    ofString "maxConnectionTimeOut=100"]

def mysqlSettings : Settings :=
  ⟨ofString "localhost", 3306, ofString "root", ofString "shiyulong", ofString "chat", 10, 1024, 60,
    100⟩

theorem load_reads_mysqlCnf :
    (∃ after, Loads id (contents ([newline].intercalate mysqlCnf)) blank after ∧
      ∀ k, after.get k = reference id blank.get (([newline].intercalate mysqlCnf).splitOn newline) k) ∧
    Loads id (contents ([newline].intercalate mysqlCnf)) blank mysqlSettings := by
  have ranged : mysqlSettings.Ranged := by
    intro k n same
    cases k <;> cases same <;> decide
  constructor
  · exact (load_reads id).1 _ _ (by decide +kernel) (by decide +kernel)
  · exact (load_reads id).2 _ _ mysqlCnf _ ranged (by decide +kernel) (by decide +kernel) (Or.inl rfl)

example : loadConfigFile id (some (contents ([newline].intercalate mysqlCnf))) blank 11 =
    some (.returned true mysqlSettings) := by decide +kernel

end ConnectionPool
