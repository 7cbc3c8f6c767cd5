import Mathlib.Algebra.BigOperators.Group.List.Basic
import Mathlib.Tactic
import ProcProfile.Proofs.Fault
import ProcProfile.Reading.Lines

/-!
# Rows gathered by lines

The line profile of a source text has a row for each line of the text.  A statement row goes to the row of its
line, if the text has this line, and nowhere else.

* `IsLines`, `isLines_iff`: the lines of a text, said by its line ends, are those that the text is split into;
* `Counter.sum_map_of_lt`: a sum that fits is given;
* `onLine`, `withinLines`: the statement rows of one line, and of all lines of a text;
* `on_rowsByLine`: the loop that gathers the statement rows leaves each line its own, in their order;
* `flatMap_onLine_perm`: the lines share out the statement rows within the text;
* `LineRow.Gathers`, `lineRow_of_fits`, `lineRows_of_fit`: what the row of a line shows, for one line and for all;
* `lineProfile_shares_out`: the line profile of a text.
-/

namespace ProcProfile

/-! ### Lines of a text -/

/-- A text and its lines.  A line ends at a line feed, together with a carriage return before it; what follows the
last line feed is a line, as it stands, unless it is empty. -/
inductive IsLines : List Char → List (List Char) → Prop
  | nil : IsLines [] []
  | last {line : List Char} (hfeed : '\n' ∉ line) (hne : line ≠ []) : IsLines line [line]
  | feed {line rest : List Char} {lines : List (List Char)} (hfeed : '\n' ∉ line)
      (hreturn : line.getLast? ≠ some '\r') (h : IsLines rest lines) :
      IsLines (line ++ '\n' :: rest) (line :: lines)
  | returnFeed {line rest : List Char} {lines : List (List Char)} (hfeed : '\n' ∉ line)
      (h : IsLines rest lines) : IsLines (line ++ '\r' :: '\n' :: rest) (line :: lines)

theorem splitLines_cons_of_ne {c : Char} (hc : c ≠ '\n') (current rest : List Char) :
    splitLines current (c :: rest) = splitLines (c :: current) rest := by
  rw [splitLines]
  exact fun h => hc h

/-- What stands before a line feed is put into the current line. -/
theorem splitLines_append {line : List Char} (hfeed : '\n' ∉ line) (current rest : List Char) :
    splitLines current (line ++ rest) = splitLines (line.reverse ++ current) rest := by
  induction line generalizing current with
  | nil => rfl
  | cons c line ih =>
    rw [List.mem_cons, not_or] at hfeed
    rw [List.cons_append, splitLines_cons_of_ne (Ne.symm hfeed.1), ih hfeed.2]
    simp

theorem dropReturn_cons (line : List Char) : dropReturn ('\r' :: line) = line := rfl

theorem dropReturn_of_head {line : List Char} (h : line.head? ≠ some '\r') : dropReturn line = line := by
  cases line with
  | nil => rfl
  | cons c line =>
    have hc : c ≠ '\r' := fun hc => h (by rw [hc]; rfl)
    unfold dropReturn
    split
    · rename_i heq
      exact absurd (List.cons.inj heq).1 hc
    · rfl

/-- The lines of a text are those that it is split into. -/
theorem IsLines.splitLines_eq {text : List Char} {lines : List (List Char)} (h : IsLines text lines) :
    splitLines [] text = lines := by
  induction h with
  | nil => rfl
  | @last line hfeed hne =>
    have hsplit := splitLines_append hfeed [] []
    rw [List.append_nil, List.append_nil] at hsplit
    rw [hsplit, splitLines]
    simp [hne]
  | @feed line rest lines hfeed hreturn _ ih =>
    have hhead : line.reverse.head? ≠ some '\r' := by rwa [List.head?_reverse]
    rw [splitLines_append hfeed, splitLines, List.append_nil, dropReturn_of_head hhead, ih]
    simp
  | @returnFeed line rest lines hfeed _ ih =>
    rw [splitLines_append hfeed, splitLines_cons_of_ne (by decide), splitLines, List.append_nil, dropReturn_cons,
      ih]
    simp

/-- Every text has lines: each line feed ends one. -/
theorem exists_isLines (text : List Char) : ∃ lines, IsLines text lines := by
  induction hlength : text.length using Nat.strong_induction_on generalizing text with
  | _ n ih =>
    by_cases hfeed : '\n' ∈ text
    · obtain ⟨line, rest, rfl, hline⟩ := List.eq_append_cons_of_mem hfeed
      obtain ⟨lines, hlines⟩ := ih rest.length (by simp at hlength; omega) rest rfl
      by_cases hreturn : line.getLast? = some '\r'
      · obtain ⟨front, rfl⟩ := List.getLast?_eq_some_iff.1 hreturn
        refine ⟨front :: lines, ?_⟩
        rw [List.append_assoc]
        exact .returnFeed (fun h => hline (List.mem_append_left _ h)) hlines
      · exact ⟨line :: lines, .feed hline hreturn hlines⟩
    · by_cases hne : text = []
      · exact ⟨[], hne ▸ .nil⟩
      · exact ⟨[text], .last hfeed hne⟩

theorem isLines_iff {text : List Char} {lines : List (List Char)} :
    IsLines text lines ↔ splitLines [] text = lines := by
  constructor
  · exact IsLines.splitLines_eq
  · rintro rfl
    obtain ⟨lines, h⟩ := exists_isLines text
    rwa [h.splitLines_eq]

theorem isLines_sourceLines (source : String) : IsLines source.toList ((sourceLines source).map String.toList) := by
  rw [isLines_iff, sourceLines, List.map_map]
  simp [Function.comp_def]

/-! ### Sums -/

/-- A sum that fits into a word is given. -/
theorem Counter.sum_map_of_lt {α : Type} {f : α → Counter} {list : List α}
    (h : (list.map fun a => (f a).toNat).sum < 2 ^ 64) :
    ∃ total, Counter.sum (list.map f) = .ok total ∧ total.toNat = (list.map fun a => (f a).toNat).sum := by
  -- the sum of what was passed is `start`
  have hfrom : ∀ start : Counter, start.toNat + (list.map fun a => (f a).toNat).sum < 2 ^ 64 →
      ∃ total, List.foldlM Counter.add start (list.map f) = .ok total ∧
        total.toNat = start.toNat + (list.map fun a => (f a).toNat).sum := by
    clear h
    induction list with
    | nil => exact fun start _ => ⟨start, rfl, rfl⟩
    | cons a list ih =>
      intro start hstart
      simp only [List.map_cons, List.sum_cons] at hstart ⊢
      have hadd : Counter.add start (f a) = .ok (start + f a) := by
        rw [Counter.add_eq_ok]
        exact Counter.toNat_add_of_lt (by omega)
      have hnext := Counter.add_eq_ok.1 hadd
      obtain ⟨total, hrun, htotal⟩ := ih (start + f a) (by omega)
      refine ⟨total, ?_, by omega⟩
      rw [List.foldlM_cons, hadd]
      exact hrun
  have hzero := hfrom 0 (by simpa using h)
  simp only [UInt64.toNat_zero, Nat.zero_add] at hzero
  exact hzero

/-! ### Statement rows of a line -/

/-- The statement rows of a line, in their order. -/
def onLine (rows : List StatementRow) (n : Nat) : List StatementRow := rows.filter fun r => r.line.toInt = n

/-- The statement rows of the lines from 1 to `m`. -/
def withinLines (rows : List StatementRow) (m : Nat) : List StatementRow :=
  rows.filter fun r => 1 ≤ r.line.toInt ∧ r.line.toInt ≤ m

/-- The lines share out the statement rows within them: none is lost and none is there twice. -/
theorem flatMap_onLine_perm (rows : List StatementRow) (m : Nat) :
    ((List.range' 1 m).flatMap (onLine rows)).Perm (withinLines rows m) := by
  induction m with
  | zero =>
    have hnone : withinLines rows 0 = [] := by
      unfold withinLines
      rw [List.filter_eq_nil_iff]
      intro r _
      simp only [decide_eq_true_eq]
      omega
    rw [hnone]
    rfl
  | succ m ih =>
    have hfront : withinLines rows m = (withinLines rows (m + 1)).filter fun r => r.line.toInt ≤ (m : Int) := by
      unfold withinLines
      rw [List.filter_filter]
      refine List.filter_congr fun r _ => ?_
      rw [← Bool.decide_and, decide_eq_decide]
      omega
    have hlast : onLine rows (1 + m) = (withinLines rows (m + 1)).filter fun r => !decide (r.line.toInt ≤ (m : Int)) := by
      unfold onLine withinLines
      rw [List.filter_filter]
      refine List.filter_congr fun r _ => ?_
      rw [← decide_not, ← Bool.decide_and, decide_eq_decide]
      omega
    rw [List.range'_1_concat, List.flatMap_append, List.flatMap_singleton, hlast]
    refine (ih.append_right _).trans ?_
    rw [hfront]
    exact List.filter_append_perm ..

/-- What is added up line by line is the sum over all statement rows within the lines. -/
theorem sum_onLine (rows : List StatementRow) (m : Nat) (f : StatementRow → Nat) :
    ((List.range' 1 m).map fun n => ((onLine rows n).map f).sum).sum = ((withinLines rows m).map f).sum := by
  rw [← ((flatMap_onLine_perm rows m).map f).sum_eq, List.map_flatMap, List.flatMap, List.sum_flatten, List.map_map]
  rfl

/-! ### Gathering -/

theorem on_foldl_push (rows : List StatementRow) (byLine : ByLine StatementRow) (line : Int32) :
    ((rows.foldl (fun byLine row => byLine.push row.line row) byLine).on line).toList =
      (byLine.on line).toList ++ rows.filter fun r => r.line == line := by
  induction rows generalizing byLine with
  | nil => simp
  | cons r rows ih =>
    rw [List.foldl_cons, ih, ByLine.on_push]
    by_cases hline : r.line = line
    · simp [hline]
    · simp [hline]

/-- The rows of a line are gathered in the order in which they came. -/
theorem on_rowsByLine (rows : List StatementRow) (line : Int32) :
    ((rowsByLine rows).on line).toList = rows.filter fun r => r.line == line := by
  rw [rowsByLine, on_foldl_push, ByLine.on_empty, List.nil_append]

/-! ### Rows of lines -/

/-- A row shows the statement rows of a line, and the text of the line. -/
structure LineRow.Gathers (row : LineRow) (rows : List StatementRow) (n : Nat) (source : String) : Prop where
  line : row.line.toInt = n
  source : row.source = source
  statements : row.statements = (onLine rows n).length
  execCount : row.execCount.toNat = ((onLine rows n).map fun r => r.execCount.toNat).sum
  totalTime : row.totalTime.toNat = ((onLine rows n).map fun r => r.totalTime.toNat).sum
  maxTimes : row.maxTimes = (onLine rows n).map StatementRow.maxTime
  processedRows : row.processedRows = (onLine rows n).map StatementRow.rows
  statementLine : row.statementLine = if 0 < row.statements then some row.line else none

/-- The sums of a line fit into words. -/
structure LineFits (rows : List StatementRow) (n : Nat) : Prop where
  execCount : ((onLine rows n).map fun r => r.execCount.toNat).sum < 2 ^ 64
  totalTime : ((onLine rows n).map fun r => r.totalTime.toNat).sum < 2 ^ 64

variable {rows : List StatementRow}

/-- The row of one line. -/
theorem lineRow_of_fits {n : Nat} (hn : n < 2 ^ 31) (h : LineFits rows n) (source : String) :
    ∃ row, lineRow (rowsByLine rows) (Int32.ofNat n) source = .ok row ∧ row.Gathers rows n source := by
  have hline := Int32.toInt_ofNat_of_lt hn
  have hfilter : (rows.filter fun r => r.line == Int32.ofNat n) = onLine rows n := by
    refine List.filter_congr fun r _ => ?_
    rw [Bool.eq_iff_iff, beq_iff_eq, decide_eq_true_eq, ← hline, Int32.toInt_inj]
  obtain ⟨execs, hexecs, hexecsNat⟩ := Counter.sum_map_of_lt h.execCount
  obtain ⟨times, htimes, htimesNat⟩ := Counter.sum_map_of_lt h.totalTime
  unfold lineRow
  rw [on_rowsByLine, hfilter]
  dsimp only
  rw [hexecs, htimes]
  refine ⟨_, rfl, hline, rfl, rfl, hexecsNat, htimesNat, rfl, rfl, ?_⟩
  cases onLine rows n with
  | nil => rfl
  | cons r list => simp

/-- The rows of lines that follow each other. -/
theorem lineRows_of_fit {n : Nat} {sources : List String} (hn : n + sources.length ≤ 2 ^ 31)
    (h : ∀ i < sources.length, LineFits rows (n + i)) :
    ∃ profile, lineRows (rowsByLine rows) n sources = .ok profile ∧ profile.length = sources.length ∧
      ∀ (i : Nat) (row : LineRow) (source : String), profile[i]? = some row → sources[i]? = some source →
        row.Gathers rows (n + i) source := by
  induction sources generalizing n with
  | nil => exact ⟨[], rfl, rfl, by simp⟩
  | cons source sources ih =>
    rw [List.length_cons] at hn h
    have hfirst : LineFits rows n := h 0 (by omega)
    obtain ⟨row, hrow, hgathers⟩ := lineRow_of_fits (by omega) hfirst source
    obtain ⟨rest, hrest, hlength, hall⟩ := ih (n := n + 1) (by omega) fun i hi => by
      have hfits := h (i + 1) (by omega)
      rwa [show n + (i + 1) = n + 1 + i by omega] at hfits
    refine ⟨row :: rest, ?_, by simp [hlength], ?_⟩
    · rw [lineRows, hrow, hrest]
      rfl
    · intro i row' source' hi hsource
      cases i with
      | zero =>
        cases hi
        cases hsource
        exact hgathers
      | succ i =>
        rw [show n + (i + 1) = n + 1 + i by omega]
        exact hall i row' source' hi hsource

/-- A line profile shares out statement rows over the lines of a source text: what its rows show of the lines adds up
to what there is within the text. -/
structure SharesOut (rows : List StatementRow) (sources : List String) (profile : List LineRow) : Prop where
  length : profile.length = sources.length
  gathers : ∀ (i : Nat) (row : LineRow) (source : String), profile[i]? = some row → sources[i]? = some source →
    row.Gathers rows (i + 1) source
  shared : ((List.range' 1 sources.length).flatMap (onLine rows)).Perm (withinLines rows sources.length)
  statements : (profile.map LineRow.statements).sum = (withinLines rows sources.length).length
  execCount : (profile.map fun row => row.execCount.toNat).sum =
    ((withinLines rows sources.length).map fun r => r.execCount.toNat).sum
  totalTime : (profile.map fun row => row.totalTime.toNat).sum =
    ((withinLines rows sources.length).map fun r => r.totalTime.toNat).sum

/-- What a row shows of its line, added up over all lines. -/
theorem sum_map_profile {sources : List String} {profile : List LineRow} (hlength : profile.length = sources.length)
    (hgathers : ∀ (i : Nat) (row : LineRow) (source : String), profile[i]? = some row → sources[i]? = some source →
      row.Gathers rows (i + 1) source) {shown : LineRow → Nat} {f : StatementRow → Nat}
    (hshown : ∀ row n source, LineRow.Gathers row rows n source → shown row = ((onLine rows n).map f).sum) :
    (profile.map shown).sum = ((withinLines rows sources.length).map f).sum := by
  rw [← sum_onLine]
  congr 1
  apply List.ext_getElem
  · simp [hlength]
  · intro i hi _
    rw [List.length_map] at hi
    have hrow := hgathers i profile[i] sources[i] (List.getElem?_eq_getElem hi) (List.getElem?_eq_getElem (by omega))
    simp only [List.getElem_map, List.getElem_range', Nat.one_mul]
    rw [hshown _ _ _ hrow, Nat.add_comm]

/-- **Line profiles share out the statement rows.**  A text of fewer than 2^31 lines, none of whose sums is too large,
has a line profile: a row for each line, in order, that shows the statement rows of this line and no other ones.
Together the rows show the statement rows of the lines that the text has, each once. -/
theorem lineProfile_shares_out (rows : List StatementRow) (source : String)
    (hlines : (sourceLines source).length < 2 ^ 31)
    (hfits : ∀ n, 1 ≤ n → n ≤ (sourceLines source).length → LineFits rows n) :
    IsLines source.toList ((sourceLines source).map String.toList) ∧
    ∃ profile, lineProfile rows source = .ok profile ∧ SharesOut rows (sourceLines source) profile := by
  have hfrom : ∀ i < (sourceLines source).length, LineFits rows (1 + i) := fun i hi =>
    hfits (1 + i) (by omega) (by omega)
  obtain ⟨profile, hrun, hlength, hgathers⟩ := lineRows_of_fit (by omega) hfrom
  have hgathers : ∀ (i : Nat) (row : LineRow) (text : String), profile[i]? = some row →
      (sourceLines source)[i]? = some text → row.Gathers rows (i + 1) text := by
    intro i row text hrow htext
    rw [Nat.add_comm]
    exact hgathers i row text hrow htext
  refine ⟨isLines_sourceLines source, profile, hrun, hlength, hgathers, flatMap_onLine_perm rows _, ?_, ?_, ?_⟩
  · have hcount : ∀ row n text, LineRow.Gathers row rows n text →
        row.statements = ((onLine rows n).map fun _ => 1).sum := by
      intro row n text h
      simp [h.statements]
    have hsum := sum_map_profile hlength hgathers hcount
    simpa using hsum
  · exact sum_map_profile hlength hgathers fun row n text h => h.execCount
  · exact sum_map_profile hlength hgathers fun row n text h => h.totalTime

/-- The row of a statement on a line, executed some times. -/
def rowOn (line : Int32) (execs time : Counter) : StatementRow where
  naturalId := 0
  parentId := none
  blockLabel := none
  blockNum := 1
  line := line
  kind := "assignment"
  execCount := execs
  errorCount := 0
  totalTime := time
  maxTime := time
  rows := execs
  fingerprint := none

/-- Rows out of order, two of them on one line, and two on no line of the text. -/
def scatteredRows : List StatementRow := [rowOn 3 2 9, rowOn 1 1 4, rowOn 7 5 5, rowOn 3 1 6, rowOn 0 8 8]

theorem lineProfile_shares_out_scatteredRows :
    sourceLines "BEGIN\r\n\n  x := 1;\r" = ["BEGIN", "", "  x := 1;\r"] ∧
    ∃ profile, lineProfile scatteredRows "BEGIN\r\n\n  x := 1;\r" = .ok profile ∧
      SharesOut scatteredRows ["BEGIN", "", "  x := 1;\r"] profile ∧
      (profile.map fun row => (row.line, row.statementLine, row.execCount, row.maxTimes)) =
        [(1, some 1, 1, [4]), (2, none, 0, []), (3, some 3, 3, [9, 6])] := by
  have hsources : sourceLines "BEGIN\r\n\n  x := 1;\r" = ["BEGIN", "", "  x := 1;\r"] := by decide +kernel
  have hfits : ∀ n, 1 ≤ n → n ≤ (sourceLines "BEGIN\r\n\n  x := 1;\r").length → LineFits scatteredRows n := by
    intro n _ hn
    rw [hsources] at hn
    change n ≤ 3 at hn
    constructor
    · interval_cases n <;> decide
    · interval_cases n <;> decide
  obtain ⟨-, profile, hrun, hshares⟩ := lineProfile_shares_out scatteredRows "BEGIN\r\n\n  x := 1;\r"
    (by rw [hsources]; decide) hfits
  rw [hsources] at hshares
  refine ⟨hsources, profile, hrun, hshares, ?_⟩
  have hshown : (List.map fun row : LineRow => (row.line, row.statementLine, row.execCount, row.maxTimes)) <$>
      lineProfile scatteredRows "BEGIN\r\n\n  x := 1;\r" =
      .ok [(1, some 1, 1, [4]), (2, none, 0, []), (3, some 3, 3, [9, 6])] := by decide +kernel
  rw [hrun] at hshown
  exact Except.ok.inj hshown

end ProcProfile
