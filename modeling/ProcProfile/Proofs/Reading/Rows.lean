import Mathlib.Tactic
import ProcProfile.Proofs.Numbering
import ProcProfile.Proofs.Reading

/-!
# Rows are the visible statements

The rows of a copy are made along its own numbering and from records that match its tree, or from none.  There is one
row for each visible statement, in source order, and each row leads back to its statement and to its record, however
many invisible statements stand between them.

* `Reading.Matching`: records that are those of a tree;
* `Reading.items_of_matching`: such a profile is passed as a whole;
* `Shows`: a row shows a statement of a tree with its place and its counts;
* `rows_of_visible_statements`: the rows of a copy show its visible statements, each once and in order.
-/

namespace ProcProfile

open Statement

namespace Reading

/-- There are no records, or there is one of its line for each statement of a tree. -/
def Matching (body : Statement) (records : Option (List Record)) : Prop :=
  ∀ list : List Record, records = some list → ∀ (i : Nat) (s : Statement), body.preorder[i]? = some s →
    ∃ record, list[i]? = some record ∧ record.line = s.line

/-- Records match a tree if their lines begin with the lines of the tree. -/
theorem matching_of_lines {body : Statement} {list : List Record}
    (h : body.preorder.map Statement.line <+: list.map Record.line) : Matching body (some list) := by
  intro list' hlist i s hs
  cases hlist
  have hi : i < (body.preorder.map Statement.line).length := by
    rw [List.length_map]
    exact (List.getElem?_eq_some_iff.1 hs).1
  have hline := List.prefix_iff_getElem?.1 h i hi
  rw [← List.getElem?_eq_getElem, List.getElem?_map, List.getElem?_map, hs] at hline
  simpa using hline

variable {proc : Procedure} {m : Numbering} {records : Option (List Record)}

/-- Along its own numbering, every statement gets its record. -/
theorem served_of_matching (hbuild : Numbering.build proc = .ok m) (hmatching : Matching proc.body records) {k : Nat}
    {s : Statement} (hs : proc.body.preorder[k]? = some s) : Served (profileOf proc m records) k s := by
  refine ⟨Numbering.naturalId_of_build hbuild hs, fun list hlist => ?_⟩
  obtain ⟨list, rfl, rfl⟩ := Option.map_eq_some_iff.1 hlist
  simpa using hmatching list rfl k s hs

/-- A profile that matches its tree is passed as a whole. -/
theorem items_of_matching (hbuild : Numbering.build proc = .ok m) (hmatching : Matching proc.body records)
    (hfits : Fits (profileOf proc m records) proc.body) :
    items proc m records = .ok ((Spot.root proc.body).steps.flatMap (Step.items (profileOf proc m records))) := by
  have hok := forM_eq_ok_iff_served.2 ⟨hfits, fun k s hs => served_of_matching hbuild hmatching hs⟩
  rw [items, through, hok]
  rfl

/-- What is made of the statements that a walk passes comes in pre-order. -/
theorem filterMap_items {β : Type} {f : ReadItem → Option β} (hbranch : ∀ execCount, f (.branch execCount) = none)
    (hoverrun : f .overrun = none) (p : Profile) (steps : List Step) :
    (steps.flatMap (Step.items p)).filterMap f =
      (steps.filterMap Step.spot?).filterMap
        fun c => f (.statement c.index c.parent c.position c.statement (stored p c.index)) := by
  induction steps with
  | nil => rfl
  | cons step steps ih =>
    rw [List.flatMap_cons, List.filterMap_append, ih]
    cases step with
    | read c =>
      cases hc : f (.statement c.index c.parent c.position c.statement (stored p c.index)) <;>
        simp [Step.items, Step.spot?, hc]
    | branch b =>
      cases b with
      | list start list => simp [Step.items, Step.spot?, List.filterMap_cons, hbranch]
      | implicitElse outer taken =>
        rw [Step.items, implicitElseItems]
        split_ifs <;> simp [Step.spot?, List.filterMap_cons, hbranch, hoverrun]
    | sum outer taken => simp [Step.items, Step.spot?, List.filterMap_cons]

end Reading

/-! ### Rows -/

/-- The statement at a position of a tree is visible. -/
def Statement.visibleAt (body : Statement) (i : Nat) : Bool := body.preorder[i]?.any isVisible

/-- A row shows a statement of a tree, its place there, and its counts. -/
structure Shows (body : Statement) (records : Option (List Record)) (row : StatementRow) : Prop where
  statement : ∃ s, body.preorder[row.naturalId]? = some s ∧ row.line = s.line ∧ row.kind = s.typename ∧
    row.fingerprint = s.fingerprint
  /-- Only the root is in no other statement. -/
  root_iff : row.parentId = none ↔ row.naturalId = 0
  root : row.parentId = none → row.blockLabel = none ∧ row.blockNum = 1
  /-- From the statement that it is directly in, label and number lead back to the statement. -/
  inner : ∀ k, row.parentId = some k → row.naturalId ∈ body.children k ∧
    ∃ label, row.blockLabel = some label ∧ body.follow k label row.blockNum = some row.naturalId
  counted : ∀ list : List Record, records = some list → ∃ record, list[row.naturalId]? = some record ∧
    row.execCount = record.execCount ∧ row.errorCount = record.errorCount ∧ row.totalTime = record.totalTime ∧
    row.maxTime = record.maxTime ∧ row.rows = record.rows
  uncounted : records = none → row.execCount = 0 ∧ row.errorCount = 0 ∧ row.totalTime = 0 ∧ row.maxTime = 0 ∧
    row.rows = 0

namespace Spot

open Reading

/-- The row of a spot. -/
def row (p : Profile) (c : Spot) : StatementRow :=
  c.statement.row c.index c.parent c.position (stored p c.index)

theorem row?_statement (p : Profile) (c : Spot) :
    (ReadItem.statement c.index c.parent c.position c.statement (stored p c.index)).row? =
      if c.statement.isVisible then some (c.row p) else none := rfl

/-- The rows made of a whole tree. -/
theorem filterMap_row? (p : Profile) (body : Statement) :
    ((root body).steps.flatMap (Step.items p)).filterMap ReadItem.row? =
      ((root body).all.filter fun c => c.statement.isVisible).map (row p) := by
  rw [filterMap_items (fun _ => rfl) rfl, filterMap_steps]
  simp only [row?_statement]
  rw [← List.filterMap_eq_map, List.filterMap_filter]
  rfl

/-- They are at the positions of the visible statements. -/
theorem map_index_filter_visible (body : Statement) :
    ((root body).all.filter fun c => c.statement.isVisible).map index =
      (List.range body.count).filter body.visibleAt := by
  have hvisible : ∀ c ∈ (root body).all, c.statement.isVisible = body.visibleAt c.index := by
    intro c hc
    rw [visibleAt, getElem?_preorder_of_mem hc, Option.any_some]
  have hindex : (root body).all.map index = List.range body.count := by
    rw [map_index_all, List.range_eq_range']
    rfl
  rw [List.filter_congr hvisible, ← hindex, List.filter_map]
  rfl

theorem index_mem_children {body : Statement} {c d : Spot} (hc : body.preorder[c.index]? = some c.statement)
    (hd : d ∈ c.inner) : d.index ∈ body.children c.index := by
  rw [children_eq hc, ← map_index_inner]
  exact List.mem_map_of_mem hd

/-- The row of a spot shows its statement. -/
theorem shows_row {body : Statement} {proc : Procedure} {m : Numbering} {records : Option (List Record)}
    (hmatching : Matching body records) {c : Spot} (hc : c ∈ (root body).all) :
    Shows body records (c.row (profileOf proc m records)) := by
  have hs := getElem?_preorder_of_mem hc
  have hplace : c = root body ∨ ∃ k arm, c.parent = some ⟨k, arm⟩ ∧ c.index ∈ body.children k ∧
      body.follow k arm.label c.position = some c.index := by
    rcases eq_or_mem_inner hc with hroot | ⟨o, ho, hco⟩
    · exact .inl hroot
    · have hos := getElem?_preorder_of_mem ho
      obtain ⟨arm, hparent, hfollow⟩ := follow_of_mem_inner hos hco
      exact .inr ⟨o.index, arm, hparent, index_mem_children hos hco, hfollow⟩
  refine ⟨⟨c.statement, hs, rfl, rfl, rfl⟩, ?_, ?_, ?_, fun list hlist => ?_, fun hnone => ?_⟩
  · rcases hplace with rfl | ⟨k, arm, hparent, hchild, -⟩
    · exact iff_of_true rfl rfl
    · refine iff_of_false (by simp [row, Statement.row, hparent]) ?_
      exact (Nat.zero_le k |>.trans_lt (lt_of_mem_children hchild)).ne'
  · rcases hplace with rfl | ⟨k, arm, hparent, -⟩
    · exact fun _ => ⟨rfl, rfl⟩
    · simp [row, Statement.row, hparent]
  · intro k hk
    rcases hplace with rfl | ⟨k', arm, hparent, hchild, hfollow⟩
    · cases hk
    · rw [row, hparent] at hk
      cases hk
      exact ⟨hchild, arm.label, by simp [row, Statement.row, hparent], hfollow⟩
  · obtain ⟨record, hrecord, -⟩ := hmatching list hlist c.index c.statement hs
    have hstored : stored (profileOf proc m records) c.index = record := by simp [stored, hlist, hrecord]
    refine ⟨record, hrecord, ?_⟩
    simp [row, Statement.row, hstored]
  · have hstored : stored (profileOf proc m records) c.index = Record.unused := by simp [stored, hnone]
    rw [row, hstored]
    exact ⟨rfl, rfl, rfl, rfl, rfl⟩

end Spot

/-- **Rows are the visible statements.**  From records that match the tree of a copy, or from none, one row is made for
each visible statement, in pre-order, and each row shows its statement with its place and its counts. -/
theorem rows_of_visible_statements {proc : Procedure} {m : Numbering} (hbuild : Numbering.build proc = .ok m)
    {records : Option (List Record)} (hmatching : Reading.Matching proc.body records)
    (hfits : Reading.Fits (Reading.profileOf proc m records) proc.body) :
    ∃ rows, resultRows proc m records = .ok rows ∧
      rows.map StatementRow.naturalId = (List.range proc.body.count).filter proc.body.visibleAt ∧
      ∀ row ∈ rows, Shows proc.body records row := by
  refine ⟨((Spot.root proc.body).all.filter fun c => c.statement.isVisible).map
    (Spot.row (Reading.profileOf proc m records)), ?_, ?_, ?_⟩
  · rw [resultRows_eq, Reading.items_of_matching hbuild hmatching hfits, ← Spot.filterMap_row?]
    rfl
  · rw [List.map_map, ← Spot.map_index_filter_visible]
    rfl
  · intro row hrow
    obtain ⟨c, hc, rfl⟩ := List.mem_map.1 hrow
    exact Spot.shows_row hmatching (List.mem_of_mem_filter hc)

/-- A block that the interpreter made up around one with an IF without an ELSE, and a loop. -/
def branching : Procedure :=
  .compile 7 ⟨10, 1, 1, 0⟩ "f" <|
    .block ⟨none, 0⟩ none [.block ⟨none, 1⟩ none
      [.simple ⟨none, 2⟩ .assign none,
        .cond ⟨none, 3⟩ [.simple ⟨none, 4⟩ .perform none] [[.simple ⟨none, 6⟩ .perform (some 5)], []] none,
        .loop ⟨none, 8⟩ .while [.simple ⟨none, 9⟩ .assign none],
        .simple ⟨none, 11⟩ .return none] []] []

def branchingNumbering : Numbering where
  identity := ⟨10, 1, 1, 0⟩
  index := .lines (.ofList branching.places branching.body.preorder)
  nativeIds := List.replicate 9 none
  lines := [0, 1, 2, 3, 4, 6, 8, 9, 11]
  fingerprints := [none, none, none, none, none, some 5, none, none, none]

/-- Records with these execution counts, and unused ones behind them. -/
def branchingRecords (execCounts : List Counter) : List Record :=
  (branchingNumbering.lines.zip execCounts).map (fun x => { Record.ofLine x.1 with execCount := x.2 }) ++
    List.replicate 21 Record.unused

theorem rows_of_visible_statements_branching :
    Numbering.build branching = .ok branchingNumbering ∧
      Reading.Matching branching.body (some (branchingRecords [1, 8, 8, 8, 5, 1, 8, 0, 8])) ∧
      ∃ rows, resultRows branching branchingNumbering (some (branchingRecords [1, 8, 8, 8, 5, 1, 8, 0, 8])) = .ok rows ∧
        rows.map StatementRow.naturalId = [1, 2, 3, 4, 5, 6, 7, 8] ∧
        ∀ row ∈ rows, Shows branching.body (some (branchingRecords [1, 8, 8, 8, 5, 1, 8, 0, 8])) row := by
  have hbuild : Numbering.build branching = .ok branchingNumbering := rfl
  have hmatching : Reading.Matching branching.body (some (branchingRecords [1, 8, 8, 8, 5, 1, 8, 0, 8])) :=
    Reading.matching_of_lines (by decide)
  obtain ⟨rows, hrows, hids, hshows⟩ := rows_of_visible_statements hbuild hmatching (by decide)
  refine ⟨hbuild, hmatching, rows, hrows, ?_, hshows⟩
  rw [hids]
  decide

end ProcProfile
