import Mathlib.Tactic
import ProcProfile.Proofs.RegionFile
import ProcProfile.Proofs.Report.Documents
import ProcProfile.Report.File

/-!
# Report files

A report or a dump is read back from the file to which it was written.  Writing makes the directories that lead to the
file and takes no name from anything, so all is ready to write the same document again, and that changes nothing.

* `Disk.MoreDirs`, `makeDir_ok`, `makeEach_ok`, `makeDirs_ok`: directories that are made, and all else that stays;
* `Disk.Whole`, `openOrCreate_ok`: files that have contents;
* `writeDocument_ok_iff`, `exists_writeDocument_iff`, `writeDocument_ok`: how a document comes into its file, where it
  can, and what then stands there;
* `HoldsText.readDocument`, `HoldsText.readAs`: what is read from there;
* `documents_survive_files`: reports and dumps.
-/

namespace ProcProfile

namespace Disk

variable {d d' d₁ : Disk} {path : String}

/-! ### Disks that grow -/

/-- Every name leads to what it led to, and the files are the same: at most directories are new. -/
structure MoreDirs (d d' : Disk) : Prop where
  contents : d'.contents = d.contents
  keeps : ∀ names node, d.lookup names = some node → d'.lookup names = some node
  files : ∀ names id, d'.lookup names = some (.file id) → d.lookup names = some (.file id)

theorem MoreDirs.refl (d : Disk) : d.MoreDirs d := ⟨rfl, fun _ _ h => h, fun _ _ h => h⟩

theorem MoreDirs.trans (h : d.MoreDirs d₁) (h' : d₁.MoreDirs d') : d.MoreDirs d' :=
  ⟨h'.contents.trans h.contents, fun names node hn => h'.keeps names node (h.keeps names node hn),
    fun names id hn => h.files names id (h'.files names id hn)⟩

/-- What a path led to, it leads to on a disk that keeps its names. -/
theorem exists?_of_keeps (h : ∀ names node, d.lookup names = some node → d'.lookup names = some node)
    (hpath : d.exists? path = true) : d'.exists? path = true := by
  unfold exists? at hpath ⊢
  cases hresolve : d.resolve path with
  | error e =>
    rw [hresolve] at hpath
    cases hpath
  | ok found =>
    obtain ⟨names, node⟩ := found
    obtain ⟨t, ht, hshort, hnode, hnames, hflag⟩ := resolve_ok_iff.1 hresolve
    have hresolve' : d'.resolve path = .ok (names, node) :=
      resolve_ok_iff.2 ⟨t, target_of_dirs (fun names => h names .dir) ht, hshort, h _ _ hnode, hnames, hflag⟩
    rw [hresolve']
    rfl

theorem exists?_of_isDir (h : d.isDir path = true) : d.exists? path = true := by
  unfold isDir at h
  unfold exists?
  cases hresolve : d.resolve path with
  | error e =>
    rw [hresolve] at h
    cases h
  | ok found => rfl

/-! ### Making directories -/

/-- A directory that is made is there, and nothing else has changed. -/
theorem makeDir_ok (h : d.makeDir path = .ok d') : d.MoreDirs d' ∧ d'.exists? path = true := by
  unfold makeDir at h
  obtain ⟨t, ht, h⟩ := bind_eq_ok_iff.1 h
  split_ifs at h
  obtain ⟨node, hnode, h⟩ := bind_eq_ok_iff.1 h
  unfold find at hnode
  split_ifs at hnode with hlong
  cases hnode
  cases hnone : d.lookup t.names with
  | some node =>
    rw [hnone] at h
    cases h
  | none =>
    rw [hnone] at h
    cases h
    have hlookup := lookup_bind_of_none hnone .dir
    have hmore : d.MoreDirs (d.bind t.names .dir) := by
      refine ⟨rfl, fun names node hn => ?_, fun names id hn => ?_⟩
      · rw [hlookup, if_neg, hn]
        rintro rfl
        rw [hnone] at hn
        cases hn
      · rw [hlookup] at hn
        split_ifs at hn
        · cases hn
        · exact hn
    refine ⟨hmore, ?_⟩
    have hresolve : (d.bind t.names .dir).resolve path = .ok (t.names, .dir) := by
      rw [resolve_ok_iff]
      refine ⟨t, target_of_dirs (fun names => hmore.keeps names .dir) ht, Nat.not_lt.1 hlong, ?_, rfl,
        fun hne => absurd rfl hne⟩
      rw [hlookup, if_pos rfl]
    rw [exists?, hresolve]
    rfl

theorem makeEach_moreDirs (d : Disk) (paths : List String) : d.MoreDirs (d.makeEach paths).1 := by
  induction paths generalizing d with
  | nil => exact .refl d
  | cons path paths ih =>
    rw [makeEach]
    cases hmake : d.makeDir path with
    | ok d' => exact (makeDir_ok hmake).1.trans (ih d')
    | error e =>
      dsimp only
      split_ifs
      · exact ih d
      · exact .refl d

/-- All directories of a list are there once they are made. -/
theorem makeEach_ok {paths : List String} (h : d.makeEach paths = (d', .ok ())) :
    ∀ path ∈ paths, d'.exists? path = true := by
  induction paths generalizing d with
  | nil => simp
  | cons path paths ih =>
    rw [makeEach] at h
    have hmore : ∀ d₁ : Disk, d₁.makeEach paths = (d', .ok ()) → d₁.exists? path = true →
        ∀ other ∈ path :: paths, d'.exists? other = true := by
      intro d₁ hrun hpath
      have hkeeps := (makeEach_moreDirs d₁ paths).keeps
      rw [hrun] at hkeeps
      rw [List.forall_mem_cons]
      exact ⟨exists?_of_keeps hkeeps hpath, ih hrun⟩
    cases hmake : d.makeDir path with
    | ok d₁ =>
      rw [hmake] at h
      exact hmore d₁ h (makeDir_ok hmake).2
    | error e =>
      rw [hmake] at h
      dsimp only at h
      split_ifs at h with hdir
      · rw [Bool.and_eq_true] at hdir
        exact hmore d h (exists?_of_isDir hdir.2)
      · cases h

/-- Whether a path has no directory above it that could be made. -/
def isTopPath (path : String) : Bool := path = "" || (Path.parent path).isNone

theorem makeFirst_moreDirs (d : Disk) (missing paths : List String) : d.MoreDirs (d.makeFirst missing paths).1 := by
  induction paths generalizing missing with
  | nil => exact .refl d
  | cons path paths ih =>
    rw [makeFirst]
    split_ifs
    · exact .refl d
    · split
      · rename_i d' hmake
        exact (makeDir_ok hmake).1
      · exact ih _
      · exact .refl d

/-- What is missing is listed in front of what was missing before. -/
theorem makeFirst_suffix {missing paths found : List String} (h : d.makeFirst missing paths = (d', .ok found)) :
    ∃ front, found = front ++ missing := by
  induction paths generalizing missing with
  | nil =>
    cases h
    exact ⟨[], rfl⟩
  | cons path paths ih =>
    rw [makeFirst] at h
    split_ifs at h
    · cases h
      exact ⟨[], rfl⟩
    · split at h
      · cases h
        exact ⟨[], rfl⟩
      · obtain ⟨front, hfront⟩ := ih h
        exact ⟨front ++ [path], by rw [hfront, List.append_assoc]; rfl⟩
      · split_ifs at h
        · cases h
          exact ⟨[], rfl⟩
        · cases h

/-- The first of some paths is there already, or is made, or is listed as missing. -/
theorem makeFirst_ok {paths found : List String} (h : d.makeFirst [] (path :: paths) = (d', .ok found)) :
    isTopPath path = true ∨ d'.exists? path = true ∨ path ∈ found := by
  rw [makeFirst] at h
  split_ifs at h with htop
  · exact .inl htop
  · split at h
    · rename_i hmake
      cases h
      exact .inr (.inl (makeDir_ok hmake).2)
    · obtain ⟨front, rfl⟩ := makeFirst_suffix h
      exact .inr (.inr (List.mem_append_right _ (List.mem_singleton_self path)))
    · rename_i e hmake
      split_ifs at h with hdir
      · cases h
        rw [Bool.and_eq_true] at hdir
        exact .inr (.inl (exists?_of_isDir hdir.2))
      · cases h

theorem makeDirs_moreDirs (d : Disk) (path : String) : d.MoreDirs (d.makeDirs path).1 := by
  unfold makeDirs
  have hfirst := makeFirst_moreDirs d [] (Path.ancestors path)
  split
  · rename_i hrun
    rwa [hrun] at hfirst
  · rename_i hrun
    rw [hrun] at hfirst
    exact hfirst.trans (makeEach_moreDirs _ _)

/-- A directory that was made with all that lead to it is there, unless there is none to make. -/
theorem makeDirs_ok (h : d.makeDirs path = (d', .ok ())) : isTopPath path = true ∨ d'.exists? path = true := by
  have hancestors : ∃ above, Path.ancestors path = path :: above := ⟨_, rfl⟩
  obtain ⟨above, habove⟩ := hancestors
  unfold makeDirs at h
  rw [habove] at h
  split at h
  · cases h
  · rename_i d₁ found hrun
    rcases makeFirst_ok hrun with htop | hthere | hmissing
    · exact .inl htop
    · have hkeeps := (makeEach_moreDirs d₁ found).keeps
      rw [h] at hkeeps
      exact .inr (exists?_of_keeps hkeeps hthere)
    · exact .inr (makeEach_ok h path hmissing)

theorem makeDirs_of_isTopPath (h : isTopPath path = true) : d.makeDirs path = (d, .ok ()) := by
  have hfirst : d.makeFirst [] (Path.ancestors path) = (d, .ok []) := by
    unfold isTopPath at h
    show d.makeFirst [] (path :: _) = _
    rw [makeFirst, if_pos h]
  unfold makeDirs
  rw [hfirst]
  rfl

/-! ### Files -/

/-- The contents of every file that has a name are kept. -/
def Whole (d : Disk) : Prop := ∀ names id, d.lookup names = some (.file id) → id < d.contents.size

theorem whole_empty : empty.Whole := by
  intro names id h
  unfold lookup at h
  split_ifs at h
  · cases h
  · cases h

theorem Whole.of_moreDirs (h : d.Whole) (hmore : d.MoreDirs d') : d'.Whole := by
  intro names id hn
  rw [hmore.contents]
  exact h names id (hmore.files names id hn)

/-- What opening a file for writing leaves: all names, and contents for the file. -/
theorem openOrCreate_ok {id : FileId} (h : d.openOrCreate path = .ok (d', id)) (hd : d.Whole) :
    (∀ names node, d.lookup names = some node → d'.lookup names = some node) ∧ d'.Whole ∧ id < d'.contents.size := by
  unfold openOrCreate at h
  obtain ⟨t, ht, h⟩ := bind_eq_ok_iff.1 h
  split_ifs at h
  obtain ⟨node, hnode, h⟩ := bind_eq_ok_iff.1 h
  unfold find at hnode
  split_ifs at hnode
  cases hnode
  cases hfound : d.lookup t.names with
  | none =>
    rw [hfound] at h
    cases h
    have hlookup := lookup_bind_of_none (d := { d with contents := d.contents.push .empty }) hfound
      (.file d.contents.size)
    have hsize : (d.contents.push Contents.empty).size = d.contents.size + 1 := Array.size_push _
    refine ⟨fun names node hn => ?_, fun names id hn => ?_, hsize.symm ▸ Nat.lt_succ_self _⟩
    · rw [hlookup, if_neg]
      · exact hn
      · rintro rfl
        rw [hfound] at hn
        cases hn
    · rw [hlookup] at hn
      show id < (d.contents.push Contents.empty).size
      rw [hsize]
      split_ifs at hn
      · cases hn
        exact Nat.lt_succ_self _
      · exact (hd names id hn).trans (Nat.lt_succ_self _)
  | some node =>
    rw [hfound] at h
    cases node with
    | dir => cases h
    | file id =>
      cases h
      exact ⟨fun _ _ hn => hn, hd, hd _ _ hfound⟩

/-- Written twice is written once. -/
theorem write_write (d : Disk) (id : FileId) (c : Contents) : (d.write id c).write id c = d.write id c := by
  unfold write
  simp

/-! ### Documents in files -/

/-- The directory above a file. -/
def parentOf (path : String) : String := (Path.parent path).getD ""

/-- The disk on which the directory above a file is there, or is made. -/
def withParent (d : Disk) (path : String) : Disk × Except DiskError Unit :=
  if parentOf path = "" || d.exists? (parentOf path) then (d, .ok ()) else d.makeDirs (parentOf path)

/-- Nothing has to be made above a file. -/
def HasParent (d : Disk) (path : String) : Prop :=
  d.exists? (parentOf path) = true ∨ isTopPath (parentOf path) = true

theorem withParent_ok (h : (d.withParent path).2 = .ok ()) :
    d.MoreDirs (d.withParent path).1 ∧ (d.withParent path).1.HasParent path := by
  unfold withParent at h ⊢
  split_ifs at h ⊢ with hthere
  · refine ⟨.refl d, ?_⟩
    rw [Bool.or_eq_true, decide_eq_true_eq] at hthere
    rcases hthere with hempty | hthere
    · exact .inr (by simp [isTopPath, hempty])
    · exact .inl hthere
  · have hrun : d.makeDirs (parentOf path) = ((d.makeDirs (parentOf path)).1, .ok ()) := by rw [← h]
    exact ⟨makeDirs_moreDirs d _, (makeDirs_ok hrun).symm⟩

theorem HasParent.withParent (h : d.HasParent path) : d.withParent path = (d, .ok ()) := by
  unfold Disk.withParent
  split_ifs with hthere
  · rfl
  · rw [Bool.or_eq_true, not_or] at hthere
    exact makeDirs_of_isTopPath (h.resolve_left hthere.2)

theorem writeDocument_ok_iff {j : Json} : d.writeDocument path j = (d', .ok ()) ↔
    path ≠ "" ∧ d.isDir path = false ∧ (d.withParent path).2 = .ok () ∧
      (d.withParent path).1.createFile path j.pretty.toUTF8 = .ok d' := by
  constructor
  · intro h
    unfold writeDocument at h
    split_ifs at h with hempty hdir
    · cases h
    · cases h
    · dsimp only at h
      split at h
      · cases h
      · rename_i hmade
        split at h
        · cases h
        · rename_i hcreate
          cases h
          exact ⟨hempty, Bool.not_eq_true _ ▸ hdir, hmade, hcreate⟩
  · rintro ⟨hempty, hdir, hmade, hcreate⟩
    unfold withParent at hmade hcreate
    unfold writeDocument
    rw [if_neg hempty, hdir, if_neg (by simp)]
    dsimp only
    split
    · rename_i hfailed
      cases hfailed.symm.trans hmade
    · split
      · rename_i hfailed
        cases hfailed.symm.trans hcreate
      · rename_i hcreate'
        cases hcreate'.symm.trans hcreate
        rfl

/-- A path at which a file can be written: it names no directory, the directory above it is there or can be made, and the
file can be opened or made. -/
def Writable (d : Disk) (path : String) : Prop :=
  path ≠ "" ∧ d.isDir path = false ∧ (d.withParent path).2 = .ok () ∧
    ∃ out, (d.withParent path).1.openOrCreate path = .ok out

/-- Whether a document is written is a matter of the path. -/
theorem exists_writeDocument_iff {j : Json} : (∃ d', d.writeDocument path j = (d', .ok ())) ↔ d.Writable path := by
  simp only [writeDocument_ok_iff, Writable]
  constructor
  · rintro ⟨d', hempty, hdir, hmade, hcreate⟩
    obtain ⟨out, hopen, -⟩ := bind_eq_ok_iff.1 hcreate
    exact ⟨hempty, hdir, hmade, out, hopen⟩
  · rintro ⟨hempty, hdir, hmade, out, hopen⟩
    refine ⟨out.1.write out.2 (.ofBytes j.pretty.toUTF8), hempty, hdir, hmade, ?_⟩
    rw [createFile, hopen]
    rfl

/-- The file at a path holds a text and nothing else. -/
def HoldsText (d : Disk) (path text : String) : Prop := d.readPath path = .ok (some (.ofBytes text.toUTF8))

/-- A document that is written stands in its file.  All is ready to write it again, and that changes nothing. -/
theorem writeDocument_ok {j : Json} (hd : d.Whole) (h : d.writeDocument path j = (d', .ok ())) :
    d'.HoldsText path j.pretty ∧ d'.Whole ∧ d'.writeDocument path j = (d', .ok ()) := by
  obtain ⟨hempty, -, hmade, hcreate⟩ := writeDocument_ok_iff.1 h
  obtain ⟨hmore, hparent⟩ := withParent_ok hmade
  generalize (d.withParent path).1 = d₁ at hmore hparent hcreate
  unfold createFile at hcreate
  obtain ⟨⟨d₂, id⟩, hopen, hwrite⟩ := bind_eq_ok_iff.1 hcreate
  cases hwrite
  obtain ⟨hkeeps, hwhole, hlt⟩ := openOrCreate_ok hopen (hd.of_moreDirs hmore)
  have hleads : (d₂.write id (.ofBytes j.pretty.toUTF8)).Leads path id := (leads_of_openOrCreate hopen).write id _
  obtain ⟨names, hresolve⟩ := hleads.resolve
  refine ⟨?_, ?_, ?_⟩
  · unfold HoldsText readPath
    rw [hresolve]
    show Except.ok (some (read _ id)) = _
    rw [read_write hlt]
  · intro names id' hn
    exact (hwhole names id' hn).trans_eq (Array.size_setIfInBounds ..).symm
  · have hparent' : (d₂.write id (.ofBytes j.pretty.toUTF8)).HasParent path :=
      hparent.imp_left (exists?_of_keeps hkeeps)
    refine writeDocument_ok_iff.2 ⟨hempty, ?_, ?_, ?_⟩
    · rw [isDir, hresolve]
    · rw [hparent'.withParent]
    · rw [hparent'.withParent, createFile, hleads.openOrCreate]
      exact congrArg Except.ok (write_write d₂ id _)

theorem written_ofBytes (b : ByteArray) : (Contents.ofBytes b).written = b := by
  simp [Contents.written, Contents.ofBytes, Contents.data, Contents.size]

/-- The document in a file that holds its text. -/
theorem HoldsText.readDocument {j : Json} (hj : j.Written) (h : d.HoldsText path j.pretty) :
    d.readDocument path = .ok j := by
  have hvalid : String.fromUTF8? j.pretty.toUTF8 = some j.pretty := by
    rw [String.toUTF8_eq_toByteArray, String.fromUTF8?, dif_pos j.pretty.isValidUTF8]
    rfl
  rw [HoldsText] at h
  rw [Disk.readDocument, h]
  dsimp only
  rw [written_ofBytes, Json.parseBytes, hvalid]
  dsimp only
  rw [Json.parse_pretty hj]

theorem HoldsText.readAs {α : Type} {read : Json → Option α} {j : Json} {a : α} (hj : j.Written)
    (h : d.HoldsText path j.pretty) (hread : read j = some a) : d.readAs path read = .ok a := by
  have hbind : ∀ k : Json → Except OutputError α, (Except.ok j >>= k) = k j := fun _ => rfl
  rw [Disk.readAs, h.readDocument hj, hbind, hread]
  rfl

/-- A value survives its files: it is written wherever a file can be written, there is one text that then stands in the
file, the value is read back from there, and writing it there again leaves the disk as it is. -/
def Survives {α : Type} (write : Disk → String → α → Disk × Except OutputError Unit)
    (read : Disk → String → Except OutputError α) (a : α) : Prop :=
  ∃ text, ∀ d path, d.Whole → ((∃ d', write d path a = (d', .ok ())) ↔ d.Writable path) ∧
    ∀ d', write d path a = (d', .ok ()) →
      d'.HoldsText path text ∧ d'.Whole ∧ read d' path = .ok a ∧ write d' path a = (d', .ok ())

theorem survives_of_json {α : Type} {toJson : α → Json} {ofJson? : Json → Option α} {a : α}
    (hwritten : (toJson a).Written) (hread : ofJson? (toJson a) = some a) :
    Survives (fun d path a => d.writeDocument path (toJson a)) (fun d path => d.readAs path ofJson?) a := by
  refine ⟨(toJson a).pretty, fun d path hd => ⟨exists_writeDocument_iff, fun d' h => ?_⟩⟩
  obtain ⟨htext, hwhole, hagain⟩ := writeDocument_ok hd h
  exact ⟨htext, hwhole, htext.readAs hwritten hread, hagain⟩

/-- **Reports and dumps survive their files.**  A report or a dump whose whole numbers are of their types, whose doubles
come back from their own texts and whose fillers are zero is written wherever a file can be written, always as the same
text, and is read back from there with all its fields. -/
theorem documents_survive_files :
    (∀ r : Report, r.Recoverable → Survives writeReport readReport r) ∧
      ∀ dump : RegionDump, dump.Recoverable → Survives writeDump readDump dump := by
  constructor
  · intro r h
    exact survives_of_json r.written_toJson (Report.ofJson?_toJson h)
  · intro dump h
    exact survives_of_json dump.written_toJson (RegionDump.ofJson?_toJson h)

/-- A report with all that is hard to write: a text with quotes, a line end, a control character and a character of
three bytes, the greatest word, a negative line, and parts that may be missing. -/
def crowdedReport : Report where
  version := "1.0.0"
  generatedAt := "2024-02-29T23:59:60Z"
  unitId := 4294967295
  ownerDb := 0
  name := "a \"quoted\" name\n\x01 — \\"
  statements := [
    ⟨0, none, none, 0, -2147483648, "statement block", 1, 0, 18446744073709551615, 7, 0, none⟩,
    ⟨1, some 0, some "then body", 1, 2, "assignment", 1, 1, 0, 0, 3, some 18446744073709551615⟩]
  lines := [⟨1, none, 0, 0, 0, [], [], ""⟩, ⟨2, some 2, 1, 1, 0, [0], [3], "\tx := 1; -- ü"⟩]
  coverage := ⟨4294967295, "", ⟨1, 1, 0, 0, 18446744073709551615⟩, 1.0, 0.1⟩
  summary := some ⟨4294967295, 0, 3, 1, 60, 20.0, 2.5e-7, 10, 30⟩

/-- A dump of one chunk, with a record that no statement uses. -/
def smallDump : RegionDump where
  version := "1.0.0"
  generatedAt := ""
  info := ⟨true, 1, 18446744073709551615, 1, 0, 5, 1⟩
  chunks := [⟨.new ⟨7, 1, 2, 3⟩ (-1), [.ofLine (-1)]⟩]
  units := [⟨7, 1, 1, 0, 10, 10.0, 0.0, 10, 10⟩]

theorem recoverable_crowdedReport : crowdedReport.Recoverable where
  statements := by
    rw [crowdedReport, List.forall_mem_cons, List.forall_mem_singleton]
    exact ⟨⟨by decide, by simp, by decide⟩, ⟨by decide, by simp [UInt64.size], by decide⟩⟩
  lines := by
    rw [crowdedReport, List.forall_mem_cons, List.forall_mem_singleton, LineRow.Ranged, LineRow.Ranged]
    decide
  coverage := ⟨⟨by decide, by decide, by decide, by decide, by decide⟩, by decide +kernel, by decide +kernel⟩
  summary := by
    intro s hs
    cases hs
    exact ⟨by decide +kernel, by decide +kernel⟩

theorem recoverable_smallDump : smallDump.Recoverable where
  info := ⟨by decide, by decide, by decide, by decide, by decide⟩
  chunks := by
    rw [smallDump, List.forall_mem_singleton]
    exact ⟨rfl, List.forall_mem_singleton.2 ⟨rfl, rfl⟩⟩
  units := by
    rw [smallDump, List.forall_mem_singleton]
    exact ⟨by decide +kernel, by decide +kernel⟩

/-- The two come back from files in a directory that is not there yet. -/
theorem documents_survive_files_samples :
    (empty.writeReport "out/a.json" crowdedReport).1.readReport "out/a.json" = .ok crowdedReport ∧
      (empty.writeDump "out/b.json" smallDump).1.readDump "out/b.json" = .ok smallDump := by
  obtain ⟨_, hreport⟩ := documents_survive_files.1 crowdedReport recoverable_crowdedReport
  obtain ⟨_, hdump⟩ := documents_survive_files.2 smallDump recoverable_smallDump
  have hok : (empty.writeReport "out/a.json" crowdedReport).2 = .ok () := by decide +kernel
  have hok' : (empty.writeDump "out/b.json" smallDump).2 = .ok () := by decide +kernel
  constructor
  · exact ((hreport _ _ whole_empty).2 _ (Prod.ext rfl hok)).2.2.1
  · exact ((hdump _ _ whole_empty).2 _ (Prod.ext rfl hok')).2.2.1

end Disk

end ProcProfile
