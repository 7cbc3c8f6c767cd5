import Mathlib.Tactic
import ProcProfile.Host
import ProcProfile.Proofs.Fault

/-!
# Where paths lead

Opening a path follows its parts from directory to directory.  Which files there are does not matter on the way, so
adding and removing files leaves the way of a path that leads somewhere as it was.

The tokens of the owners of a region stand beside it, in one directory and under names that differ in the owner id
at their end.  `TokensAt` says where; with it, opening, creating, removing and checking a token come down to one
name.

* `Path.exists_parts_append`: the parts of a path with something appended;
* `Disk.target_of_dirs`, `Disk.SameDirs`, `Disk.target_of_sameDirs`: disks with more, and with the same directories;
* `Disk.resolve_ok_iff`: what a path leads to;
* `TokenPlace`, `Disk.TokensAt`, `Disk.exists_tokensAt`: where the tokens of a region stand;
* `Disk.token?` and the lemmas about it: what stands there.
-/

namespace ProcProfile

/-! ### The parts of a path -/

namespace Path

theorem splitPieces_of_no_slash (current : List Char) {text : List Char} (h : '/' ∉ text) :
    splitPieces current text = [current.reverse ++ text] := by
  induction text generalizing current with
  | nil => rw [splitPieces, List.append_nil]
  | cons c text ih =>
    rw [List.mem_cons, not_or] at h
    rw [splitPieces, ih _ h.2, List.reverse_cons, List.append_assoc]
    · rfl
    · exact Ne.symm h.1

/-- What is appended without a slash goes to the last piece.  That piece is empty only at the end of a slash or of
nothing. -/
theorem exists_splitPieces_append (current text : List Char) :
    ∃ front last, (∀ suffix, '/' ∉ suffix → splitPieces current (text ++ suffix) = front ++ [last ++ suffix]) ∧
      (last = [] → (text = [] ∧ current = []) ∨ text.getLast? = some '/') := by
  induction text generalizing current with
  | nil =>
    refine ⟨[], current.reverse, fun suffix h => splitPieces_of_no_slash current h, fun h => ?_⟩
    exact .inl ⟨rfl, List.reverse_eq_nil_iff.1 h⟩
  | cons c text ih =>
    by_cases hc : c = '/'
    · subst hc
      obtain ⟨front, last, happend, hlast⟩ := ih []
      refine ⟨current.reverse :: front, last, fun suffix h => ?_, fun h => .inr ?_⟩
      · rw [List.cons_append, splitPieces, happend suffix h]
        rfl
      · rcases hlast h with ⟨rfl, -⟩ | hslash
        · rfl
        · rw [List.getLast?_cons, hslash]
          rfl
    · obtain ⟨front, last, happend, hlast⟩ := ih (c :: current)
      refine ⟨front, last, fun suffix h => ?_, fun h => .inr ?_⟩
      · rw [List.cons_append, splitPieces, happend suffix h]
        exact hc
      · rcases hlast h with ⟨-, hnil⟩ | hslash
        · cases hnil
        · rw [List.getLast?_cons, hslash]
          rfl

/-- The parts of a path with something appended to it, and those of the path itself. -/
theorem exists_parts_append (path : String) :
    ∃ front last, (∀ suffix : String, suffix ≠ "" → '/' ∉ suffix.toList →
        parts (path ++ suffix) = front ++ [last ++ suffix]) ∧
      (path ≠ "" → namesDirectory path = false → parts path = front ++ [last] ∧ last ≠ "") := by
  obtain ⟨front, last, happend, hlast⟩ := exists_splitPieces_append [] path.toList
  refine ⟨(front.map String.ofList).filter fun part => part != "", String.ofList last, fun suffix hne hslash => ?_,
    fun hne hdir => ?_⟩
  · have hnil : suffix.toList ≠ [] := fun h => hne (String.toList_eq_nil_iff.1 h)
    have hpart : String.ofList last ++ suffix ≠ "" := fun h => hne (String.append_eq_empty_iff.1 h).2
    have htext : (path ++ suffix).toList ≠ [] := by
      rw [String.toList_append]
      exact List.append_ne_nil_of_right_ne_nil _ hnil
    rw [parts, pieces, if_neg (by rwa [List.isEmpty_iff]), String.toList_append, happend _ hslash, List.map_append,
      List.filter_append, List.map_singleton, String.ofList_append, String.ofList_toList]
    congr 1
    exact List.filter_eq_self.2 fun part hmem => by rw [List.mem_singleton.1 hmem]; exact bne_iff_ne.2 hpart
  · have hnil : path.toList ≠ [] := fun h => hne (String.toList_eq_nil_iff.1 h)
    have hend : String.ofList last ≠ "" := by
      intro h
      rw [String.ofList_eq_empty_iff] at h
      rcases hlast h with ⟨h, -⟩ | hslash
      · exact hnil h
      · rw [namesDirectory, hslash] at hdir
        cases hdir
    have hsplit := happend [] List.not_mem_nil
    rw [List.append_nil, List.append_nil] at hsplit
    refine ⟨?_, hend⟩
    rw [parts, pieces, if_neg (by rwa [List.isEmpty_iff]), hsplit, List.map_append, List.filter_append,
      List.map_singleton]
    congr 1
    exact List.filter_eq_self.2 fun part hmem => by rw [List.mem_singleton.1 hmem]; exact bne_iff_ne.2 hend

end Path

/-! ### Names and nodes -/

namespace Disk

variable {d d' : Disk} {names : Names}

theorem lookup_filter_ne (entries : List (Names × Node)) (names other : Names) :
    (entries.filter fun e => e.1 != names).lookup other = if other = names then none else entries.lookup other := by
  induction entries with
  | nil => simp
  | cons e entries ih =>
    rw [List.filter_cons]
    by_cases he : e.1 = names
    · rw [if_neg (by simp [he]), ih, List.lookup_cons]
      split_ifs with hother
      · rfl
      · rw [show (other == e.1) = false by simp [he, hother]]
    · rw [if_pos (by simp [he]), List.lookup_cons, List.lookup_cons, ih]
      by_cases hother : other = e.1
      · subst hother
        simp [he]
      · rw [show (other == e.1) = false by simp [hother]]

theorem lookup_unbind (d : Disk) (hnames : names.isTop = false) (other : Names) :
    (d.unbind names).lookup other = if other = names then none else d.lookup other := by
  unfold lookup unbind
  dsimp only
  rw [lookup_filter_ne]
  by_cases hother : other = names
  · subst hother
    simp [hnames]
  · simp [hother]

theorem lookup_bind (d : Disk) (hnames : names.isTop = false) (node : Node) (other : Names) :
    (d.bind names node).lookup other = if other = names then some node else d.lookup other := by
  unfold lookup bind
  dsimp only
  rw [List.lookup_cons, lookup_filter_ne]
  by_cases hother : other = names
  · subst hother
    simp [hnames]
  · rw [show (other == names) = false by simp [hother], if_neg hother, if_neg hother]

/-- A name that leads nowhere is given to a node. -/
theorem lookup_bind_of_none {names : Names} (h : d.lookup names = none) (node : Node) (other : Names) :
    (d.bind names node).lookup other = if other = names then some node else d.lookup other := by
  apply lookup_bind
  by_contra htop
  rw [Bool.not_eq_false] at htop
  rw [lookup, if_pos htop] at h
  cases h

/-! ### The way of a path -/

/-- Disks with the same directories. -/
def SameDirs (d d' : Disk) : Prop := ∀ names, d'.lookup names = some .dir ↔ d.lookup names = some .dir

/-- Names that are no directory may be taken off. -/
theorem sameDirs_unbind (hnames : names.isTop = false) (h : d.lookup names ≠ some .dir) :
    SameDirs d (d.unbind names) := by
  intro other
  rw [lookup_unbind d hnames]
  split_ifs with hother
  · subst hother
    exact ⟨nofun, fun hdir => absurd hdir h⟩
  · rfl

/-- Names that are no directory may be given to a file. -/
theorem sameDirs_bind (hnames : names.isTop = false) (h : d.lookup names ≠ some .dir) (id : FileId) :
    SameDirs d (d.bind names (.file id)) := by
  intro other
  rw [lookup_bind d hnames]
  split_ifs with hother
  · subst hother
    exact ⟨nofun, fun hdir => absurd hdir h⟩
  · rfl

/-- A path goes on from a part that leads to a directory. -/
theorem follow_cons_ok_iff {flag : Bool} {dir : Names} {part : String} {rest : List String} (hrest : rest ≠ [])
    {t : Target} : d.follow flag dir (part :: rest) = .ok t ↔
      part.utf8ByteSize ≤ maxNameBytes ∧ d.lookup (Target.names ⟨dir, part, true⟩) = some .dir ∧
        d.follow flag (Target.names ⟨dir, part, true⟩) rest = .ok t := by
  rw [follow.eq_3 d flag dir part rest hrest, find]
  by_cases hlong : maxNameBytes < part.utf8ByteSize
  · rw [if_pos hlong]
    exact ⟨nofun, fun h => absurd hlong (Nat.not_lt.2 h.1)⟩
  · rw [if_neg hlong]
    cases hnode : d.lookup (Target.names ⟨dir, part, true⟩) with
    | none => exact ⟨nofun, nofun⟩
    | some node =>
      cases node with
      | file id => exact ⟨nofun, nofun⟩
      | dir => exact ⟨fun h => ⟨Nat.not_lt.1 hlong, rfl, h⟩, fun h => h.2.2⟩

theorem follow_of_dirs (h : ∀ names, d.lookup names = some .dir → d'.lookup names = some .dir) {flag : Bool}
    {dir : Names} {parts : List String} {t : Target} (hrun : d.follow flag dir parts = .ok t) :
    d'.follow flag dir parts = .ok t := by
  induction parts generalizing dir with
  | nil => exact hrun
  | cons part rest ih =>
    by_cases hrest : rest = []
    · subst hrest
      exact hrun
    · rw [follow_cons_ok_iff hrest] at hrun ⊢
      exact ⟨hrun.1, h _ hrun.2.1, ih hrun.2.2⟩

theorem target_ok_iff {path : String} {t : Target} : d.target path = .ok t ↔
    '\x00' ∉ path.toList ∧ path ≠ "" ∧ path.utf8ByteSize ≤ maxPathBytes ∧
      d.follow (Path.namesDirectory path) (if Path.isAbsolute path then ["/"] else []) (Path.parts path) = .ok t := by
  unfold target
  generalize (if Path.isAbsolute path then ["/"] else []) = start
  split_ifs with hnul hempty hlong
  · exact ⟨nofun, fun h => absurd (List.contains_iff_mem.1 hnul) h.1⟩
  · exact ⟨nofun, fun h => absurd hempty h.2.1⟩
  · exact ⟨nofun, fun h => absurd hlong (Nat.not_lt.2 h.2.2.1)⟩
  · exact ⟨fun h => ⟨fun hmem => hnul (List.contains_iff_mem.2 hmem), hempty, Nat.not_lt.1 hlong, h⟩,
      fun h => h.2.2.2⟩

/-- A path that leads somewhere leads there as long as no directory goes. -/
theorem target_of_dirs (h : ∀ names, d.lookup names = some .dir → d'.lookup names = some .dir) {path : String}
    {t : Target} (hrun : d.target path = .ok t) : d'.target path = .ok t := by
  rw [target_ok_iff] at hrun ⊢
  exact ⟨hrun.1, hrun.2.1, hrun.2.2.1, follow_of_dirs h hrun.2.2.2⟩

/-- A path that leads somewhere leads there whichever files there are. -/
theorem target_of_sameDirs (h : SameDirs d d') {path : String} {t : Target} (hrun : d.target path = .ok t) :
    d'.target path = .ok t :=
  target_of_dirs (fun names => (h names).2) hrun

/-- What a path leads to is what its last part leads to. -/
theorem resolve_ok_iff {path : String} {node : Node} : d.resolve path = .ok (names, node) ↔
    ∃ t, d.target path = .ok t ∧ t.part.utf8ByteSize ≤ maxNameBytes ∧ d.lookup t.names = some node ∧
      t.names = names ∧ (node ≠ .dir → t.isDirectory = false) := by
  unfold resolve
  constructor
  · intro h
    obtain ⟨t, ht, h⟩ := bind_eq_ok_iff.1 h
    obtain ⟨found, hfound, h⟩ := bind_eq_ok_iff.1 h
    unfold find at hfound
    split_ifs at hfound with hlong
    cases hfound
    refine ⟨t, ht, Nat.not_lt.1 hlong, ?_⟩
    cases hnode : d.lookup t.names with
    | none =>
      rw [hnode] at h
      cases h
    | some node' =>
      rw [hnode] at h
      cases node' with
      | dir =>
        cases h
        simp
      | file id =>
        dsimp only at h
        split_ifs at h with hflag
        cases h
        simpa using hflag
  · rintro ⟨t, ht, hshort, hnode, rfl, hflag⟩
    rw [ht]
    show (d.find t >>= _) = _
    rw [find, if_neg (Nat.not_lt.2 hshort), hnode]
    cases node with
    | dir => rfl
    | file id =>
      show (if t.isDirectory then _ else _) = _
      rw [hflag (by simp)]
      rfl

theorem isDirectory_of_follow {flag : Bool} {dir : Names} {parts : List String} {t : Target}
    (hrun : d.follow flag dir parts = .ok t) : t.isDirectory = flag := by
  induction parts generalizing dir with
  | nil =>
    cases hrun
    rfl
  | cons part rest ih =>
    by_cases hrest : rest = []
    · subst hrest
      cases hrun
      rfl
    · exact ih ((follow_cons_ok_iff hrest).1 hrun).2.2

/-- The last part of a path is looked up in the directory to which the parts before it lead. -/
theorem follow_concat_ok_iff {flag : Bool} {dir : Names} {front : List String} {part : String} {t : Target} :
    d.follow flag dir (front ++ [part]) = .ok t ↔
      d.follow false dir (front ++ ["."]) = .ok ⟨t.dir, ".", false⟩ ∧ t.part = part ∧ t.isDirectory = flag := by
  induction front generalizing dir with
  | nil =>
    constructor
    · rintro ⟨⟩
      exact ⟨rfl, rfl, rfl⟩
    · rintro ⟨hdir, rfl, rfl⟩
      cases hdir
      rfl
  | cons first front ih =>
    rw [List.cons_append, List.cons_append, follow_cons_ok_iff (by simp), follow_cons_ok_iff (by simp), ih]
    tauto

end Disk

/-! ### The names of tokens -/

/-- Where the tokens of a region stand: their directory, and how their names begin. -/
structure TokenPlace where
  dir : Names
  stem : String

namespace TokenPlace

/-- What the name of a token ends in. -/
def suffix (owner : UInt32) : String := ".owner-" ++ toString owner.toNat

/-- The name of an owner's token. -/
def part (q : TokenPlace) (owner : UInt32) : String := q.stem ++ suffix owner

def names (q : TokenPlace) (owner : UInt32) : Names := q.dir ++ [q.part owner]

theorem tokenPath_eq (region : String) (owner : UInt32) : tokenPath region owner = region ++ suffix owner :=
  String.append_assoc ..

theorem suffix_injective {a b : UInt32} (h : suffix a = suffix b) : a = b := by
  unfold suffix at h
  rw [String.append_right_inj] at h
  have hdigits : Nat.toDigits 10 a.toNat = Nat.toDigits 10 b.toNat := by
    rw [← Nat.toList_repr, ← Nat.toList_repr]
    exact congrArg String.toList h
  have hvalue := congrArg (Nat.ofDigitChars 10 · 0) hdigits
  rw [Nat.ofDigitChars_ten_toDigits, Nat.ofDigitChars_ten_toDigits] at hvalue
  exact UInt32.toNat_inj.1 hvalue

theorem length_suffix (owner : UInt32) : 7 < (suffix owner).length := by
  have hpos : 0 < (toString owner.toNat).length := Nat.length_repr_pos
  have hlength : (".owner-" : String).length = 7 := by decide
  rw [suffix, String.length_append]
  omega

theorem suffix_ne_empty (owner : UInt32) : suffix owner ≠ "" := by
  intro h
  have hlength := length_suffix owner
  rw [h] at hlength
  exact absurd hlength (by decide)

/-- The characters of an owner id are digits. -/
theorem mem_suffix {owner : UInt32} {c : Char} (h : c ∈ (suffix owner).toList) :
    c ∈ (".owner-" : String).toList ∨ c.isDigit = true := by
  rw [suffix, String.toList_append, List.mem_append] at h
  refine h.imp_right fun hdigit => ?_
  rw [show toString owner.toNat = owner.toNat.repr from rfl, Nat.toList_repr] at hdigit
  exact Nat.isDigit_of_mem_toDigits (by omega) le_rfl hdigit

theorem slash_notMem_suffix (owner : UInt32) : '/' ∉ (suffix owner).toList := by
  intro h
  rcases mem_suffix h with h | h
  · exact absurd h (by decide)
  · exact absurd h (by decide)

theorem utf8ByteSize_repr_le {n k : Nat} (hk : 0 < k) (h : n < 10 ^ k) : n.repr.utf8ByteSize ≤ k := by
  have hdigit : ∀ m < 10, (Nat.digitChar m).utf8Size = 1 := by decide
  induction k generalizing n with
  | zero => omega
  | succ k ih =>
    by_cases hn : n < 10
    · rw [Nat.repr_of_lt hn, String.utf8ByteSize_singleton, hdigit n hn]
      omega
    · have hlast := hdigit (n % 10) (Nat.mod_lt _ (by omega))
      rw [Nat.pow_succ] at h
      have hfront := ih (n := n / 10) (Nat.pos_of_ne_zero fun hzero => by subst hzero; omega) (by omega)
      rw [Nat.repr_of_ge (by omega), String.utf8ByteSize_append, String.utf8ByteSize_singleton, hlast]
      omega

/-- The end of a token's name takes up 17 bytes at most. -/
theorem utf8ByteSize_suffix_le (owner : UInt32) : (suffix owner).utf8ByteSize ≤ 17 := by
  have hlt := owner.toNat_lt
  have hdigits : (toString owner.toNat).utf8ByteSize ≤ 10 := utf8ByteSize_repr_le (by omega) (by omega)
  have hfront : (".owner-" : String).utf8ByteSize = 7 := by decide
  rw [suffix, String.utf8ByteSize_append]
  omega

theorem isAbsolute_append (region : String) (owner : UInt32) :
    Path.isAbsolute (region ++ suffix owner) = Path.isAbsolute region := by
  have hhead : (suffix owner).toList.head? = some '.' := by
    rw [suffix, String.toList_append, List.head?_append]
    rfl
  unfold Path.isAbsolute
  rw [String.toList_append, List.head?_append, hhead]
  cases region.toList.head? <;> rfl

theorem namesDirectory_append (region : String) (owner : UInt32) :
    Path.namesDirectory (region ++ suffix owner) = false := by
  have hne : (suffix owner).toList ≠ [] := fun h => suffix_ne_empty owner (String.toList_eq_nil_iff.1 h)
  unfold Path.namesDirectory
  rw [String.toList_append, List.getLast?_append, List.getLast?_eq_some_getLast hne, Option.some_or,
    beq_eq_false_iff_ne]
  intro h
  exact slash_notMem_suffix owner (Option.some.inj h ▸ List.getLast_mem hne)

variable {q : TokenPlace}

theorem names_injective {a b : UInt32} (h : q.names a = q.names b) : a = b := by
  unfold names part at h
  rw [List.append_cancel_left_eq, List.cons.injEq, String.append_right_inj] at h
  exact suffix_injective h.1

theorem length_part (q : TokenPlace) (owner : UInt32) : 7 < (q.part owner).length := by
  have hlength := length_suffix owner
  rw [part, String.length_append]
  omega

theorem part_ne (q : TokenPlace) (owner : UInt32) (text : String) (h : text.length ≤ 7) : q.part owner ≠ text := by
  rintro rfl
  exact absurd (q.length_part owner) (Nat.not_lt.2 h)

theorem isName_part (q : TokenPlace) (owner : UInt32) (flag : Bool) :
    (Target.mk q.dir (q.part owner) flag).isName = true := by
  simp [Target.isName, q.part_ne owner "" (by decide), q.part_ne owner "." (by decide),
    q.part_ne owner ".." (by decide)]

theorem names_target (q : TokenPlace) (owner : UInt32) (flag : Bool) :
    (Target.mk q.dir (q.part owner) flag).names = q.names owner := by
  unfold Target.names
  rw [if_pos (q.isName_part owner flag)]
  rfl

/-- The name of a token is no way upwards. -/
theorem isTop_names (q : TokenPlace) (owner : UInt32) : (q.names owner).isTop = false := by
  have hpart := q.part_ne owner ".." (by decide)
  have hslash := q.part_ne owner "/" (by decide)
  unfold Names.isTop names
  rw [List.all_append, Bool.or_eq_false_iff]
  refine ⟨?_, by simp [hpart]⟩
  rw [beq_eq_false_iff_ne]
  intro h
  have hlast := congrArg List.getLast? h
  rw [List.getLast?_concat] at hlast
  exact hslash (Option.some.inj hlast)

end TokenPlace

/-! ### Tokens on a disk -/

namespace Disk

variable {d d' : Disk} {region : String} {q : TokenPlace} {owner : UInt32} {id : FileId}

/-- The tokens of a region stand at a place, and no directory has a name there that a token may need. -/
structure TokensAt (d : Disk) (region : String) (q : TokenPlace) : Prop where
  target : ∀ owner, d.target (tokenPath region owner) = .ok ⟨q.dir, q.part owner, false⟩
  short : ∀ owner, (q.part owner).utf8ByteSize ≤ maxNameBytes
  no_dir : ∀ owner, d.lookup (q.names owner) ≠ some .dir

theorem TokensAt.of_sameDirs (h : d.TokensAt region q) (hdirs : SameDirs d d') : d'.TokensAt region q where
  target owner := target_of_sameDirs hdirs (h.target owner)
  short := h.short
  no_dir owner hdir := h.no_dir owner ((hdirs _).1 hdir)

/-- Where the token of an owner is looked up does not depend on the owner. -/
theorem follow_of_target_tokenPath {front : List String} {last : String}
    (hparts : Path.parts (region ++ TokenPlace.suffix owner) = front ++ [last ++ TokenPlace.suffix owner])
    {t : Target} (h : d.target (tokenPath region owner) = .ok t) :
    d.follow false (if Path.isAbsolute region then ["/"] else []) (front ++ ["."]) = .ok ⟨t.dir, ".", false⟩ ∧
      t.part = last ++ TokenPlace.suffix owner ∧ t.isDirectory = false := by
  rw [target_ok_iff, TokenPlace.tokenPath_eq, TokenPlace.isAbsolute_append, TokenPlace.namesDirectory_append,
    hparts, follow_concat_ok_iff] at h
  exact h.2.2.2

/-- Where a path leads that does not end in a slash, and where the paths lead that continue it. -/
theorem exists_front_of_target {t : Target} (h : d.target region = .ok t) (hflag : t.isDirectory = false) :
    ∃ front, (∀ suffix : String, suffix ≠ "" → '/' ∉ suffix.toList →
        Path.parts (region ++ suffix) = front ++ [t.part ++ suffix]) ∧
      d.follow false (if Path.isAbsolute region then ["/"] else []) (front ++ ["."]) = .ok ⟨t.dir, ".", false⟩ := by
  obtain ⟨front, last, hparts, hself⟩ := Path.exists_parts_append region
  obtain ⟨-, hempty, -, hrun⟩ := target_ok_iff.1 h
  rw [isDirectory_of_follow hrun] at hflag
  rw [hflag, (hself hempty hflag).1, follow_concat_ok_iff] at hrun
  rw [hrun.2.1]
  exact ⟨front, hparts, hrun.1⟩

/-- The tokens of a region in a file stand beside it, if there is room for their names. -/
theorem tokensAt_of_target {t : Target} (h : d.target region = .ok t) (hflag : t.isDirectory = false)
    (hpath : region.utf8ByteSize + 17 ≤ maxPathBytes) (hpart : t.part.utf8ByteSize + 17 ≤ maxNameBytes)
    (hdir : ∀ owner, d.lookup ((TokenPlace.mk t.dir t.part).names owner) ≠ some .dir) :
    d.TokensAt region ⟨t.dir, t.part⟩ := by
  refine ⟨fun owner => ?_, fun owner => ?_, hdir⟩
  · have hsuffix := TokenPlace.utf8ByteSize_suffix_le owner
    obtain ⟨front, hparts, hfollow⟩ := exists_front_of_target h hflag
    obtain ⟨hnul, -, -, -⟩ := target_ok_iff.1 h
    rw [target_ok_iff, TokenPlace.tokenPath_eq, TokenPlace.isAbsolute_append, TokenPlace.namesDirectory_append,
      hparts _ (TokenPlace.suffix_ne_empty owner) (TokenPlace.slash_notMem_suffix owner), String.toList_append,
      List.mem_append, String.utf8ByteSize_append]
    refine ⟨?_, ?_, by omega, follow_concat_ok_iff.2 ⟨hfollow, rfl, rfl⟩⟩
    · rintro (hmem | hmem)
      · exact hnul hmem
      · rcases TokenPlace.mem_suffix hmem with hmem | hmem
        · exact absurd hmem (by decide)
        · exact absurd hmem (by decide)
    · exact fun hall => TokenPlace.suffix_ne_empty owner (String.append_eq_empty_iff.1 hall).2
  · have hsuffix := TokenPlace.utf8ByteSize_suffix_le owner
    rw [TokenPlace.part, String.utf8ByteSize_append]
    dsimp only
    omega

/-- No token has the name of its region. -/
theorem TokensAt.names_ne (h : d.TokensAt region q) {t : Target} (ht : d.target region = .ok t)
    (hflag : t.isDirectory = false) (hname : t.isName = true) (owner : UInt32) : t.names ≠ q.names owner := by
  obtain ⟨front, hparts, -⟩ := exists_front_of_target ht hflag
  obtain ⟨-, hpart, -⟩ := follow_of_target_tokenPath
    (hparts _ (TokenPlace.suffix_ne_empty owner) (TokenPlace.slash_notMem_suffix owner)) (h.target owner)
  intro hnames
  unfold Target.names at hnames
  rw [if_pos hname] at hnames
  have hlast := congrArg List.getLast? hnames
  rw [TokenPlace.names, List.getLast?_concat, List.getLast?_concat, Option.some.injEq] at hlast
  dsimp only at hpart
  rw [← hlast, eq_comm, String.append_eq_left_iff] at hpart
  exact TokenPlace.suffix_ne_empty owner hpart

/-- What it takes to open a file for writing or to make it. -/
theorem exists_target_of_openOrCreate {path : String} {out : Disk × FileId} (h : d.openOrCreate path = .ok out) :
    ∃ t, d.target path = .ok t ∧ t.isDirectory = false ∧ t.isName = true ∧
      t.part.utf8ByteSize ≤ maxNameBytes ∧ d.lookup t.names ≠ some .dir := by
  unfold openOrCreate at h
  cases htarget : d.target path with
  | error e =>
    rw [htarget] at h
    cases h
  | ok t =>
    rw [htarget] at h
    change (if t.isDirectory || !t.isName then _ else _) = _ at h
    split_ifs at h with hflags
    rw [Bool.or_eq_true, not_or, Bool.not_eq_true, Bool.not_eq_true, Bool.not_eq_false'] at hflags
    refine ⟨t, rfl, hflags.1, hflags.2, ?_⟩
    unfold find at h
    split_ifs at h with hlong
    · cases h
    · refine ⟨Nat.not_lt.1 hlong, fun hdir => ?_⟩
      rw [hdir] at h
      cases h

/-- If a file can be opened or made for every token, the tokens stand at a place. -/
theorem exists_tokensAt (h : ∀ owner, ∃ out, d.openOrCreate (tokenPath region owner) = .ok out) :
    ∃ q, d.TokensAt region q := by
  obtain ⟨front, last, hparts, -⟩ := Path.exists_parts_append region
  have htarget : ∀ owner, ∃ t, d.target (tokenPath region owner) = .ok t ∧ t.part.utf8ByteSize ≤ maxNameBytes ∧
      d.lookup t.names ≠ some .dir := by
    intro owner
    obtain ⟨out, hout⟩ := h owner
    obtain ⟨t, ht, -, -, hshort, hdir⟩ := exists_target_of_openOrCreate hout
    exact ⟨t, ht, hshort, hdir⟩
  have hplace : ∀ owner t, d.target (tokenPath region owner) = .ok t →
      d.follow false (if Path.isAbsolute region then ["/"] else []) (front ++ ["."]) = .ok ⟨t.dir, ".", false⟩ ∧
        t.part = last ++ TokenPlace.suffix owner ∧ t.isDirectory = false := fun owner t ht =>
    follow_of_target_tokenPath (hparts _ (TokenPlace.suffix_ne_empty owner) (TokenPlace.slash_notMem_suffix owner)) ht
  obtain ⟨t₀, ht₀, -⟩ := htarget 0
  have hq : ∀ owner t, d.target (tokenPath region owner) = .ok t →
      t = ⟨t₀.dir, (TokenPlace.mk t₀.dir last).part owner, false⟩ := by
    intro owner t ht
    obtain ⟨hdir, hpart, hflag⟩ := hplace owner t ht
    have hsame : t.dir = t₀.dir := by
      have hboth := hdir.symm.trans (hplace 0 t₀ ht₀).1
      rw [Except.ok.injEq, Target.mk.injEq] at hboth
      exact hboth.1
    cases t with
    | mk dir part flag =>
      dsimp only at hsame hpart hflag
      rw [hsame, hpart, hflag]
      rfl
  refine ⟨⟨t₀.dir, last⟩, fun owner => ?_, fun owner => ?_, fun owner => ?_⟩
  · obtain ⟨t, ht, -⟩ := htarget owner
    rw [ht, hq owner t ht]
  · obtain ⟨t, ht, hshort, -⟩ := htarget owner
    rwa [hq owner t ht] at hshort
  · obtain ⟨t, ht, -, hdir⟩ := htarget owner
    rwa [hq owner t ht, TokenPlace.names_target ⟨t₀.dir, last⟩] at hdir

/-- The file that is an owner's token. -/
def token? (d : Disk) (q : TokenPlace) (owner : UInt32) : Option FileId :=
  match d.lookup (q.names owner) with
  | some (.file id) => some id
  | _ => none

theorem token?_eq_some_iff : d.token? q owner = some id ↔ d.lookup (q.names owner) = some (.file id) := by
  unfold token?
  cases d.lookup (q.names owner) with
  | none => simp
  | some node => cases node <;> simp

theorem TokensAt.token?_eq_none_iff (h : d.TokensAt region q) :
    d.token? q owner = none ↔ d.lookup (q.names owner) = none := by
  have hdir := h.no_dir owner
  unfold token?
  cases hnode : d.lookup (q.names owner) with
  | none => simp
  | some node =>
    cases node with
    | dir => exact absurd hnode hdir
    | file id => simp

theorem TokensAt.find_eq (h : d.TokensAt region q) (owner : UInt32) (flag : Bool) :
    d.find ⟨q.dir, q.part owner, flag⟩ = .ok (d.lookup (q.names owner)) := by
  unfold find
  rw [if_neg (Nat.not_lt.2 (h.short owner)), q.names_target]

theorem TokensAt.resolve_of_some (h : d.TokensAt region q) (hid : d.token? q owner = some id) :
    d.resolve (tokenPath region owner) = .ok (q.names owner, .file id) := by
  unfold resolve
  rw [h.target owner]
  show (d.find _ >>= _) = _
  rw [h.find_eq, token?_eq_some_iff.1 hid]
  show Except.ok (Target.names _, _) = _
  rw [q.names_target]

theorem TokensAt.resolve_of_none (h : d.TokensAt region q) (hnone : d.token? q owner = none) :
    d.resolve (tokenPath region owner) = .error .notFound := by
  unfold resolve
  rw [h.target owner]
  show (d.find _ >>= _) = _
  rw [h.find_eq, h.token?_eq_none_iff.1 hnone]
  rfl

/-- A token is alive if it is locked. -/
theorem TokensAt.ownerAlive_iff (h : d.TokensAt region q) :
    d.ownerAlive region owner = true ↔ ∃ id, d.token? q owner = some id ∧ id ∈ d.locked := by
  unfold ownerAlive openFile
  cases hid : d.token? q owner with
  | none =>
    rw [h.resolve_of_none hid]
    exact ⟨nofun, nofun⟩
  | some id =>
    rw [h.resolve_of_some hid]
    show d.isLocked id = true ↔ _
    simp [isLocked]

theorem TokensAt.unlink_of_some (h : d.TokensAt region q) (hid : d.token? q owner = some id) :
    d.unlink (tokenPath region owner) = d.unbind (q.names owner) := by
  unfold unlink
  rw [h.resolve_of_some hid]

theorem TokensAt.unlink_of_none (h : d.TokensAt region q) (hnone : d.token? q owner = none) :
    d.unlink (tokenPath region owner) = d := by
  unfold unlink
  rw [h.resolve_of_none hnone]

theorem TokensAt.openOrCreate_of_some (h : d.TokensAt region q) (hid : d.token? q owner = some id) :
    d.openOrCreate (tokenPath region owner) = .ok (d, id) := by
  unfold openOrCreate
  rw [h.target owner]
  show (if _ then _ else _) = _
  rw [q.isName_part owner false, if_neg (by simp), h.find_eq, token?_eq_some_iff.1 hid]
  rfl

/-- A token that is not there is made as a new file. -/
theorem TokensAt.openOrCreate_of_none (h : d.TokensAt region q) (hnone : d.token? q owner = none) :
    d.openOrCreate (tokenPath region owner) =
      .ok ({ d with contents := d.contents.push .empty }.bind (q.names owner) (.file d.contents.size),
        d.contents.size) := by
  unfold openOrCreate
  rw [h.target owner]
  show (if _ then _ else _) = _
  rw [q.isName_part owner false, if_neg (by simp), h.find_eq, h.token?_eq_none_iff.1 hnone]
  show Except.ok (Disk.bind _ (Target.names _) _, _) = _
  rw [q.names_target]

theorem follow_write (d : Disk) (id : FileId) (c : Contents) (flag : Bool) (dir : Names) (parts : List String) :
    (d.write id c).follow flag dir parts = d.follow flag dir parts := by
  induction parts generalizing dir with
  | nil => rfl
  | cons part rest ih =>
    by_cases hrest : rest = []
    · subst hrest
      rfl
    · rw [follow.eq_3 _ flag dir part rest hrest, follow.eq_3 _ flag dir part rest hrest, ih]
      rfl

/-- What files hold has nothing to do with who is alive. -/
theorem ownerAlive_write (d : Disk) (id : FileId) (c : Contents) (region : String) (owner : UInt32) :
    (d.write id c).ownerAlive region owner = d.ownerAlive region owner := by
  have htarget : ∀ path, (d.write id c).target path = d.target path := by
    intro path
    unfold target
    rw [follow_write]
  unfold ownerAlive openFile resolve
  rw [htarget]
  rfl

/-! ### Tokens come and go -/

theorem token?_unbind (d : Disk) (q : TokenPlace) (a b : UInt32) :
    (d.unbind (q.names a)).token? q b = if b = a then none else d.token? q b := by
  unfold token?
  rw [lookup_unbind d (q.isTop_names a)]
  by_cases hab : b = a
  · subst hab
    simp
  · rw [if_neg fun h => hab (q.names_injective h), if_neg hab]

theorem token?_bind (d : Disk) (q : TokenPlace) (a b : UInt32) (id : FileId) :
    (d.bind (q.names a) (.file id)).token? q b = if b = a then some id else d.token? q b := by
  unfold token?
  rw [lookup_bind d (q.isTop_names a)]
  by_cases hab : b = a
  · subst hab
    simp
  · rw [if_neg fun h => hab (q.names_injective h), if_neg hab]

end Disk

end ProcProfile
