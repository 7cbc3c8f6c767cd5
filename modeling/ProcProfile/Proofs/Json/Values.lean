import Mathlib.Tactic
import ProcProfile.Proofs.Json.Tokens

/-!
# Written values

A document is read back as the value that was written, provided that the value has a written form: its numbers follow
the grammar, and no part of it is ill-formed.  Each value is read with as much fuel as it has characters, so there is
fuel enough in a document for all that it holds.

* `Written` and the lemmas about it: values with a written form;
* `Recovered`: a value that is read back wherever it stands;
* `readItems_append`, `readFields_append`: the items of an array and the fields of an object;
* `Written.recovered`, `parse_pretty`: every value, and the document of a value.
-/

namespace ProcProfile

namespace Json

/-- Values that have a written form. -/
inductive Written : Json → Prop
  | null : Written .null
  | bool (value : Bool) : Written (.bool value)
  | number {n : JsonNumber} (h : n.Written) : Written (.number n)
  | string (value : String) : Written (.string value)
  | array {items : List Json} (h : ∀ item ∈ items, Written item) : Written (.array items)
  | object {fields : List (String × Json)} (h : ∀ field ∈ fields, Written field.2) : Written (.object fields)

attribute [simp] Written.null Written.bool Written.string

@[simp] theorem written_array_iff {items : List Json} : (array items).Written ↔ ∀ item ∈ items, item.Written := by
  refine ⟨fun h => ?_, .array⟩
  cases h with
  | array h => exact h

@[simp] theorem written_object_iff {fields : List (String × Json)} :
    (object fields).Written ↔ ∀ field ∈ fields, field.2.Written := by
  refine ⟨fun h => ?_, .object⟩
  cases h with
  | object h => exact h

@[simp] theorem written_nat (n : Nat) : (nat n).Written := .number (JsonNumber.written_ofNat n)

@[simp] theorem written_int (n : Int) : (int n).Written := .number (JsonNumber.written_ofInt n)

@[simp] theorem written_float (x : Float) : (float x).Written := by
  unfold float
  cases h : JsonNumber.ofFloat? x with
  | none => exact .null
  | some n => exact .number (JsonNumber.written_ofFloat h)

@[simp] theorem written_option {α : Type} {f : α → Json} (h : ∀ a, (f a).Written) (o : Option α) :
    (option f o).Written := by
  cases o with
  | none => exact .null
  | some a => exact h a

/-! ### Blanks -/

theorem skipBlanks_cons {c : Char} (h : isBlank c = false) (cs : List Sign) :
    skipBlanks (some c :: cs) = some c :: cs := by
  simp [skipBlanks, h]

theorem skipBlanks_newline (level : Nat) (cs : List Sign) :
    skipBlanks ((newline level).map some ++ cs) = skipBlanks cs := by
  have hblank : ∀ c ∈ (newline level).map some, (c : Sign).any isBlank = true := by
    simp only [newline, List.map_cons, List.map_replicate, List.mem_cons, List.mem_replicate]
    rintro c (rfl | ⟨-, rfl⟩)
    · rfl
    · rfl
  rw [skipBlanks, List.dropWhile_append_of_pos hblank, skipBlanks]

theorem ends_newline (level : Nat) (cs : List Sign) : Ends ((newline level).map some ++ cs) :=
  ends_cons (by decide) _

section Congr

variable {fuel : Nat} {cs cs' : List Sign}

/-- Blanks in front of a value, of items and of fields make no difference. -/
theorem readValue_congr (h : skipBlanks cs = skipBlanks cs') : readValue fuel cs = readValue fuel cs' := by
  cases fuel with
  | zero => rw [readValue, readValue]
  | succ fuel => rw [readValue, readValue, h]

theorem readItems_congr (h : skipBlanks cs = skipBlanks cs') (passed : List Json) :
    readItems fuel passed cs = readItems fuel passed cs' := by
  cases fuel with
  | zero => rw [readItems, readItems]
  | succ fuel => rw [readItems, readItems, readValue_congr h]

theorem readFields_congr (h : skipBlanks cs = skipBlanks cs') (passed : Option (List (String × Json))) :
    readFields fuel passed cs = readFields fuel passed cs' := by
  cases fuel with
  | zero => rw [readFields, readFields]
  | succ fuel => rw [readFields, readFields, h]

end Congr

/-- The character with which a value begins. -/
theorem Written.exists_cons {j : Json} (h : j.Written) (level : Nat) :
    ∃ c cs, writePretty level j = c :: cs ∧ isBlank c = false ∧ c ≠ ']' := by
  cases h with
  | null => exact ⟨'n', _, by rw [writePretty], by decide, by decide⟩
  | bool value =>
    cases value with
    | true => exact ⟨'t', _, by rw [writePretty], by decide, by decide⟩
    | false => exact ⟨'f', _, by rw [writePretty], by decide, by decide⟩
  | number h =>
    obtain ⟨c, cs, hwrite, hc⟩ := exists_writeNumber h
    refine ⟨c, cs, by rw [writePretty, hwrite], ?_, ?_⟩
    · rcases hc with rfl | hc
      · rfl
      · by_contra hblank
        simp only [isBlank, Bool.not_eq_false, Bool.or_eq_true, decide_eq_true_eq] at hblank
        rcases hblank with ((rfl | rfl) | rfl) | rfl
        all_goals exact absurd hc (by decide)
    · rintro rfl
      rcases hc with hc | hc
      all_goals exact absurd hc (by decide)
  | string value => exact ⟨'"', _, by rw [writePretty, quote], by decide, by decide⟩
  | @array items _ =>
    cases items with
    | nil => exact ⟨'[', _, by rw [writePretty], by decide, by decide⟩
    | cons item items => exact ⟨'[', _, by rw [writePretty], by decide, by decide⟩
  | @object fields _ =>
    cases fields with
    | nil => exact ⟨'\x7b', _, by rw [writePretty], by decide, by decide⟩
    | cons field fields => exact ⟨'\x7b', _, by rw [writePretty], by decide, by decide⟩

/-! ### Items and fields -/

/-- A value is read back from its place in a document, and what follows it is left. -/
def Recovered (j : Json) : Prop :=
  ∀ (level fuel : Nat) (rest : List Sign), (writePretty level j).length ≤ fuel → Ends rest →
    readValue fuel ((writePretty level j).map some ++ rest) = some (j, rest)

/-- The items of an array from one of them on. -/
theorem readItems_append {item : Json} {items : List Json} (hitem : item.Recovered)
    (hitems : ∀ item ∈ items, item.Recovered) {level fuel : Nat} (out : Nat)
    (hfuel : (writePretty level item).length + (prettyItems level items).length < fuel) (passed : List Json)
    (rest : List Sign) :
    readItems fuel passed ((writePretty level item).map some ++ ((prettyItems level items).map some ++
      ((newline out).map some ++ some ']' :: rest))) = some (.array (passed.reverse ++ item :: items), rest) := by
  induction items generalizing item fuel passed with
  | nil =>
    obtain _ | fuel := fuel
    · omega
    rw [prettyItems, List.map_nil, List.nil_append, readItems, hitem level fuel _ (by omega) (ends_newline out _)]
    simp only [skipBlanks_newline, skipBlanks_cons (show isBlank ']' = false by decide)]
    simp
  | cons next items ih =>
    obtain _ | fuel := fuel
    · omega
    rw [prettyItems] at hfuel ⊢
    simp only [List.length_cons, List.length_append] at hfuel
    simp only [List.map_cons, List.map_append, List.cons_append, List.append_assoc]
    rw [readItems, hitem level fuel _ (by omega) (ends_cons (by decide) _)]
    simp only [skipBlanks_cons (show isBlank ',' = false by decide)]
    rw [readItems_congr (skipBlanks_newline level _),
      ih (hitems next List.mem_cons_self) (fun item hmem => hitems item (List.mem_cons_of_mem _ hmem)) (by omega)]
    simp

theorem map_quote_append (text : String) (cs : List Sign) : (quote text).map some ++ cs =
    some '"' :: ((text.toList.flatMap escape).map some ++ some '"' :: cs) := by
  simp [quote]

theorem skipBlanks_quote (text : List Sign) : skipBlanks (some '"' :: text) = some '"' :: text :=
  skipBlanks_cons (by decide) text

theorem addField_some (name : String) (value : Json) (passed : List (String × Json)) :
    addField (some name.toList) value (some passed) = some ((name, value) :: passed) := by
  simp [addField]

/-- A value after a name and its colon. -/
theorem readValue_blank (fuel : Nat) (cs : List Sign) : readValue fuel (some ' ' :: cs) = readValue fuel cs :=
  readValue_congr rfl

/-- The fields of an object from one of them on. -/
theorem readFields_append (name : String) {value : Json} {fields : List (String × Json)} (hvalue : value.Recovered)
    (hfields : ∀ field ∈ fields, field.2.Recovered) {level fuel : Nat} (out : Nat)
    (hfuel : (writePretty level value).length + (prettyFields level fields).length < fuel)
    (passed : List (String × Json)) (rest : List Sign) :
    readFields fuel (some passed) ((quote name).map some ++ (some ':' :: some ' ' ::
      ((writePretty level value).map some ++ ((prettyFields level fields).map some ++
        ((newline out).map some ++ some '\x7d' :: rest))))) =
      some (.object (passed.reverse ++ (name, value) :: fields), rest) := by
  induction fields generalizing name value fuel passed with
  | nil =>
    obtain _ | fuel := fuel
    · omega
    rw [prettyFields, List.map_nil, List.nil_append, map_quote_append, readFields, skipBlanks_quote]
    simp only [readText_quote, skipBlanks_cons (show isBlank ':' = false by decide)]
    rw [readValue_blank, hvalue level fuel _ (by omega) (ends_newline out _)]
    simp only [skipBlanks_newline, skipBlanks_cons (show isBlank '\x7d' = false by decide), addField_some]
    simp [ofFields]
  | cons next fields ih =>
    obtain _ | fuel := fuel
    · omega
    obtain ⟨name', value'⟩ := next
    rw [prettyFields] at hfuel ⊢
    simp only [List.length_cons, List.length_append] at hfuel
    simp only [List.map_cons, List.map_append, List.cons_append, List.append_assoc]
    rw [map_quote_append, readFields, skipBlanks_quote]
    simp only [readText_quote, skipBlanks_cons (show isBlank ':' = false by decide)]
    rw [readValue_blank, hvalue level fuel _ (by omega) (ends_cons (by decide) _)]
    simp only [skipBlanks_cons (show isBlank ',' = false by decide), addField_some]
    have hvalue' : value'.Recovered := hfields (name', value') List.mem_cons_self
    rw [readFields_congr (skipBlanks_newline level _),
      ih name' hvalue' (fun field hmem => hfields field (List.mem_cons_of_mem _ hmem)) (by omega)]
    simp

/-! ### Values -/

variable {j : Json}

/-- A value has at least one character, so there is fuel for one step. -/
theorem Written.recovered_of_succ (h : j.Written)
    (hread : ∀ (level fuel : Nat) (rest : List Sign), (writePretty level j).length ≤ fuel + 1 → Ends rest →
      readValue (fuel + 1) ((writePretty level j).map some ++ rest) = some (j, rest)) : j.Recovered := by
  intro level fuel rest hfuel hrest
  obtain ⟨c, cs, hwrite, -⟩ := h.exists_cons level
  cases fuel with
  | zero =>
    rw [hwrite, List.length_cons] at hfuel
    omega
  | succ fuel => exact hread level fuel rest hfuel hrest

/-- A value that is always written in the same way. -/
theorem Written.recovered_of_text (h : j.Written) (text : List Char) (hwrite : ∀ level, writePretty level j = text)
    (hread : ∀ (fuel : Nat) (rest : List Sign), readValue (fuel + 1) (text.map some ++ rest) = some (j, rest)) :
    j.Recovered := by
  apply h.recovered_of_succ
  intro level fuel rest _ _
  rw [hwrite]
  exact hread fuel rest

theorem recovered_number {n : JsonNumber} (h : n.Written) : (Json.number n).Recovered := by
  obtain ⟨c, cs, hwrite, hc⟩ := exists_writeNumber h
  apply (Written.number h).recovered_of_succ
  intro level fuel rest _ hrest
  have hread := readNumber_writeNumber h hrest
  obtain ⟨c', cs', hwrite', hblank, -⟩ := (Written.number h).exists_cons level
  rw [writePretty] at hwrite' ⊢
  rw [hwrite] at hwrite' hread ⊢
  cases hwrite'
  simp only [List.map_cons, List.cons_append] at hread ⊢
  rw [readValue, skipBlanks_cons hblank]
  -- no other value begins with a minus or a digit
  split
  case h_7 =>
    rw [hread]
    rfl
  all_goals
    rename_i heq
    cases (List.cons.inj heq).1
    rcases hc with hc | hc
    all_goals exact absurd hc (by decide)

theorem recovered_array {items : List Json} (h : ∀ item ∈ items, item.Written)
    (hitems : ∀ item ∈ items, item.Recovered) : (Json.array items).Recovered := by
  cases items with
  | nil => exact (Written.array h).recovered_of_text _ (fun level => by rw [writePretty]) fun _ _ => rfl
  | cons item items =>
    apply (Written.array h).recovered_of_succ
    intro level fuel rest hfuel _
    rw [writePretty] at hfuel ⊢
    simp only [List.length_cons, List.length_append] at hfuel
    obtain ⟨c, cs, hwrite, hblank, hc⟩ := (h item List.mem_cons_self).exists_cons (level + 1)
    have hread := readItems_append (hitems item List.mem_cons_self)
      (fun item hmem => hitems item (List.mem_cons_of_mem _ hmem)) level
      (show (writePretty (level + 1) item).length + (prettyItems (level + 1) items).length < fuel by omega) [] rest
    rw [hwrite] at hread ⊢
    simp only [List.map_cons, List.map_append, List.map_nil, List.cons_append, List.append_assoc,
      List.nil_append] at hread ⊢
    rw [readValue, skipBlanks_cons (by decide)]
    simp only [skipBlanks_newline, skipBlanks_cons hblank]
    split
    · rename_i heq
      cases heq
      exact absurd rfl hc
    · exact hread

theorem recovered_object {fields : List (String × Json)} (h : ∀ field ∈ fields, field.2.Written)
    (hfields : ∀ field ∈ fields, field.2.Recovered) : (Json.object fields).Recovered := by
  cases fields with
  | nil => exact (Written.object h).recovered_of_text _ (fun level => by rw [writePretty]) fun _ _ => rfl
  | cons field fields =>
    obtain ⟨name, value⟩ := field
    apply (Written.object h).recovered_of_succ
    intro level fuel rest hfuel _
    rw [writePretty] at hfuel ⊢
    simp only [List.length_cons, List.length_append] at hfuel
    have hvalue : value.Recovered := hfields (name, value) List.mem_cons_self
    have hread := readFields_append name hvalue (fun field hmem => hfields field (List.mem_cons_of_mem _ hmem)) level
      (show (writePretty (level + 1) value).length + (prettyFields (level + 1) fields).length < fuel by omega) [] rest
    simp only [List.map_cons, List.map_append, List.map_nil, List.cons_append, List.append_assoc,
      List.nil_append, map_quote_append] at hread ⊢
    rw [readValue, skipBlanks_cons (by decide)]
    simp only [skipBlanks_newline, skipBlanks_quote]
    exact hread

/-- Every value with a written form is read back. -/
theorem Written.recovered (h : j.Written) : j.Recovered := by
  induction h with
  | null => exact Written.null.recovered_of_text _ (fun level => by rw [writePretty]) fun _ _ => rfl
  | bool value =>
    cases value with
    | true => exact (Written.bool true).recovered_of_text _ (fun level => by rw [writePretty]) fun _ _ => rfl
    | false => exact (Written.bool false).recovered_of_text _ (fun level => by rw [writePretty]) fun _ _ => rfl
  | number h => exact recovered_number h
  | string value =>
    apply (Written.string value).recovered_of_text (quote value) (fun level => by rw [writePretty])
    intro fuel rest
    rw [map_quote_append, readValue, skipBlanks_quote]
    simp [readText_quote, ofText]
  | array h ih => exact recovered_array h ih
  | object h ih => exact recovered_object h ih

/-- The document of a value is read back as the value. -/
theorem parse_pretty (h : j.Written) : parse j.pretty = some j := by
  have hread := h.recovered 0 ((writePretty 0 j).length + 1) [] (by omega) ends_nil
  rw [List.append_nil] at hread
  rw [parse, pretty, String.toList_ofList, parseSigns, List.length_map, hread]
  rfl

end Json

end ProcProfile
