import Mathlib.Data.List.Nodup
import ShellWord.Word.Json

/-!
# Words survive as JSON

A word that is written as JSON and read again is the same word (`Word.json_lossless`), however deep
operators and operands are nested in it.

Three things could go wrong.  A reader might ask for a field under another name than the writer gives it, or
miss it because the name occurs twice; `fieldsOfJson?_jsonRecord` settles that for all records at once, for
the price of comparing the two lists of names.  A value might be written as `null`, which readers take for an
absent one (`optional_option`).  And words are read with a bound on how deep they are nested, which might be
too small: the bound is the depth of the JSON, and every level of words takes more than one level of JSON.

The induction is on that bound and not on words.  `ReadsWords` says of a reader that it gets back all words
up to a depth, and operators, expansions and parts, whose readers do not recurse, are one lemma each about a
reader with that property.  `ReadsWords.ofJsonWith?` adds a level.
-/

namespace ShellWord

/-! ### Records -/

/-- If every item of a list can be read, so can the list. -/
theorem mapM_eq_some {α β : Type} {read? : α → Option β} {value : α → β} {items : List α}
    (h : ∀ item ∈ items, read? item = some (value item)) :
    items.mapM read? = some (items.map value) := by
  induction items with
  | nil => rfl
  | cons item items ih =>
      rw [List.forall_mem_cons] at h
      rw [List.mapM_cons, h.1, ih h.2]
      rfl

namespace Json

variable {fields : List (Text × Json)}

theorem single?_cons_of_ne {name other : Text} (h : other ≠ name) (value : Json) :
    single? ((other, value) :: fields) name = single? fields name := by
  unfold single?
  rw [List.filter_cons_of_neg (by simpa using h)]

theorem single?_cons_self {name : Text} (fresh : name ∉ fields.map Prod.fst) (value : Json) :
    single? ((name, value) :: fields) name = some (some value) := by
  have others : fields.filter (fun field => field.1 == name) = [] := by
    refine List.filter_eq_nil_iff.2 fun field mem same => fresh ?_
    exact beq_iff_eq.1 same ▸ List.mem_map_of_mem mem
  unfold single?
  rw [List.filter_cons_of_pos (by simp), others]

/-- Where names do not repeat, every field is found. -/
theorem single?_of_mem (distinct : (fields.map Prod.fst).Nodup) {field : Text × Json}
    (mem : field ∈ fields) : single? fields field.1 = some (some field.2) := by
  induction fields with
  | nil => cases mem
  | cons first fields ih =>
      rw [List.map_cons, List.nodup_cons] at distinct
      rcases List.mem_cons.1 mem with rfl | mem
      · exact single?_cons_self distinct.1 field.2
      · have other : first.1 ≠ field.1 := by
          intro same
          exact distinct.1 (same ▸ List.mem_map_of_mem mem)
        rw [single?_cons_of_ne other, ih distinct.2 mem]

/-- A record is read back field by field, if it is asked for all of its fields in order. -/
theorem record?_object (distinct : (fields.map Prod.fst).Nodup) :
    (Json.object fields).record? (fields.map Prod.fst) = some (fields.map fun field => some field.2) := by
  show (fields.map Prod.fst).mapM (single? fields) = _
  rw [List.mapM_map]
  exact mapM_eq_some fun field mem => single?_of_mem distinct mem

/-- The tag of a variant is the field that is taken out. -/
theorem tagged?_object {tag : Text} (fresh : tag ∉ fields.map Prod.fst) (name : Text) :
    (Json.object ((tag, .string name) :: fields)).tagged? tag = some (name, .object fields) := by
  have rest : ((tag, Json.string name) :: fields).filter (fun field => !(field.1 == tag)) = fields := by
    rw [List.filter_cons_of_neg (by simp), List.filter_eq_self]
    intro field mem
    have other : field.1 ≠ tag := fun same => fresh (same ▸ List.mem_map_of_mem mem)
    simpa using other
  simp only [tagged?, single?_cons_self fresh, rest]

theorem depth_le_depthItems {items : List Json} {item : Json} (mem : item ∈ items) :
    item.depth ≤ depthItems items := by
  induction items with
  | nil => cases mem
  | cons first items ih =>
      rw [depthItems]
      rcases List.mem_cons.1 mem with rfl | mem
      · exact Nat.le_max_left _ _
      · exact Nat.le_trans (ih mem) (Nat.le_max_right _ _)

theorem depthFields_eq (fields : List (Text × Json)) :
    depthFields fields = depthItems (fields.map Prod.snd) := by
  induction fields with
  | nil => rfl
  | cons field fields ih => rw [depthFields, ih, List.map_cons, depthItems]

/-- An item of an array is nested less deep than the array. -/
theorem depth_lt_array {items : List Json} {item : Json} (mem : item ∈ items) :
    item.depth < (Json.array items).depth := by
  rw [depth]
  exact Nat.lt_succ_of_le (depth_le_depthItems mem)

/-- A field of an object is nested less deep than the object. -/
theorem depth_lt_object {field : Text × Json} (mem : field ∈ fields) :
    field.2.depth < (Json.object fields).depth := by
  rw [depth, depthFields_eq]
  exact Nat.lt_succ_of_le (depth_le_depthItems (List.mem_map_of_mem mem))

end Json

theorem map_fst_jsonFields (fields : List (String × Json)) :
    (fields.map fun (name, value) => (name.toList, value)).map Prod.fst =
      (fields.map Prod.fst).map String.toList := by
  rw [List.map_map, List.map_map]
  rfl

/-- The fields of a written record are read in the order in which they are written. -/
@[simp]
theorem fieldsOfJson?_jsonRecord {names : List String} {fields : List (String × Json)}
    (inOrder : fields.map Prod.fst = names) (distinct : names.Nodup) :
    fieldsOfJson? names (jsonRecord fields) = some (fields.map fun field => some field.2) := by
  subst inOrder
  have distinctTexts := distinct.map fun _ _ => String.toList_inj.1
  unfold fieldsOfJson? jsonRecord
  rw [← map_fst_jsonFields] at distinctTexts ⊢
  rw [Json.record?_object distinctTexts, List.map_map]
  rfl

/-- The tag of a written variant decides how the rest of it is read. -/
theorem bind_tagged?_jsonRecord {α : Type} {tag : String} {fields : List (String × Json)}
    (fresh : tag ∉ fields.map Prod.fst) (name : String) (read? : String → Json → Option α) :
    (((jsonRecord ((tag, .str name) :: fields)).tagged? tag.toList).bind fun found =>
      read? (String.ofList found.1) found.2) = read? name (jsonRecord fields) := by
  have freshText : tag.toList ∉ (fields.map fun (name, value) => (name.toList, value)).map Prod.fst := by
    rw [map_fst_jsonFields, List.mem_map_of_injective fun _ _ => String.toList_inj.1]
    exact fresh
  show (((Json.object ((tag.toList, .string name.toList) ::
    fields.map fun (name, value) => (name.toList, value))).tagged? tag.toList).bind _) = _
  rw [Json.tagged?_object freshText, Option.bind_some, String.ofList_toList]
  rfl

theorem depth_lt_jsonRecord {fields : List (String × Json)} (name : String) {value : Json}
    (mem : (name, value) ∈ fields) : value.depth < (jsonRecord fields).depth := by
  have inside : (name.toList, value) ∈ fields.map fun (name, value) => (name.toList, value) :=
    List.mem_map.2 ⟨(name, value), mem, rfl⟩
  exact Json.depth_lt_object inside

theorem depth_le_of_field {fields : List (String × Json)} {depth : Nat}
    (h : (jsonRecord fields).depth ≤ depth) (name : String) {value : Json}
    (mem : (name, value) ∈ fields) : value.depth ≤ depth :=
  Nat.le_of_lt (Nat.lt_of_lt_of_le (depth_lt_jsonRecord name mem) h)

/-! ### Values in fields -/

@[simp] theorem textOfJson?_string (text : Text) : textOfJson? (.string text) = some text :=
  rfl

@[simp] theorem boolOfJson?_bool (b : Bool) : boolOfJson? (.bool b) = some b :=
  rfl

@[simp] theorem flagOfJson?_jsonRecord (name : String) (flag : Bool) :
    flagOfJson? name (jsonRecord [(name, .bool flag)]) = some flag := by
  have read : fieldsOfJson? [name] (jsonRecord [(name, .bool flag)]) = some [some (.bool flag)] :=
    fieldsOfJson?_jsonRecord rfl (List.nodup_singleton name)
  simp [flagOfJson?, read]

theorem namedOfJson?_str {α : Type} (values : List (String × α)) (name : String) :
    namedOfJson? values (.str name) = values.lookup name := by
  simp [namedOfJson?, Json.str]

@[simp] theorem Quote.ofJson?_toJson (quote : Quote) : Quote.ofJson? quote.toJson = some quote := by
  cases quote <;> exact namedOfJson?_str _ _

@[simp] theorem Anchor.ofJson?_toJson (anchor : Anchor) : Anchor.ofJson? anchor.toJson = some anchor := by
  cases anchor <;> exact namedOfJson?_str _ _

@[simp] theorem CaseDirection.ofJson?_toJson (direction : CaseDirection) :
    CaseDirection.ofJson? direction.toJson = some direction := by
  cases direction <;> exact namedOfJson?_str _ _

@[simp] theorem Flow.ofJson?_toJson (flow : Flow) : Flow.ofJson? flow.toJson = some flow := by
  cases flow <;> exact namedOfJson?_str _ _

/-- An optional field is read back, if what is written for a value is not `null`. -/
theorem optional_option {α : Type} {read? : Json → Option α} {write : α → Json} {value : Option α}
    (present : ∀ a, write a ≠ .null) (reads : ∀ a ∈ value, read? (write a) = some a) :
    optional read? (some (Json.option write value)) = some value := by
  cases value with
  | none => rfl
  | some a =>
      have read : optional read? (some (write a)) = (read? (write a)).map some := by
        cases h : write a with
        | null => exact absurd h (present a)
        | _ => rfl
      rw [Json.option, read, reads a rfl]
      rfl

@[simp] theorem optional_quote (quote : Option Quote) :
    optional Quote.ofJson? (some (Json.option Quote.toJson quote)) = some quote :=
  optional_option (fun quote => by cases quote <;> nofun) fun quote _ => quote.ofJson?_toJson

@[simp] theorem optional_anchor (anchor : Option Anchor) :
    optional Anchor.ofJson? (some (Json.option Anchor.toJson anchor)) = some anchor :=
  optional_option (fun anchor => by cases anchor <;> nofun) fun anchor _ => anchor.ofJson?_toJson

@[simp] theorem optional_text (text : Option Text) :
    optional textOfJson? (some (Json.option .string text)) = some text :=
  optional_option nofun fun _ _ => rfl

/-! ### Readers of words

The readers of operators, expansions and parts are handed the reader of the words inside, and so are the
lemmas about them. -/

/-- The reader gets back the words that are nested at most so deep. -/
def ReadsWords (word? : Json → Option Word) (depth : Nat) : Prop :=
  ∀ word : Word, word.toJson.depth ≤ depth → word? word.toJson = some word

@[simp] theorem Operator.ofJsonWith?_jsonRecord (word? : Json → Option Word) {fields : List (String × Json)}
    (fresh : "op" ∉ fields.map Prod.fst) (name : String) :
    Operator.ofJsonWith? word? (jsonRecord (("op", .str name) :: fields)) =
      Operator.ofFields? word? name (jsonRecord fields) :=
  bind_tagged?_jsonRecord fresh name (Operator.ofFields? word?)

@[simp] theorem Expansion.ofJsonWith?_jsonRecord (word? : Json → Option Word) {fields : List (String × Json)}
    (fresh : "kind" ∉ fields.map Prod.fst) (name : String) :
    Expansion.ofJsonWith? word? (jsonRecord (("kind", .str name) :: fields)) =
      Expansion.ofFields? word? name (jsonRecord fields) :=
  bind_tagged?_jsonRecord fresh name (Expansion.ofFields? word?)

@[simp] theorem Part.ofJsonWith?_jsonRecord (word? : Json → Option Word) {fields : List (String × Json)}
    (fresh : "type" ∉ fields.map Prod.fst) (name : String) :
    Part.ofJsonWith? word? (jsonRecord (("type", .str name) :: fields)) =
      Part.ofFields? word? name (jsonRecord fields) :=
  bind_tagged?_jsonRecord fresh name (Part.ofFields? word?)

theorem wordToJson_eq (word : Option Word) : wordToJson word = Json.option Word.toJson word := by
  cases word <;> rfl

theorem operatorToJson_eq (operator : Option Operator) :
    operatorToJson operator = Json.option Operator.toJson operator := by
  cases operator <;> rfl

theorem partsToJson_eq_map (parts : List Part) : partsToJson parts = parts.map Part.toJson := by
  induction parts with
  | nil => rfl
  | cons part parts ih => rw [partsToJson, ih, List.map_cons]

namespace ReadsWords

variable {word? : Json → Option Word} {depth : Nat}

theorem optionalWord (reads : ReadsWords word? depth) {word : Option Word}
    (h : (wordToJson word).depth ≤ depth) :
    optional word? (some (wordToJson word)) = some word := by
  rw [wordToJson_eq] at h ⊢
  refine optional_option (fun word => by cases word; nofun) fun inner mem => reads inner ?_
  rwa [Option.mem_def.1 mem] at h

/-- An operator is read back, with the replacement in it. -/
theorem operator (reads : ReadsWords word? depth) (operator : Operator)
    (h : operator.toJson.depth ≤ depth) :
    Operator.ofJsonWith? word? operator.toJson = some operator := by
  cases operator with
  | replace all anchor replacement =>
      rw [Operator.toJson] at h ⊢
      have inner : (wordToJson replacement).depth ≤ depth :=
        depth_le_of_field h "replacement" (by simp)
      simp [Operator.ofFields?, reads.optionalWord inner]
  | _ => simp [Operator.toJson, Operator.ofFields?]

theorem optionalOperator (reads : ReadsWords word? depth) {operator : Option Operator}
    (h : (operatorToJson operator).depth ≤ depth) :
    optional (Operator.ofJsonWith? word?) (some (operatorToJson operator)) = some operator := by
  rw [operatorToJson_eq] at h ⊢
  refine optional_option (fun operator => by cases operator <;> nofun) fun inner mem => ?_
  rw [Option.mem_def.1 mem] at h
  exact reads.operator inner h

/-- An expansion is read back, with its operator and its operand. -/
theorem expansion (reads : ReadsWords word? depth) (expansion : Expansion)
    (h : expansion.toJson.depth ≤ depth) :
    Expansion.ofJsonWith? word? expansion.toJson = some expansion := by
  cases expansion with
  | parameter name operator word =>
      rw [Expansion.toJson] at h ⊢
      have innerOperator : (operatorToJson operator).depth ≤ depth :=
        depth_le_of_field h "operator" (by simp)
      have innerWord : (wordToJson word).depth ≤ depth :=
        depth_le_of_field h "word" (by simp)
      simp [Expansion.ofFields?, Expansion.parameterOfJsonWith?,
        reads.optionalOperator innerOperator, reads.optionalWord innerWord]
  | _ => simp [Expansion.toJson, Expansion.ofFields?]

/-- A part is read back, with the expansion in it. -/
theorem part (reads : ReadsWords word? depth) (part : Part) (h : part.toJson.depth ≤ depth) :
    Part.ofJsonWith? word? part.toJson = some part := by
  cases part with
  | literal text quote => simp [Part.toJson, Part.ofFields?]
  | expansion expansion quote =>
      rw [Part.toJson] at h ⊢
      have inner : expansion.toJson.depth ≤ depth :=
        depth_le_of_field h "expansion" (by simp)
      simp [Part.ofFields?, reads.expansion expansion inner]

/-- One level of nesting: a reader of the words inside makes a reader of the words around them. -/
theorem ofJsonWith? (reads : ReadsWords word? depth) :
    ReadsWords (Word.ofJsonWith? word?) (depth + 1) := by
  rintro ⟨parts, quote⟩ h
  rw [Word.toJson, partsToJson_eq_map] at h ⊢
  have array : (Json.array (parts.map Part.toJson)).depth ≤ depth + 1 :=
    depth_le_of_field h "parts" (by simp)
  have part : ∀ part ∈ parts, Part.ofJsonWith? word? part.toJson = some part := by
    intro part mem
    have inner : part.toJson.depth < (Json.array (parts.map Part.toJson)).depth :=
      Json.depth_lt_array (List.mem_map_of_mem mem)
    exact reads.part part (Nat.le_of_lt_succ (Nat.lt_of_lt_of_le inner array))
  have read : (parts.map Part.toJson).mapM (Part.ofJsonWith? word?) = some parts := by
    rw [List.mapM_map]
    exact (mapM_eq_some part).trans (congrArg some (List.map_id parts))
  simp [Word.ofJsonWith?, read]

end ReadsWords

/-- The reader that is given so much depth gets back the words of that depth. -/
theorem readsWords_ofJsonAt (depth : Nat) : ReadsWords (Word.ofJsonAt depth) depth := by
  induction depth with
  | zero =>
      -- A word is written as a record, so that nothing is left to read at depth zero.
      rintro ⟨parts, quote⟩ h
      rw [Word.toJson, jsonRecord, Json.depth] at h
      exact absurd h (Nat.not_succ_le_zero _)
  | succ depth ih => exact ih.ofJsonWith?

theorem Word.ofJson?_toJson (word : Word) : Word.ofJson? word.toJson = some word :=
  readsWords_ofJsonAt word.toJson.depth word (Nat.le_refl _)

/-- Nothing of a word is lost in its JSON form.  What was read from any JSON value, with optional
fields missing or `null` and other fields beside them, is read again from the form that is written. -/
theorem Word.json_lossless :
    (∀ word : Word, Word.ofJson? word.toJson = some word) ∧
    ∀ j : Json, (Word.ofJson? j).bind (fun word => Word.ofJson? word.toJson) = Word.ofJson? j := by
  refine ⟨Word.ofJson?_toJson, fun j => ?_⟩
  simp only [Word.ofJson?_toJson, Option.bind_fun_some]

end ShellWord
