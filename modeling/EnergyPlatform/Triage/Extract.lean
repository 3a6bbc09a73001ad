import EnergyPlatform.Contracts.Decimals
import EnergyPlatform.Contracts.Numerals
import EnergyPlatform.Lib.Dict

/-!
# Triage.Extract

The bounded sample of a captured document, the only part of it that the language model sees.

* `clean_plain`, `safeName_plain`: what `clean` and `SAFE_NAME` keep out, and what they let through.
* `extract_chosen`: the sample is the first candidate that fits, and it covers the others that do.
* `sample_inert_iff`: exactly when the sample is bounded and inert.
-/

namespace EnergyPlatform

namespace Triage

open Lib (Dict)

def maxRecords : Nat := 3
def maxValueChars : Nat := 64
def maxFields : Nat := 64
def maxSampleChars : Nat := 4000

/-! ## Characters -/

/-- C0 and C1 controls. -/
def isControl (c : Char) : Bool := c.toNat ≤ 0x1f ∨ 0x7f ≤ c.toNat ∧ c.toNat ≤ 0x9f

/-- The line and the paragraph separator; the other line ends are controls. -/
def isSeparator (c : Char) : Bool := c.toNat = 0x2028 ∨ c.toNat = 0x2029

/-- The characters of Unicode's `Bidi_Control`. -/
def isBidi (c : Char) : Bool :=
  c.toNat = 0x61c ∨ c.toNat = 0x200e ∨ c.toNat = 0x200f ∨
    0x202a ≤ c.toNat ∧ c.toNat ≤ 0x202e ∨ 0x2066 ≤ c.toNat ∧ c.toNat ≤ 0x2069

/-- Neither a control nor the end of a line nor a bidirectional formatting character. -/
def isPlain (c : Char) : Bool := !isControl c && !isSeparator c && !isBidi c

/-- The character classes of the interpreter: `\w`, `\d` and white space. -/
structure Classes where
  word : Char → Bool
  digit : Char → Bool
  space : Char → Bool
  word_plain : ∀ c, word c = true → isPlain c = true

/-- `_UNSAFE_CHARS`. -/
def unsafeChar (c : Char) : Bool :=
  c.toNat ≤ 0x1f ∨ 0x7f ≤ c.toNat ∧ c.toNat ≤ 0x9f ∨ 0x200b ≤ c.toNat ∧ c.toNat ≤ 0x200f ∨
    0x2028 ≤ c.toNat ∧ c.toNat ≤ 0x202e ∨ 0x2060 ≤ c.toNat ∧ c.toNat ≤ 0x2064 ∨
    0x2066 ≤ c.toNat ∧ c.toNat ≤ 0x2069

section Text

variable (C : Classes)

/-- `text.split()`, of a text after the run of characters `run`. -/
def words : Text → Text → List Text
  | run, [] => if run = [] then [] else [run]
  | run, c :: cs =>
    if C.space c then if run = [] then words [] cs else run :: words [] cs
    else words (run ++ [c]) cs

/-- One untrusted value as short, printable, single-line text. -/
def clean (limit : Nat) (value : Text) : Text :=
  let text := [' '].intercalate (words C [] (value.map fun c => if unsafeChar c then ' ' else c))
  if text.length ≤ limit then text else text.take (limit - 1) ++ ['…']

/-- `[\w .,:()/%@+-]`. -/
def nameChar (c : Char) : Bool := C.word c || " .,:()/%@+-".toList.contains c

/-- `[\w .,:()/%@+-]{0,63}$`: `$` also stands before a final newline. -/
def nameRest (rest : Text) : Bool :=
  (decide (rest.length ≤ 63) && rest.all (nameChar C)) ||
    (decide (rest.getLast? = some '\n') && decide (rest.dropLast.length ≤ 63) &&
      rest.dropLast.all (nameChar C))

/-- `[^\W\d][\w .,:()/%@+-]{0,63}$`. -/
def nameBody : Text → Bool
  | [] => false
  | c :: rest => C.word c && !C.digit c && nameRest C rest

def safeName (name : Text) : Bool :=
  (decide (name.head? = some '@') && nameBody C name.tail) || nameBody C name

end Text

/-! ## The sample -/

structure Sample where
  fields : List Text
  records : List (List (Text × Text))
  droppedFields : Nat
  parseError : Option Text
  truncated : Bool
deriving DecidableEq

def hexDigit (n : Nat) : Char := "0123456789abcdef".toList.getD (n % 16) '0'

/-- `\uXXXX`. -/
def unicodeEscape (n : Nat) : Text :=
  ['\\', 'u', hexDigit (n / 4096), hexDigit (n / 256), hexDigit (n / 16), hexDigit n]

/-- A character in a JSON string of ASCII. -/
def escape (c : Char) : Text :=
  if c = '"' ∨ c = '\\' then ['\\', c]
  else if c = '\n' then ['\\', 'n']
  else if c = '\r' then ['\\', 'r']
  else if c = '\t' then ['\\', 't']
  else if c.toNat = 8 then ['\\', 'b']
  else if c.toNat = 12 then ['\\', 'f']
  else if 32 ≤ c.toNat ∧ c.toNat ≤ 126 then [c]
  else if c.toNat < 0x10000 then unicodeEscape c.toNat
  else unicodeEscape (0xd800 + (c.toNat - 0x10000) / 0x400) ++
    unicodeEscape (0xdc00 + (c.toNat - 0x10000) % 0x400)

def quoted (text : Text) : Text := '"' :: text.flatMap escape ++ ['"']

def listJson (items : List Text) : Text := '[' :: ", ".toList.intercalate items ++ [']']

/-- An object with its members in order. -/
def dictJson (members : List (Text × Text)) : Text :=
  '{' :: ", ".toList.intercalate (members.map fun e => quoted e.1 ++ ": ".toList ++ e.2) ++ ['}']

/-- `json.dumps(…, ensure_ascii=True, sort_keys=True)`; the fields of a record are sorted. -/
def Sample.toJson (s : Sample) : Text :=
  dictJson [("dropped_fields".toList, Nat.toDigits 10 s.droppedFields),
    ("fields".toList, listJson (s.fields.map quoted)),
    ("parse_error".toList, match s.parseError with
      | none => "null".toList
      | some message => quoted message),
    ("records".toList,
      listJson (s.records.map fun r => dictJson (r.map fun e => (e.1, quoted e.2)))),
    ("truncated".toList, if s.truncated then "true".toList else "false".toList)]

/-- The sample is within its size. -/
def Sample.Fits (s : Sample) : Prop := s.toJson.length ≤ maxSampleChars

instance (s : Sample) : Decidable s.Fits := inferInstanceAs (Decidable (_ ≤ _))

/-! ## Extraction -/

/-- The record-shaped rows of a decoded document: a table's, under its header, or records. -/
inductive Inventory where
  | table (header : List Text) (rows : List (List Cell))
  | records (rows : List (Dict Text Cell))

namespace Inventory

def rows : Inventory → List (Dict Text Cell)
  | table header rows =>
    rows.map fun row => (header.zip row).foldl (fun d e => d.set e.1 e.2) .empty
  | records rows => rows

/-- The distinct names. -/
def names : Inventory → List Text
  | table header _ => header.dedup
  | records rows => (rows.flatMap Dict.keys).dedup

end Inventory

/-- What `len` can count: the names of a document are fewer than `sys.maxsize`. -/
abbrev Decoded := {inventory : Inventory // inventory.names.length < 2 ^ 63}

section Extract

variable (C : Classes)

/-- `sorted(n for n in names if SAFE_NAME.match(n))[:MAX_FIELDS]`. -/
def safeFields (names : List Text) : List Text :=
  ((names.filter (safeName C)).insertionSort fun a b => a ≤ b).take maxFields

/-- `{name: clean(r[name]) for name in safe if name in r}`. -/
def sampleRow (safe : List Text) (row : Dict Text Cell) : List (Text × Text) :=
  safe.filterMap fun name =>
    (row.get? name).map fun cell => (name, clean C maxValueChars cell.toText.toList)

def sampleRows (inventory : Inventory) : List (List (Text × Text)) :=
  (inventory.rows.take maxRecords).map (sampleRow C (safeFields C inventory.names))

/-- The first loop, over so many records. -/
def dropRecords : Nat → Sample → Sample
  | 0, s => s
  | n + 1, s =>
    if ¬ s.Fits ∧ s.records ≠ [] then
      dropRecords n ⟨s.fields, s.records.dropLast, s.droppedFields, none, true⟩
    else s

/-- The second loop, over so many fields. -/
def dropFields : Nat → Sample → Sample
  | 0, s => s
  | n + 1, s =>
    if ¬ s.Fits ∧ s.fields ≠ [] then
      dropFields n ⟨s.fields.dropLast, [], s.droppedFields + 1, none, true⟩
    else s

/-- `extract`, of what decoding and inventory return, or the text of what they raise. -/
def extract (read : Except Text Decoded) : Sample :=
  match read with
  | .error message => ⟨[], [], 0, some (clean C 200 message), false⟩
  | .ok document =>
    let safe := safeFields C document.val.names
    let rows := sampleRows C document.val
    let sample := dropRecords rows.length
      ⟨safe, rows, document.val.names.length - safe.length, none, false⟩
    dropFields sample.fields.length sample

end Extract

/-! ## What the filters let through -/

section Plain

variable {C : Classes}

/-- A name or a value is one line of plain characters. -/
def Plain (text : Text) : Prop := ∀ c ∈ text, isPlain c = true

theorem plain_of_safe {c : Char} (h : unsafeChar c = false) (hmark : c ≠ '\u061c') :
    isPlain c = true := by
  have hne : c.toNat ≠ 0x61c := fun heq => hmark (Char.ext (UInt32.toNat_inj.mp heq))
  unfold unsafeChar at h
  unfold isPlain isControl isSeparator isBidi
  simp only [decide_eq_false_iff_not, Bool.and_eq_true, Bool.not_eq_true'] at h ⊢
  omega

theorem mem_words {w : Text} {c : Char} : ∀ (cs run : Text), w ∈ words C run cs → c ∈ w →
    c ∈ run ∨ c ∈ cs := by
  intro cs
  induction cs with
  | nil =>
    intro run hw hc
    unfold words at hw
    split at hw
    · cases hw
    · obtain rfl := List.mem_singleton.mp hw
      exact .inl hc
  | cons d cs ih =>
    intro run hw hc
    unfold words at hw
    split at hw
    · split at hw
      · rcases ih [] hw hc with h | h
        · cases h
        · exact .inr (List.mem_cons_of_mem _ h)
      · rcases List.mem_cons.mp hw with rfl | hw
        · exact .inl hc
        · rcases ih [] hw hc with h | h
          · cases h
          · exact .inr (List.mem_cons_of_mem _ h)
    · rcases ih _ hw hc with h | h
      · rcases List.mem_append.mp h with h | h
        · exact .inl h
        · obtain rfl := List.mem_singleton.mp h
          exact .inr List.mem_cons_self
      · exact .inr (List.mem_cons_of_mem _ h)

theorem mem_intercalate {sep : Text} {c : Char} : ∀ {ws : List Text},
    c ∈ sep.intercalate ws → c ∈ sep ∨ ∃ w ∈ ws, c ∈ w := by
  intro ws
  induction ws with
  | nil => intro h; cases h
  | cons w ws ih =>
    intro h
    cases ws with
    | nil =>
      rw [List.intercalate_singleton] at h
      exact .inr ⟨w, List.mem_cons_self, h⟩
    | cons w' ws =>
      rw [List.intercalate_cons_cons] at h
      rcases List.mem_append.mp h with h | h
      · rcases List.mem_append.mp h with h | h
        · exact .inr ⟨w, List.mem_cons_self, h⟩
        · exact .inl h
      · rcases ih h with h | ⟨v, hv, hc⟩
        · exact .inl h
        · exact .inr ⟨v, List.mem_cons_of_mem _ hv, hc⟩

theorem clean_length (limit : Nat) (h : 0 < limit) (value : Text) :
    (clean C limit value).length ≤ limit := by
  unfold clean
  dsimp only
  split
  · assumption
  · rw [List.length_append, List.length_take, List.length_singleton]
    omega

/-- What `clean` keeps is plain, but for the mark that `_UNSAFE_CHARS` does not list. -/
theorem mem_clean {limit : Nat} {value : Text} {c : Char} (h : c ∈ clean C limit value) :
    unsafeChar c = false := by
  have htext : ∀ d ∈ [' '].intercalate
      (words C [] (value.map fun c => if unsafeChar c then ' ' else c)), unsafeChar d = false := by
    intro d hd
    rcases mem_intercalate hd with hd | ⟨w, hw, hd⟩
    · obtain rfl := List.mem_singleton.mp hd
      decide
    · rcases mem_words _ _ hw hd with h | h
      · cases h
      · obtain ⟨e, -, rfl⟩ := List.mem_map.mp h
        by_cases he : unsafeChar e = true
        · rw [if_pos he]
          decide
        · rw [if_neg he]
          simpa using he
  unfold clean at h
  dsimp only at h
  split at h
  · exact htext c h
  · rcases List.mem_append.mp h with h | h
    · exact htext c (List.mem_of_mem_take h)
    · obtain rfl := List.mem_singleton.mp h
      decide

theorem plain_clean_iff (limit : Nat) (value : Text) :
    Plain (clean C limit value) ↔ '\u061c' ∉ clean C limit value := by
  constructor
  · intro h hmem
    have := h _ hmem
    revert this
    decide
  · exact fun h c hc => plain_of_safe (mem_clean hc) fun heq => h (heq ▸ hc)

theorem nameChar_plain {c : Char} (h : nameChar C c = true) : isPlain c = true := by
  unfold nameChar at h
  rcases Bool.or_eq_true_iff.mp h with h | h
  · exact C.word_plain c h
  · have hall : " .,:()/%@+-".toList.all isPlain = true := by decide
    exact List.all_eq_true.mp hall c (by simpa using h)

/-- Within the length of the pattern: 64 characters, and a leading `@`. -/
def NameLength (name : Text) : Prop :=
  name.length ≤ 64 ∨ name.head? = some '@' ∧ name.length ≤ 65

theorem nameBody_plain {name : Text} (h : nameBody C name = true)
    (hend : name.getLast? ≠ some '\n') : Plain name ∧ name.length ≤ 64 := by
  cases name with
  | nil => cases h
  | cons c rest =>
    unfold nameBody at h
    simp only [Bool.and_eq_true] at h
    obtain ⟨⟨hword, -⟩, hrest⟩ := h
    unfold nameRest at hrest
    rcases Bool.or_eq_true_iff.mp hrest with hrest | hrest
    · simp only [Bool.and_eq_true, decide_eq_true_eq, List.all_eq_true] at hrest
      refine ⟨fun d hd => ?_, by rw [List.length_cons]; omega⟩
      rcases List.mem_cons.mp hd with rfl | hd
      · exact C.word_plain _ hword
      · exact nameChar_plain (hrest.2 d hd)
    · simp only [Bool.and_eq_true, decide_eq_true_eq] at hrest
      refine absurd ?_ hend
      rw [List.getLast?_cons, hrest.1.1]
      rfl

theorem safeName_plain {name : Text} (h : safeName C name = true) :
    Plain name ∧ NameLength name ↔ name.getLast? ≠ some '\n' := by
  constructor
  · intro hplain hend
    have := hplain.1 _ (List.mem_of_getLast? hend)
    revert this
    decide
  · intro hend
    unfold safeName at h
    rcases Bool.or_eq_true_iff.mp h with h | h
    · simp only [Bool.and_eq_true, decide_eq_true_eq] at h
      obtain ⟨hat, hbody⟩ := h
      cases name with
      | nil => cases hat
      | cons c rest =>
        cases hat
        have hrest : rest.getLast? ≠ some '\n' := by
          intro heq
          rw [List.getLast?_cons, heq] at hend
          exact hend rfl
        obtain ⟨hplain, hlen⟩ := nameBody_plain hbody hrest
        refine ⟨fun d hd => ?_, .inr ⟨rfl, Nat.succ_le_succ hlen⟩⟩
        rcases List.mem_cons.mp hd with rfl | hd
        · decide
        · exact hplain d hd
    · obtain ⟨hplain, hlen⟩ := nameBody_plain h hend
      exact ⟨hplain, .inl hlen⟩

end Plain

/-! ## The candidates -/

section Candidates

variable (C : Classes) (document : Decoded)

/-- The fields of the document that the sample may have. -/
def offered : List Text := safeFields C document.val.names

/-- The sample with the first `j` records. -/
def withRecords (j : Nat) : Sample :=
  ⟨offered C document, (sampleRows C document.val).take j,
    document.val.names.length - (offered C document).length, none,
    decide (j < (sampleRows C document.val).length)⟩

/-- The sample with the first `k` fields and no record. -/
def withFields (k : Nat) : Sample :=
  ⟨(offered C document).take k, [],
    document.val.names.length - (offered C document).length + ((offered C document).length - k),
    none, decide (k < (offered C document).length ∨ sampleRows C document.val ≠ [])⟩

/-- A sample that the two loops may stop at. -/
def Candidate (s : Sample) : Prop :=
  (∃ j ≤ (sampleRows C document.val).length, s = withRecords C document j) ∨
    ∃ k ≤ (offered C document).length, s = withFields C document k

theorem dropLast_take_succ {α : Type} {l : List α} {n : Nat} (h : n + 1 ≤ l.length) :
    (l.take (n + 1)).dropLast = l.take n := by
  rw [List.dropLast_eq_take, List.take_take, List.length_take]
  congr 1
  omega

theorem withRecords_zero : withRecords C document 0 =
    withFields C document (offered C document).length := by
  unfold withRecords withFields
  rw [List.take_zero, List.take_length, Nat.sub_self, Nat.add_zero]
  congr 1
  rw [decide_eq_decide]
  constructor
  · exact fun h => .inr (List.length_pos_iff.mp h)
  · rintro (h | h)
    · exact absurd h (lt_irrefl _)
    · exact List.length_pos_iff.mpr h

variable {C document}

/-- The first loop stops at the first number of records, from above, that fits. -/
theorem dropRecords_spec {n : Nat} (hn : n ≤ (sampleRows C document.val).length) :
    ∃ j ≤ n, dropRecords n (withRecords C document n) = withRecords C document j ∧
      ((withRecords C document j).Fits ∨ j = 0) ∧
      ∀ i, j < i → i ≤ n → ¬ (withRecords C document i).Fits := by
  induction n with
  | zero => exact ⟨0, le_rfl, rfl, .inr rfl, fun i hi hi' => absurd hi (by omega)⟩
  | succ n ih =>
    by_cases hfits : (withRecords C document (n + 1)).Fits
    · refine ⟨n + 1, le_rfl, ?_, .inl hfits, fun i hi hi' => absurd hi (by omega)⟩
      rw [dropRecords, if_neg fun h => h.1 hfits]
    · have hne : (withRecords C document (n + 1)).records ≠ [] := by
        unfold withRecords
        rw [ne_eq, ← List.length_eq_zero_iff, List.length_take]
        omega
      have hstep : (⟨(withRecords C document (n + 1)).fields,
          (withRecords C document (n + 1)).records.dropLast,
          (withRecords C document (n + 1)).droppedFields, none, true⟩ : Sample) =
            withRecords C document n := by
        unfold withRecords
        dsimp only
        rw [dropLast_take_succ (by omega)]
        congr 1
        exact (decide_eq_true (by omega)).symm
      obtain ⟨j, hj, heq, hstop, habove⟩ := ih (by omega)
      refine ⟨j, by omega, ?_, hstop, fun i hi hi' => ?_⟩
      · rw [dropRecords, if_pos ⟨hfits, hne⟩, hstep, heq]
      · by_cases hlast : i = n + 1
        · rw [hlast]
          exact hfits
        · exact habove i hi (by omega)

theorem dropFields_spec {n : Nat} (hn : n ≤ (offered C document).length) :
    ∃ k ≤ n, dropFields n (withFields C document n) = withFields C document k ∧
      ((withFields C document k).Fits ∨ k = 0) ∧
      ∀ i, k < i → i ≤ n → ¬ (withFields C document i).Fits := by
  induction n with
  | zero => exact ⟨0, le_rfl, rfl, .inr rfl, fun i hi hi' => absurd hi (by omega)⟩
  | succ n ih =>
    by_cases hfits : (withFields C document (n + 1)).Fits
    · refine ⟨n + 1, le_rfl, ?_, .inl hfits, fun i hi hi' => absurd hi (by omega)⟩
      rw [dropFields, if_neg fun h => h.1 hfits]
    · have hne : (withFields C document (n + 1)).fields ≠ [] := by
        unfold withFields
        rw [ne_eq, ← List.length_eq_zero_iff, List.length_take]
        omega
      have hstep : (⟨(withFields C document (n + 1)).fields.dropLast, [],
          (withFields C document (n + 1)).droppedFields + 1, none, true⟩ : Sample) =
            withFields C document n := by
        unfold withFields
        dsimp only
        rw [dropLast_take_succ (by omega)]
        congr 1
        · omega
        · exact (decide_eq_true (.inl (by omega))).symm
      obtain ⟨k, hk, heq, hstop, habove⟩ := ih (by omega)
      refine ⟨k, by omega, ?_, hstop, fun i hi hi' => ?_⟩
      · rw [dropFields, if_pos ⟨hfits, hne⟩, hstep, heq]
      · by_cases hlast : i = n + 1
        · rw [hlast]
          exact hfits
        · exact habove i hi (by omega)

theorem dropFields_fits {n : Nat} {s : Sample} (h : s.Fits) : dropFields n s = s := by
  cases n with
  | zero => rfl
  | succ n => rw [dropFields, if_neg fun hnot => hnot.1 h]

/-- The JSON of a sample without fields and records. -/
theorem toJson_bare (dropped : Nat) (error : Option Text) (truncated : Bool) :
    (⟨[], [], dropped, error, truncated⟩ : Sample).toJson =
      '{' :: "\"dropped_fields\": ".toList ++ (Nat.toDigits 10 dropped ++
        (", \"fields\": [], \"parse_error\": ".toList ++
          ((match error with
            | none => "null".toList
            | some message => quoted message) ++
          (", \"records\": [], \"truncated\": ".toList ++
            ((if truncated then "true".toList else "false".toList) ++ ['}']))))) := by
  simp [Sample.toJson, dictJson, listJson, quoted, escape]

theorem toJson_nothing (dropped : Nat) (truncated : Bool) (h : dropped < 2 ^ 63) :
    (⟨[], [], dropped, none, truncated⟩ : Sample).Fits := by
  have hdigits : (Nat.toDigits 10 dropped).length ≤ 19 :=
    (Nat.length_toDigits_le_iff (by decide) (by decide)).mpr (lt_of_lt_of_le h (by decide))
  unfold Sample.Fits maxSampleChars
  rw [toJson_bare]
  cases truncated <;> simp <;> omega

theorem escape_length (c : Char) : (escape c).length ≤ 12 := by
  unfold escape unicodeEscape
  split_ifs <;> simp

theorem escaped_length (text : Text) : (text.flatMap escape).length ≤ 12 * text.length := by
  induction text with
  | nil => exact le_rfl
  | cons c cs ih =>
    have := escape_length c
    rw [List.flatMap_cons, List.length_append, List.length_cons]
    omega

theorem toJson_error (message : Text) (h : message.length ≤ 200) :
    (⟨[], [], 0, some message, false⟩ : Sample).Fits := by
  have hescape := escaped_length message
  unfold Sample.Fits maxSampleChars
  have hquoted : (quoted message).length = (message.flatMap escape).length + 2 := by
    simp only [quoted, List.length_cons, List.length_append, List.length_nil]
  rw [toJson_bare]
  dsimp only
  generalize quoted message = text at *
  generalize message.flatMap escape = escaped at *
  simp
  omega

theorem offered_length : (offered C document).length ≤ document.val.names.length := by
  unfold offered safeFields
  rw [List.length_take, List.length_insertionSort]
  exact (min_le_right _ _).trans (List.length_filter_le _ _)

theorem last_fits : (withFields C document 0).Fits := by
  have hlen := @offered_length C document
  have hcount : document.val.names.length - (offered C document).length +
      ((offered C document).length - 0) = document.val.names.length := by omega
  unfold withFields
  rw [List.take_zero, hcount]
  exact toJson_nothing _ _ document.property

/-- The fields and the records of the one are among those of the other. -/
def Sample.Covers (s t : Sample) : Prop :=
  (∀ name ∈ t.fields, name ∈ s.fields) ∧ ∀ r ∈ t.records, r ∈ s.records

theorem covers_withRecords {i j : Nat} (h : i ≤ j) :
    (withRecords C document j).Covers (withRecords C document i) :=
  ⟨fun _ hn => hn, fun _ hr => (List.take_prefix_take_left h).subset hr⟩

theorem covers_withFields {i j : Nat} (h : i ≤ j) :
    (withFields C document j).Covers (withFields C document i) :=
  ⟨fun _ hn => (List.take_prefix_take_left h).subset hn, fun _ hr => hr⟩

theorem covers_mixed (j k : Nat) :
    (withRecords C document j).Covers (withFields C document k) :=
  ⟨fun _ hn => List.mem_of_mem_take hn, fun _ hr => nomatch hr⟩

/-- The sample is a candidate that fits, and it covers the others that do. -/
theorem extract_chosen : Candidate C document (extract C (.ok document)) ∧
    (extract C (.ok document)).Fits ∧
      ∀ s, Candidate C document s → s.Fits → (extract C (.ok document)).Covers s := by
  obtain ⟨j, hj, heq, hstop, habove⟩ := @dropRecords_spec C document _ le_rfl
  have hfull : (⟨offered C document, sampleRows C document.val,
      document.val.names.length - (offered C document).length, none, false⟩ : Sample) =
        withRecords C document (sampleRows C document.val).length := by
    unfold withRecords
    rw [List.take_length, decide_eq_false (lt_irrefl _)]
  have hstart : extract C (.ok document) =
      dropFields (withRecords C document j).fields.length (withRecords C document j) := by
    rw [← heq, ← hfull]
    rfl
  rw [hstart]
  rcases hstop with hfits | rfl
  · rw [dropFields_fits hfits]
    refine ⟨.inl ⟨j, hj, rfl⟩, hfits, fun s hs hsfits => ?_⟩
    rcases hs with ⟨i, hi, rfl⟩ | ⟨k, -, rfl⟩
    · by_cases hle : i ≤ j
      · exact covers_withRecords hle
      · exact absurd hsfits (habove i (by omega) hi)
    · exact covers_mixed j k
  · by_cases hfits : (withRecords C document 0).Fits
    · rw [dropFields_fits hfits]
      refine ⟨.inl ⟨0, hj, rfl⟩, hfits, fun s hs hsfits => ?_⟩
      rcases hs with ⟨i, hi, rfl⟩ | ⟨k, -, rfl⟩
      · by_cases hle : i ≤ 0
        · exact covers_withRecords hle
        · exact absurd hsfits (habove i (by omega) hi)
      · exact covers_mixed 0 k
    · rw [withRecords_zero] at hfits ⊢
      have hfields : (withFields C document (offered C document).length).fields.length =
          (offered C document).length := by
        unfold withFields
        rw [List.take_length]
      rw [hfields]
      obtain ⟨k, hk, heq', hstop', habove'⟩ := @dropFields_spec C document _ le_rfl
      rw [heq']
      refine ⟨.inr ⟨k, hk, rfl⟩, ?_, fun s hs hsfits => ?_⟩
      · rcases hstop' with h | rfl
        · exact h
        · exact last_fits
      · rcases hs with ⟨i, hi, rfl⟩ | ⟨i, hi, rfl⟩
        · by_cases hzero : i = 0
          · rw [hzero, withRecords_zero] at hsfits
            exact absurd hsfits hfits
          · exact absurd hsfits (habove i (by omega) hi)
        · by_cases hle : i ≤ k
          · exact covers_withFields hle
          · exact absurd hsfits (habove' i (by omega) hi)

end Candidates

/-! ## Bounded and inert -/

/-- The distinct names of a decoded document. -/
def namesOf : Except Text Decoded → List Text
  | .error _ => []
  | .ok document => document.val.names

/-- A sample that is bounded and inert. -/
structure Inert (names : List Text) (s : Sample) : Prop where
  fits : s.Fits
  distinct : s.fields.Nodup
  fields : ∀ name ∈ s.fields, Plain name ∧ NameLength name
  values : ∀ r ∈ s.records, ∀ e ∈ r, Plain e.2 ∧ e.2.length ≤ maxValueChars
  keys : ∀ r ∈ s.records, ∀ e ∈ r, e.1 ∈ s.fields
  count : s.fields.length + s.droppedFields = names.length

/-- No field ends in a newline, and no value holds the Arabic letter mark. -/
structure Sample.Unmarked (s : Sample) : Prop where
  fields : ∀ name ∈ s.fields, name.getLast? ≠ some '\n'
  values : ∀ r ∈ s.records, ∀ e ∈ r, '\u061c' ∉ e.2

section Inert

variable {C : Classes} {document : Decoded} {s : Sample}

theorem names_nodup (inventory : Inventory) : inventory.names.Nodup := by
  cases inventory with
  | table => exact List.nodup_dedup _
  | records => exact List.nodup_dedup _

theorem offered_nodup : (offered C document).Nodup := by
  unfold offered safeFields
  refine List.Nodup.sublist (List.take_sublist _ _) ?_
  rw [List.Perm.nodup_iff (List.perm_insertionSort _ _)]
  exact (names_nodup document.val).filter _

theorem offered_safe {name : Text} (h : name ∈ offered C document) : safeName C name = true := by
  unfold offered safeFields at h
  have hmem := List.mem_of_mem_take h
  rw [List.mem_insertionSort, List.mem_filter] at hmem
  exact hmem.2

theorem mem_sampleRows {r : List (Text × Text)} (h : r ∈ sampleRows C document.val)
    {e : Text × Text} (he : e ∈ r) :
    e.1 ∈ offered C document ∧ ∃ value, e.2 = clean C maxValueChars value := by
  unfold sampleRows at h
  obtain ⟨row, -, rfl⟩ := List.mem_map.mp h
  unfold sampleRow at he
  obtain ⟨name, hname, hcell⟩ := List.mem_filterMap.mp he
  obtain ⟨cell, -, rfl⟩ := Option.map_eq_some_iff.mp hcell
  exact ⟨hname, _, rfl⟩

theorem Candidate.fields_of (h : Candidate C document s) :
    s.fields.Nodup ∧ ∀ name ∈ s.fields, safeName C name = true := by
  rcases h with ⟨j, -, rfl⟩ | ⟨k, -, rfl⟩
  · exact ⟨offered_nodup, fun _ hn => offered_safe hn⟩
  · exact ⟨offered_nodup.sublist (List.take_sublist _ _),
      fun _ hn => offered_safe (List.mem_of_mem_take hn)⟩

theorem Candidate.values_of (h : Candidate C document s) {r : List (Text × Text)}
    (hr : r ∈ s.records) {e : Text × Text} (he : e ∈ r) :
    e.1 ∈ s.fields ∧ ∃ value, e.2 = clean C maxValueChars value := by
  rcases h with ⟨j, -, rfl⟩ | ⟨k, -, rfl⟩
  · exact mem_sampleRows (List.mem_of_mem_take hr) he
  · cases hr

theorem Candidate.count_of (h : Candidate C document s) :
    s.fields.length + s.droppedFields = document.val.names.length := by
  have hlen := @offered_length C document
  rcases h with ⟨j, -, rfl⟩ | ⟨k, hk, rfl⟩
  · unfold withRecords
    dsimp only
    omega
  · unfold withFields
    dsimp only
    rw [List.length_take]
    omega

/-- A candidate that fits is inert when it is unmarked. -/
theorem Candidate.inert_iff (h : Candidate C document s) (hfits : s.Fits) :
    Inert document.val.names s ↔ s.Unmarked := by
  obtain ⟨hnodup, hsafe⟩ := h.fields_of
  constructor
  · intro hinert
    refine ⟨fun name hn => (safeName_plain (hsafe name hn)).mp (hinert.fields name hn), ?_⟩
    intro r hr e he
    obtain ⟨value, heq⟩ := (h.values_of hr he).2
    have hplain := (hinert.values r hr e he).1
    rw [heq] at hplain ⊢
    exact (plain_clean_iff _ _).mp hplain
  · intro hun
    refine ⟨hfits, hnodup, fun name hn => (safeName_plain (hsafe name hn)).mpr
      (hun.fields name hn), ?_, fun r hr e he => (h.values_of hr he).1, h.count_of⟩
    intro r hr e he
    obtain ⟨value, heq⟩ := (h.values_of hr he).2
    have hmark := hun.values r hr e he
    rw [heq] at hmark ⊢
    exact ⟨(plain_clean_iff _ _).mpr hmark, clean_length _ (by decide) _⟩

theorem Sample.Covers.unmarked {t : Sample} (h : s.Covers t) (hun : s.Unmarked) : t.Unmarked :=
  ⟨fun name hn => hun.fields name (h.1 name hn), fun r hr => hun.values r (h.2 r hr)⟩

theorem inert_error (message : Text) :
    Inert (namesOf (.error message)) (extract C (.error message)) := by
  refine ⟨toJson_error _ (clean_length _ (by decide) _), List.nodup_nil, ?_, ?_, ?_, rfl⟩
  · exact fun _ h => nomatch h
  · exact fun _ h => nomatch h
  · exact fun _ h => nomatch h

end Inert

/-- The sample is bounded and inert exactly when no sample that fits has a field that ends in a
newline or a value with the Arabic letter mark. -/
theorem sample_inert_iff (C : Classes) (read : Except Text Decoded) :
    Inert (namesOf read) (extract C read) ↔
      ∀ document, read = .ok document → ∀ s, Candidate C document s → s.Fits → s.Unmarked := by
  cases read with
  | error message =>
    constructor
    · exact fun _ _ h => nomatch h
    · exact fun _ => inert_error message
  | ok document =>
    obtain ⟨hchosen, hfits, hcovers⟩ := @extract_chosen C document
    refine (hchosen.inert_iff hfits).trans ?_
    constructor
    · intro hun document' heq s hs hsfits
      cases heq
      exact (hcovers s hs hsfits).unmarked hun
    · exact fun h => h document rfl _ hchosen hfits

/-- The classes of ASCII: digits, capitals, the underscore and small letters. -/
def asciiClasses : Classes where
  word c := decide (48 ≤ c.toNat ∧ c.toNat ≤ 57 ∨ 65 ≤ c.toNat ∧ c.toNat ≤ 90 ∨ c.toNat = 95 ∨
    97 ≤ c.toNat ∧ c.toNat ≤ 122)
  digit := Char.isDigit
  space := Char.isWhitespace
  word_plain := by
    intro c h
    have hrange := of_decide_eq_true h
    unfold isPlain isControl isSeparator isBidi
    simp only [Bool.and_eq_true, Bool.not_eq_true', decide_eq_false_iff_not]
    omega

/-- A document of one record with one field. -/
def oneField (name : Text) (value : Cell) : Decoded :=
  ⟨.records [⟨[(name, value)], List.nodup_singleton _⟩], by
    have hle := List.Sublist.length_le
      (List.dedup_sublist ([(⟨[(name, value)], List.nodup_singleton _⟩ : Dict Text Cell)].flatMap
        Dict.keys))
    exact lt_of_le_of_lt hle (by change 1 < 2 ^ 63; decide)⟩

/-- A key that ends in a newline is kept, and so is a value that starts with U+061C. -/
theorem newline_and_mark_kept :
    ¬ Inert (namesOf (.ok (oneField "price\n".toList (.int 1))))
        (extract asciiClasses (.ok (oneField "price\n".toList (.int 1)))) ∧
      ¬ Inert (namesOf (.ok (oneField "price".toList (.text "\u061c1"))))
        (extract asciiClasses (.ok (oneField "price".toList (.text "\u061c1")))) := by
  constructor
  · intro h
    have hkept : "price\n".toList ∈
        (extract asciiClasses (.ok (oneField "price\n".toList (.int 1)))).fields := by
      decide +kernel
    have hplain := (h.fields _ hkept).1 '\n' (by decide)
    revert hplain
    decide
  · intro h
    have hkept : [("price".toList, "\u061c1".toList)] ∈
        (extract asciiClasses (.ok (oneField "price".toList (.text "\u061c1")))).records := by
      decide +kernel
    have hplain := (h.values _ hkept _ List.mem_cons_self).1 '\u061c' (by decide)
    revert hplain
    decide

end Triage

end EnergyPlatform
