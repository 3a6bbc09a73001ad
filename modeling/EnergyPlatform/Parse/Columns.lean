import EnergyPlatform.Contracts.Ascii
import EnergyPlatform.Mapping.Targets
import EnergyPlatform.Parse.Generic
import Mathlib.Data.List.Duplicate
import Mathlib.Data.List.NodupEquivFin

/-!
# Parse.Columns

Which cell the mapping reads when it asks a record for a source name.

The parsers find a column by its whitespace-normalised header, and store its cells under that
header; the mapping, and the test for the end of the table, ask for the name as the manifest spells
it. `column_lookup_iff`: the right cells are read, of every row of the table, exactly when no name
has two columns and each is spelled as its normalised header, or has nothing in its column.
-/

namespace EnergyPlatform

open Lib (Dict)

/-! ## The fields of a row -/

section Rows

variable {texts : List String} {row : List Cell}

theorem get_eq_lookup (fields : List (String × Cell)) (locator name : String) :
    (SourceRecord.mk fields locator).get name = (Dict.lookup name fields).getD .none := by
  unfold SourceRecord.get
  dsimp only
  induction fields with
  | nil => rfl
  | cons p rest ih =>
    rw [List.find?_cons, Dict.lookup]
    by_cases h : p.1 = name
    · simp [h]
    · simp only [h, decide_false, if_false]
      exact ih

/-- Inserting entries one after the other: the last of a key stands. -/
theorem lookup_foldl_insert {κ ι : Type} [DecidableEq κ] (f : ι → Cell) (k : κ)
    (ps : List (κ × ι)) (acc : List (κ × Cell)) :
    Dict.lookup k (ps.foldl (fun fields p => Dict.insert p.1 (f p.2) fields) acc) =
      ((ps.reverse.find? fun p => p.1 = k).map fun p => f p.2).or (Dict.lookup k acc) := by
  induction ps generalizing acc with
  | nil => rfl
  | cons p ps ih =>
    rw [List.foldl_cons, ih, List.reverse_cons, List.find?_append, Dict.lookup_insert]
    cases List.find? (fun p => decide (p.1 = k)) ps.reverse with
    | some q => rfl
    | none =>
      by_cases h : p.1 = k
      · simp [h]
      · have h' : ¬ k = p.1 := fun heq => h heq.symm
        simp [h, h']

theorem lookup_rowFields (name : String) : Dict.lookup name (rowFields texts row) =
    (((texts.zipIdx.filter fun p => p.1 ≠ "").reverse.find? fun p => p.1 = name).map
      fun p => row.getD p.2 .none) := by
  exact (lookup_foldl_insert (fun i => row.getD i .none) name _ []).trans Option.or_none

theorem lookup_rowFields_none {name : String} (h : name ∉ texts ∨ name = "") :
    Dict.lookup name (rowFields texts row) = none := by
  rw [lookup_rowFields]
  cases hfind : (texts.zipIdx.filter fun p => p.1 ≠ "").reverse.find? fun p => p.1 = name with
  | none => rfl
  | some p =>
    have hname : p.1 = name := by simpa using List.find?_some hfind
    have hmem := List.mem_reverse.mp (List.mem_of_find?_eq_some hfind)
    obtain ⟨hin, hne⟩ := List.mem_filter.mp hmem
    rcases h with hnot | hempty
    · have hget := List.mk_mem_zipIdx_iff_getElem?.mp hin
      exact absurd (List.mem_of_getElem? (hname ▸ hget)) hnot
    · simp [hname, hempty] at hne

theorem lookup_rowFields_some {name : String} {i : Nat} (hi : texts[i]? = some name)
    (huniq : ∀ j, texts[j]? = some name → j = i) (hne : name ≠ "") :
    Dict.lookup name (rowFields texts row) = some (row.getD i .none) := by
  rw [lookup_rowFields]
  have hmem : (name, i) ∈ (texts.zipIdx.filter fun p => p.1 ≠ "").reverse := by
    rw [List.mem_reverse, List.mem_filter]
    exact ⟨List.mk_mem_zipIdx_iff_getElem?.mpr hi, by simpa using hne⟩
  cases hfind : (texts.zipIdx.filter fun p => p.1 ≠ "").reverse.find? fun p => p.1 = name with
  | none =>
    have := List.find?_eq_none.mp hfind _ hmem
    simp at this
  | some p =>
    have hname : p.1 = name := by simpa using List.find?_some hfind
    have hin := (List.mem_filter.mp (List.mem_reverse.mp (List.mem_of_find?_eq_some hfind))).1
    have hp := huniq p.2 (hname ▸ List.mk_mem_zipIdx_iff_getElem?.mp hin)
    rw [Option.map_some, hp]

/-! ## The records of the rows -/

variable {required : List String} {sheet : String}

theorem rowsToRecords_row {kinds : Option (List Bool)} {offset : Nat} {rows : List (List Cell)}
    {j : Nat} {record : SourceRecord}
    (h : (rowsToRecords texts required sheet kinds offset rows)[j]? = some record) :
    ∃ row locator, rows[j]? = some row ∧ record = ⟨rowFields texts row, locator⟩ := by
  induction rows generalizing kinds offset j with
  | nil =>
    rw [rowsToRecords] at h
    cases h
  | cons row rest ih =>
    rw [rowsToRecords] at h
    split at h
    · cases h
    · split at h
      · cases j with
        | zero =>
          obtain rfl := Option.some.inj h
          exact ⟨row, _, rfl, rfl⟩
        | succ j => exact ih h
      · cases h

end Rows

/-! ## Reading the right cell -/

section Reading

variable (txt : TextPrims)

/-- The cell of a row under the column whose header is the name, both with normalised whitespace. -/
def columnCell (texts : List String) (row : List Cell) (name : String) : Cell :=
  row.getD (texts.idxOf (norm txt name)) .none

/-- The rows of the table, by the cells under the required columns: those up to the first that is
blank in one of them or changes kind. -/
def tableRows (texts required : List String) :
    Option (List Bool) → List (List Cell) → List (List Cell)
  | _, [] => []
  | kinds, row :: rest =>
    let own := required.map fun name => isText (columnCell txt texts row name)
    if required.any fun name => columnCell txt texts row name = .none then []
    else if kinds = none ∨ kinds = some own then row :: tableRows texts required (some own) rest
    else []

/-- Every mapped name has one column; each row of the table is a record, and every mapped name is
read from its column there. -/
def ReadsRight (texts : List String) (rows : List (List Cell)) (required mapped : List String)
    (records : List SourceRecord) : Prop :=
  (∀ m ∈ mapped, ∃! i : Nat, texts[i]? = some (norm txt m)) ∧
    List.Forall₂ (fun row record => ∀ m ∈ mapped, record.get m = columnCell txt texts row m)
      (tableRows txt texts required none rows) records

/-- Each name spelled as its header text, or nothing in its column in the rows of the table. -/
def SpelledOrBlank (texts : List String) (rows : List (List Cell))
    (required mapped : List String) : Prop :=
  ∀ m ∈ mapped, (norm txt m = m ∧ m ≠ "") ∨
    ∀ row ∈ tableRows txt texts required none rows, columnCell txt texts row m = .none

instance {texts : List String} {rows : List (List Cell)} {required mapped : List String} :
    Decidable (SpelledOrBlank txt texts rows required mapped) :=
  inferInstanceAs (Decidable (∀ m ∈ mapped, _))

/-- What normalising whitespace does to a normalised text, and to an empty one. -/
structure TextPrims.Normalises : Prop where
  idem : ∀ s, norm txt (norm txt s) = norm txt s
  empty : norm txt "" = ""

variable {txt} {texts : List String} {rows : List (List Cell)} {mapped required : List String}
  {sheet : String}

theorem index_unique {t : String} (hone : ¬ texts.Duplicate t) {i j : Nat} (hi : texts[i]? = some t)
    (hj : texts[j]? = some t) : i = j := by
  obtain ⟨hlti, rfl⟩ := List.getElem?_eq_some_iff.mp hi
  obtain ⟨hltj, heq⟩ := List.getElem?_eq_some_iff.mp hj
  rw [List.duplicate_iff_exists_distinct_get] at hone
  by_contra hne
  rcases Nat.lt_or_gt_of_ne hne with hlt | hlt
  · exact hone ⟨⟨i, hlti⟩, ⟨j, hltj⟩, hlt, rfl, heq.symm⟩
  · exact hone ⟨⟨j, hltj⟩, ⟨i, hlti⟩, hlt, heq.symm, rfl⟩

theorem exists_unique_index {t : String} (hmem : t ∈ texts) :
    (∃! i : Nat, texts[i]? = some t) ↔ ¬ texts.Duplicate t := by
  constructor
  · intro h hdup
    obtain ⟨i, j, hlt, hi, hj⟩ := List.duplicate_iff_exists_distinct_get.mp hdup
    have heq := h.unique (List.getElem?_eq_some_iff.mpr ⟨i.2, hi.symm⟩)
      (List.getElem?_eq_some_iff.mpr ⟨j.2, hj.symm⟩)
    exact Nat.ne_of_lt hlt heq
  · intro hone
    obtain ⟨i, hi⟩ := List.getElem?_of_mem hmem
    exact ⟨i, hi, fun j hj => index_unique hone hj hi⟩

theorem get_mapped (htexts : ∀ t ∈ texts, norm txt t = t) {m : String}
    (hmem : norm txt m ∈ texts) (hone : ¬ texts.Duplicate (norm txt m)) (row : List Cell) :
    fieldOf (rowFields texts row) m =
      if norm txt m = m ∧ m ≠ "" then columnCell txt texts row m else .none := by
  have hi : texts[texts.idxOf (norm txt m)]? = some (norm txt m) :=
    List.getElem?_eq_some_iff.mpr ⟨List.idxOf_lt_length_iff.mpr hmem, List.getElem_idxOf _⟩
  unfold fieldOf columnCell
  split
  · rename_i h
    rw [h.1] at hi hone ⊢
    rw [lookup_rowFields_some hi (fun j hj => index_unique hone hj hi) h.2, Option.getD_some]
  · rename_i h
    rw [lookup_rowFields_none, Option.getD_none]
    by_cases hm : m = ""
    · exact .inr hm
    · exact .inl fun htext => h ⟨htexts m htext, hm⟩

theorem tableRows_required {kinds : Option (List Bool)} {row : List Cell}
    (h : row ∈ tableRows txt texts required kinds rows) :
    ∀ name ∈ required, columnCell txt texts row name ≠ .none := by
  induction rows generalizing kinds with
  | nil => cases h
  | cons first rest ih =>
    rw [tableRows] at h
    split at h
    · cases h
    · rename_i hcells
      split at h
      · rcases List.mem_cons.mp h with rfl | h
        · intro name hname hnone
          exact hcells (List.any_eq_true.mpr ⟨name, hname, by simpa using hnone⟩)
        · exact ih h
      · cases h

/-- Under names that read the right cells, the records are the rows of the table. -/
theorem rowsToRecords_tableRows (sheet : String) (kinds : Option (List Bool)) (offset : Nat)
    (rows : List (List Cell))
    (hfields : ∀ name ∈ required, ∀ row : List Cell,
      fieldOf (rowFields texts row) name = columnCell txt texts row name) :
    List.Forall₂ (fun row record => record.fields = rowFields texts row)
      (tableRows txt texts required kinds rows)
      (rowsToRecords texts required sheet kinds offset rows) := by
  induction rows generalizing kinds offset with
  | nil => exact .nil
  | cons row rest ih =>
    have hany : (required.any fun name => decide (fieldOf (rowFields texts row) name = .none)) =
        required.any fun name => decide (columnCell txt texts row name = .none) := by
      rw [Bool.eq_iff_iff, List.any_eq_true, List.any_eq_true]
      refine exists_congr fun name => and_congr_right fun hname => ?_
      rw [hfields name hname row]
    have hown : (required.map fun name => isText (fieldOf (rowFields texts row) name)) =
        required.map fun name => isText (columnCell txt texts row name) := by
      refine List.map_congr_left ?_
      intro name hname
      rw [hfields name hname row]
    simp only [rowsToRecords, tableRows, hany, hown]
    split
    · exact .nil
    · split
      · exact .cons rfl (ih _ _)
      · exact .nil

/-- A required name that reads nothing empties the table. -/
theorem rowsToRecords_blank {kinds : Option (List Bool)} {offset : Nat} {name : String}
    (hname : name ∈ required)
    (hblank : ∀ row : List Cell, fieldOf (rowFields texts row) name = .none) :
    rowsToRecords texts required sheet kinds offset rows = [] := by
  cases rows with
  | nil => rfl
  | cons row rest =>
    rw [rowsToRecords]
    refine if_pos (List.any_eq_true.mpr ⟨name, hname, ?_⟩)
    simpa using hblank row

theorem reads_right_rows (htexts : ∀ t ∈ texts, norm txt t = t)
    (hmapped : ∀ m ∈ mapped, norm txt m ∈ texts) (hrequired : ∀ m ∈ required, m ∈ mapped) :
    ReadsRight txt texts rows required mapped (rowsToRecords texts required sheet none 0 rows) ↔
      (∀ m ∈ mapped, ¬ texts.Duplicate (norm txt m)) ∧
        SpelledOrBlank txt texts rows required mapped := by
  constructor
  · intro h
    obtain ⟨huniq, hread⟩ := h
    have hone : ∀ m ∈ mapped, ¬ texts.Duplicate (norm txt m) :=
      fun m hm => (exists_unique_index (hmapped m hm)).mp (huniq m hm)
    refine ⟨hone, ?_⟩
    intro m hm
    by_cases hspell : norm txt m = m ∧ m ≠ ""
    · exact .inl hspell
    · refine .inr ?_
      intro row hrow
      obtain ⟨j, hj, rfl⟩ := List.mem_iff_getElem.mp hrow
      have hlen := hread.length_eq
      have hcell := (List.forall₂_iff_get.mp hread).2 j hj (hlen ▸ hj) m hm
      obtain ⟨row', locator, -, hrecord⟩ :=
        rowsToRecords_row (List.getElem?_eq_getElem (hlen ▸ hj))
      rw [List.get_eq_getElem, hrecord, get_eq_lookup] at hcell
      have hnone := get_mapped htexts (hmapped m hm) (hone m hm) row'
      rw [if_neg hspell] at hnone
      exact (hcell.symm.trans hnone)
  · intro h
    obtain ⟨hone, hspelled⟩ := h
    refine ⟨fun m hm => (exists_unique_index (hmapped m hm)).mpr (hone m hm), ?_⟩
    by_cases hall : ∀ m ∈ required, norm txt m = m ∧ m ≠ ""
    · have hrows := rowsToRecords_tableRows sheet none 0 rows fun name hname row =>
        (get_mapped htexts (hmapped name (hrequired name hname))
          (hone name (hrequired name hname)) row).trans (if_pos (hall name hname))
      refine ((List.forall₂_and_left _ _).mpr ⟨fun _ => id, hrows⟩).imp ?_
      rintro row record ⟨hrow, hfields⟩ m hm
      have hget := get_mapped htexts (hmapped m hm) (hone m hm) row
      rw [← hfields] at hget
      refine (get_eq_lookup record.fields record.locator m).trans (hget.trans ?_)
      rcases hspelled m hm with hspell | hblank
      · rw [if_pos hspell]
      · rw [hblank row hrow, ite_self]
    · obtain ⟨name, hname, hspell⟩ : ∃ m ∈ required, ¬ (norm txt m = m ∧ m ≠ "") := by
        by_contra hno
        exact hall fun m hm => by_contra fun hspell => hno ⟨m, hm, hspell⟩
      have hblank := (hspelled name (hrequired name hname)).resolve_left hspell
      have hempty : tableRows txt texts required none rows = [] :=
        List.eq_nil_iff_forall_not_mem.mpr fun row hrow =>
          tableRows_required hrow name hname (hblank row hrow)
      rw [hempty, rowsToRecords_blank hname]
      · exact .nil
      · intro row
        rw [get_mapped htexts (hmapped name (hrequired name hname))
          (hone name (hrequired name hname)), if_neg hspell]

/-! ## The documents -/

theorem norm_headerText (hnorm : txt.Normalises) (c : Cell) :
    norm txt (headerText txt c) = headerText txt c := by
  unfold headerText
  split
  · exact hnorm.empty
  · exact hnorm.idem _

/-- A header row: its texts are normalised, the mapped ones among them, and no text repeats. -/
theorem findHeader_found (hnorm : txt.Normalises) {i : Nat} {table : List (List Cell)}
    (h : findHeader txt mapped i table = .ok (some (texts, rows))) :
    (∀ t ∈ texts, norm txt t = t) ∧ (∀ m ∈ mapped, norm txt m ∈ texts) ∧
      (texts.filter (· ≠ "")).Nodup := by
  induction table generalizing i with
  | nil => cases h
  | cons row rest ih =>
    rw [findHeader] at h
    split at h
    · rename_i hall
      split at h
      · rename_i hnodup
        obtain ⟨rfl, rfl⟩ := Prod.mk.inj (Option.some.inj (Except.ok.inj h))
        refine ⟨?_, ?_, hnodup⟩
        · intro t ht
          obtain ⟨c, -, rfl⟩ := List.mem_map.mp ht
          exact norm_headerText hnorm c
        · intro m hm
          simpa using List.all_eq_true.mp hall _ (List.mem_map_of_mem hm)
      · cases h
    · exact ih h

theorem sheetHeader_ok {table : List (List Cell)}
    (h : sheetHeader txt mapped table = .ok (texts, rows)) :
    findHeader txt mapped 0 table = .ok (some (texts, rows)) := by
  unfold sheetHeader at h
  split at h
  · cases h
  · rename_i found hfind
    obtain rfl := Except.ok.inj h
    exact hfind
  · cases h

theorem not_duplicate_header (hnodup : (texts.filter (· ≠ "")).Nodup) {t : String} (ht : t ≠ "") :
    ¬ texts.Duplicate t := by
  intro hdup
  have hsub := (List.duplicate_iff_sublist.mp hdup).filter (· ≠ "")
  rw [List.filter_cons_of_pos (by simpa using ht), List.filter_cons_of_pos (by simpa using ht),
    List.filter_nil] at hsub
  exact List.nodup_iff_forall_not_duplicate.mp hnodup t (List.duplicate_iff_sublist.mpr hsub)

/-- A table that has every mapped column. -/
theorem mem_of_missing_nil {header : List String} (h : missingColumns txt mapped header = []) :
    ∀ m ∈ mapped, norm txt m ∈ header := by
  intro m hm
  by_contra hnot
  have hmem : norm txt m ∈ missingColumns txt mapped header := by
    refine (List.perm_insertionSort _ _).mem_iff.mpr (List.mem_filter.mpr ⟨?_, by simpa using hnot⟩)
    exact List.mem_eraseDups.mpr (List.mem_map_of_mem hm)
  rw [h] at hmem
  cases hmem

theorem required_mapped (mapping : MappingBlock) :
    ∀ name ∈ requiredSourceFields mapping, name ∈ mappedSourceFields mapping :=
  fun _ h => List.mem_eraseDups.mpr (List.mem_append_left _ h)

/-- The first sheet that has a header row: its name, its header texts and the rows below. -/
def FirstTable (txt : TextPrims) (mapped : List String)
    (sheets : List (String × List (List Cell))) (name : String) (texts : List String)
    (rows : List (List Cell)) : Prop :=
  ∃ before table after, sheets = before ++ (name, table) :: after ∧
    (∀ s ∈ before, ∀ found, sheetHeader txt mapped s.2 ≠ .ok found) ∧
    sheetHeader txt mapped table = .ok (texts, rows)

theorem sheetRecords_ok {sheets : List (String × List (List Cell))} {problems : List String}
    {records : List SourceRecord} (h : sheetRecords txt required mapped problems sheets = .ok records) :
    ∃ name texts rows, FirstTable txt mapped sheets name texts rows ∧
      records = rowsToRecords texts required name none 0 rows := by
  induction sheets generalizing problems with
  | nil => cases h
  | cons s rest ih =>
    obtain ⟨name, table⟩ := s
    rw [sheetRecords] at h
    cases hheader : sheetHeader txt mapped table with
    | error msg =>
      rw [hheader] at h
      obtain ⟨name', texts, rows, ⟨before, table', after, rfl, hbefore, hfound⟩, hrecords⟩ := ih h
      refine ⟨name', texts, rows, ⟨(name, table) :: before, table', after, rfl, ?_, hfound⟩, hrecords⟩
      intro s hs found
      cases hs with
      | head =>
        rw [hheader]
        nofun
      | tail _ hs => exact hbefore s hs found
    | ok found =>
      obtain ⟨texts, rows⟩ := found
      rw [hheader] at h
      exact ⟨name, texts, rows, ⟨[], table, rest, rfl, nofun, hheader⟩, (Except.ok.inj h).symm⟩

/-- The value the mapping reads for a source name is the cell of its column: exactly when. -/
theorem column_lookup_iff (hnorm : txt.Normalises) {stack : CallStack} {mapping : MappingBlock} {decode : DecodeKind}
    {doc : DecodedDocument} {records : List SourceRecord}
    (h : genericParse txt stack mapping decode doc = .ok records) :
    (∀ kind header rows, doc = .tabular kind header rows →
      (ReadsRight txt (header.map (norm txt)) rows (requiredSourceFields mapping)
          (mappedSourceFields mapping) records ↔
        (∀ m ∈ mappedSourceFields mapping, ¬ (header.map (norm txt)).Duplicate (norm txt m)) ∧
          SpelledOrBlank txt (header.map (norm txt)) rows (requiredSourceFields mapping)
            (mappedSourceFields mapping))) ∧
    ∀ sheets, doc = .sheets sheets → ∃ name texts rows,
      FirstTable txt (mappedSourceFields mapping) sheets name texts rows ∧
      (ReadsRight txt texts rows (requiredSourceFields mapping) (mappedSourceFields mapping)
          records ↔
        (∀ m ∈ mappedSourceFields mapping, norm txt m = "" → ¬ texts.Duplicate "") ∧
          SpelledOrBlank txt texts rows (requiredSourceFields mapping)
            (mappedSourceFields mapping)) := by
  refine ⟨?_, ?_⟩
  · rintro kind header rows rfl
    have htable : parseTableRecords txt (requiredSourceFields mapping) (mappedSourceFields mapping)
        (.tabular kind header rows) = .ok records := by
      cases decode with
      | csv => exact h
      | htmlTable => exact h
      | soap => cases h
      | xml => cases h
      | xlsx => cases h
      | json => cases h
    unfold parseTableRecords at htable
    dsimp only at htable
    split at htable
    · cases htable
    · rename_i hmissing
      obtain rfl := Except.ok.inj htable
      refine reads_right_rows ?_ (mem_of_missing_nil (not_not.mp hmissing)) (required_mapped mapping)
      intro t ht
      obtain ⟨x, -, rfl⟩ := List.mem_map.mp ht
      exact hnorm.idem x
  · rintro sheets rfl
    have hsheets : sheetRecords txt (requiredSourceFields mapping) (mappedSourceFields mapping) []
        sheets = .ok records := by
      cases decode with
      | xlsx => exact h
      | csv => cases h
      | htmlTable => cases h
      | soap => cases h
      | xml => cases h
      | json => cases h
    obtain ⟨name, texts, rows, hfirst, rfl⟩ := sheetRecords_ok hsheets
    refine ⟨name, texts, rows, hfirst, ?_⟩
    obtain ⟨before, table, after, -, -, hfound⟩ := hfirst
    obtain ⟨htexts, hmapped, hnodup⟩ := findHeader_found hnorm (sheetHeader_ok hfound)
    rw [reads_right_rows htexts hmapped (required_mapped mapping)]
    refine and_congr_left fun _ => forall₂_congr fun m _ => ?_
    by_cases hm : norm txt m = ""
    · rw [hm]
      simp
    · simp [hm, not_duplicate_header hnodup hm]

end Reading

/-! ### Headers spelled with two spaces, and a header that occurs twice -/

section Spelled

/-- The intraday market with a date and a price column of some names. -/
def marketColumns (date price : String) : MappingBlock :=
  { oteIntradayMarket.mapping with
    time := { oteIntradayMarket.mapping.time with
      kind := .periodIndex (.source date) (.source "PeriodIndex") }
    metrics := [("price_vwap", ⟨price, "EUR/MWh", .asPublished, .dot⟩)]
    metricsNodup := List.nodup_singleton _ }

def marketRow (price : String) : List Cell :=
  [.text "2026-01-01", .text "1", .text "PT60M", .text price]

def marketHeader (date price : String) : List String :=
  [date, "PeriodIndex", "PeriodResolution", price]

/-- Texts of single words: there is no whitespace to normalise. -/
def wordText : TextPrims := { Ascii.text with words := fun s => [s] }

theorem wordText_normalises : wordText.Normalises :=
  ⟨fun _ => rfl, rfl⟩

/-- One column for each name, spelled as its header: the price is read. -/
theorem column_lookup_price : ∃ records,
    genericParse wordText .thousand (marketColumns "Date" "Price") .csv
      (.tabular "csv" (marketHeader "Date" "Price") [marketRow "10.5"]) = .ok records ∧
    ReadsRight wordText ((marketHeader "Date" "Price").map (norm wordText)) [marketRow "10.5"]
      (requiredSourceFields (marketColumns "Date" "Price"))
      (mappedSourceFields (marketColumns "Date" "Price")) records := by
  have hok : (genericParse wordText .thousand (marketColumns "Date" "Price") .csv
      (.tabular "csv" (marketHeader "Date" "Price") [marketRow "10.5"])).isOk := by
    decide +kernel
  cases h : genericParse wordText .thousand (marketColumns "Date" "Price") .csv
      (.tabular "csv" (marketHeader "Date" "Price") [marketRow "10.5"]) with
  | error e =>
    rw [h] at hok
    cases hok
  | ok records =>
    exact ⟨records, rfl, ((column_lookup_iff wordText_normalises h).1 _ _ _ rfl).mpr
      ⟨by decide +kernel, by decide +kernel⟩⟩

/-- A metric spelled with two spaces: the column is found, and nothing is read from it. A required
name so spelled empties the table. -/
theorem spelled_column_missing :
    (∃ records, genericParse Ascii.text .thousand (marketColumns "Date" "Price  EUR") .csv
        (.tabular "csv" (marketHeader "Date" "Price EUR") [marketRow "10.5"]) = .ok records ∧
      ¬ ReadsRight Ascii.text ((marketHeader "Date" "Price EUR").map (norm Ascii.text))
        [marketRow "10.5"] (requiredSourceFields (marketColumns "Date" "Price  EUR"))
        (mappedSourceFields (marketColumns "Date" "Price  EUR")) records) ∧
    genericParse Ascii.text .thousand (marketColumns "Trading  day" "Price") .csv
        (.tabular "csv" (marketHeader "Trading day" "Price") [marketRow "10.5"]) = .ok [] ∧
      ¬ ReadsRight Ascii.text ((marketHeader "Trading day" "Price").map (norm Ascii.text))
        [marketRow "10.5"] (requiredSourceFields (marketColumns "Trading  day" "Price"))
        (mappedSourceFields (marketColumns "Trading  day" "Price")) [] := by
  refine ⟨⟨[⟨rowFields (marketHeader "Date" "Price EUR") (marketRow "10.5"), "csv!row1"⟩],
    eq_ok_of_toOption (by decide +kernel), ?_⟩, eq_ok_of_toOption (by decide +kernel), ?_⟩
  · intro h
    have hcell := (List.forall₂_iff_get.mp h.2).2 0 (by decide +kernel) (by decide) "Price  EUR"
      (by decide +kernel)
    exact absurd hcell (by decide +kernel)
  · intro h
    exact absurd h.2.length_eq (by decide +kernel)

end Spelled

end EnergyPlatform
