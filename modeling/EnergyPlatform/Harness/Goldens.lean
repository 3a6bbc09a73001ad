import EnergyPlatform.Contracts.DecimalText
import EnergyPlatform.Mapping.Emitted
import EnergyPlatform.Mapping.Targets

/-!
# Harness.Goldens

Golden files: the rows a person checked against a fixture, compared with what the pipeline
produced from it.

A golden row names part of an observation's identity, so it may identify several observations, and
`compare` examines the first of them only. `compare_perm`: the order does not matter where the
identified observations agree on what the row states. `words_of_problem`: what was produced is read
off a problem. `reliable_iff`: a green golden is reliable exactly when they agree, or when no list
of problems is returned.

`strftime` is a parameter, as its years are padded on some platforms only.
-/

namespace EnergyPlatform

namespace Goldens

/-! ## Golden files -/

structure GoldenRow where
  /-- In UTC, not yet within the years of a `datetime`. -/
  deliveryStartUtc : Instant
  resolution : String
  metric : String
  value : Option Decimal
  dimensions : Option Dimensions
  /-- Nothing when the row does not name the field; it may name `null`. -/
  sourceVersion : Option (Option String)
  periodIndex : Option ℕ

structure Expect where
  rows : List GoldenRow
  quarantine : Option String
  rowCount : Option ℕ
  qualityEvents : Option (List String)

structure GoldenFile where
  fixture : String
  checkedBy : String
  expect : Expect

variable (txt : TextPrims)

/-- `^PT\d+[MH]$`. -/
def ResolutionText (s : String) : Prop := ∃ ds u, s.toList = 'P' :: 'T' :: (ds ++ [u]) ∧ ds ≠ [] ∧
  (ds.all fun d => (txt.digit d).isSome) ∧ (u = 'M' ∨ u = 'H')

/-- What the model accepts as a row; a `Decimal` field takes finite values only. -/
structure GoldenRow.Accepted (row : GoldenRow) : Prop where
  resolution : ResolutionText txt row.resolution
  metric : row.metric ≠ ""
  value : FiniteValue row.value
  periodIndex : ∀ i, row.periodIndex = some i → 1 ≤ i

/-- `_rows_or_quarantine`, and the checks of the fields. -/
structure Expect.Accepted (expect : Expect) : Prop where
  rows : ∀ row ∈ expect.rows, row.Accepted txt
  quarantine : expect.quarantine ≠ some ""
  something : expect.quarantine = none → expect.rows = [] → expect.rowCount = some 0
  exclusive : expect.quarantine ≠ none → expect.rows = [] ∧ expect.rowCount = none

def fixtureChar (c : Char) : Bool := c.isLower || c.isDigit || c = '_' || c = '.' || c = '-'

/-- `^[a-z0-9][a-z0-9_.-]{0,63}$`. -/
def FixtureName (s : String) : Prop := ∃ c cs, s.toList = c :: cs ∧
  (c.isLower ∨ c.isDigit) ∧ cs.all fixtureChar ∧ cs.length ≤ 63

structure GoldenFile.Accepted (golden : GoldenFile) : Prop where
  fixture : FixtureName golden.fixture
  checkedBy : txt.strip golden.checkedBy ≠ ""
  expect : golden.expect.Accepted txt

/-- A document that was refused has no observations; an observation's value is finite. -/
structure PipelineOutcome where
  observations : List EnergyObservation
  events : List QualityEvent
  quarantine : Option String
  finite : ∀ o ∈ observations, FiniteValue o.value
  refused : quarantine ≠ none → observations = []

/-! ## The comparison -/

/-- `_matches`: the start of the row is converted once its metric and resolution agree. -/
def rowMatches (row : GoldenRow) (o : EnergyObservation) (manifestDims : Dimensions) :
    Except PyError Bool :=
  if o.metric ≠ row.metric ∨ o.resolution ≠ row.resolution then .ok false
  else do
    let start ← checkedInstant row.deliveryStartUtc
    .ok (decide (o.deliveryStartUtc = start) &&
      decide (o.dimensions = row.dimensions.getD manifestDims) &&
      (match row.sourceVersion with
      | none => true
      | some version => decide (o.sourceVersion = version)))

variable (strftime : Instant → String)

def describe (row : GoldenRow) : Except PyError String := do
  let start ← checkedInstant row.deliveryStartUtc
  .ok (row.metric ++ "@" ++ strftime start ++ "/" ++ row.resolution)

/-- `[o for o in outcome.observations if _matches(row, o, dims)]`. -/
def found (row : GoldenRow) (manifestDims : Dimensions) :
    List EnergyObservation → Except PyError (List EnergyObservation)
  | [] => .ok []
  | o :: rest => do
    let keep ← rowMatches row o manifestDims
    let others ← found row manifestDims rest
    .ok (if keep then o :: others else others)

def valueText : Option Decimal → String
  | none => "None"
  | some d => d.toText

def indexText : Option ℕ → String
  | none => "None"
  | some i => toString i

def valueProblems (described : String) (row : GoldenRow) (o : EnergyObservation) : List String :=
  if sameValue o.value row.value then []
  else [described ++ ": expected " ++ valueText row.value ++ ", got " ++ valueText o.value]

def indexProblems (described : String) (row : GoldenRow) (o : EnergyObservation) : List String :=
  match row.periodIndex with
  | none => []
  | some i =>
    if o.periodIndex = some i then []
    else [described ++ ": expected period_index " ++ toString i ++ ", got " ++
      indexText o.periodIndex]

/-- The first observation the row identifies is examined. -/
def firstProblems (described : String) (row : GoldenRow) : List EnergyObservation → List String
  | [] => [described ++ ": no such row was produced"]
  | o :: _ => valueProblems described row o ++ indexProblems described row o

/-- One pass of the loop over the rows. -/
def rowProblems (row : GoldenRow) (manifestDims : Dimensions) (observations : List EnergyObservation) :
    Except PyError (List String) := do
  let found ← found row manifestDims observations
  let described ← describe strftime row
  .ok (firstProblems described row found)

def allRowProblems (manifestDims : Dimensions) (observations : List EnergyObservation) :
    List GoldenRow → Except PyError (List String)
  | [] => .ok []
  | row :: rest => do
    let problems ← rowProblems strftime row manifestDims observations
    let others ← allRowProblems manifestDims observations rest
    .ok (problems ++ others)

def quarantineProblems (expected : String) (outcome : PipelineOutcome) : List String :=
  match outcome.quarantine with
  | none => ["expected a quarantine containing " ++ txt.repr expected ++ ", got " ++
      toString outcome.observations.length ++ " rows"]
  | some reason =>
    if expected.toList <:+: reason.toList then []
    else ["expected a quarantine containing " ++ txt.repr expected ++ ", got " ++ txt.repr reason]

def countProblems (rowCount : Option ℕ) (produced : ℕ) : List String :=
  match rowCount with
  | none => []
  | some n =>
    if produced = n then []
    else ["row_count: expected " ++ toString n ++ ", got " ++ toString produced]

def eventProblems (qualityEvents : Option (List String)) (events : List QualityEvent) : List String :=
  match qualityEvents with
  | none => []
  | some expected =>
    let kinds := sortNames (events.map QualityEvent.kind).dedup
    if kinds = sortNames expected.dedup then []
    else ["quality_events: expected " ++ reprList txt (sortNames expected.dedup) ++ ", got " ++
      reprList txt kinds]

/-- Every way a golden can disagree with what was produced. -/
def compare (golden : GoldenFile) (outcome : PipelineOutcome) (manifest : Manifest) :
    Except PyError (List String) :=
  match golden.expect.quarantine with
  | some expected => .ok (quarantineProblems txt expected outcome)
  | none =>
    match outcome.quarantine with
    | some reason => .ok ["document was quarantined: " ++ reason]
    | none => do
      let problems ← allRowProblems strftime manifest.mapping.dimensions outcome.observations
        golden.expect.rows
      .ok (countProblems golden.expect.rowCount outcome.observations.length ++ problems ++
        eventProblems txt golden.expect.qualityEvents outcome.events)

/-! ## What a row identifies, and what it states -/

section Rows

/-- Metric, resolution, start, dimensions and, when the row names one, source version. -/
def Identifies (row : GoldenRow) (manifestDims : Dimensions) (o : EnergyObservation) : Prop :=
  o.metric = row.metric ∧ o.resolution = row.resolution ∧
    o.deliveryStartUtc = row.deliveryStartUtc ∧
    o.dimensions = row.dimensions.getD manifestDims ∧
    ∀ version, row.sourceVersion = some version → o.sourceVersion = version

instance (row : GoldenRow) (o : EnergyObservation) :
    Decidable (∀ version, row.sourceVersion = some version → o.sourceVersion = version) :=
  match row.sourceVersion with
  | none => isTrue fun _ h => nomatch h
  | some version => decidable_of_iff (o.sourceVersion = version)
      ⟨fun h _ hv => Option.some.inj hv ▸ h, fun h => h version rfl⟩

instance (row : GoldenRow) (manifestDims : Dimensions) (o : EnergyObservation) :
    Decidable (Identifies row manifestDims o) :=
  inferInstanceAs (Decidable (_ ∧ _ ∧ _ ∧ _ ∧ _))

/-- The observation has the row's value and, when given, its period index. -/
def Right (row : GoldenRow) (o : EnergyObservation) : Prop :=
  sameValue o.value row.value ∧ ∀ i, row.periodIndex = some i → o.periodIndex = some i

/-- Two observations are alike in what the row states: one value, or both the row's; and one
period index, when the row gives one. -/
def Agree (row : GoldenRow) (a b : EnergyObservation) : Prop :=
  (a.value = b.value ∨ sameValue a.value row.value ∧ sameValue b.value row.value) ∧
    (row.periodIndex = none ∨ a.periodIndex = b.periodIndex)

/-- The start of the row is within the years of a `datetime`. -/
def Representable (row : GoldenRow) : Prop :=
  datetimeMin ≤ row.deliveryStartUtc ∧ row.deliveryStartUtc ≤ datetimeMax

variable {row : GoldenRow} {dims : Dimensions} {o a b : EnergyObservation} {described : String}
variable {l : List EnergyObservation}

theorem checked_start (h : Representable row) :
    checkedInstant row.deliveryStartUtc = .ok row.deliveryStartUtc := if_pos h

theorem unchecked_start (h : ¬ Representable row) :
    checkedInstant row.deliveryStartUtc = .error (.overflowError "date value out of range") :=
  if_neg h

theorem rowMatches_ok (h : Representable row) :
    rowMatches row o dims = .ok (decide (Identifies row dims o)) := by
  unfold rowMatches
  split_ifs with hne
  · rw [decide_eq_false fun hid : Identifies row dims o => hne.elim (· hid.1) (· hid.2.1)]
  · rw [not_or, not_not, not_not] at hne
    simp only [checked_start h, bind, Except.bind, Except.ok.injEq]
    rw [Bool.eq_iff_iff, decide_eq_true_iff, Identifies]
    cases hversion : row.sourceVersion with
    | none => simp [hne]
    | some version => simp [hne, and_assoc]

theorem found_ok (h : Representable row) (l : List EnergyObservation) :
    found row dims l = .ok (l.filter fun o => decide (Identifies row dims o)) := by
  induction l with
  | nil => rfl
  | cons o rest ih =>
    simp only [found, rowMatches_ok h, ih, bind, Except.bind]
    rw [List.filter_cons]

variable {strftime}

theorem rowProblems_ok (h : Representable row) (l : List EnergyObservation) :
    rowProblems strftime row dims l = .ok (firstProblems
      (row.metric ++ "@" ++ strftime row.deliveryStartUtc ++ "/" ++ row.resolution) row
      (l.filter fun o => decide (Identifies row dims o))) := by
  simp only [rowProblems, found_ok h, describe, checked_start h, bind, Except.bind]

theorem found_error (h : ¬ Representable row) (l : List EnergyObservation) :
    found row dims l = .ok [] ∨
      found row dims l = .error (.overflowError "date value out of range") := by
  induction l with
  | nil => exact .inl rfl
  | cons o rest ih =>
    simp only [found, rowMatches]
    split_ifs with hne
    · rcases ih with ih | ih
      · exact .inl (by simp [ih, bind, Except.bind])
      · exact .inr (by simp [ih, bind, Except.bind])
    · exact .inr (by simp [unchecked_start h, bind, Except.bind])

/-- A start outside the years of a `datetime` is noticed whatever was produced. -/
theorem rowProblems_error (h : ¬ Representable row) (l : List EnergyObservation) :
    rowProblems strftime row dims l = .error (.overflowError "date value out of range") := by
  unfold rowProblems
  have hcases : found row dims l = .ok [] ∨ found row dims l = .error _ := found_error h l
  rcases hcases with hfound | hfound
  · simp only [hfound, describe, unchecked_start h, bind, Except.bind]
  · simp only [hfound, bind, Except.bind]

theorem Agree.problems (h : Agree row a b) :
    valueProblems described row a ++ indexProblems described row a =
      valueProblems described row b ++ indexProblems described row b := by
  have hvalue : valueProblems described row a = valueProblems described row b := by
    unfold valueProblems
    rcases h.1 with heq | ⟨ha, hb⟩
    · rw [heq]
    · rw [if_pos ha, if_pos hb]
  have hindex : indexProblems described row a = indexProblems described row b := by
    unfold indexProblems
    rcases h.2 with hnone | heq
    · rw [hnone]
    · rw [heq]
  rw [hvalue, hindex]

theorem Agree.right (h : Agree row a b) (ha : Right row a) : Right row b := by
  refine ⟨?_, fun i hi => ?_⟩
  · rcases h.1 with heq | ⟨-, hb⟩
    · exact heq ▸ ha.1
    · exact hb
  · rcases h.2 with hnone | heq
    · rw [hnone] at hi
      cases hi
    · exact heq ▸ ha.2 i hi

theorem right_of_no_problems
    (h : valueProblems described row o ++ indexProblems described row o = []) : Right row o := by
  obtain ⟨hvalue, hindex⟩ := List.append_eq_nil_iff.mp h
  refine ⟨?_, fun i hi => ?_⟩
  · by_contra hne
    rw [valueProblems, if_neg hne] at hvalue
    cases hvalue
  · by_contra hne
    simp only [indexProblems, hi, if_neg hne] at hindex
    cases hindex

/-- The order of the observations does not matter to a row whose observations agree. -/
theorem rowProblems_perm {l' : List EnergyObservation} (hperm : l'.Perm l)
    (hagree : ∀ a ∈ l, ∀ b ∈ l, Identifies row dims a → Identifies row dims b → Agree row a b) :
    rowProblems strftime row dims l' = rowProblems strftime row dims l := by
  by_cases h : Representable row
  · rw [rowProblems_ok h, rowProblems_ok h]
    have hfilter := hperm.filter fun o => decide (Identifies row dims o)
    have hmem : ∀ o ∈ l.filter fun o => decide (Identifies row dims o),
        o ∈ l ∧ Identifies row dims o := by
      intro o ho
      obtain ⟨hl, hid⟩ := List.mem_filter.mp ho
      exact ⟨hl, of_decide_eq_true hid⟩
    generalize (l.filter fun o => decide (Identifies row dims o)) = k at hfilter hmem
    generalize (l'.filter fun o => decide (Identifies row dims o)) = k' at hfilter
    cases k' with
    | nil => rw [hfilter.symm.eq_nil]
    | cons a rest' =>
      cases k with
      | nil => cases hfilter.eq_nil
      | cons b rest =>
        have ha := hmem a (hfilter.subset List.mem_cons_self)
        have hb := hmem b List.mem_cons_self
        simp only [firstProblems, (hagree a ha.1 b hb.1 ha.2 hb.2).problems]
  · rw [rowProblems_error h, rowProblems_error h]

end Rows

/-! ## The rows of a golden -/

section AllRows

variable {strftime} {dims : Dimensions} {l l' : List EnergyObservation} {rows : List GoldenRow}

/-- The problems of a row, where its start can be converted. -/
def rowTexts (strftime : Instant → String) (dims : Dimensions) (l : List EnergyObservation)
    (row : GoldenRow) : List String :=
  firstProblems (row.metric ++ "@" ++ strftime row.deliveryStartUtc ++ "/" ++ row.resolution) row
    (l.filter fun o => decide (Identifies row dims o))

theorem allRowProblems_ok (h : ∀ row ∈ rows, Representable row) :
    allRowProblems strftime dims l rows = .ok (rows.flatMap (rowTexts strftime dims l)) := by
  induction rows with
  | nil => rfl
  | cons row rest ih =>
    obtain ⟨hrow, hrest⟩ := List.forall_mem_cons.mp h
    simp only [allRowProblems, rowProblems_ok hrow, ih hrest, bind, Except.bind, List.flatMap_cons,
      rowTexts]

theorem allRowProblems_error (h : ∃ row ∈ rows, ¬ Representable row) :
    allRowProblems strftime dims l rows = .error (.overflowError "date value out of range") := by
  induction rows with
  | nil => simp at h
  | cons row rest ih =>
    by_cases hrow : Representable row
    · have hrest : ∃ row ∈ rest, ¬ Representable row := by
        obtain ⟨bad, hmem, hbad⟩ := h
        rcases List.mem_cons.mp hmem with rfl | hmem
        · exact absurd hrow hbad
        · exact ⟨bad, hmem, hbad⟩
      simp only [allRowProblems, rowProblems_ok hrow, ih hrest, bind, Except.bind]
    · simp only [allRowProblems, rowProblems_error hrow, bind, Except.bind]

theorem allRowProblems_congr (h : ∀ row ∈ rows,
    rowProblems strftime row dims l' = rowProblems strftime row dims l) :
    allRowProblems strftime dims l' rows = allRowProblems strftime dims l rows := by
  induction rows with
  | nil => rfl
  | cons row rest ih =>
    obtain ⟨hrow, hrest⟩ := List.forall_mem_cons.mp h
    rw [allRowProblems, allRowProblems, hrow, ih hrest]

/-- Where no row has a problem, the first observation a row identifies is right. -/
theorem right_of_green (h : allRowProblems strftime dims l rows = .ok []) {row : GoldenRow}
    (hrow : row ∈ rows) {o : EnergyObservation} (ho : o ∈ l) (hid : Identifies row dims o) :
    ∃ a ∈ l, Identifies row dims a ∧ Right row a := by
  have hrep : ∀ row ∈ rows, Representable row := by
    by_contra hbad
    push Not at hbad
    rw [allRowProblems_error hbad] at h
    cases h
  rw [allRowProblems_ok hrep] at h
  have hnone := List.flatMap_eq_nil_iff.mp (Except.ok.inj h) row hrow
  cases hfilter : l.filter fun o => decide (Identifies row dims o) with
  | nil =>
    exact absurd hid (by simpa using List.filter_eq_nil_iff.mp hfilter o ho)
  | cons a rest =>
    have ha : a ∈ l.filter fun o => decide (Identifies row dims o) := hfilter ▸ List.mem_cons_self
    obtain ⟨hl, hida⟩ := List.mem_filter.mp ha
    rw [rowTexts, hfilter] at hnone
    exact ⟨a, hl, of_decide_eq_true hida, right_of_no_problems hnone⟩

end AllRows

/-! ## What was produced, read off a problem -/

section Words

/-- The last words of a text, at most `n`, the last one first. -/
def lastWords : ℕ → Text → List Text
  | 0, _ => []
  | n + 1, l =>
    match cutLast ' ' l with
    | none => [l]
    | some (front, word) => word :: lastWords n front

theorem lastWords_append {front word : Text} (n : ℕ) (h : ' ' ∉ word) :
    lastWords (n + 1) (front ++ ' ' :: word) = word :: lastWords n front := by
  rw [lastWords, cutLast_append h]

/-- A problem names what was expected and ends in what was produced. -/
theorem words_of_problem {front kind expected got : Text} (hkind : ' ' ∉ kind)
    (hexpected : ' ' ∉ expected) (hgot : ' ' ∉ got) :
    lastWords 4 (front ++ ' ' :: (kind ++ ' ' :: (expected ++ ", got ".toList ++ got))) =
      [got, "got".toList, expected ++ [','], kind] := by
  have hsplit : front ++ ' ' :: (kind ++ ' ' :: (expected ++ ", got ".toList ++ got)) =
      ((front ++ ' ' :: kind) ++ ' ' :: (expected ++ [','])) ++ ' ' :: "got".toList ++ ' ' :: got := by
    have hgotText : ", got ".toList = [',', ' ', 'g', 'o', 't', ' '] := rfl
    have hword : "got".toList = ['g', 'o', 't'] := rfl
    simp [hgotText, hword]
  rw [hsplit, lastWords_append 3 hgot, lastWords_append 2 (by decide),
    lastWords_append 1 (by simp [hexpected]), lastWords_append 0 hkind]
  rfl

theorem space_not_mem_valueText (v : Option Decimal) : ' ' ∉ (valueText v).toList := by
  cases v with
  | none => decide
  | some d => exact Decimal.space_not_mem_toText d

theorem space_not_mem_indexText (i : Option ℕ) : ' ' ∉ (indexText i).toList := by
  cases i with
  | none => decide
  | some i => exact space_not_mem_toString i

theorem valueText_inj {v w : Option Decimal} (hv : FiniteValue v) (hw : FiniteValue w)
    (h : valueText v = valueText w) : v = w := by
  cases v with
  | none =>
    cases w with
    | none => rfl
    | some d => exact absurd h.symm (Decimal.toText_ne_none (hw d rfl))
  | some d =>
    cases w with
    | none => exact absurd h (Decimal.toText_ne_none (hv d rfl))
    | some d' => rw [Decimal.toText_inj (hv d rfl) (hw d' rfl) h]

theorem indexText_inj {i j : Option ℕ} (h : indexText i = indexText j) : i = j := by
  have hnone : ∀ n : ℕ, (toString n : String) ≠ "None" := by
    intro n hn
    have hlist := congrArg String.toList hn
    rw [Nat.toString_eq_ofList_toDigits, String.toList_ofList] at hlist
    have hN : 'N' ∈ Nat.toDigits 10 n := hlist ▸ (by decide : 'N' ∈ "None".toList)
    exact not_mem_toDigits (by decide) hN
  cases i with
  | none =>
    cases j with
    | none => rfl
    | some n => exact absurd h.symm (hnone n)
  | some n =>
    cases j with
    | none => exact absurd h (hnone n)
    | some m =>
      have hlist := congrArg String.toList h
      simp only [indexText, Nat.toString_eq_ofList_toDigits, String.toList_ofList] at hlist
      rw [Decimal.toDigits_inj hlist]

/-- A problem about `kind` that reports `got`. -/
def reports (kind got : String) (problem : String) : Bool :=
  match lastWords 4 problem.toList with
  | [word, _, _, about] => decide (word = got.toList ∧ about = kind.toList)
  | _ => false

variable {described : String} {row : GoldenRow} {o : EnergyObservation} {kind got : String}

theorem reports_value {problem : String} (h : problem ∈ valueProblems described row o) :
    reports kind got problem ↔ valueText o.value = got ∧ kind = "expected" := by
  unfold valueProblems at h
  split_ifs at h
  · cases h
  · obtain rfl := List.mem_singleton.mp h
    have hlist : (described ++ ": expected " ++ valueText row.value ++ ", got " ++
        valueText o.value).toList = (described.toList ++ [':']) ++ ' ' :: ("expected".toList ++
          ' ' :: ((valueText row.value).toList ++ ", got ".toList ++ (valueText o.value).toList)) := by
      have hmiddle : ": expected ".toList = ':' :: ' ' :: ("expected".toList ++ [' ']) := rfl
      simp [hmiddle]
    rw [reports, hlist, words_of_problem (by decide) (space_not_mem_valueText _)
      (space_not_mem_valueText _), decide_eq_true_iff, String.toList_inj, String.toList_inj,
      eq_comm (a := "expected")]

theorem reports_index {problem : String} (h : problem ∈ indexProblems described row o) :
    reports kind got problem ↔ indexText o.periodIndex = got ∧ kind = "period_index" := by
  unfold indexProblems at h
  split at h
  · cases h
  · rename_i i hi
    split_ifs at h
    · cases h
    · obtain rfl := List.mem_singleton.mp h
      have hlist : (described ++ ": expected period_index " ++ toString i ++ ", got " ++
          indexText o.periodIndex).toList = (described.toList ++ ": expected".toList) ++ ' ' ::
            ("period_index".toList ++ ' ' :: ((indexText (some i)).toList ++ ", got ".toList ++
              (indexText o.periodIndex).toList)) := by
        have hmiddle : ": expected period_index ".toList =
          ": expected".toList ++ ' ' :: ("period_index".toList ++ [' ']) := rfl
        simp [hmiddle, indexText]
      rw [reports, hlist, words_of_problem (by decide) (space_not_mem_indexText _)
        (space_not_mem_indexText _), decide_eq_true_iff, String.toList_inj, String.toList_inj,
        eq_comm (a := "period_index")]

/-- What the observation gives for the row does not report `got` about `kind`. -/
def Silent (described : String) (row : GoldenRow) (o : EnergyObservation) (kind got : String) :
    Prop :=
  (valueProblems described row o ++ indexProblems described row o).countP (reports kind got) = 0

theorem none_of_iff {l : List String} {p : String → Bool} {P : Prop} (h : ∀ m ∈ l, p m ↔ P) :
    (∀ m ∈ l, ¬ p m) ↔ l = [] ∨ ¬ P := by
  cases l with
  | nil => simp
  | cons m rest =>
    constructor
    · exact fun hnone => .inr fun hP => hnone m List.mem_cons_self
        ((h m List.mem_cons_self).mpr hP)
    · rintro (hnil | hP) m' hm'
      · cases hnil
      · exact fun hp => hP ((h m' hm').mp hp)

theorem silent_iff : Silent described row o kind got ↔
    (valueProblems described row o = [] ∨ ¬ (valueText o.value = got ∧ kind = "expected")) ∧
    (indexProblems described row o = [] ∨
      ¬ (indexText o.periodIndex = got ∧ kind = "period_index")) := by
  rw [Silent, List.countP_eq_zero, List.forall_mem_append, none_of_iff fun _ => reports_value,
    none_of_iff fun _ => reports_index]

theorem silent_of_value_ne (h : valueText o.value ≠ got) : Silent described row o "expected" got :=
  silent_iff.mpr ⟨.inr fun heq => h heq.1, .inr fun heq => absurd heq.2 (by decide)⟩

theorem silent_of_index_ne (h : indexText o.periodIndex ≠ got) :
    Silent described row o "period_index" got :=
  silent_iff.mpr ⟨.inr fun heq => absurd heq.2 (by decide), .inr fun heq => h heq.1⟩

theorem sameValue_of_silent (h : Silent described row o "expected" (valueText o.value)) :
    sameValue o.value row.value := by
  by_contra hne
  rcases (silent_iff.mp h).1 with hnil | hother
  · rw [valueProblems, if_neg hne] at hnil
    cases hnil
  · exact hother ⟨rfl, rfl⟩

theorem index_of_silent (h : Silent described row o "period_index" (indexText o.periodIndex)) :
    ∀ i, row.periodIndex = some i → o.periodIndex = some i := by
  intro i hi
  by_contra hne
  rcases (silent_iff.mp h).2 with hnil | hother
  · simp only [indexProblems, hi, if_neg hne] at hnil
    cases hnil
  · exact hother ⟨rfl, rfl⟩

end Words

/-! ## Two orders -/

section Orders

theorem countP_flatMap_le {α β : Type} {f g : α → List β} {p : β → Bool} {l : List α}
    (h : ∀ x ∈ l, (g x).countP p ≤ (f x).countP p) :
    (l.flatMap g).countP p ≤ (l.flatMap f).countP p := by
  induction l with
  | nil => exact le_rfl
  | cons x rest ih =>
    obtain ⟨hx, hrest⟩ := List.forall_mem_cons.mp h
    rw [List.flatMap_cons, List.flatMap_cons, List.countP_append, List.countP_append]
    exact Nat.add_le_add hx (ih hrest)

/-- Counts that are ordered part by part and equal in all are equal part by part. -/
theorem countP_flatMap_eq {α β : Type} {f g : α → List β} {p : β → Bool} {l : List α}
    (h : ∀ x ∈ l, (g x).countP p ≤ (f x).countP p)
    (hsum : (l.flatMap f).countP p ≤ (l.flatMap g).countP p) :
    ∀ x ∈ l, (f x).countP p = (g x).countP p := by
  induction l with
  | nil => exact fun x hx => nomatch hx
  | cons x rest ih =>
    obtain ⟨hx, hrest⟩ := List.forall_mem_cons.mp h
    have hle := countP_flatMap_le hrest
    simp only [List.flatMap_cons, List.countP_append] at hsum
    exact List.forall_mem_cons.mpr ⟨by omega, ih hrest (by omega)⟩

variable {strftime} {dims : Dimensions} {rows : List GoldenRow} {row : GoldenRow}
variable {a b : EnergyObservation} {rest : List EnergyObservation} {kind got : String}

theorem rowTexts_first (strftime : Instant → String) (l : List EnergyObservation)
    (h : Identifies row dims a) : ∃ described, rowTexts strftime dims (a :: l) row =
      valueProblems described row a ++ indexProblems described row a :=
  ⟨_, by rw [rowTexts, List.filter_cons_of_pos (by simpa using h), firstProblems]⟩

/-- Swapping two observations matters to the rows that identify both. -/
theorem rowTexts_swap (h : ¬ (Identifies row dims a ∧ Identifies row dims b)) :
    rowTexts strftime dims (a :: b :: rest) row = rowTexts strftime dims (b :: a :: rest) row := by
  by_cases ha : Identifies row dims a
  · have hb : ¬ Identifies row dims b := fun hb => h ⟨ha, hb⟩
    simp [rowTexts, ha, hb]
  · simp [rowTexts, List.filter_cons, ha]

/-- Where both orders give one list of problems, what the one never reports the other does not. -/
theorem silent_of_orders
    (heq : rows.flatMap (rowTexts strftime dims (a :: b :: rest)) =
      rows.flatMap (rowTexts strftime dims (b :: a :: rest)))
    (hb : ∀ described row, Silent described row b kind got) (hrow : row ∈ rows)
    (ha : Identifies row dims a) (hb' : Identifies row dims b) :
    ∃ described, Silent described row a kind got := by
  have hle : ∀ row ∈ rows, (rowTexts strftime dims (b :: a :: rest) row).countP (reports kind got) ≤
      (rowTexts strftime dims (a :: b :: rest) row).countP (reports kind got) := by
    intro row _
    by_cases hboth : Identifies row dims a ∧ Identifies row dims b
    · obtain ⟨described, htexts⟩ := rowTexts_first strftime (a :: rest) hboth.2
      rw [htexts, hb described row]
      exact Nat.zero_le _
    · rw [rowTexts_swap hboth]
  have hcount := countP_flatMap_eq hle (by rw [heq]) row hrow
  obtain ⟨described, htexts⟩ := rowTexts_first strftime (a :: rest) hb'
  obtain ⟨described', htexts'⟩ := rowTexts_first strftime (b :: rest) ha
  refine ⟨described', ?_⟩
  rw [Silent, ← htexts', hcount, htexts, hb described row]

/-- Where both orders give one list of problems, the two observations agree. -/
theorem agree_of_orders
    (heq : rows.flatMap (rowTexts strftime dims (a :: b :: rest)) =
      rows.flatMap (rowTexts strftime dims (b :: a :: rest)))
    (hfa : FiniteValue a.value) (hfb : FiniteValue b.value) (hrow : row ∈ rows)
    (ha : Identifies row dims a) (hb : Identifies row dims b) : Agree row a b := by
  constructor
  · by_cases hvalue : a.value = b.value
    · exact .inl hvalue
    · have hne : valueText a.value ≠ valueText b.value := fun h => hvalue (valueText_inj hfa hfb h)
      obtain ⟨_, hsa⟩ := silent_of_orders heq (fun _ _ => silent_of_value_ne hne.symm) hrow ha hb
      obtain ⟨_, hsb⟩ := silent_of_orders heq.symm (fun _ _ => silent_of_value_ne hne) hrow hb ha
      exact .inr ⟨sameValue_of_silent hsa, sameValue_of_silent hsb⟩
  · cases hi : row.periodIndex with
    | none => exact .inl rfl
    | some i =>
      refine .inr (by_contra fun hindex => ?_)
      have hne : indexText a.periodIndex ≠ indexText b.periodIndex := fun h =>
        hindex (indexText_inj h)
      obtain ⟨_, hsa⟩ := silent_of_orders heq (fun _ _ => silent_of_index_ne hne.symm) hrow ha hb
      obtain ⟨_, hsb⟩ := silent_of_orders heq.symm (fun _ _ => silent_of_index_ne hne) hrow hb ha
      exact hindex ((index_of_silent hsa i hi).trans (index_of_silent hsb i hi).symm)

end Orders

/-! ## When a green golden is reliable -/

/-- The list of problems is that of every order of the observations; and where a golden that lists
rows has no problem, every observation that a row identifies is right. -/
structure Reliable (golden : GoldenFile) (outcome : PipelineOutcome) (manifest : Manifest) :
    Prop where
  ordered : ∀ outcome' : PipelineOutcome, outcome'.observations.Perm outcome.observations →
    outcome'.events = outcome.events → outcome'.quarantine = outcome.quarantine →
    compare txt strftime golden outcome' manifest = compare txt strftime golden outcome manifest
  sound : golden.expect.rows ≠ [] → compare txt strftime golden outcome manifest = .ok [] →
    ∀ row ∈ golden.expect.rows, ∀ o ∈ outcome.observations,
      Identifies row manifest.mapping.dimensions o → Right row o

section Main

variable {txt strftime} {golden : GoldenFile} {outcome : PipelineOutcome} {manifest : Manifest}

/-- Where the rows' problems do not depend on the order, the list of problems does not. -/
theorem compare_perm {outcome' : PipelineOutcome}
    (hrows : allRowProblems strftime manifest.mapping.dimensions outcome'.observations
        golden.expect.rows =
      allRowProblems strftime manifest.mapping.dimensions outcome.observations golden.expect.rows)
    (hperm : outcome'.observations.Perm outcome.observations)
    (hevents : outcome'.events = outcome.events)
    (hquarantine : outcome'.quarantine = outcome.quarantine) :
    compare txt strftime golden outcome' manifest =
      compare txt strftime golden outcome manifest := by
  unfold compare quarantineProblems
  rw [hrows, hevents, hquarantine, hperm.length_eq]

theorem quarantine_of_rows (hgolden : golden.Accepted txt) (hrows : golden.expect.rows ≠ []) :
    golden.expect.quarantine = none := by
  by_contra h
  exact hrows (hgolden.expect.exclusive h).1

/-- A golden that lists rows and has no problem was compared row by row. -/
theorem rows_green (hgolden : golden.Accepted txt) (hrows : golden.expect.rows ≠ [])
    (h : compare txt strftime golden outcome manifest = .ok []) :
    allRowProblems strftime manifest.mapping.dimensions outcome.observations golden.expect.rows =
      .ok [] := by
  unfold compare at h
  rw [quarantine_of_rows hgolden hrows] at h
  cases hq : outcome.quarantine with
  | some reason =>
    rw [hq] at h
    cases h
  | none =>
    rw [hq] at h
    obtain ⟨problems, hproblems, h⟩ := bind_eq_ok.mp h
    have hnil := (List.append_eq_nil_iff.mp (Except.ok.inj h)).1
    rw [hproblems, (List.append_eq_nil_iff.mp hnil).2]

/-- The outcome with its observations in another order. -/
def PipelineOutcome.reordered (outcome : PipelineOutcome) {l : List EnergyObservation}
    (h : l.Perm outcome.observations) : PipelineOutcome where
  observations := l
  events := outcome.events
  quarantine := outcome.quarantine
  finite := fun o ho => outcome.finite o (h.subset ho)
  refused := fun hq => (outcome.refused hq ▸ h).eq_nil

/-- Two identified observations, each in front of the other, give one list of problems only when
they agree. -/
theorem agree_of_ordered (hrel : Reliable txt strftime golden outcome manifest)
    (hgolden : golden.Accepted txt) (hrep : ∀ row ∈ golden.expect.rows, Representable row)
    {row : GoldenRow} (hrow : row ∈ golden.expect.rows) {a b : EnergyObservation}
    (ha : a ∈ outcome.observations) (hb : b ∈ outcome.observations)
    (hida : Identifies row manifest.mapping.dimensions a)
    (hidb : Identifies row manifest.mapping.dimensions b) : Agree row a b := by
  by_cases hab : a = b
  · exact ⟨.inl (hab ▸ rfl), .inr (hab ▸ rfl)⟩
  · have hfront := List.perm_cons_erase ha
    have hsecond := List.perm_cons_erase ((List.mem_erase_of_ne (Ne.symm hab)).mpr hb)
    have hperm := (hfront.trans (hsecond.cons a)).symm
    have hswap := (List.Perm.swap a b _).trans hperm
    have heq := (hrel.ordered (outcome.reordered hperm) hperm rfl rfl).trans
      (hrel.ordered (outcome.reordered hswap) hswap rfl rfl).symm
    have hnone : outcome.quarantine = none := by
      by_contra hq
      rw [outcome.refused hq] at ha
      cases ha
    simp only [compare, quarantine_of_rows hgolden (List.ne_nil_of_mem hrow),
      PipelineOutcome.reordered, hnone, allRowProblems_ok hrep, bind, Except.bind, Except.ok.injEq,
      List.length_cons, List.append_cancel_left_eq, List.append_cancel_right_eq] at heq
    exact agree_of_orders heq (outcome.finite a ha) (outcome.finite b hb) hrow hida hidb

/-- A golden is reliable exactly when the observations that a row identifies agree on what the row
states, or the start of a row cannot be converted and no list of problems is returned. -/
theorem reliable_iff (hgolden : golden.Accepted txt) :
    Reliable txt strftime golden outcome manifest ↔
      (∃ row ∈ golden.expect.rows, ¬ Representable row) ∨
      ∀ row ∈ golden.expect.rows, ∀ a ∈ outcome.observations, ∀ b ∈ outcome.observations,
        Identifies row manifest.mapping.dimensions a →
        Identifies row manifest.mapping.dimensions b → Agree row a b := by
  constructor
  · intro hrel
    by_cases hrep : ∀ row ∈ golden.expect.rows, Representable row
    · exact .inr fun row hrow a ha b hb hida hidb =>
        agree_of_ordered hrel hgolden hrep hrow ha hb hida hidb
    · push Not at hrep
      exact .inl hrep
  · rintro (hbad | hagree)
    · refine ⟨fun outcome' => compare_perm ?_, fun hrows hgreen => ?_⟩
      · rw [allRowProblems_error hbad, allRowProblems_error hbad]
      · have hrowsGreen := rows_green hgolden hrows hgreen
        rw [allRowProblems_error hbad] at hrowsGreen
        cases hrowsGreen
    · refine ⟨fun outcome' hperm => compare_perm ?_ hperm, fun hrows hgreen row hrow o ho hid => ?_⟩
      · exact allRowProblems_congr fun row hrow => rowProblems_perm hperm (hagree row hrow)
      · obtain ⟨a, ha, hida, hright⟩ := right_of_green (rows_green hgolden hrows hgreen) hrow ho hid
        exact (hagree row hrow a ha o ho hida hid).right hright

end Main

/-! ## Two versions of one period -/

/-- `targets/ote_imbalance_settlement/manifest.yaml`: the source version is a field of the record. -/
def oteImbalanceSettlement : Manifest where
  targetId := "ote_imbalance_settlement"
  cadence := ⟨"17 * * * *", "Europe/Prague", some 3⟩
  maxAge := "P3D"
  fetch := .soapXml
  contract := ⟨"ote.imbalance_settlement", .soap, .soap,
    ["system_imbalance", "imbalance_price", "counter_imbalance_price"]⟩
  mapping :=
    { dimensions := ⟨[("bidding_zone", "CZ")], Dimensions.sorted_single _ _⟩
      time := ⟨.periodIndex (.source "Date") (.source "PeriodIndex"), "Europe/Prague",
        .source "PeriodResolution", .start⟩
      sourceVersion := some (.source "Version")
      sourcePublishedAt := none
      metrics := [("system_imbalance", ⟨"SystemImbalance", "MWh", .asPublished, .dot⟩),
        ("imbalance_price", ⟨"SettlImbalancePrice", "CZK/MWh", .asPublished, .dot⟩),
        ("counter_imbalance_price", ⟨"SettlCounterImbalancePrice", "CZK/MWh", .asPublished, .dot⟩)]
      ignoreFields := ["Sum", "PositiveImbalance", "NegativeImbalance", "RoundedImbalance", "ReCost",
        "ImbalanceCost", "PriceWARE", "PriceRE", "PriceWAIM", "PriceCurve", "Emerg"]
      metricsNodup := by decide }
  transportAllowed := by decide
  decodeAllowed := by decide
  fileFormat := by
    intro f hf
    cases hf
  metricsDeclared := fun _ => Iff.rfl

/-- The imbalance of the quarter from 2026-09-20T22:00Z, as settled in a version. -/
def settledImbalance (version : String) (value : Int) : EnergyObservation where
  sourceId := "ote"
  datasetId := "ote.imbalance_settlement"
  sourceTransport := .soap
  contractVersion := ⟨1, 0, 0⟩
  derivationId := 0
  rawRef := "blobs/0"
  payloadSha256 := 0
  fetchedAt := 1790000000 * second
  sourcePublishedAt := none
  sourceVersion := some version
  processedAt := 1790000000 * second
  deliveryInterval := ⟨1789941600 * second, 1789942500 * second, by decide⟩
  resolution := "PT15M"
  localDate := 20717
  periodIndex := some 1
  kind := .interval
  dimensions := ⟨[("bidding_zone", "CZ")], Dimensions.sorted_single _ _⟩
  metric := "system_imbalance"
  value := some (.ofInt value)
  unit := "MWh"
  signConvention := .asPublished

/-- A document with the daily settlement and the monthly one of the same quarter. -/
def twoSettlements : PipelineOutcome where
  observations := [settledImbalance "0" 10, settledImbalance "1" 20]
  events := []
  quarantine := none
  finite := by
    intro o ho v hv
    simp only [List.mem_cons, List.not_mem_nil, or_false] at ho
    rcases ho with rfl | rfl
    · cases hv
      rfl
    · cases hv
      rfl
  refused := fun h => absurd rfl h

/-- A golden with one row, of the daily settlement. -/
def settlementGolden (sourceVersion : Option (Option String)) : GoldenFile where
  fixture := "edge_values"
  checkedBy := "read from the fixture"
  expect :=
    { rows := [⟨1789941600 * second, "PT15M", "system_imbalance", some (.ofInt 10), none,
        sourceVersion, some 1⟩]
      quarantine := none
      rowCount := some 2
      qualityEvents := none }

theorem settlementGolden_accepted (sourceVersion : Option (Option String)) :
    (settlementGolden sourceVersion).Accepted Ascii.text where
  fixture := ⟨'e', "dge_values".toList, (by decide : "edge_values".toList = _), by decide, by decide,
    by decide⟩
  checkedBy := by
    show Ascii.text.strip "read from the fixture" ≠ ""
    decide
  expect :=
    { rows := by
        intro row hrow
        obtain rfl := List.mem_singleton.mp hrow
        exact
          { resolution := ⟨['1', '5'], 'M', (by decide : "PT15M".toList = _), by decide, by decide,
              .inl rfl⟩
            metric := (by decide : "system_imbalance" ≠ "")
            value := by
              intro v hv
              cases hv
              rfl
            periodIndex := by
              intro i hi
              cases hi
              exact le_rfl }
      quarantine := nofun
      something := nofun
      exclusive := fun h => absurd rfl h }

/-- The golden that names the version is reliable. -/
theorem version_named : Reliable Ascii.text minuteText (settlementGolden (some (some "0")))
    twoSettlements oteImbalanceSettlement := by
  refine (reliable_iff (settlementGolden_accepted _)).mpr (.inr fun row hrow a ha b hb hida hidb => ?_)
  obtain rfl := List.mem_singleton.mp hrow
  have honly : ∀ o ∈ twoSettlements.observations, o.sourceVersion = some "0" →
      o = settledImbalance "0" 10 := by decide
  rw [honly a ha (hida.2.2.2.2 _ rfl), honly b hb (hidb.2.2.2.2 _ rfl)]
  exact ⟨.inl rfl, .inr rfl⟩

/-- The golden that does not is green while the monthly settlement has another value; and in the
other order it is not. -/
theorem version_hidden :
    (settlementGolden none).Accepted Ascii.text ∧
    (twoSettlements.observations.map observationIdentity).Nodup ∧
    ¬ Reliable Ascii.text minuteText (settlementGolden none) twoSettlements
      oteImbalanceSettlement := by
  refine ⟨settlementGolden_accepted _, by decide, fun h => ?_⟩
  have hgreen : compare Ascii.text minuteText (settlementGolden none) twoSettlements
      oteImbalanceSettlement = .ok [] := rfl
  have hright := h.sound (by decide) hgreen _ List.mem_cons_self (settledImbalance "1" 20)
    (by decide) (by decide)
  exact absurd hright.1 (by decide)

end Goldens

end EnergyPlatform
