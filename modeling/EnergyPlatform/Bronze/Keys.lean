import EnergyPlatform.Bronze.CaptureLog
import EnergyPlatform.Contracts.Calendar
import EnergyPlatform.Contracts.Numerals

/-!
# Bronze.Keys

The textual keys of the capture log, and what is read back from them.

`entryKey_inj`: a key determines target, stamp and attempt. `target_prefix` and `stamp_prefix`: the
prefixes under which the entries of a target and of a stamp are listed take no other key.
`keyInstant_key`: the stamp and the attempt are parsed back.
-/

namespace EnergyPlatform

/-! ## Keys -/

/-- `_TARGET_ID`: a small letter, then 2 to 63 small letters, digits and underscores. -/
def validTarget (t : String) : Bool :=
  match t.toList with
  | c :: rest => c.isLower && rest.all (fun c => c.isLower || c.isDigit || c = '_') &&
      2 ≤ rest.length && rest.length ≤ 63
  | [] => false

namespace CaptureId

/-- `captures/<target_id>/`. -/
def targetPrefix (target : String) : String := "captures/" ++ target ++ "/"

/-- `{utc:%Y}/{utc:%m}/{utc:%d}/`. -/
def dayPath (stamp : Int) : String :=
  let c := civilOfDay (stamp / 86400)
  pad 4 c.year.toNat ++ "/" ++ pad 2 c.month ++ "/" ++ pad 2 c.day ++ "/"

def entryKey (c : CaptureId) : String :=
  targetPrefix c.target ++ dayPath c.stamp ++ stampText c.stamp ++ "_" ++ toString c.attempt ++
    ".json"

/-- The stamp of the calendar and the target of a manifest. -/
structure Valid (c : CaptureId) : Prop where
  target : validTarget c.target = true
  stamp : datetimeMin ≤ c.stamp * second ∧ c.stamp * second ≤ datetimeMax

end CaptureId

theorem not_mem_validTarget {t : String} (h : validTarget t = true) {c : Char}
    (hc : (c.isLower || c.isDigit || c = '_') = false) : c ∉ t.toList := by
  unfold validTarget at h
  cases hl : t.toList with
  | nil => exact List.not_mem_nil
  | cons a rest =>
    rw [hl] at h
    simp only [Bool.and_eq_true, List.all_eq_true] at h
    obtain ⟨⟨⟨ha, hrest⟩, -⟩, -⟩ := h
    intro hm
    rcases List.mem_cons.mp hm with rfl | hm
    · simp [ha] at hc
    · rw [hrest c hm] at hc
      cases hc

/-! ## Prefixes -/

def startsWith (front key : String) : Bool := front.toList.isPrefixOf key.toList

theorem startsWith_iff {front key : String} : startsWith front key = true ↔ ∃ x, key = front ++ x := by
  unfold startsWith
  rw [List.isPrefixOf_iff_prefix]
  constructor
  · rintro ⟨l, hl⟩
    refine ⟨String.ofList l, String.toList_inj.mp ?_⟩
    rw [String.toList_append, String.toList_ofList, hl]
  · rintro ⟨x, rfl⟩
    exact ⟨x.toList, (String.toList_append ..).symm⟩

namespace CaptureId

/-- `entry_key(target_id, scheduled_for, 1).rsplit("_", 1)[0] + "_"`. -/
def stampPrefix (target : String) (stamp : Int) : String :=
  let key := entryKey ⟨target, stamp, 1⟩
  match cutLast '_' key.toList with
  | some (front, _) => String.ofList front ++ "_"
  | none => key ++ "_"

theorem stampPrefix_eq (target : String) (stamp : Int) :
    stampPrefix target stamp = targetPrefix target ++ dayPath stamp ++ stampText stamp ++ "_" := by
  have hkey : (entryKey ⟨target, stamp, 1⟩).toList =
      (targetPrefix target ++ dayPath stamp ++ stampText stamp).toList ++ '_' :: "1.json".toList := by
    unfold entryKey
    simp only [String.toList_append, List.append_assoc]
    rfl
  unfold stampPrefix
  simp only [hkey]
  rw [cutLast_append (by decide)]
  simp only
  rw [String.ofList_toList]

variable {c : CaptureId} {t : String} {s : Int}

theorem day_of_stamp (h : datetimeMin ≤ s * second ∧ s * second ≤ datetimeMax) :
    dateMin ≤ s / 86400 ∧ s / 86400 ≤ dateMax := by
  unfold datetimeMin datetimeMax second at h
  unfold dateMin dateMax
  unfold Instant Duration Day at *
  omega

theorem dayPath_length (h : datetimeMin ≤ s * second ∧ s * second ≤ datetimeMax) :
    (dayPath s).toList.length = 11 := by
  obtain ⟨h₀, h₁, h₂, h₃⟩ := civil_bounds (day_of_stamp h)
  unfold dayPath
  simp only [String.toList_append, List.length_append]
  rw [pad_length (by decide) (by omega), pad_length (by decide) (by omega),
    pad_length (by decide) (by omega)]
  rfl

theorem stampText_length (h : datetimeMin ≤ s * second ∧ s * second ≤ datetimeMax) :
    (stampText s).toList.length = 18 := by
  unfold stampText
  simp only [String.toList_append, List.length_append]
  rw [isoDate_length (day_of_stamp h), pad_length (by decide) (by omega),
    pad_length (by decide) (by omega), pad_length (by decide) (by omega)]
  rfl

/-- Target and rest of a text under a target's directory. -/
theorem split_target {t t' x y : String} (ht : validTarget t = true) (ht' : validTarget t' = true)
    (h : targetPrefix t ++ x = targetPrefix t' ++ y) : t = t' ∧ x = y := by
  unfold targetPrefix at h
  simp only [String.append_assoc] at h
  have hrest := congrArg String.toList (append_parts rfl h).2
  simp only [String.toList_append] at hrest
  have hno : '/' ∉ t.toList := not_mem_validTarget ht (by decide)
  have hno' : '/' ∉ t'.toList := not_mem_validTarget ht' (by decide)
  obtain ⟨htt, hxy⟩ := split_first hno hno' hrest
  exact ⟨String.toList_inj.mp htt, String.toList_inj.mp hxy⟩

/-- The keys under a target's directory are those of the target. -/
theorem target_prefix (hc : c.Valid) (ht : validTarget t = true) :
    startsWith (targetPrefix t) c.entryKey = true ↔ c.target = t := by
  rw [startsWith_iff]
  constructor
  · rintro ⟨x, hx⟩
    unfold entryKey at hx
    simp only [String.append_assoc] at hx
    exact (split_target hc.target ht hx).1
  · rintro rfl
    unfold entryKey
    simp only [String.append_assoc]
    exact ⟨_, rfl⟩

/-- The keys with the prefix of a stamp are those of the target and the stamp. -/
theorem stamp_prefix (hc : c.Valid) (ht : validTarget t = true)
    (hs : datetimeMin ≤ s * second ∧ s * second ≤ datetimeMax) :
    startsWith (stampPrefix t s) c.entryKey = true ↔ c.target = t ∧ c.stamp = s := by
  rw [startsWith_iff, stampPrefix_eq]
  constructor
  · rintro ⟨x, hx⟩
    unfold entryKey at hx
    simp only [String.append_assoc] at hx
    obtain ⟨htarget, hx⟩ := split_target hc.target ht hx
    obtain ⟨-, hx⟩ := append_parts ((dayPath_length hc.stamp).trans (dayPath_length hs).symm) hx
    obtain ⟨hstamp, -⟩ :=
      append_parts ((stampText_length hc.stamp).trans (stampText_length hs).symm) hx
    exact ⟨htarget, stampText_inj hc.stamp hs hstamp⟩
  · rintro ⟨rfl, rfl⟩
    unfold entryKey
    simp only [String.append_assoc]
    exact ⟨_, rfl⟩

/-- A key determines target, stamp and attempt. -/
theorem entryKey_inj {c c' : CaptureId} (hc : c.Valid) (hc' : c'.Valid)
    (h : c.entryKey = c'.entryKey) : c = c' := by
  unfold entryKey at h
  simp only [String.append_assoc] at h
  obtain ⟨htarget, h⟩ := split_target hc.target hc'.target h
  obtain ⟨-, h⟩ := append_parts ((dayPath_length hc.stamp).trans (dayPath_length hc'.stamp).symm) h
  obtain ⟨hstamp, h⟩ :=
    append_parts ((stampText_length hc.stamp).trans (stampText_length hc'.stamp).symm) h
  have hrest := congrArg String.toList (append_parts rfl h).2
  simp only [String.toList_append] at hrest
  have hattempt := String.toList_inj.mp (List.append_inj_left' hrest rfl)
  have hnumber := congrArg (fun s : String => Ascii.number s.toList) hattempt
  simp only [number_toString, Option.some.injEq] at hnumber
  obtain ⟨target, stamp, attempt⟩ := c
  obtain ⟨target', stamp', attempt'⟩ := c'
  obtain rfl : target = target' := htarget
  obtain rfl : stamp = stamp' := stampText_inj hc.stamp hc'.stamp hstamp
  obtain rfl : attempt = attempt' := hnumber
  rfl

end CaptureId

/-! ## Parsing a key -/

/-- `datetime.strptime(stamp, "%Y-%m-%dT%H%M%SZ")`, in seconds, of a stamp of full width. -/
def parseStamp (l : List Char) : Option Int :=
  match l.drop 10 with
  | ['T', a, b, c, d, e, f, 'Z'] => do
    let date ← Ascii.dateOfIso (String.ofList (l.take 10))
    let h ← Ascii.number [a, b]
    let m ← Ascii.number [c, d]
    let s ← Ascii.number [e, f]
    if h < 24 ∧ m < 60 ∧ s < 60 then some (date * 86400 + h * 3600 + m * 60 + s) else none
  | _ => none

/-- `name[: -len(".json")]`, of a name that ends so. -/
def jsonStem (name : List Char) : Option (List Char) :=
  if name.drop (name.length - 5) = ".json".toList then some (name.take (name.length - 5)) else none

/-- `key_instant`: `(scheduled_for, attempt)` from an entry key. -/
def keyInstant (key : String) : Option (Instant × Nat) := do
  let stem ← jsonStem (afterLast '/' key.toList)
  let (stamp, attempt) ← cutLast '_' stem
  let s ← parseStamp stamp
  let n ← Ascii.number attempt
  some (s * second, n)

theorem jsonStem_append (l : List Char) : jsonStem (l ++ ".json".toList) = some l := by
  have hlen : (l ++ ".json".toList).length - 5 = l.length := by simp
  rw [jsonStem, hlen, if_pos List.drop_left, List.take_left]

/-- The parts of a day give its seconds back. -/
theorem seconds_of_parts {s : Int} {n : Nat} (hn : (n : Int) = s % 86400) :
    s / 86400 * 86400 + ((n / 3600 : Nat) : Int) * 3600 + ((n / 60 % 60 : Nat) : Int) * 60 +
      ((n % 60 : Nat) : Int) = s := by
  omega

/-- A stamp is parsed back. -/
theorem parseStamp_stampText {s : Int}
    (h : datetimeMin ≤ s * second ∧ s * second ≤ datetimeMax) :
    parseStamp (stampText s).toList = some s := by
  have hday := CaptureId.day_of_stamp h
  have hnonneg : (((s % 86400).toNat : Nat) : Int) = s % 86400 :=
    Int.toNat_of_nonneg (Int.emod_nonneg s (by decide))
  have hlt : (s % 86400).toNat < 86400 := by omega
  generalize hn : (s % 86400).toNat = n at hnonneg hlt
  obtain ⟨a, b, hh⟩ := pad_two (by omega : n / 3600 < 100)
  obtain ⟨c, d, hm⟩ := pad_two (by omega : n / 60 % 60 < 100)
  obtain ⟨e, f, hs⟩ := pad_two (by omega : n % 60 < 100)
  have hlist : (stampText s).toList =
      (isoDate (s / 86400)).toList ++ ['T', a, b, c, d, e, f, 'Z'] := by
    unfold stampText
    simp only [String.toList_append, hn, hh, hm, hs, List.append_assoc]
    rfl
  have hhour := hh ▸ @number_pad 2 (n / 3600)
  have hminute := hm ▸ @number_pad 2 (n / 60 % 60)
  have hsecond := hs ▸ @number_pad 2 (n % 60)
  have hdrop : (stampText s).toList.drop 10 = ['T', a, b, c, d, e, f, 'Z'] := by
    rw [hlist]
    exact List.drop_left' (isoDate_length hday)
  have htake : String.ofList ((stampText s).toList.take 10) = isoDate (s / 86400) := by
    rw [hlist, List.take_left' (isoDate_length hday), String.ofList_toList]
  have hbounds : n / 3600 < 24 ∧ n / 60 % 60 < 60 ∧ n % 60 < 60 := by omega
  unfold parseStamp
  rw [hdrop]
  simp only [htake, dateOfIso_isoDate hday, hhour, hminute, hsecond, Option.bind_eq_bind,
    Option.bind_some]
  rw [if_pos hbounds]
  exact congrArg some (seconds_of_parts hnonneg)

theorem not_mem_toString {c : Char} (hc : c.isDigit = false) (n : Nat) :
    c ∉ (toString n).toList := by
  intro hm
  have hdigits : (toString n).toList = Nat.toDigits 10 n := by simp
  rw [hdigits] at hm
  rw [Nat.isDigit_of_mem_toDigits (by decide) (by decide) hm] at hc
  cases hc

/-- A stamp is of digits, hyphens, `T` and `Z`. -/
theorem not_mem_stampText {c : Char} (hc : c.isDigit = false) (hno : c ∉ ['-', 'T', 'Z'])
    (s : Int) : c ∉ (stampText s).toList := by
  have hpad : ∀ width n, c ∉ (pad width n).toList := fun width n hm => by
    rw [isDigit_pad hm] at hc
    cases hc
  simp only [List.mem_cons, List.not_mem_nil, or_false, not_or] at hno
  obtain ⟨hhyphen, hT, hZ⟩ := hno
  unfold stampText isoDate
  simp only [String.toList_append, List.mem_append, hpad, false_or, or_false, not_or]
  exact ⟨⟨⟨by simpa using hhyphen, by simpa using hhyphen⟩, by simpa using hT⟩, by simpa using hZ⟩

theorem keyInstant_of_name {c : CaptureId} (hc : c.Valid) {front : List Char}
    (hkey : c.entryKey.toList = front ++ '/' ::
      ((stampText c.stamp).toList ++ '_' :: ((toString c.attempt).toList ++ ".json".toList))) :
    keyInstant c.entryKey = some (c.stamp * second, c.attempt) := by
  have hslash : '/' ∉ (stampText c.stamp).toList ++
      '_' :: ((toString c.attempt).toList ++ ".json".toList) := by
    have h₁ := not_mem_stampText (by decide : '/'.isDigit = false) (by decide) c.stamp
    have h₂ := not_mem_toString (by decide : '/'.isDigit = false) c.attempt
    simp only [List.mem_append, List.mem_cons, h₁, h₂, false_or, not_or]
    exact ⟨by decide, by decide⟩
  have hname : (stampText c.stamp).toList ++
      '_' :: ((toString c.attempt).toList ++ ".json".toList) =
      ((stampText c.stamp).toList ++ '_' :: (toString c.attempt).toList) ++ ".json".toList := by
    rw [List.append_assoc, List.cons_append]
  have hno := not_mem_toString (by decide : '_'.isDigit = false) c.attempt
  unfold keyInstant
  rw [hkey, afterLast_append hslash, hname, jsonStem_append]
  simp only [Option.bind_eq_bind, Option.bind_some, cutLast_append hno,
    parseStamp_stampText hc.stamp, number_toString]

/-- The instant and the attempt are parsed back from a key. -/
theorem keyInstant_key {c : CaptureId} (hc : c.Valid) :
    keyInstant c.entryKey = some (c.stamp * second, c.attempt) := by
  obtain ⟨front, hfront⟩ : ∃ front : String,
      CaptureId.targetPrefix c.target ++ CaptureId.dayPath c.stamp = front ++ "/" := by
    unfold CaptureId.dayPath
    exact ⟨_, (String.append_assoc ..).symm⟩
  refine @keyInstant_of_name _ hc front.toList ?_
  unfold CaptureId.entryKey
  have hslash : "/".toList = ['/'] := rfl
  have hunder : "_".toList = ['_'] := rfl
  rw [hfront]
  simp only [String.toList_append, List.append_assoc, hslash, hunder, List.cons_append,
    List.nil_append]

/-! ## Parsing a capture id -/

/-- `target_id, stamp, attempt = capture_id.rsplit(":", 2)`, with the stamp and the attempt read. -/
def CaptureId.ofText (text : String) : Option CaptureId := do
  let (front, attempt) ← cutLast ':' text.toList
  let (target, stamp) ← cutLast ':' front
  let s ← parseStamp stamp
  let n ← Ascii.number attempt
  some ⟨String.ofList target, s, n⟩

/-- `capture_id.split(":", 1)[0]`. -/
def targetOfText (text : String) : String :=
  String.ofList (text.toList.takeWhile fun c => c ≠ ':')

theorem CaptureId.text_toList (c : CaptureId) : c.text.toList =
    c.target.toList ++ ':' :: ((stampText c.stamp).toList ++ ':' :: (toString c.attempt).toList) := by
  have hcolon : ":".toList = [':'] := rfl
  unfold CaptureId.text
  simp only [String.toList_append, List.append_assoc, hcolon, List.cons_append, List.nil_append]

/-- A capture id is parsed back. -/
theorem CaptureId.ofText_text {c : CaptureId} (hc : c.Valid) : ofText c.text = some c := by
  have hattempt := not_mem_toString (by decide : ':'.isDigit = false) c.attempt
  have hstamp := not_mem_stampText (by decide : ':'.isDigit = false) (by decide) c.stamp
  have hlast := @cutLast_append ':' (c.target.toList ++ ':' :: (stampText c.stamp).toList) _ hattempt
  unfold ofText
  rw [text_toList]
  rw [List.append_assoc, List.cons_append] at hlast
  simp only [hlast, Option.bind_eq_bind, Option.bind_some, cutLast_append hstamp,
    parseStamp_stampText hc.stamp, number_toString, String.ofList_toList]

theorem targetOfText_text {c : CaptureId} (hc : c.Valid) : targetOfText c.text = c.target := by
  have hno := not_mem_validTarget hc.target (by decide : (':'.isLower || ':'.isDigit || _) = false)
  have htarget : ∀ a ∈ c.target.toList, decide (a ≠ ':') = true := fun a ha =>
    decide_eq_true fun h => hno (h ▸ ha)
  unfold targetOfText
  rw [CaptureId.text_toList, List.takeWhile_append_of_pos htarget]
  simp

/-- A capture id determines target, stamp and attempt. -/
theorem CaptureId.text_inj {c c' : CaptureId} (hc : c.Valid) (hc' : c'.Valid)
    (h : c.text = c'.text) : c = c' := by
  have hread := ofText_text hc
  rw [h, ofText_text hc'] at hread
  exact (Option.some.inj hread).symm

end EnergyPlatform
