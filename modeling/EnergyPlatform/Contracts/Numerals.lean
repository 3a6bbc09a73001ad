import EnergyPlatform.Contracts.Intervals

/-!
# Contracts.Numerals

Splitting texts at a character, and `int` of a text.
-/

namespace EnergyPlatform

/-- A text as the list of its characters. -/
abbrev Text := List Char

/-- `text.split(sep)`. -/
def splitChar (sep : Char) : List Char → List (List Char)
  | [] => [[]]
  | c :: cs =>
    if c = sep then [] :: splitChar sep cs
    else
      match splitChar sep cs with
      | [] => [[c]]
      | part :: parts => (c :: part) :: parts

/-- `text.split(sep, 1)`, when `sep` occurs. -/
def cutAt (sep : Char) : List Char → Option (List Char × List Char)
  | [] => none
  | c :: cs =>
    if c = sep then some ([], cs)
    else (cutAt sep cs).map fun p => (c :: p.1, p.2)

section Split

/-- What follows the last `sep`: `rsplit(sep, 1)[-1]`. -/
def afterLast (sep : Char) (l : List Char) : List Char :=
  (l.reverse.takeWhile fun c => c ≠ sep).reverse

/-- What precedes the last `sep`, and what follows it, when it occurs: `rpartition(sep)`. -/
def cutLast (sep : Char) (l : List Char) : Option (List Char × List Char) :=
  if sep ∈ l then
    some (((l.reverse.dropWhile fun c => c ≠ sep).drop 1).reverse, afterLast sep l)
  else none

variable {sep : Char} {x y : List Char}

theorem takeWhile_reverse (h : sep ∉ y) :
    (x ++ sep :: y).reverse.takeWhile (fun c => c ≠ sep) = y.reverse ∧
      (x ++ sep :: y).reverse.dropWhile (fun c => c ≠ sep) = sep :: x.reverse := by
  have hy : ∀ c ∈ y.reverse, decide (c ≠ sep) = true := fun c hc =>
    decide_eq_true fun hcs => h (hcs ▸ List.mem_reverse.mp hc)
  have hrev : (x ++ sep :: y).reverse = y.reverse ++ sep :: x.reverse := by simp
  rw [hrev, List.takeWhile_append_of_pos hy, List.dropWhile_append_of_pos hy]
  exact ⟨by simp, by simp⟩

theorem afterLast_append (h : sep ∉ y) : afterLast sep (x ++ sep :: y) = y := by
  rw [afterLast, (takeWhile_reverse h).1, List.reverse_reverse]

theorem cutLast_append (h : sep ∉ y) : cutLast sep (x ++ sep :: y) = some (x, y) := by
  rw [cutLast, if_pos (by simp), afterLast_append h, (takeWhile_reverse h).2]
  simp

/-- Two texts split at their first `sep`. -/
theorem split_first {x' y' : List Char} (hx : sep ∉ x) (hx' : sep ∉ x')
    (h : x ++ sep :: y = x' ++ sep :: y') : x = x' ∧ y = y' := by
  induction x generalizing x' with
  | nil =>
    cases x' with
    | nil => exact ⟨rfl, (List.cons.inj h).2⟩
    | cons c cs => exact absurd ((List.cons.inj h).1 ▸ List.mem_cons_self) hx'
  | cons a as ih =>
    cases x' with
    | nil => exact absurd ((List.cons.inj h).1 ▸ List.mem_cons_self) hx
    | cons c cs =>
      obtain ⟨rfl, htail⟩ := List.cons.inj h
      obtain ⟨rfl, hy⟩ := ih (fun hm => hx (List.mem_cons_of_mem _ hm))
        (fun hm => hx' (List.mem_cons_of_mem _ hm)) htail
      exact ⟨rfl, hy⟩

theorem splitChar_nil_sep {sep : Char} (rest : Text) :
    splitChar sep (sep :: rest) = [] :: splitChar sep rest := if_pos rfl

theorem splitChar_ne_nil (sep : Char) (l : Text) : splitChar sep l ≠ [] := by
  cases l with
  | nil => simp [splitChar]
  | cons c cs =>
    unfold splitChar
    split
    · simp
    · split <;> simp

/-- What is before a separator is the first part. -/
theorem splitChar_append {sep : Char} {part : Text} (h : sep ∉ part) (rest : Text) :
    splitChar sep (part ++ sep :: rest) = part :: splitChar sep rest := by
  induction part with
  | nil => exact splitChar_nil_sep rest
  | cons c cs ih =>
    have hne : c ≠ sep := fun heq => h (heq ▸ .head _)
    rw [List.cons_append, splitChar, if_neg hne, ih fun hm => h (.tail _ hm)]

theorem sep_not_mem_part {sep : Char} {l part : Text} (h : part ∈ splitChar sep l) : sep ∉ part := by
  induction l generalizing part with
  | nil =>
    rw [splitChar, List.mem_singleton] at h
    rw [h]
    exact List.not_mem_nil
  | cons c cs ih =>
    unfold splitChar at h
    split at h
    · rcases List.mem_cons.mp h with rfl | h
      · exact List.not_mem_nil
      · exact ih h
    · rename_i hne
      split at h
      · rw [List.mem_singleton.mp h]
        simp [Ne.symm hne]
      · rename_i first parts heq
        rw [heq] at ih
        rcases List.mem_cons.mp h with rfl | h
        · intro hm
          rcases List.mem_cons.mp hm with rfl | hm
          · exact hne rfl
          · exact ih (.head _) hm
        · exact ih (.tail _ h)

/-- The characters of a part are characters of the text. -/
theorem mem_of_part {sep c : Char} {l part : Text} (h : part ∈ splitChar sep l) (hc : c ∈ part) :
    c ∈ l := by
  induction l generalizing part with
  | nil =>
    rw [splitChar, List.mem_singleton] at h
    rw [h] at hc
    cases hc
  | cons d ds ih =>
    unfold splitChar at h
    split at h
    · rcases List.mem_cons.mp h with rfl | h
      · cases hc
      · exact .tail _ (ih h hc)
    · split at h
      · rw [List.mem_singleton.mp h] at hc
        exact List.mem_cons.mpr (.inl (List.mem_singleton.mp hc))
      · rename_i first parts heq
        rw [heq] at ih
        rcases List.mem_cons.mp h with rfl | h
        · rcases List.mem_cons.mp hc with rfl | hc
          · exact .head _
          · exact .tail _ (ih (.head _) hc)
        · exact .tail _ (ih (.tail _ h) hc)

theorem splitChar_of_not_mem {sep : Char} {part : Text} (h : sep ∉ part) :
    splitChar sep part = [part] := by
  induction part with
  | nil => rfl
  | cons c cs ih =>
    have hne : c ≠ sep := fun heq => h (heq ▸ .head _)
    rw [splitChar, if_neg hne, ih fun hm => h (.tail _ hm)]

/-- Parts without the separator, joined and split again. -/
theorem splitChar_intercalate {sep : Char} {part : Text} {parts : List Text}
    (h : ∀ p ∈ part :: parts, sep ∉ p) :
    splitChar sep (List.intercalate [sep] (part :: parts)) = part :: parts := by
  induction parts generalizing part with
  | nil =>
    rw [List.intercalate_singleton]
    exact splitChar_of_not_mem (h part List.mem_cons_self)
  | cons next parts ih =>
    rw [List.intercalate_cons_cons, List.append_assoc, List.singleton_append,
      splitChar_append (h part List.mem_cons_self), ih fun p hp => h p (List.mem_cons_of_mem _ hp)]

theorem cutAt_eq_none_iff {sep : Char} {l : Text} : cutAt sep l = none ↔ sep ∉ l := by
  induction l with
  | nil => simp [cutAt]
  | cons c cs ih =>
    rw [cutAt]
    by_cases hc : c = sep
    · simp [hc]
    · simp [hc, ih, Ne.symm hc]

theorem cutAt_append {sep : Char} {x y : Text} (h : sep ∉ x) :
    cutAt sep (x ++ sep :: y) = some (x, y) := by
  induction x with
  | nil => exact if_pos rfl
  | cons c cs ih =>
    have hne : c ≠ sep := fun heq => h (heq ▸ .head _)
    rw [List.cons_append, cutAt, if_neg hne, ih fun hm => h (.tail _ hm)]
    rfl

end Split

section Int

variable (txt : TextPrims)

/-- Digits with single underscores between them: their value and how many they are. -/
def underscoredDigits (afterDigit : Bool) (n len : Nat) : List Char → Option (Nat × Nat)
  | [] => if afterDigit then some (n, len) else none
  | c :: cs =>
    if c = '_' then if afterDigit then underscoredDigits false n len cs else none
    else
      match txt.digit c with
      | some d => underscoredDigits true (10 * n + d) (len + 1) cs
      | none => none

/-- `int(text)`. -/
def intOfText (text : String) : Except PyError Int :=
  let (neg, body) :=
    match (txt.strip text).toList with
    | '+' :: rest => (false, rest)
    | '-' :: rest => (true, rest)
    | rest => (false, rest)
  match underscoredDigits txt false 0 0 body with
  | some (n, len) => (intOfRun n len).map fun n => if neg then -(n : Int) else n
  | none => .error (.valueError ("invalid literal for int() with base 10: " ++ txt.repr text))

example : splitChar ',' "1-5,7".toList = ["1-5".toList, "7".toList] := by decide

end Int

end EnergyPlatform
