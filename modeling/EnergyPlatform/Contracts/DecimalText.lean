import EnergyPlatform.Contracts.Exact

/-!
# Contracts.DecimalText

The texts of numbers, as messages carry them: they hold no space (`space_not_mem_toText`,
`space_not_mem_toString`), and a finite decimal is written like no other one (`toText_inj`).
-/

namespace EnergyPlatform

theorem not_mem_toDigits {n : Nat} {x : Char} (hx : x.isDigit = false) :
    x ∉ Nat.toDigits 10 n := by
  intro hmem
  rw [Nat.isDigit_of_mem_toDigits (by decide) (by decide) hmem] at hx
  cases hx

theorem not_mem_int {x : Char} (hx : x.isDigit = false) (hminus : x ≠ '-') (z : Int) :
    x ∉ (toString z).toList := by
  have hnat : ∀ n : Nat, x ∉ n.repr.toList := by
    intro n
    rw [Nat.toList_repr]
    exact not_mem_toDigits hx
  cases z with
  | ofNat n => exact hnat n
  | negSucc n =>
    have htext : toString (Int.negSucc n) = "-" ++ (n + 1).repr := rfl
    have hsign : "-".toList = ['-'] := rfl
    rw [htext, String.toList_append, hsign, List.singleton_append, List.mem_cons, not_or]
    exact ⟨hminus, hnat _⟩

theorem space_not_mem_toString (z : Int) : ' ' ∉ (toString z).toList :=
  not_mem_int (by decide) (by decide) z

namespace Decimal

/-! ## The parts of a text -/

/-- The digits with the point at `dot`, as `str` sets them. -/
def layout (digits : List Char) (dot : Int) : List Char :=
  if dot ≤ 0 then '0' :: '.' :: (List.replicate (-dot).toNat '0' ++ digits)
  else if (digits.length : Int) ≤ dot then digits ++ List.replicate (dot - digits.length).toNat '0'
  else digits.take dot.toNat ++ '.' :: digits.drop dot.toNat

/-- The exponent of the scientific notation, absent when it is zero. -/
def exponentText (shift : Int) : String :=
  if shift = 0 then "" else (if 0 ≤ shift then "E+" else "E") ++ toString shift

/-- Where the point stands: at its own place in plain notation, else after the first digit. -/
def pointAt (left e : Int) : Int := if e ≤ 0 ∧ -6 < left then left else 1

theorem toText_finite (n : Bool) (c : Nat) (e : Int) :
    let left : Int := (Nat.toDigits 10 c).length + e
    (finite n c e).toText = (if n then "-" else "") ++
      String.ofList (layout (Nat.toDigits 10 c) (pointAt left e)) ++
        exponentText (left - pointAt left e) := by
  simp only [toText, layout, exponentText, pointAt, sub_eq_zero]
  rfl

theorem pointAt_le {len : Nat} (h : 0 < len) (e : Int) : pointAt (len + e) e ≤ len := by
  unfold pointAt
  split_ifs with he
  · omega
  · omega

theorem toDigits_inj {c c' : Nat} (h : Nat.toDigits 10 c = Nat.toDigits 10 c') : c = c' := by
  rw [← Nat.ofDigitChars_ten_toDigits (n := c), h, Nat.ofDigitChars_ten_toDigits]

theorem exponentText_toList (s : Int) : (exponentText s).toList =
    if s = 0 then [] else 'E' :: (if 0 ≤ s then '+' else '-') :: Nat.toDigits 10 s.natAbs := by
  unfold exponentText
  split_ifs with hzero hpos
  · rfl
  · obtain ⟨n, rfl⟩ := Int.eq_ofNat_of_zero_le hpos
    have htext : toString (n : Int) = n.repr := rfl
    have hE : "E+".toList = ['E', '+'] := rfl
    rw [htext, String.toList_append, Nat.toList_repr, hE]
    rfl
  · obtain ⟨n, rfl⟩ := Int.eq_negSucc_of_lt_zero (not_le.mp hpos)
    have htext : toString (Int.negSucc n) = "-" ++ (n + 1).repr := rfl
    have hE : "E".toList = ['E'] := rfl
    have hminus : "-".toList = ['-'] := rfl
    rw [htext, String.toList_append, String.toList_append, Nat.toList_repr, hE, hminus]
    rfl

theorem exponentText_inj {s s' : Int} (h : exponentText s = exponentText s') : s = s' := by
  have hlist := congrArg String.toList h
  rw [exponentText_toList, exponentText_toList] at hlist
  split_ifs at hlist with hs hs' hpos hpos' hs' hpos'
  · omega
  all_goals simp only [List.cons.injEq, true_and, Char.reduceEq, false_and] at hlist
  · have := toDigits_inj hlist
    omega
  · have := toDigits_inj hlist
    omega

/-! ## Reading the parts back -/

section Layout

variable {c : Nat} {dot : Int}

theorem layout_mem {x : Char} (hx : x.isDigit = false) (hdot : x ≠ '.') :
    x ∉ layout (Nat.toDigits 10 c) dot := by
  have hdigits := not_mem_toDigits (n := c) hx
  have hzero : x ≠ '0' := by
    rintro rfl
    cases hx
  have hzeros : ∀ k, x ∉ List.replicate k '0' := fun k hmem =>
    hzero (List.mem_replicate.mp hmem).2
  unfold layout
  split_ifs
  · simp only [List.mem_cons, List.mem_append, not_or]
    exact ⟨hzero, hdot, hzeros _, hdigits⟩
  · simp only [List.mem_append, not_or]
    exact ⟨hdigits, hzeros _⟩
  · simp only [List.mem_cons, List.mem_append, not_or]
    exact ⟨fun h => hdigits (List.mem_of_mem_take h), hdot,
      fun h => hdigits (List.mem_of_mem_drop h)⟩

theorem layout_value (h : dot ≤ (Nat.toDigits 10 c).length) :
    Nat.ofDigitChars 10 ((layout (Nat.toDigits 10 c) dot).filter fun x => x ≠ '.') 0 = c := by
  have hfilter : ∀ l : List Char, '.' ∉ l → (l.filter fun x => x ≠ '.') = l := by
    intro l hl
    refine List.filter_eq_self.mpr fun x hx => decide_eq_true ?_
    rintro rfl
    exact hl hx
  have hdigits := not_mem_toDigits (n := c) (show '.'.isDigit = false by decide)
  unfold layout
  split_ifs with hneg hlen
  · rw [List.filter_cons_of_pos (by decide), List.filter_cons_of_neg (by decide),
      List.filter_append, hfilter _ hdigits, hfilter _ (by simp [List.mem_replicate]),
      ← List.cons_append, ← List.replicate_succ, Nat.ofDigitChars_append,
      Nat.ofDigitChars_replicate_zero, Nat.mul_zero, Nat.ofDigitChars_ten_toDigits]
  · have hzero : (dot - (Nat.toDigits 10 c).length).toNat = 0 := by omega
    rw [hzero, List.replicate_zero, List.append_nil, hfilter _ hdigits,
      Nat.ofDigitChars_ten_toDigits]
  · rw [List.filter_append, List.filter_cons_of_neg (by decide), ← List.filter_append,
      List.take_append_drop, hfilter _ hdigits, Nat.ofDigitChars_ten_toDigits]

theorem layout_length (h : dot ≤ (Nat.toDigits 10 c).length) :
    (layout (Nat.toDigits 10 c) dot).length =
      if dot ≤ 0 then (-dot).toNat + (Nat.toDigits 10 c).length + 2
      else if dot = (Nat.toDigits 10 c).length then (Nat.toDigits 10 c).length
      else (Nat.toDigits 10 c).length + 1 := by
  unfold layout
  split_ifs with hneg hlen heq heq
  · simp [List.length_append, Nat.add_assoc]
  · rw [List.length_append, List.length_replicate]
    omega
  · omega
  · omega
  · rw [List.length_append, List.length_take, List.length_cons, List.length_drop]
    omega

/-- Inside the digits, the point stands after `dot` of them. -/
theorem layout_point (hpos : 0 < dot) (hlt : dot < (Nat.toDigits 10 c).length) :
    ((layout (Nat.toDigits 10 c) dot).takeWhile fun x => x ≠ '.').length = dot := by
  have hdigits := not_mem_toDigits (n := c) (show '.'.isDigit = false by decide)
  have htake : ∀ x ∈ (Nat.toDigits 10 c).take dot.toNat, decide (x ≠ '.') = true :=
    fun x hx => decide_eq_true fun hdot => hdigits (hdot ▸ List.mem_of_mem_take hx)
  rw [layout, if_neg (not_le.mpr hpos), if_neg (not_le.mpr hlt),
    List.takeWhile_append_of_pos htake, List.takeWhile_cons_of_neg (by decide), List.append_nil,
    List.length_take]
  omega

theorem layout_inj {c' : Nat} {dot' : Int} (h : dot ≤ (Nat.toDigits 10 c).length)
    (h' : dot' ≤ (Nat.toDigits 10 c').length)
    (heq : layout (Nat.toDigits 10 c) dot = layout (Nat.toDigits 10 c') dot') :
    c = c' ∧ dot = dot' := by
  have hc : c = c' := by rw [← layout_value h, heq, layout_value h']
  subst hc
  refine ⟨rfl, ?_⟩
  have hlength := congrArg List.length heq
  simp only [layout_length h, layout_length h'] at hlength
  by_cases hin : 0 < dot ∧ dot < (Nat.toDigits 10 c).length
  · have hin' : 0 < dot' ∧ dot' < (Nat.toDigits 10 c).length := by
      split_ifs at hlength <;> omega
    rw [← layout_point hin.1 hin.2, heq, layout_point hin'.1 hin'.2]
  · split_ifs at hlength <;> omega

theorem layout_ne_nil : layout (Nat.toDigits 10 c) dot ≠ [] := by
  unfold layout
  split_ifs <;> simp [Nat.toDigits_ne_nil]

theorem space_not_mem_toText (d : Decimal) : ' ' ∉ d.toText.toList := by
  cases d with
  | infinity n => cases n <;> decide
  | nan s => cases s <;> decide
  | finite n c e =>
    rw [toText_finite, String.toList_append, String.toList_append, String.toList_ofList,
      exponentText_toList, List.mem_append, List.mem_append, not_or, not_or]
    refine ⟨⟨?_, layout_mem (by decide) (by decide)⟩, ?_⟩
    · cases n <;> decide
    · split_ifs <;> simp [not_mem_toDigits (show ' '.isDigit = false by decide)]

variable {c' : Nat} {dot' : Int} {tail tail' : List Char}

/-- The sign is read first: no digit and no point is a minus. -/
theorem sign_inj {n n' : Bool}
    (h : (if n then "-" else "").toList ++ (layout (Nat.toDigits 10 c) dot ++ tail) =
      (if n' then "-" else "").toList ++ (layout (Nat.toDigits 10 c') dot' ++ tail')) :
    n = n' ∧ layout (Nat.toDigits 10 c) dot ++ tail = layout (Nat.toDigits 10 c') dot' ++ tail' := by
  have hminus : "-".toList = ['-'] := rfl
  have hno : ∀ (c : Nat) (dot : Int) (rest tail : List Char),
      '-' :: rest ≠ layout (Nat.toDigits 10 c) dot ++ tail := by
    intro c dot rest tail heq
    have hmem : '-' ∉ layout (Nat.toDigits 10 c) dot := layout_mem (by decide) (by decide)
    cases hl : layout (Nat.toDigits 10 c) dot with
    | nil => exact layout_ne_nil hl
    | cons x xs =>
      rw [hl, List.cons_append] at heq
      exact hmem (hl ▸ (List.cons.inj heq).1 ▸ List.mem_cons_self)
  cases n with
  | false =>
    cases n' with
    | false => exact ⟨rfl, h⟩
    | true => exact absurd h.symm (hno _ _ _ _)
  | true =>
    cases n' with
    | false => exact absurd h (hno _ _ _ _)
    | true => exact ⟨rfl, (List.cons.inj h).2⟩

/-- The exponent starts at the first `E`. -/
theorem body_inj {s s' : Int}
    (h : layout (Nat.toDigits 10 c) dot ++ (exponentText s).toList =
      layout (Nat.toDigits 10 c') dot' ++ (exponentText s').toList) :
    layout (Nat.toDigits 10 c) dot = layout (Nat.toDigits 10 c') dot' ∧
      exponentText s = exponentText s' := by
  have hbody : ∀ (c : Nat) (dot : Int), ∀ x ∈ layout (Nat.toDigits 10 c) dot,
      decide (x ≠ 'E') = true := fun c dot x hx => decide_eq_true fun hE =>
    layout_mem (show 'E'.isDigit = false by decide) (by decide) (hE ▸ hx)
  have htail : ∀ s : Int, ((exponentText s).toList.takeWhile fun x => x ≠ 'E') = [] := by
    intro s
    rw [exponentText_toList]
    split_ifs <;> simp
  have hfront := congrArg (List.takeWhile fun x => decide (x ≠ 'E')) h
  rw [List.takeWhile_append_of_pos (hbody _ _), List.takeWhile_append_of_pos (hbody _ _), htail,
    htail, List.append_nil, List.append_nil] at hfront
  rw [hfront] at h
  exact ⟨hfront, String.toList_inj.mp (List.append_cancel_left h)⟩

/-- A finite decimal is written like no other one. -/
theorem toText_inj {d d' : Decimal} (hd : d.isFinite) (hd' : d'.isFinite)
    (h : d.toText = d'.toText) : d = d' := by
  obtain ⟨n, c, e, rfl⟩ := isFinite_cases hd
  obtain ⟨n', c', e', rfl⟩ := isFinite_cases hd'
  have hlist := congrArg String.toList h
  simp only [toText_finite, String.toList_append, String.toList_ofList, List.append_assoc] at hlist
  obtain ⟨rfl, hrest⟩ := sign_inj hlist
  obtain ⟨hlayout, hshift⟩ := body_inj hrest
  obtain ⟨rfl, hdot⟩ := layout_inj (pointAt_le Nat.length_toDigits_pos e)
    (pointAt_le Nat.length_toDigits_pos e') hlayout
  have hleft := exponentText_inj hshift
  rw [hdot] at hleft
  have he : e = e' := by omega
  rw [he]

theorem toText_ne_none {d : Decimal} (hd : d.isFinite) : d.toText ≠ "None" := by
  obtain ⟨n, c, e, rfl⟩ := isFinite_cases hd
  intro h
  have hlist := congrArg String.toList h
  simp only [toText_finite, String.toList_append, String.toList_ofList, List.append_assoc] at hlist
  have hNone : "None".toList = ['N', 'o', 'n', 'e'] := rfl
  have hminus : "-".toList = ['-'] := rfl
  cases n with
  | true => simp [hNone, hminus] at hlist
  | false =>
    cases hl : layout (Nat.toDigits 10 c) (pointAt (↑(Nat.toDigits 10 c).length + e) e) with
    | nil => exact layout_ne_nil hl
    | cons x xs =>
      rw [hl, hNone] at hlist
      obtain rfl : x = 'N' := (List.cons.inj hlist).1
      have hmem : 'N' ∈ 'N' :: xs := List.mem_cons_self
      rw [← hl] at hmem
      exact layout_mem (by decide) (by decide) hmem

end Layout

end Decimal

end EnergyPlatform
