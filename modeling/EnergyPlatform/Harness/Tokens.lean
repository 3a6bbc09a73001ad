import EnergyPlatform.Contracts.Numerals

/-!
# Harness.Tokens

The forbidden tokens of a target's Python files, line by line, against the calls and the loops that
the files hold.

* `search_iff`: a pattern is found in a line exactly when it matches a piece of it.
* `line_of_segment`: a piece of a text without a line end lies in one of its lines.
* `plain_holds`: what is written plainly lies in a line that a pattern of the table matches.
* `plain_reported`: a file with a forbidden node that is written plainly is reported.
-/

namespace EnergyPlatform

namespace Surface

/-! ## Patterns -/

/-- The classes of the interpreter that the patterns read: `\w` and `\s`. -/
structure CharClasses where
  word : Char → Bool
  space : Char → Bool
  word_alphanum : ∀ c : Char, c.isAlphanum = true → word c = true

/-- The regular expressions that the table is written in. -/
inductive Pattern where
  | lit (s : String)
  | space
  | spaces
  | boundary
  | alt (a b : Pattern)
  | seq (a b : Pattern)

/-- A place in a line: the character before it, and the rest of the line. -/
abbrev Place := Option Char × Text

section Match

variable (C : CharClasses)

/-- The places that a run of `\s` ends at. -/
def spaceEnds : Option Char → Text → List Place
  | before, [] => [(before, [])]
  | before, c :: cs =>
    (before, c :: cs) :: if C.space c then spaceEnds (some c) cs else []

def atBoundary (p : Place) : Bool := p.1.any C.word != p.2.head?.any C.word

def Pattern.ends : Pattern → Place → List Place
  | lit s, p =>
    if s.toList.isPrefixOf p.2 then
      [((s.toList.getLast?).or p.1, p.2.drop s.toList.length)] else []
  | space, p =>
    match p.2 with
    | c :: cs => if C.space c then [(some c, cs)] else []
    | [] => []
  | spaces, p => spaceEnds C p.1 p.2
  | boundary, p => if atBoundary C p then [p] else []
  | alt a b, p => a.ends p ++ b.ends p
  | seq a b, p => (a.ends p).flatMap b.ends

def Pattern.searchFrom (re : Pattern) : Option Char → Text → Bool
  | before, [] => re.ends C (before, []) ≠ []
  | before, c :: cs => re.ends C (before, c :: cs) ≠ [] || searchFrom re (some c) cs

def Pattern.search (re : Pattern) (line : Text) : Bool := re.searchFrom C none line

end Match

def forbiddenTokens : List (String × Pattern) :=
  [("lint suppression", .seq (.lit "#") (.seq .spaces (.lit "noqa"))),
   ("type suppression",
     .seq (.lit "#") (.seq .spaces (.seq (.lit "type:") (.seq .spaces (.lit "ignore"))))),
   ("coverage/pragma suppression", .seq (.lit "#") (.seq .spaces (.lit "pragma"))),
   ("test skip", .alt (.seq (.lit "pytest.mark.") (.alt (.lit "skip") (.lit "xfail")))
     (.alt (.lit "pytest.importorskip") (.lit "pytest.skip("))),
   ("dynamic import", .alt (.lit "__import__") (.lit "importlib")),
   ("code execution", .seq .boundary (.seq (.alt (.lit "exec") (.lit "eval")) (.lit "("))),
   ("file access", .seq .boundary (.lit "open(")),
   ("builtins access", .lit "__builtins__"),
   ("hardcoded URL (fetch lives in the manifest)", .alt (.lit "http://") (.lit "https://")),
   ("float() on a raw value (use Decimal, 01 §9)", .seq .boundary (.lit "float(")),
   ("unbounded loop", .seq .boundary (.seq (.lit "while") (.seq (.seq .space .spaces)
     (.seq (.alt (.lit "True") (.lit "1")) .boundary))))]

/-! ## Files -/

def isLineEnd (c : Char) : Bool :=
  decide (10 ≤ c.toNat ∧ c.toNat ≤ 13 ∨ 28 ≤ c.toNat ∧ c.toNat ≤ 30 ∨ c.toNat = 0x85 ∨
    c.toNat = 0x2028 ∨ c.toNat = 0x2029)

/-- `text.splitlines()`, of a text after the start `line` of a line. -/
def splitLines : Text → Text → List Text
  | line, [] => if line = [] then [] else [line]
  | line, '\r' :: '\n' :: cs => line :: splitLines [] cs
  | line, c :: cs => if isLineEnd c then line :: splitLines [] cs else splitLines (line ++ [c]) cs

def checkTokens (C : CharClasses) (path : String) (text : Text) : List String :=
  (splitLines [] text).zipIdx.flatMap fun line =>
    (forbiddenTokens.filter fun token => token.2.search C line.1).map fun token =>
      path ++ ":" ++ toString (line.2 + 1) ++ ": " ++ token.1

/-! ## Searching -/

/-- A pattern matches a piece of a line between the character before it and the rest. -/
inductive Pattern.Matches (C : CharClasses) : Pattern → Option Char → Text → Text → Prop
  | lit (s : String) {before : Option Char} {after : Text} :
      Matches C (.lit s) before s.toList after
  | space {c : Char} {before : Option Char} {after : Text} (hc : C.space c = true) :
      Matches C .space before [c] after
  | spaces {blanks : Text} {before : Option Char} {after : Text}
      (hblanks : ∀ c ∈ blanks, C.space c = true) : Matches C .spaces before blanks after
  | boundary {before : Option Char} {after : Text} (h : atBoundary C (before, after) = true) :
      Matches C .boundary before [] after
  | left {a b : Pattern} {before : Option Char} {seg after : Text}
      (h : Matches C a before seg after) : Matches C (.alt a b) before seg after
  | right {a b : Pattern} {before : Option Char} {seg after : Text}
      (h : Matches C b before seg after) : Matches C (.alt a b) before seg after
  | seq {a b : Pattern} {before : Option Char} {s t after : Text}
      (ha : Matches C a before s (t ++ after))
      (hb : Matches C b ((s.getLast?).or before) t after) :
      Matches C (.seq a b) before (s ++ t) after

section Search

variable {C : CharClasses}

theorem getLast?_cons_or (c : Char) (l : Text) (before : Option Char) :
    ((c :: l).getLast?).or before = (l.getLast?).or (some c) := by
  rw [List.getLast?_cons]
  cases l.getLast? with
  | none => rfl
  | some d => rfl

theorem getLast?_append_or (s t : Text) (before : Option Char) :
    ((s ++ t).getLast?).or before = (t.getLast?).or ((s.getLast?).or before) := by
  rw [List.getLast?_append, Option.or_assoc]

theorem mem_spaceEnds {q : Place} : ∀ {rest : Text} {before : Option Char},
    q ∈ spaceEnds C before rest ↔ ∃ blanks, rest = blanks ++ q.2 ∧
      q.1 = (blanks.getLast?).or before ∧ ∀ c ∈ blanks, C.space c = true := by
  intro rest
  induction rest with
  | nil =>
    intro before
    unfold spaceEnds
    constructor
    · intro hq
      obtain rfl := List.mem_singleton.mp hq
      exact ⟨[], rfl, rfl, fun c hc => absurd hc List.not_mem_nil⟩
    · rintro ⟨blanks, hrest, hbefore, -⟩
      obtain ⟨rfl, hq⟩ := List.append_eq_nil_iff.mp hrest.symm
      exact List.mem_singleton.mpr (Prod.ext hbefore hq)
  | cons c rest ih =>
    intro before
    unfold spaceEnds
    rw [List.mem_cons]
    constructor
    · rintro (rfl | hq)
      · exact ⟨[], rfl, rfl, fun c hc => absurd hc List.not_mem_nil⟩
      · by_cases hc : C.space c = true
        · rw [if_pos hc] at hq
          obtain ⟨blanks, hrest, hbefore, hall⟩ := ih.mp hq
          refine ⟨c :: blanks, by rw [hrest]; rfl, ?_, ?_⟩
          · rw [getLast?_cons_or]
            exact hbefore
          · intro d hd
            rcases List.mem_cons.mp hd with rfl | hd
            · exact hc
            · exact hall d hd
        · rw [if_neg hc] at hq
          exact absurd hq List.not_mem_nil
    · rintro ⟨blanks, hrest, hbefore, hall⟩
      cases blanks with
      | nil => exact .inl (Prod.ext hbefore hrest.symm)
      | cons d blanks =>
        obtain ⟨rfl, htail⟩ := List.cons.inj hrest
        rw [getLast?_cons_or] at hbefore
        rw [if_pos (hall c List.mem_cons_self)]
        exact .inr (ih.mpr ⟨blanks, htail, hbefore,
          fun d hd => hall d (List.mem_cons_of_mem _ hd)⟩)

/-- A place is the end of a piece, from another place, that a pattern matches. -/
def EndsAt (C : CharClasses) (re : Pattern) (before : Option Char) (rest : Text) (q : Place) :
    Prop :=
  ∃ seg, rest = seg ++ q.2 ∧ q.1 = (seg.getLast?).or before ∧ re.Matches C before seg q.2

variable {before : Option Char} {rest : Text} {q : Place} {a b : Pattern}

theorem mem_ends_lit {s : String} : q ∈ (Pattern.lit s).ends C (before, rest) ↔
    EndsAt C (.lit s) before rest q := by
  unfold Pattern.ends
  constructor
  · intro hq
    by_cases hs : s.toList.isPrefixOf rest = true
    · rw [if_pos hs] at hq
      obtain rfl := List.mem_singleton.mp hq
      obtain ⟨after, rfl⟩ := List.isPrefixOf_iff_prefix.mp hs
      refine ⟨s.toList, ?_, rfl, .lit s⟩
      rw [List.drop_left]
    · rw [if_neg hs] at hq
      exact absurd hq List.not_mem_nil
  · rintro ⟨seg, rfl, hbefore, hm⟩
    cases hm
    rw [if_pos (List.isPrefixOf_iff_prefix.mpr (List.prefix_append _ _)), List.drop_left]
    exact List.mem_singleton.mpr (Prod.ext hbefore rfl)

theorem mem_ends_space : q ∈ Pattern.space.ends C (before, rest) ↔
    EndsAt C .space before rest q := by
  unfold Pattern.ends
  constructor
  · intro hq
    cases rest with
    | nil => exact absurd hq List.not_mem_nil
    | cons c rest =>
      by_cases hc : C.space c = true
      · simp only [hc, if_true, List.mem_singleton] at hq
        subst hq
        exact ⟨[c], rfl, rfl, .space hc⟩
      · simp only [hc] at hq
        exact absurd hq List.not_mem_nil
  · rintro ⟨seg, rfl, hbefore, hm⟩
    cases hm with
    | @space c _ _ hc =>
      simp only [List.singleton_append, hc, if_true, List.mem_singleton]
      exact Prod.ext hbefore rfl

theorem mem_ends_spaces : q ∈ Pattern.spaces.ends C (before, rest) ↔
    EndsAt C .spaces before rest q := by
  unfold Pattern.ends
  rw [mem_spaceEnds]
  constructor
  · rintro ⟨blanks, hrest, hbefore, hall⟩
    exact ⟨blanks, hrest, hbefore, .spaces hall⟩
  · rintro ⟨blanks, hrest, hbefore, hm⟩
    cases hm with
    | spaces hall => exact ⟨blanks, hrest, hbefore, hall⟩

theorem mem_ends_boundary : q ∈ Pattern.boundary.ends C (before, rest) ↔
    EndsAt C .boundary before rest q := by
  unfold Pattern.ends
  constructor
  · intro hq
    by_cases hb : atBoundary C (before, rest) = true
    · rw [if_pos hb] at hq
      obtain rfl := List.mem_singleton.mp hq
      exact ⟨[], rfl, rfl, .boundary hb⟩
    · rw [if_neg hb] at hq
      exact absurd hq List.not_mem_nil
  · rintro ⟨seg, rfl, hbefore, hm⟩
    cases hm with
    | boundary hb =>
      rw [List.nil_append, if_pos hb]
      exact List.mem_singleton.mpr (Prod.ext hbefore rfl)

theorem endsAt_alt : EndsAt C (.alt a b) before rest q ↔
    EndsAt C a before rest q ∨ EndsAt C b before rest q := by
  constructor
  · rintro ⟨seg, hrest, hbefore, hm⟩
    cases hm with
    | left hm => exact .inl ⟨seg, hrest, hbefore, hm⟩
    | right hm => exact .inr ⟨seg, hrest, hbefore, hm⟩
  · rintro (⟨seg, hrest, hbefore, hm⟩ | ⟨seg, hrest, hbefore, hm⟩)
    · exact ⟨seg, hrest, hbefore, .left hm⟩
    · exact ⟨seg, hrest, hbefore, .right hm⟩

theorem endsAt_seq : EndsAt C (.seq a b) before rest q ↔
    ∃ p : Place, EndsAt C a before rest p ∧ EndsAt C b p.1 p.2 q := by
  constructor
  · rintro ⟨seg, rfl, hbefore, hm⟩
    cases hm with
    | @seq _ _ _ s t _ ha hb =>
      rw [getLast?_append_or] at hbefore
      refine ⟨((s.getLast?).or before, t ++ q.2), ⟨s, ?_, rfl, ha⟩, ⟨t, rfl, hbefore, hb⟩⟩
      rw [List.append_assoc]
  · rintro ⟨⟨middle, rest'⟩, ⟨s, hrest, hmiddle, ha⟩, ⟨t, hrest', hbefore, hb⟩⟩
    dsimp only at hrest hmiddle ha hrest' hbefore hb
    subst hmiddle hrest'
    refine ⟨s ++ t, by rw [hrest, List.append_assoc], ?_, .seq ha hb⟩
    rw [getLast?_append_or]
    exact hbefore

theorem mem_ends_iff {re : Pattern} :
    q ∈ re.ends C (before, rest) ↔ EndsAt C re before rest q := by
  induction re generalizing before rest q with
  | lit s => exact mem_ends_lit
  | space => exact mem_ends_space
  | spaces => exact mem_ends_spaces
  | boundary => exact mem_ends_boundary
  | alt a b iha ihb => rw [Pattern.ends, List.mem_append, iha, ihb, endsAt_alt]
  | seq a b iha ihb =>
    rw [Pattern.ends, List.mem_flatMap, endsAt_seq]
    exact exists_congr fun p => and_congr iha ihb

theorem ends_ne_nil_iff {re : Pattern} :
    re.ends C (before, rest) ≠ [] ↔
      ∃ seg after, rest = seg ++ after ∧ re.Matches C before seg after := by
  constructor
  · intro h
    obtain ⟨q, hq⟩ := List.exists_mem_of_ne_nil _ h
    obtain ⟨seg, hrest, -, hm⟩ := mem_ends_iff.mp hq
    exact ⟨seg, q.2, hrest, hm⟩
  · rintro ⟨seg, after, hrest, hm⟩
    exact List.ne_nil_of_mem
      (mem_ends_iff.mpr ⟨seg, hrest, rfl, hm⟩ : ((seg.getLast?).or before, after) ∈ _)

theorem searchFrom_iff {re : Pattern} : ∀ {line : Text} {before : Option Char},
    re.searchFrom C before line = true ↔
      ∃ b seg a, line = b ++ (seg ++ a) ∧ re.Matches C ((b.getLast?).or before) seg a := by
  intro line
  induction line with
  | nil =>
    intro before
    unfold Pattern.searchFrom
    rw [decide_eq_true_iff, ends_ne_nil_iff]
    constructor
    · rintro ⟨seg, a, hline, hm⟩
      exact ⟨[], seg, a, hline, hm⟩
    · rintro ⟨b, seg, a, hline, hm⟩
      obtain ⟨rfl, htail⟩ := List.append_eq_nil_iff.mp hline.symm
      exact ⟨seg, a, htail.symm, hm⟩
  | cons c line ih =>
    intro before
    unfold Pattern.searchFrom
    rw [Bool.or_eq_true, decide_eq_true_iff, ends_ne_nil_iff, ih]
    constructor
    · rintro (⟨seg, a, hline, hm⟩ | ⟨b, seg, a, hline, hm⟩)
      · exact ⟨[], seg, a, hline, hm⟩
      · refine ⟨c :: b, seg, a, by rw [hline]; rfl, ?_⟩
        rw [getLast?_cons_or]
        exact hm
    · rintro ⟨b, seg, a, hline, hm⟩
      cases b with
      | nil => exact .inl ⟨seg, a, hline, hm⟩
      | cons d b =>
        obtain ⟨rfl, htail⟩ := List.cons.inj hline
        rw [getLast?_cons_or] at hm
        exact .inr ⟨b, seg, a, htail, hm⟩

theorem search_iff {re : Pattern} {line : Text} : re.search C line = true ↔
    ∃ b seg a, line = b ++ (seg ++ a) ∧ re.Matches C b.getLast? seg a := by
  unfold Pattern.search
  rw [searchFrom_iff]
  simp only [Option.or_none]

end Search

/-! ## Lines -/

section Lines

theorem splitLines_append {seg : Text} (h : ∀ c ∈ seg, isLineEnd c = false) :
    ∀ line rest : Text, splitLines line (seg ++ rest) = splitLines (line ++ seg) rest := by
  induction seg with
  | nil =>
    intro line rest
    rw [List.nil_append, List.append_nil]
  | cons c seg ih =>
    intro line rest
    have hc := h c List.mem_cons_self
    have hcr : c ≠ '\r' := by
      rintro rfl
      revert hc
      decide
    rw [List.cons_append, splitLines, if_neg (by rw [hc]; decide),
      ih fun d hd => h d (List.mem_cons_of_mem _ hd), List.append_assoc]
    · rfl
    · exact fun _ heq _ => hcr heq

/-- The line that has been started is one of the lines, with what follows it up to its end. -/
theorem line_started : ∀ (rest line : Text), line ≠ [] →
    ∃ a, line ++ a ∈ splitLines line rest ∧ (a = [] ∨ a.head? = rest.head?) := by
  intro rest
  induction rest with
  | nil =>
    intro line h
    refine ⟨[], ?_, .inl rfl⟩
    rw [splitLines, if_neg h, List.append_nil]
    exact List.mem_singleton_self _
  | cons c rest ih =>
    intro line h
    by_cases hend : isLineEnd c = true
    · refine ⟨[], ?_, .inl rfl⟩
      rw [List.append_nil]
      unfold splitLines
      split
      · contradiction
      · exact List.mem_cons_self
      · rename_i heq
        cases heq
        rw [if_pos hend]
        exact List.mem_cons_self
    · have hone : ∀ d ∈ [c], isLineEnd d = false := by
        intro d hd
        obtain rfl := List.mem_singleton.mp hd
        simpa using hend
      obtain ⟨a, ha, -⟩ := ih (line ++ [c]) (by simp)
      refine ⟨c :: a, ?_, .inr rfl⟩
      have hstep := splitLines_append hone line rest
      rw [List.singleton_append] at hstep
      rw [hstep]
      rwa [List.append_assoc, List.singleton_append] at ha

/-- A piece without a line end lies in a line, between what stands before and after it. -/
theorem line_of_segment {seg after : Text} (hne : seg ≠ [])
    (h : ∀ c ∈ seg, isLineEnd c = false) : ∀ before line : Text,
    ∃ b a, b ++ (seg ++ a) ∈ splitLines line (before ++ (seg ++ after)) ∧
      (b = [] ∨ b.getLast? = (line ++ before).getLast?) ∧ (a = [] ∨ a.head? = after.head?) := by
  have hhere : ∀ line : Text, ∃ b a, b ++ (seg ++ a) ∈ splitLines line (seg ++ after) ∧
      (b = [] ∨ b.getLast? = line.getLast?) ∧ (a = [] ∨ a.head? = after.head?) := by
    intro line
    obtain ⟨a, ha, hafter⟩ := line_started after (line ++ seg) (by simp [hne])
    refine ⟨line, a, ?_, .inr rfl, hafter⟩
    rw [splitLines_append h, ← List.append_assoc]
    exact ha
  -- after a line end the piece lies in a line that starts later
  have hlater : ∀ (ended before : Text), (∃ b a,
      b ++ (seg ++ a) ∈ splitLines [] (before ++ (seg ++ after)) ∧
        (b = [] ∨ b.getLast? = ([] ++ before).getLast?) ∧ (a = [] ∨ a.head? = after.head?)) →
      ∃ b a, b ++ (seg ++ a) ∈ splitLines [] (before ++ (seg ++ after)) ∧
        (b = [] ∨ b.getLast? = (ended ++ before).getLast?) ∧ (a = [] ∨ a.head? = after.head?) := by
    rintro ended before ⟨b, a, hmem, hb, ha⟩
    refine ⟨b, a, hmem, ?_, ha⟩
    rcases hb with hb | hb
    · exact .inl hb
    · by_cases hbefore : before = []
      · rw [hbefore, List.append_nil, List.getLast?_nil] at hb
        exact .inl (List.getLast?_eq_none_iff.mp hb)
      · rw [List.nil_append] at hb
        rw [List.getLast?_append_of_ne_nil _ hbefore]
        exact .inr hb
  intro before
  induction hn : before.length using Nat.strong_induction_on generalizing before with
  | _ n ih =>
    intro line
    cases before with
    | nil =>
      rw [List.append_nil]
      exact hhere line
    | cons c before =>
      by_cases hcrlf : c = '\r' ∧ ∃ rest, before = '\n' :: rest
      · obtain ⟨rfl, rest, rfl⟩ := hcrlf
        obtain ⟨b, a, hmem, hb, ha⟩ := hlater (line ++ ['\r', '\n']) rest
          (ih rest.length (by rw [← hn]; simp) rest rfl [])
        refine ⟨b, a, ?_, by simpa using hb, ha⟩
        rw [List.cons_append, List.cons_append, splitLines]
        exact List.mem_cons_of_mem _ hmem
      · have hstep : splitLines line (c :: (before ++ (seg ++ after))) =
            if isLineEnd c then line :: splitLines [] (before ++ (seg ++ after))
            else splitLines (line ++ [c]) (before ++ (seg ++ after)) := by
          rw [splitLines]
          intro rest hc hrest
          cases before with
          | nil =>
            cases seg with
            | nil => exact hne rfl
            | cons d seg =>
              obtain ⟨rfl, -⟩ := List.cons.inj hrest
              have := h _ List.mem_cons_self
              revert this
              decide
          | cons d before =>
            obtain ⟨rfl, -⟩ := List.cons.inj hrest
            exact hcrlf ⟨hc, before, rfl⟩
        rw [List.cons_append, hstep]
        by_cases hend : isLineEnd c = true
        · obtain ⟨b, a, hmem, hb, ha⟩ := hlater (line ++ [c]) before
            (ih before.length (by rw [← hn]; simp) before rfl [])
          rw [if_pos hend]
          exact ⟨b, a, List.mem_cons_of_mem _ hmem, by simpa using hb, ha⟩
        · obtain ⟨b, a, hmem, hb, ha⟩ := ih before.length (by rw [← hn]; simp) before rfl
            (line ++ [c])
          rw [if_neg hend]
          exact ⟨b, a, hmem, by simpa using hb, ha⟩

end Lines

/-! ## The syntax tree -/

inductive PyConstant where
  | bool (b : Bool)
  | int (n : Int)
  | other
deriving DecidableEq

/-- A node of the syntax tree: a call whose function is a name, and a `while` loop over a constant,
each with the number of characters before the name or the keyword; or another node. -/
inductive PyNode where
  | call (name : String) (offset : Nat)
  | loop (condition : PyConstant) (offset : Nat)
  | other
deriving DecidableEq

/-- A call of `exec`, `eval`, `open`, `float` or `__import__`, or an unbounded loop. -/
def PyNode.Forbidden : PyNode → Prop
  | call name _ => name ∈ ["exec", "eval", "open", "float", "__import__"]
  | loop condition _ => condition = .bool true ∨ condition = .int 1
  | other => False

instance (node : PyNode) : Decidable node.Forbidden := by
  cases node <;> unfold PyNode.Forbidden <;> infer_instance

def NoWord (C : CharClasses) (c : Option Char) : Prop := c.any C.word = false

/-- The node is written plainly: the name with its parenthesis right after it; `__import__` in its
own letters; `while`, white space within the line, and `True` or `1`. -/
inductive Plain (C : CharClasses) (text : Text) : PyNode → Prop
  | call {name : String} {before after : Text} (hname : name ∈ ["exec", "eval", "open", "float"])
      (htext : text = before ++ ((name ++ "(").toList ++ after))
      (hstart : NoWord C before.getLast?) : Plain C text (.call name before.length)
  | dunder {before after : Text} (htext : text = before ++ ("__import__".toList ++ after)) :
      Plain C text (.call "__import__" before.length)
  | loop {condition : PyConstant} {spelled : String} {before blanks after : Text}
      (hspelled : spelled = "True" ∨ spelled = "1") (hblanks : blanks ≠ [])
      (hspace : ∀ c ∈ blanks, C.space c = true ∧ isLineEnd c = false)
      (htext : text = before ++ (("while".toList ++ (blanks ++ spelled.toList)) ++ after))
      (hstart : NoWord C before.getLast?) (hend : NoWord C after.head?) :
      Plain C text (.loop condition before.length)

section Reported

variable {C : CharClasses} {text : Text}

theorem noWord_of {c d : Option Char} {l : Text} (h : NoWord C d)
    (hc : l = [] ∨ c = d) (hl : l = [] → c = none) : NoWord C c := by
  rcases hc with hnil | rfl
  · rw [hl hnil]
    rfl
  · exact h

theorem noWord_before {b before : Text} (h : NoWord C before.getLast?)
    (hb : b = [] ∨ b.getLast? = before.getLast?) : NoWord C b.getLast? :=
  noWord_of h hb fun hnil => by rw [hnil]; rfl

/-- A word that starts where no word character stands starts at a boundary. -/
theorem matches_word {re : Pattern} {before : Option Char} {c : Char} {seg after : Text}
    (hc : C.word c = true) (hbefore : NoWord C before)
    (hm : re.Matches C before (c :: seg) after) :
    (Pattern.seq .boundary re).Matches C before (c :: seg) after := by
  refine .seq (s := []) (.boundary ?_) hm
  unfold NoWord at hbefore
  unfold atBoundary
  rw [hbefore, List.cons_append, List.head?_cons, Option.any_some, hc]
  rfl

theorem matches_word_end {c : Char} {after : Text} (hc : C.word c = true)
    (hafter : NoWord C after.head?) : Pattern.boundary.Matches C (some c) [] after := by
  refine .boundary ?_
  unfold NoWord at hafter
  unfold atBoundary
  rw [hafter, Option.any_some, hc]
  rfl

theorem free_of_all {s : String} (h : s.toList.all (fun c => !isLineEnd c) = true) :
    ∀ c ∈ s.toList, isLineEnd c = false := by
  intro c hc
  simpa using List.all_eq_true.mp h c hc

/-- Some line of the text holds a piece that a pattern of the table matches. -/
def HoldsForbidden (C : CharClasses) (text : Text) : Prop :=
  ∃ line ∈ splitLines [] text, ∃ token ∈ forbiddenTokens, ∃ b seg a,
    line = b ++ (seg ++ a) ∧ token.2.Matches C b.getLast? seg a

theorem holds_of_segment {before seg after : Text} {token : String × Pattern}
    (hmem : token ∈ forbiddenTokens) (hne : seg ≠ []) (hfree : ∀ c ∈ seg, isLineEnd c = false)
    (htext : text = before ++ (seg ++ after))
    (hmatch : ∀ (b a : Text), (b = [] ∨ b.getLast? = before.getLast?) →
      (a = [] ∨ a.head? = after.head?) → token.2.Matches C b.getLast? seg a) :
    HoldsForbidden C text := by
  obtain ⟨b, a, hline, hb, ha⟩ := @line_of_segment seg after hne hfree before []
  rw [← htext] at hline
  rw [List.nil_append] at hb
  exact ⟨_, hline, token, hmem, b, seg, a, rfl, hmatch b a hb ha⟩

theorem plain_holds {node : PyNode} (h : Plain C text node) : HoldsForbidden C text := by
  have hword : ∀ c : Char, c.isAlphanum = true → C.word c = true := C.word_alphanum
  cases h with
  | @call name before after hname htext hstart =>
    simp only [List.mem_cons, List.not_mem_nil, or_false] at hname
    rcases hname with rfl | rfl | rfl | rfl
    · exact @holds_of_segment C text before _ after ("code execution", .seq .boundary
        (.seq (.alt (.lit "exec") (.lit "eval")) (.lit "("))) (by simp [forbiddenTokens])
        (by decide) (free_of_all (by decide)) htext fun b a hb _ =>
          matches_word (hword 'e' (by decide)) (noWord_before hstart hb)
            (.seq (.left (.lit "exec")) (.lit "("))
    · exact @holds_of_segment C text before _ after ("code execution", .seq .boundary
        (.seq (.alt (.lit "exec") (.lit "eval")) (.lit "("))) (by simp [forbiddenTokens])
        (by decide) (free_of_all (by decide)) htext fun b a hb _ =>
          matches_word (hword 'e' (by decide)) (noWord_before hstart hb)
            (.seq (.right (.lit "eval")) (.lit "("))
    · exact @holds_of_segment C text before _ after ("file access", .seq .boundary (.lit "open("))
        (by simp [forbiddenTokens]) (by decide) (free_of_all (by decide)) htext fun b a hb _ =>
          matches_word (hword 'o' (by decide)) (noWord_before hstart hb) (.lit "open(")
    · exact @holds_of_segment C text before _ after
        ("float() on a raw value (use Decimal, 01 §9)", .seq .boundary (.lit "float("))
        (by simp [forbiddenTokens]) (by decide) (free_of_all (by decide)) htext fun b a hb _ =>
          matches_word (hword 'f' (by decide)) (noWord_before hstart hb) (.lit "float(")
  | @dunder before after htext =>
    exact @holds_of_segment C text before _ after
      ("dynamic import", .alt (.lit "__import__") (.lit "importlib"))
      (by simp [forbiddenTokens]) (by decide) (free_of_all (by decide)) htext fun b a _ _ =>
        .left (.lit "__import__")
  | @loop condition spelled before blanks after hspelled hblanks hspace htext hstart hend =>
    refine @holds_of_segment C text before _ after ("unbounded loop", .seq .boundary
      (.seq (.lit "while") (.seq (.seq .space .spaces)
        (.seq (.alt (.lit "True") (.lit "1")) .boundary)))) (by simp [forbiddenTokens])
      (by simp) ?_ htext fun b a hb ha => ?_
    · intro c hc
      rcases List.mem_append.mp hc with hc | hc
      · exact free_of_all (s := "while") (by decide) c hc
      · rcases List.mem_append.mp hc with hc | hc
        · exact (hspace c hc).2
        · rcases hspelled with rfl | rfl
          · exact free_of_all (s := "True") (by decide) c hc
          · exact free_of_all (s := "1") (by decide) c hc
    · have hafter : NoWord C a.head? := noWord_of hend ha fun hnil => by rw [hnil]; rfl
      have hrun : ∀ p t, (Pattern.seq .space .spaces).Matches C p blanks t := by
        intro p t
        cases blanks with
        | nil => exact absurd rfl hblanks
        | cons d blanks =>
          exact .seq (s := [d]) (.space (hspace d List.mem_cons_self).1)
            (.spaces fun e he => (hspace e (List.mem_cons_of_mem _ he)).1)
      refine matches_word (hword 'w' (by decide)) (noWord_before hstart hb)
        (.seq (.lit "while") (.seq (hrun _ _) ?_))
      rcases hspelled with rfl | rfl
      · exact .seq (s := "True".toList) (t := []) (.left (.lit "True"))
          (matches_word_end (hword 'e' (by decide)) hafter)
      · exact .seq (s := "1".toList) (t := []) (.right (.lit "1"))
          (matches_word_end (hword '1' (by decide)) hafter)

end Reported

/-! ## Files without a reported token -/

section Files

variable {C : CharClasses} {path : String} {text : Text}

theorem checkTokens_eq_nil_iff : checkTokens C path text = [] ↔ ¬ HoldsForbidden C text := by
  unfold checkTokens
  rw [List.flatMap_eq_nil_iff]
  constructor
  · rintro h ⟨line, hline, token, htoken, hpiece⟩
    obtain ⟨i, hi, rfl⟩ := List.mem_iff_getElem.mp hline
    have hmem : ((splitLines [] text)[i], i) ∈ (splitLines [] text).zipIdx :=
      List.mk_mem_zipIdx_iff_getElem?.mpr (List.getElem?_eq_getElem hi)
    have hnone := List.map_eq_nil_iff.mp (h _ hmem)
    exact List.filter_eq_nil_iff.mp hnone token htoken (search_iff.mpr hpiece)
  · rintro h ⟨line, i⟩ hline
    rw [List.map_eq_nil_iff, List.filter_eq_nil_iff]
    intro token htoken hfound
    exact h ⟨line, List.mem_of_getElem? (List.mk_mem_zipIdx_iff_getElem?.mp hline), token, htoken,
      search_iff.mp hfound⟩

/-- If a forbidden node of a file is written plainly, or the file has none, then a file of which
nothing is reported has none. -/
theorem plain_reported (C : CharClasses) (parse : Text → Option (List PyNode)) (path : String)
    (text : Text) (nodes : List PyNode) (h : parse text = some nodes)
    (hplain : (∀ node ∈ nodes, ¬ node.Forbidden) ∨
      ∃ node ∈ nodes, node.Forbidden ∧ Plain C text node) :
    checkTokens C path text = [] → ∀ tree, parse text = some tree →
      ∀ node ∈ tree, ¬ node.Forbidden := by
  intro hquiet tree htree
  obtain rfl := Option.some.inj (h.symm.trans htree)
  rcases hplain with hnone | ⟨node, -, -, hplain⟩
  · exact hnone
  · exact absurd (plain_holds hplain) (checkTokens_eq_nil_iff.mp hquiet)

def asciiTokenClasses : CharClasses where
  word c := c.isAlphanum || c == '_'
  space c := decide (9 ≤ c.toNat ∧ c.toNat ≤ 13 ∨ 28 ≤ c.toNat ∧ c.toNat ≤ 32)
  word_alphanum _ h := Bool.or_eq_true_iff.mpr (.inl h)

/-- The nodes of two one-line files, in the order of `ast.walk`. -/
def walkEval (text : Text) : Option (List PyNode) :=
  if text = "eval(1)\n".toList ∨ text = "eval (1)\n".toList then
    some [.other, .other, .call "eval" 0, .other, .other, .other]
  else none

/-- `eval(1)` is written plainly, so it is reported. -/
theorem eval_reported : Plain asciiTokenClasses "eval(1)\n".toList (.call "eval" 0) ∧
    ¬ checkTokens asciiTokenClasses "p" "eval(1)\n".toList = [] := by
  have hparse : walkEval "eval(1)\n".toList =
      some [.other, .other, .call "eval" 0, .other, .other, .other] := by decide
  have hplain : Plain asciiTokenClasses "eval(1)\n".toList (.call "eval" 0) :=
    @Plain.call _ _ "eval" [] "1)\n".toList (by simp) (by decide) rfl
  refine ⟨hplain, ?_⟩
  intro hquiet
  have hnone := plain_reported asciiTokenClasses walkEval "p" "eval(1)\n".toList _ hparse
    (.inr ⟨.call "eval" 0, by simp, by decide, hplain⟩) hquiet _ hparse
  exact hnone (.call "eval" 0) (by simp) (by decide)

/-- `eval (1)` is a call of `eval` of which nothing is reported. -/
theorem spaced_eval_unreported :
    ¬ (checkTokens asciiTokenClasses "p" "eval (1)\n".toList = [] →
      ∀ tree, walkEval "eval (1)\n".toList = some tree → ∀ node ∈ tree, ¬ node.Forbidden) := by
  intro h
  exact h (by decide) [.other, .other, .call "eval" 0, .other, .other, .other] (by decide)
    (.call "eval" 0) (by simp) (by decide)

end Files

end Surface

end EnergyPlatform
