import EnergyPlatform.Contracts.Numerals

/-!
# Fetch.Secrets

A target's secrets: the environment variable a reference names, and the resolver that lets a target
see only its own. Texts are lists of characters.

`scopes_never_collide`: validated references of different targets never share a variable, and a
reference of one target reads a variable of another exactly when its key spells an underscore.
-/

namespace EnergyPlatform

/-- A reference as it is given, validated or not. -/
structure SecretRef where
  name : Text
  key : Text
deriving DecidableEq

/-- `c.upper()`, of which only the ASCII part is known. -/
def UppersAscii (upper : Char → Text) : Prop := ∀ c : Char, c.toNat < 128 → upper c = [c.toUpper]

def asciiUpper (c : Char) : Text := [c.toUpper]

def lowerChars : Text := "abcdefghijklmnopqrstuvwxyz".toList

def idChars : Text := "abcdefghijklmnopqrstuvwxyz0123456789_".toList

def envChars : Text := "ABCDEFGHIJKLMNOPQRSTUVWXYZ0123456789".toList

def keyChars : Text := envChars ++ lowerChars

/-- `_TARGET_ID`. -/
structure ValidId (t : Text) : Prop where
  head : ∀ c, t.head? = some c → c ∈ lowerChars
  chars : ∀ c ∈ t, c ∈ idChars
  length : 3 ≤ t.length ∧ t.length ≤ 64

/-- `_SECRET_KEY.match`: `$` also matches before a final newline. -/
def KeyAccepted (key : Text) : Prop :=
  ∃ word, word ≠ [] ∧ (∀ c ∈ word, c ∈ keyChars) ∧ (key = word ∨ key = word ++ ['\n'])

def targetSecretName (targetId : Text) : Text :=
  "target-".toList ++ targetId.map fun c => if c = '_' then '-' else c

/-- `re.sub(r"[^A-Z0-9]", "_", c)`. -/
def envChar (c : Char) : Char := if c ∈ envChars then c else '_'

section Resolve

variable (upper : Char → Text)

def envText (text : Text) : Text := (text.flatMap upper).map envChar

def envName (ref : SecretRef) : Text := envText upper (ref.name ++ '_' :: ref.key)

inductive SecretError where
  | missing (msg : Text)
  | outOfScope (msg : Text)
deriving DecidableEq

/-- The value of a variable, unless it is unset or empty. -/
def readVariable (environ : Text → Option Text) (ref : SecretRef) (name : Text) :
    Except SecretError Text :=
  match environ name with
  | some (c :: value) => .ok (c :: value)
  | _ => .error (.missing ("secretRef ".toList ++ ref.name ++ '/' :: ref.key ++
      ": environment variable ".toList ++ name ++ " unset".toList))

/-- `EnvSecretResolver.resolve`. -/
def envResolve (environ : Text → Option Text) (ref : SecretRef) : Except SecretError Text :=
  readVariable environ ref (envName upper ref)

/-- `ScopedSecretResolver.resolve`. -/
def scopedResolve (targetId : Text) (inner : SecretRef → Except SecretError Text)
    (ref : SecretRef) : Except SecretError Text :=
  if ref.name ≠ targetSecretName targetId then
    .error (.outOfScope ("secretRef ".toList ++ ref.name ++ '/' :: ref.key ++
      ": a target may resolve only ".toList ++ targetSecretName targetId ++ "/<key>".toList))
  else inner ref

end Resolve

/-! ## The variable of a reference -/

section Names

variable {upper : Char → Text} (hup : UppersAscii upper)

theorem envText_append (x y : Text) : envText upper (x ++ y) = envText upper x ++ envText upper y := by
  unfold envText
  rw [List.flatMap_append, List.map_append]

theorem mem_envText {text : Text} {c : Char} (h : c ∈ envText upper text) :
    c ∈ envChars ∨ c = '_' := by
  unfold envText at h
  obtain ⟨d, -, rfl⟩ := List.mem_map.mp h
  unfold envChar
  split
  · rename_i hd
    exact .inl hd
  · exact .inr rfl

theorem forall_of_all {α : Type} {l : List α} {P : α → Prop} [DecidablePred P]
    (h : (l.all fun a => decide (P a)) = true) : ∀ a ∈ l, P a :=
  fun a ha => of_decide_eq_true (List.all_eq_true.mp h a ha)

theorem ascii_of_mem {c : Char} (h : c ∈ '-' :: '\n' :: (keyChars ++ idChars)) : c.toNat < 128 := by
  have hall : ∀ c ∈ '-' :: '\n' :: (keyChars ++ idChars), c.toNat < 128 :=
    forall_of_all (by decide)
  exact hall c h

include hup

theorem envText_cons {c : Char} (h : c.toNat < 128) (rest : Text) :
    envText upper (c :: rest) = envChar c.toUpper :: envText upper rest := by
  unfold envText
  rw [List.flatMap_cons, hup c h]
  rfl

theorem envText_ascii {text : Text} (h : ∀ c ∈ text, c.toNat < 128) :
    envText upper text = text.map fun c => envChar c.toUpper := by
  induction text with
  | nil => rfl
  | cons c rest ih =>
    rw [envText_cons hup (h c (.head _)), ih fun d hd => h d (.tail _ hd), List.map_cons]

theorem envText_key {key : Text} (h : ∀ c ∈ key, c ∈ keyChars) :
    envText upper key = key.map Char.toUpper := by
  rw [envText_ascii hup fun c hc => ascii_of_mem (by simp [h c hc])]
  refine List.map_congr_left fun c hc => ?_
  have hall : ∀ c ∈ keyChars, envChar c.toUpper = c.toUpper := forall_of_all (by decide)
  exact hall c (h c hc)

theorem envText_name {t : Text} (h : ∀ c ∈ t, c ∈ idChars) :
    envText upper (targetSecretName t) = "TARGET_".toList ++ t.map Char.toUpper := by
  unfold targetSecretName
  have hchars : ∀ c ∈ idChars, (if c = '_' then '-' else c).toNat < 128 ∧
      envChar (if c = '_' then '-' else c).toUpper = c.toUpper := forall_of_all (by decide)
  rw [envText_append, envText_ascii hup (forall_of_all (by decide)), envText_ascii hup ?_,
    List.map_map]
  · refine congrArg₂ _ (by decide) (List.map_congr_left fun c hc => ?_)
    exact (hchars c (h c hc)).2
  · intro c hc
    obtain ⟨d, hd, rfl⟩ := List.mem_map.mp hc
    exact (hchars d (h d hd)).1

/-- The variable of a target's own reference. -/
theorem envName_own {t key : Text} (h : ∀ c ∈ t, c ∈ idChars) :
    envName upper ⟨targetSecretName t, key⟩ =
      "TARGET_".toList ++ (t.map Char.toUpper ++ '_' :: envText upper key) := by
  unfold envName
  dsimp only
  rw [envText_append, envText_name hup h, envText_cons hup (by decide), List.append_assoc]
  rfl

end Names

/-! ## Injectivity -/

section Injective

theorem toUpper_injective {t t' : Text} (h : ∀ c ∈ t, c ∈ idChars) (h' : ∀ c ∈ t', c ∈ idChars)
    (heq : t.map Char.toUpper = t'.map Char.toUpper) : t = t' := by
  have hinj : ∀ c ∈ idChars, ∀ d ∈ idChars, c.toUpper = d.toUpper → c = d := by
    have hall : (idChars.all fun c => idChars.all fun d =>
        decide (c.toUpper = d.toUpper → c = d)) = true := by decide +kernel
    exact fun c hc => forall_of_all (List.all_eq_true.mp hall c hc)
  induction t generalizing t' with
  | nil =>
    rw [List.map_nil, eq_comm, List.map_eq_nil_iff] at heq
    exact heq.symm
  | cons c rest ih =>
    cases t' with
    | nil => cases heq
    | cons d rest' =>
      obtain ⟨hc, hrest⟩ := List.cons.inj heq
      rw [hinj c (h c (.head _)) d (h' d (.head _)) hc,
        ih (fun x hx => h x (.tail _ hx)) (fun x hx => h' x (.tail _ hx)) hrest]

theorem key_no_underscore {key : Text} (h : ∀ c ∈ key, c ∈ keyChars) :
    '_' ∉ key.map Char.toUpper := by
  intro hmem
  obtain ⟨c, hc, heq⟩ := List.mem_map.mp hmem
  have hne : ∀ c ∈ keyChars, c.toUpper ≠ '_' := forall_of_all (by decide)
  exact hne c (h c hc) heq

/-- Two texts split at their last separator. -/
theorem split_last {sep : Char} {x y x' y' : Text} (hy : sep ∉ y) (hy' : sep ∉ y')
    (h : x ++ sep :: y = x' ++ sep :: y') : x = x' ∧ y = y' := by
  have hcut := cutLast_append (x := x) hy
  rw [h, cutLast_append hy'] at hcut
  obtain ⟨rfl, rfl⟩ := Prod.mk.inj (Option.some.inj hcut)
  exact ⟨rfl, rfl⟩

variable {upper : Char → Text} {t t' : Text}

/-- A variable names the target and the key it is of. -/
theorem own_variable_inj (ht : ∀ c ∈ t, c ∈ idChars) (ht' : ∀ c ∈ t', c ∈ idChars) {k k' : Text}
    (hk : '_' ∉ k) (hk' : '_' ∉ k')
    (h : t.map Char.toUpper ++ '_' :: k = t'.map Char.toUpper ++ '_' :: k') : t = t' ∧ k = k' := by
  obtain ⟨hname, hkey⟩ := split_last hk hk' h
  exact ⟨toUpper_injective ht ht' hname, hkey⟩

theorem envText_accepted (hup : UppersAscii upper) {word key : Text}
    (hword : ∀ c ∈ word, c ∈ keyChars) (hkey : key = word ∨ key = word ++ ['\n']) :
    (key = word ∧ envText upper key = word.map Char.toUpper) ∨
      (key = word ++ ['\n'] ∧ envText upper key = word.map Char.toUpper ++ ['_']) := by
  rcases hkey with rfl | rfl
  · exact .inl ⟨rfl, envText_key hup hword⟩
  · refine .inr ⟨rfl, ?_⟩
    rw [envText_append, envText_key hup hword, envText_cons hup (by decide)]
    rfl

theorem upper_of_keyChars (hup : UppersAscii upper) {word : Text}
    (h : ∀ c ∈ word, c ∈ keyChars) : word.flatMap upper = word.map Char.toUpper := by
  induction word with
  | nil => rfl
  | cons c rest ih =>
    rw [List.flatMap_cons, hup c (ascii_of_mem (by simp [h c (.head _)])),
      ih fun d hd => h d (.tail _ hd)]
    rfl

/-- Over the references that validation accepts, a variable has one target and one key. -/
theorem accepted_injective (hup : UppersAscii upper) (ht : ValidId t) (ht' : ValidId t')
    {key key' : Text} (hkey : KeyAccepted key) (hkey' : KeyAccepted key')
    (h : envName upper ⟨targetSecretName t, key⟩ = envName upper ⟨targetSecretName t', key'⟩) :
    t = t' ∧ key.flatMap upper = key'.flatMap upper := by
  obtain ⟨word, hne, hword, hkey⟩ := hkey
  obtain ⟨word', hne', hword', hkey'⟩ := hkey'
  rw [envName_own hup ht.chars, envName_own hup ht'.chars] at h
  have h := List.append_cancel_left h
  have hk := key_no_underscore hword
  have hk' := key_no_underscore hword'
  -- a variable whose key ended in a newline ends in an underscore
  have hmixed : ∀ {x y w w' : Text}, '_' ∉ w → w ≠ [] →
      x ++ '_' :: w ≠ y ++ '_' :: (w' ++ ['_']) := by
    intro x y w w' hw hne heq
    have heq' : x ++ '_' :: w = (y ++ '_' :: w') ++ '_' :: [] := by simpa using heq
    exact hne (split_last hw List.not_mem_nil heq').2
  have hnil : word.map Char.toUpper ≠ [] := fun hn => hne (List.map_eq_nil_iff.mp hn)
  have hnil' : word'.map Char.toUpper ≠ [] := fun hn => hne' (List.map_eq_nil_iff.mp hn)
  rcases envText_accepted hup hword hkey with ⟨rfl, hread⟩ | ⟨rfl, hread⟩
  · rcases envText_accepted hup hword' hkey' with ⟨rfl, hread'⟩ | ⟨rfl, hread'⟩
    · rw [hread, hread'] at h
      rw [upper_of_keyChars hup hword, upper_of_keyChars hup hword']
      exact own_variable_inj ht.chars ht'.chars hk hk' h
    · rw [hread, hread'] at h
      exact absurd h (hmixed hk hnil)
  · rcases envText_accepted hup hword' hkey' with ⟨rfl, hread'⟩ | ⟨rfl, hread'⟩
    · rw [hread, hread'] at h
      exact absurd h.symm (hmixed hk' hnil')
    · rw [hread, hread'] at h
      have h' : (t.map Char.toUpper ++ '_' :: word.map Char.toUpper) ++ ['_'] =
          (t'.map Char.toUpper ++ '_' :: word'.map Char.toUpper) ++ ['_'] := by simpa using h
      obtain ⟨rfl, hsame⟩ := own_variable_inj ht.chars ht'.chars hk hk' (List.append_cancel_right h')
      refine ⟨rfl, ?_⟩
      rw [List.flatMap_append, List.flatMap_append, upper_of_keyChars hup hword,
        upper_of_keyChars hup hword', hsame]

end Injective

/-! ## What a target may read -/

section Scope

variable (upper : Char → Text)

/-- The variables of a target: those of its own secret name with an alphanumeric key. -/
def OwnVariable (t name : Text) : Prop :=
  ∃ key, key ≠ [] ∧ (∀ c ∈ key, c ∈ keyChars) ∧ name = envName upper ⟨targetSecretName t, key⟩

/-- A reference, resolved for one target, is refused, or it reads one variable of the platform's
targets that is no variable of another of them. -/
def Isolated (t : Text) (ref : SecretRef) : Prop :=
  (∀ environ, ∃ msg, scopedResolve t (envResolve upper environ) ref = .error (.outOfScope msg)) ∨
    ∃ name, "TARGET_".toList <+: name ∧
      (∀ environ, scopedResolve t (envResolve upper environ) ref = readVariable environ ref name) ∧
      ∀ t', ValidId t' → t' ≠ t → ¬ OwnVariable upper t' name

/-- The variable is spelt as one of a longer target id: the key has an underscore, something
follows its last one, and the id with what precedes it is not too long. -/
def SpellsLongerId (t : Text) (key : Text) : Prop :=
  ∃ front last, cutLast '_' (envText upper key) = some (front, last) ∧ last ≠ [] ∧
    t.length + 1 + front.length ≤ 64

variable {upper} (hup : UppersAscii upper) {t : Text} (ht : ValidId t)

theorem scoped_refuses {ref : SecretRef} (h : ref.name ≠ targetSecretName t)
    (inner : SecretRef → Except SecretError Text) :
    ∃ msg, scopedResolve t inner ref = .error (.outOfScope msg) :=
  ⟨_, if_pos h⟩

theorem scoped_reads {ref : SecretRef} (h : ref.name = targetSecretName t)
    (environ : Text → Option Text) :
    scopedResolve t (envResolve upper environ) ref =
      readVariable environ ref (envName upper ref) := if_neg (not_not.mpr h)

/-- A text with a separator, cut at the last one. -/
theorem exists_last {sep : Char} {l : Text} (h : sep ∈ l) :
    ∃ x y, l = x ++ sep :: y ∧ sep ∉ y := by
  induction l with
  | nil => cases h
  | cons c rest ih =>
    by_cases hrest : sep ∈ rest
    · obtain ⟨x, y, rfl, hy⟩ := ih hrest
      exact ⟨c :: x, y, rfl, hy⟩
    · rcases List.mem_cons.mp h with rfl | hm
      · exact ⟨[], rest, rfl, hrest⟩
      · exact absurd hm hrest

include hup ht

theorem collides_of_spells {key : Text} (h : SpellsLongerId upper t key) :
    ∃ t', ValidId t' ∧ t' ≠ t ∧
      OwnVariable upper t' (envName upper ⟨targetSecretName t, key⟩) := by
  obtain ⟨front, last, hcut, hne, hlen⟩ := h
  have hmem : '_' ∈ envText upper key := by
    unfold cutLast at hcut
    split at hcut
    · assumption
    · cases hcut
  obtain ⟨x, y, hkey, hy⟩ := exists_last hmem
  rw [hkey, cutLast_append hy] at hcut
  obtain ⟨rfl, rfl⟩ := Prod.mk.inj (Option.some.inj hcut)
  have hchars : ∀ c ∈ x ++ '_' :: y, c ∈ envChars ∨ c = '_' :=
    fun c hc => mem_envText (hkey ▸ hc)
  have hlow : ∀ c ∈ x, c.toLower ∈ idChars ∧ c.toLower.toUpper = c := by
    intro c hc
    have hall : ∀ c ∈ '_' :: envChars, c.toLower ∈ idChars ∧ c.toLower.toUpper = c :=
      forall_of_all (by decide)
    rcases hchars c (by simp [hc]) with hin | rfl
    · exact hall c (.tail _ hin)
    · exact hall '_' (.head _)
  have hlast : ∀ c ∈ y, c ∈ keyChars ∧ c.toUpper = c := by
    intro c hc
    have hall : ∀ c ∈ envChars, c ∈ keyChars ∧ c.toUpper = c := forall_of_all (by decide)
    rcases hchars c (by simp [hc]) with hin | rfl
    · exact hall c hin
    · exact absurd hc hy
  have hids : ∀ c ∈ t ++ '_' :: x.map Char.toLower, c ∈ idChars := by
    intro c hc
    rcases List.mem_append.mp hc with hc | hc
    · exact ht.chars c hc
    · rcases List.mem_cons.mp hc with rfl | hc
      · decide
      · obtain ⟨d, hd, rfl⟩ := List.mem_map.mp hc
        exact (hlow d hd).1
  refine ⟨t ++ '_' :: x.map Char.toLower, ⟨?_, hids, ?_⟩, ?_, y, hne, fun c hc => (hlast c hc).1, ?_⟩
  · intro c hc
    refine ht.head c ?_
    cases t with
    | nil => exact absurd ht.length.1 (by decide)
    | cons d rest => exact hc
  · have h3 := ht.length.1
    simp only [List.length_append, List.length_cons, List.length_map]
    omega
  · intro heq
    have hl := congrArg List.length heq
    simp only [List.length_append, List.length_cons] at hl
    omega
  · rw [envName_own hup ht.chars, envName_own hup hids, hkey,
      envText_key hup fun c hc => (hlast c hc).1]
    have hmap : ∀ {l : Text} {g : Char → Char}, (∀ c ∈ l, g c = c) → l.map g = l :=
      fun hg => (List.map_congr_left hg).trans (List.map_id _)
    have hx : (x.map Char.toLower).map Char.toUpper = x := by
      rw [List.map_map]
      exact hmap fun c hc => (hlow c hc).2
    have hunder : Char.toUpper '_' = '_' := by decide
    rw [List.map_append, List.map_cons, hx, hmap fun c hc => (hlast c hc).2, hunder]
    simp only [List.append_assoc, List.cons_append]

theorem spells_of_collides {key : Text} {t' : Text} (ht' : ValidId t') (hne : t' ≠ t)
    (h : OwnVariable upper t' (envName upper ⟨targetSecretName t, key⟩)) :
    SpellsLongerId upper t key := by
  obtain ⟨key', hkey', hchars, heq⟩ := h
  rw [envName_own hup ht.chars, envName_own hup ht'.chars, envText_key hup hchars] at heq
  have heq := List.append_cancel_left heq
  have hk' := key_no_underscore hchars
  by_cases hmem : '_' ∈ envText upper key
  · obtain ⟨x, y, hkey, hy⟩ := exists_last hmem
    rw [hkey] at heq
    have heq' : (t.map Char.toUpper ++ '_' :: x) ++ '_' :: y =
        t'.map Char.toUpper ++ '_' :: key'.map Char.toUpper := by simpa using heq
    obtain ⟨hname, rfl⟩ := split_last hy hk' heq'
    refine ⟨x, key'.map Char.toUpper, ?_, ?_, ?_⟩
    · rw [hkey, cutLast_append hy]
    · exact fun hn => hkey' (List.map_eq_nil_iff.mp hn)
    · have hl := congrArg List.length hname
      simp only [List.length_append, List.length_cons, List.length_map] at hl
      have hlen := ht'.length.2
      omega
  · exact absurd (own_variable_inj ht.chars ht'.chars hmem hk' heq).1.symm hne

theorem isolated_iff (ref : SecretRef) : Isolated upper t ref ↔
    ref.name ≠ targetSecretName t ∨ ¬ SpellsLongerId upper t ref.key := by
  by_cases hname : ref.name = targetSecretName t
  · have href : envName upper ref = envName upper ⟨targetSecretName t, ref.key⟩ := by
      rw [← hname]
    rw [or_iff_right (not_not.mpr hname)]
    constructor
    · intro h hspells
      obtain ⟨t', ht', hne, hown⟩ := collides_of_spells hup ht hspells
      rcases h with h | ⟨name, -, hread, hnone⟩
      · obtain ⟨msg, hmsg⟩ := h fun _ => some ['x']
        rw [scoped_reads hname] at hmsg
        cases hmsg
      · -- the variable that is read is the one the reference names
        have hvar : name = envName upper ref := by
          by_contra hne'
          have h₁ := hread fun n => if n = name then some ['x'] else none
          rw [scoped_reads hname] at h₁
          unfold readVariable at h₁
          dsimp only at h₁
          rw [if_neg (Ne.symm hne'), if_pos rfl] at h₁
          cases h₁
        rw [← href, ← hvar] at hown
        exact hnone t' ht' hne hown
    · intro h
      refine .inr ⟨envName upper ref, ?_, scoped_reads hname, ?_⟩
      · rw [href, envName_own hup ht.chars]
        exact List.prefix_append _ _
      · intro t' ht' hne hown
        exact h (spells_of_collides hup ht ht' hne (href ▸ hown))
  · exact ⟨fun _ => .inl hname, fun _ => .inl fun environ => scoped_refuses hname _⟩

end Scope

/-- Validated references of different targets never share a variable. A reference of a target that
was not validated is isolated from the other targets exactly when it is refused for its name or its
key does not spell the rest of a longer target id. -/
theorem scopes_never_collide {upper : Char → Text} (hup : UppersAscii upper) :
    (∀ t t' key key', ValidId t → ValidId t' → KeyAccepted key → KeyAccepted key' →
      envName upper ⟨targetSecretName t, key⟩ = envName upper ⟨targetSecretName t', key'⟩ →
      t = t' ∧ key.flatMap upper = key'.flatMap upper) ∧
    ∀ t, ValidId t → ∀ ref, Isolated upper t ref ↔
      ref.name ≠ targetSecretName t ∨ ¬ SpellsLongerId upper t ref.key := by
  constructor
  · intro t t' key key' ht ht' hkey hkey' h
    exact accepted_injective hup ht ht' hkey hkey' h
  · intro t ht ref
    exact isolated_iff hup ht ref

theorem asciiUpper_uppers : UppersAscii asciiUpper := fun _ _ => rfl

theorem head_of_all {t : Text} (h : (t.head?.all fun c => decide (c ∈ lowerChars)) = true) :
    ∀ c, t.head? = some c → c ∈ lowerChars := by
  intro c hc
  rw [hc] at h
  exact of_decide_eq_true h

/-- The target `ote` reads the variable of the target `ote_dam`. -/
theorem ote_reads_ote_dam : ∃ t t' ref, ValidId t ∧ ValidId t' ∧ t' ≠ t ∧
    (∀ environ, scopedResolve t (envResolve asciiUpper environ) ref =
      readVariable environ ref (envName asciiUpper ref)) ∧
    OwnVariable asciiUpper t' (envName asciiUpper ref) ∧ ¬ Isolated asciiUpper t ref := by
  have ht : ValidId "ote".toList :=
    ⟨head_of_all (by decide), forall_of_all (by decide), by decide⟩
  have ht' : ValidId "ote_dam".toList :=
    ⟨head_of_all (by decide), forall_of_all (by decide), by decide⟩
  have hown : OwnVariable asciiUpper "ote_dam".toList
      (envName asciiUpper ⟨targetSecretName "ote".toList, "dam_key".toList⟩) :=
    ⟨"key".toList, by decide, forall_of_all (by decide), by decide⟩
  refine ⟨"ote".toList, "ote_dam".toList, ⟨targetSecretName "ote".toList, "dam_key".toList⟩, ht, ht',
    by decide, scoped_reads rfl, hown, ?_⟩
  rw [isolated_iff asciiUpper_uppers ht]
  intro h
  rcases h with h | h
  · exact h rfl
  · exact h (spells_of_collides asciiUpper_uppers ht ht' (by decide) hown)

theorem ote_key_isolated :
    Isolated asciiUpper "ote".toList ⟨targetSecretName "ote".toList, "key".toList⟩ := by
  have ht : ValidId "ote".toList :=
    ⟨head_of_all (by decide), forall_of_all (by decide), by decide⟩
  refine ((scopes_never_collide asciiUpper_uppers).2 _ ht _).mpr ?_
  refine .inr ?_
  intro h
  obtain ⟨front, last, hcut, -⟩ := h
  have hnone : cutLast '_' (envText asciiUpper "key".toList) = none := by decide
  cases hnone.symm.trans hcut

end EnergyPlatform
