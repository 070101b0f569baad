import SqlOptima.PythonText
import SqlOptima.PostgresLexing

namespace SqlOptima.SchemaMapper

open PythonText PostgresLexing

/-!
# The renaming of schema qualifiers
-/

/-- What `re` takes for a word character, and how it ignores case. -/
structure Alphabet where
  word : Char → Bool
  fold : Char → Char
  word_of_fold : ∀ c d, fold c = fold d → word c = word d
  word_dot : word '.' = false
  word_quote : word '\'' = false
  word_doubleQuote : word '"' = false
  word_backslash : word '\\' = false

structure Entry where
  source : Text
  target : Text
  deriving DecidableEq

variable (alphabet : Alphabet)

/-! ## Substitution -/

/-- `\b` -/
def boundary (before next : Option Char) : Bool :=
  before.any alphabet.word != next.any alphabet.word

/-- `(?<!["'\w])` -/
def clear (before : Option Char) : Bool :=
  before.all fun c => c ≠ '"' && c ≠ '\'' && !alphabet.word c

/-- `(?<!["'\w])\b` + the escaped name + `\b(?=\.)`, ignoring case. -/
def found (source : Text) (before : Option Char) (s : Text) : Bool :=
  clear alphabet before && boundary alphabet before s.head? &&
    (s.take source.length).map alphabet.fold == source.map alphabet.fold &&
    boundary alphabet ((s.take source.length).getLast?.or before) (s.drop source.length).head? &&
    (s.drop source.length).head? == some '.'

def octal (c : Char) : Bool := '0' ≤ c && c ≤ '7'

def octalValue (digits : Text) : Nat := digits.foldl (fun n c => 8 * n + (c.toNat - '0'.toNat)) 0

/-- What an escape of a replacement stands for, after its backslash, and how long it is. There is no
group but the whole match. -/
def escape (matched : Text) : Text → Option (Text × Nat)
  | [] => none
  | c :: rest =>
      if c = 'g' then
        let name := (rest.drop 1).takeWhile (· ≠ '>')
        if rest.head? = some '<' ∧ '>' ∈ rest ∧ name ≠ [] ∧ name.all (· = '0') then
          some (matched, name.length + 3)
        else none
      else if c = '0' then
        let digits := (rest.take 2).takeWhile octal
        some ([Char.ofNat (octalValue digits % 256)], digits.length + 1)
      else if c.isDigit then
        let digits := c :: rest.take 2
        if digits.length = 3 ∧ digits.all octal ∧ octalValue digits ≤ 255 then
          some ([Char.ofNat (octalValue digits)], 3)
        else none
      else if c = 'a' then some ([Char.ofNat 7], 1)
      else if c = 'b' then some ([Char.ofNat 8], 1)
      else if c = 'f' then some ([Char.ofNat 12], 1)
      else if c = 'n' then some (['\n'], 1)
      else if c = 'r' then some (['\r'], 1)
      else if c = 't' then some (['\t'], 1)
      else if c = 'v' then some ([Char.ofNat 11], 1)
      else if c = '\\' then some (['\\'], 1)
      else if c.isAlpha then none
      else some (['\\', c], 1)

/-- A replacement is a template: a backslash begins an escape, and a bad one is an error. -/
def expandFrom (matched : Text) : Nat → Text → Option Text
  | _, [] => some []
  | skip + 1, _ :: rest => expandFrom matched skip rest
  | 0, c :: rest =>
      if c = '\\' then do
        let (text, n) ← escape matched rest
        let tail ← expandFrom matched n rest
        return text ++ tail
      else do
        let tail ← expandFrom matched 0 rest
        return c :: tail

def expand (matched target : Text) : Option Text := expandFrom matched 0 target

def matcher (e : Entry) : Matcher := fun before rest =>
  if found alphabet e.source before rest then
    some ((expand (rest.take e.source.length) e.target).getD e.target, e.source.length)
  else none

/-- `pattern.sub(target, s)`; the template is read also when nothing is found. -/
def sub (e : Entry) (s : Text) : Option Text := do
  let _ ← expand [] e.target
  return substitute (matcher alphabet e) s

/-- `SchemaMapper.apply` -/
def apply (mapping : List Entry) (sql : Text) : Option Text :=
  mapping.foldlM (fun result e => sub alphabet e result) sql

/-! ## Simultaneous renaming -/

/-- Names that differ in case only. -/
def same (name name' : Text) : Bool := name.map alphabet.fold == name'.map alphabet.fold

def rename (mapping : List Entry) (name : Text) : Text :=
  ((mapping.find? fun e => same alphabet name e.source).map Entry.target).getD name

/-- A word before a dot, with the character before it and the place it is in. -/
structure Site where
  name : Text
  before : Option Char
  place : Place

/-- The word stands for itself: it is not quoted, and no end of a name with a dollar sign. -/
def Site.qualifier (q : Site) : Prop := q.place = .code ∧ q.before ≠ some '$'

instance (q : Site) : Decidable q.qualifier := inferInstanceAs (Decidable (_ ∧ _))

def renamedFrom (mapping : List Entry) :
    Place → Option Char → List Segment → Text → Text
  | _, _, [], last => last
  | place, before, g :: gs, last =>
      (if g.mark = '.' ∧ Site.qualifier ⟨g.word, before, place⟩ then
        rename alphabet mapping g.word
      else g.word) ++
        g.mark :: renamedFrom mapping (place.step g.word g.mark (render gs last).head?)
          (some g.mark) gs last

/-- Every qualifier that is a key becomes its target, and all else is kept. -/
def renamed (mapping : List Entry) (sql : Text) : Text :=
  renamedFrom alphabet mapping .code none (segments alphabet.word [] sql).1
    (segments alphabet.word [] sql).2

def sitesFrom : Place → Option Char → List Segment → Text → List Site
  | _, _, [], _ => []
  | place, before, g :: gs, last =>
      let later := sitesFrom (place.step g.word g.mark (render gs last).head?) (some g.mark) gs last
      if g.mark = '.' then ⟨g.word, before, place⟩ :: later else later

def sites (sql : Text) : List Site :=
  sitesFrom .code none (segments alphabet.word [] sql).1 (segments alphabet.word [] sql).2

def Entry.onName (e : Entry) (name : Text) : Text :=
  if same alphabet name e.source then e.target else name

/-- What the entry's pattern makes of a word, by the characters before and after it. -/
def Entry.onWord (e : Entry) (before : Option Char) (word : Text) (next : Char) : Text :=
  if clear alphabet before && next == '.' then e.onName alphabet word else word

/-- What the entry's pattern makes of a text that a dot comes after. -/
def Entry.onText (e : Entry) : Option Char → Text → Text → Text
  | before, word, [] => e.onWord alphabet before word '.'
  | before, word, c :: rest =>
      if alphabet.word c then Entry.onText e before (word ++ [c]) rest
      else e.onWord alphabet before word c ++ c :: Entry.onText e (some c) [] rest

/-- The entries, one after another, on a name before a dot. -/
def follow (mapping : List Entry) (before : Option Char) (name : Text) : Text :=
  mapping.foldl (fun name e => e.onText alphabet before [] name) name

/-- The words of a text that a dot comes after, also after the whole text, each with the character
before it. -/
def wordsFrom : Option Char → Text → Text → List (Option Char × Text)
  | before, word, [] => [(before, word)]
  | before, word, c :: rest =>
      if alphabet.word c then wordsFrom before (word ++ [c]) rest
      else if c = '.' then (before, word) :: wordsFrom (some c) [] rest
      else wordsFrom (some c) [] rest

/-- No entry has another target for a word of the text that a dot comes after and no quote comes
before. -/
def Untouched (mapping : List Entry) (before : Option Char) (text : Text) : Prop :=
  ∀ e ∈ mapping, ∀ w ∈ wordsFrom alphabet before [] text,
    clear alphabet w.1 → same alphabet w.2 e.source → e.target = w.2

instance (mapping : List Entry) (before : Option Char) (text : Text) :
    Decidable (Untouched alphabet mapping before text) :=
  inferInstanceAs (Decidable (∀ e ∈ mapping, ∀ w ∈ wordsFrom alphabet before [] text, _))

/-- The target that a name gets is left alone by the entries after its own. -/
def KeptTarget (before : Option Char) (name : Text) : List Entry → Prop
  | [] => True
  | e :: later =>
      if same alphabet name e.source then Untouched alphabet later before e.target
      else KeptTarget before name later

instance decidableKeptTarget (before : Option Char) (name : Text) :
    (mapping : List Entry) → Decidable (KeptTarget alphabet before name mapping)
  | [] => isTrue trivial
  | e :: later =>
      have := decidableKeptTarget before name later
      inferInstanceAs (Decidable (if same alphabet name e.source then
        Untouched alphabet later before e.target else KeptTarget alphabet before name later))

/-- No entry has another target for a word that is no qualifier, none renames what a qualifier has
become, and a qualifier that stands directly after a quote has no other target. -/
def Site.Kept (mapping : List Entry) (q : Site) : Prop :=
  if q.qualifier then
    if clear alphabet q.before then KeptTarget alphabet q.before q.name mapping
    else rename alphabet mapping q.name = q.name
  else Untouched alphabet mapping q.before q.name

instance (mapping : List Entry) (q : Site) : Decidable (q.Kept alphabet mapping) :=
  inferInstanceAs (Decidable (if q.qualifier then
    if clear alphabet q.before then KeptTarget alphabet q.before q.name mapping
    else rename alphabet mapping q.name = q.name
  else Untouched alphabet mapping q.before q.name))

/-- No entry gives back what an entry before it renames. -/
def NoReturn (mapping : List Entry) : Prop :=
  mapping.Pairwise fun e later => ¬ same alphabet later.target e.source

/-- The entries leave in the place of the name what the renaming puts there. -/
def Site.Settled (mapping : List Entry) (q : Site) : Prop :=
  follow alphabet mapping q.before q.name =
    if q.qualifier then rename alphabet mapping q.name else q.name

/-- A name that needs no quotes. -/
def Name (name : Text) : Prop := name ≠ [] ∧ ∀ c ∈ name, alphabet.word c = true

variable {alphabet} {e : Entry} {mapping : List Entry} {before : Option Char} {c : Char}
  {name name' source word rest last : Text}

/-! ## One entry -/

attribute [local simp] KeptTarget in
attribute [local simp] renamedFrom in
attribute [local simp] sitesFrom in
attribute [local simp] wordsFrom in
theorem same_iff : same alphabet name name' = true ↔
    name.map alphabet.fold = name'.map alphabet.fold := beq_iff_eq

theorem length_eq_of_same (h : same alphabet name name' = true) : name.length = name'.length := by
  have hlength := congrArg List.length (same_iff.mp h)
  rwa [List.length_map, List.length_map] at hlength

theorem word_of_same (h : same alphabet name name' = true) (hname : ∀ c ∈ name', alphabet.word c) :
    ∀ c ∈ name, alphabet.word c = true := by
  intro c hc
  obtain ⟨d, hd, heq⟩ := List.mem_map.mp (same_iff.mp h ▸ List.mem_map_of_mem hc)
  rw [alphabet.word_of_fold c d heq.symm]
  exact hname d hd

theorem found_of_before (h : before.any alphabet.word = true) (s : Text) :
    found alphabet source before s = false := by
  cases before with
  | none => cases h
  | some d =>
      have hword : alphabet.word d = true := h
      simp [found, clear, hword]

theorem found_of_dot (h : '.' ∉ rest) (before : Option Char) :
    found alphabet source before rest = false := by
  have hhead : (rest.drop source.length).head? ≠ some '.' := by
    intro hhead
    exact h (List.mem_of_mem_drop (List.mem_of_head? hhead))
  rw [found, beq_eq_false_iff_ne.mpr hhead, Bool.and_false]

/-- A name is found where the whole word is the name, and a dot comes after it. -/
theorem found_append (hsource : Name alphabet source) (hne : word ≠ [])
    (hword : ∀ d ∈ word, alphabet.word d = true) (hc : alphabet.word c = false)
    (hbefore : before.any alphabet.word = false) :
    found alphabet source before (word ++ c :: rest) =
      (clear alphabet before && c == '.' && same alphabet word source) := by
  rw [Bool.eq_iff_iff]
  simp only [found, Bool.and_eq_true]
  constructor
  · rintro ⟨⟨⟨⟨hclear, -⟩, hsame⟩, -⟩, hdot⟩
    have hsame' : same alphabet ((word ++ c :: rest).take source.length) source = true := hsame
    have hall := word_of_same hsame' hsource.2
    have hlength := length_eq_of_same hsame'
    rw [List.length_take] at hlength
    have hle : source.length ≤ word.length := by
      by_contra hlt
      have hmem : c ∈ (word ++ c :: rest).take source.length := by
        rw [List.take_append, List.mem_append]
        obtain ⟨n, hn⟩ : ∃ n, source.length - word.length = n + 1 :=
          ⟨source.length - word.length - 1, by omega⟩
        rw [hn, List.take_succ_cons]
        exact Or.inr List.mem_cons_self
      rw [hall c hmem] at hc
      cases hc
    have hge : word.length ≤ source.length := by
      by_contra hlt
      rw [List.drop_append_of_le_length hle, beq_iff_eq] at hdot
      obtain ⟨tail, htail⟩ := List.head?_eq_some_iff.mp hdot
      have hmem : '.' ∈ word.drop source.length := by
        cases hd : word.drop source.length with
        | nil =>
            have hzero := congrArg List.length hd
            rw [List.length_drop, List.length_nil] at hzero
            omega
        | cons d ds =>
            rw [hd] at htail
            rw [(List.cons.inj htail).1]
            exact List.mem_cons_self
      have hdotWord := hword '.' (List.mem_of_mem_drop hmem)
      rw [alphabet.word_dot] at hdotWord
      cases hdotWord
    have heq : source.length = word.length := Nat.le_antisymm hle hge
    rw [heq, List.take_left] at hsame'
    rw [heq, List.drop_left, beq_iff_eq] at hdot
    exact ⟨⟨hclear, beq_iff_eq.mpr (Option.some.inj hdot)⟩, hsame'⟩
  · rintro ⟨⟨hclear, hdot⟩, hsame⟩
    obtain rfl := beq_iff_eq.mp hdot
    obtain ⟨d, word, rfl⟩ := List.exists_cons_of_ne_nil hne
    have hlast : ((d :: word).getLast?.or before).any alphabet.word = true := by
      rw [List.getLast?_eq_some_getLast hne, Option.some_or, Option.any_some]
      exact hword _ (List.getLast_mem hne)
    rw [← length_eq_of_same hsame, List.take_left, List.drop_left]
    refine ⟨⟨⟨⟨hclear, ?_⟩, hsame⟩, ?_⟩, rfl⟩
    · simp [boundary, hbefore, hword d List.mem_cons_self]
    · simp [boundary, hlast, hc]

theorem found_of_mark (hsource : Name alphabet source) (hc : alphabet.word c = false)
    (before : Option Char) : found alphabet source before (c :: rest) = false := by
  obtain ⟨d, source, rfl⟩ := List.exists_cons_of_ne_nil hsource.1
  have hne : alphabet.fold c ≠ alphabet.fold d := by
    intro heq
    rw [alphabet.word_of_fold c d heq, hsource.2 d List.mem_cons_self] at hc
    cases hc
  simp [found, hne]

theorem expandFrom_of_plain {target : Text} (h : '\\' ∉ target) (matched : Text) :
    expandFrom matched 0 target = some target := by
  induction target with
  | nil => rfl
  | cons c rest ih =>
      have hc : c ≠ '\\' := fun heq => h (heq ▸ List.mem_cons_self)
      rw [expandFrom, if_neg hc, ih (List.not_mem_of_not_mem_cons h)]
      rfl

/-- The key is a name, and the target is no template. -/
structure Entry.Literal (alphabet : Alphabet) (e : Entry) : Prop where
  source : Name alphabet e.source
  target : '\\' ∉ e.target

theorem matcher_eq (he : e.Literal alphabet) (before : Option Char) (s : Text) :
    matcher alphabet e before s =
      if found alphabet e.source before s then some (e.target, e.source.length) else none := by
  rw [matcher, expand, expandFrom_of_plain he.target, Option.getD_some]

/-- Within a word nothing is found. -/
theorem substituteFrom_word {d : Char} (hd : alphabet.word d = true)
    (hword : ∀ c ∈ word, alphabet.word c = true) (rest : Text) :
    substituteFrom (matcher alphabet e) 0 (some d) (word ++ rest) =
      word ++ substituteFrom (matcher alphabet e) 0 (some (word.getLast?.getD d)) rest := by
  induction word generalizing d with
  | nil => rfl
  | cons c word ih =>
      obtain ⟨hc, hword⟩ := List.forall_mem_cons.mp hword
      rw [List.cons_append, substituteFrom, matcher, @found_of_before _ (some d) _ hd,
        if_neg Bool.false_ne_true, ih hc hword, List.getLast?_cons]
      rfl

theorem substituteFrom_mark (he : e.Literal alphabet) (hc : alphabet.word c = false)
    (before : Option Char) (rest : Text) :
    substituteFrom (matcher alphabet e) 0 before (c :: rest) =
      c :: substituteFrom (matcher alphabet e) 0 (some c) rest := by
  rw [substituteFrom, matcher, found_of_mark he.source hc, if_neg Bool.false_ne_true]

theorem substituteFrom_onWord (he : e.Literal alphabet)
    (hword : ∀ c ∈ word, alphabet.word c = true) (hc : alphabet.word c = false)
    (hbefore : before.any alphabet.word = false) (rest : Text) :
    substituteFrom (matcher alphabet e) 0 before (word ++ c :: rest) =
      e.onWord alphabet before word c ++
        c :: substituteFrom (matcher alphabet e) 0 (some c) rest := by
  rw [Entry.onWord, Entry.onName]
  cases word with
  | nil =>
      have hsame : same alphabet [] e.source = false := by
        apply Bool.eq_false_iff.mpr
        intro hsame
        exact he.source.1 (List.eq_nil_of_length_eq_zero (length_eq_of_same hsame).symm)
      rw [hsame, if_neg Bool.false_ne_true, ite_self, List.nil_append, List.nil_append,
        substituteFrom_mark he hc]
  | cons d word =>
      obtain ⟨hd, hrest⟩ := List.forall_mem_cons.mp hword
      rw [List.cons_append, substituteFrom, matcher_eq he, ← List.cons_append,
        found_append he.source (List.cons_ne_nil d word) hword hc hbefore]
      have hkept : d :: substituteFrom (matcher alphabet e) 0 (some d) (word ++ c :: rest) =
          d :: word ++ c :: substituteFrom (matcher alphabet e) 0 (some c) rest := by
        rw [substituteFrom_word hd hrest, substituteFrom_mark he hc, List.cons_append]
      cases clear alphabet before && c == '.' with
      | false => exact hkept
      | true =>
          cases hsame : same alphabet (d :: word) e.source with
          | false => exact hkept
          | true =>
              have hlength := length_eq_of_same hsame
              rw [List.length_cons] at hlength
              have hskip := substituteFrom_skip (matcher alphabet e) (some d) word (c :: rest)
              rw [show word.length = e.source.length - 1 by omega] at hskip
              simp only [Bool.and_true, if_true]
              rw [hskip, substituteFrom_mark he hc]

/-- The pattern over a text up to a dot. -/
theorem substituteFrom_onText (he : e.Literal alphabet) {text : Text}
    (hword : ∀ c ∈ word, alphabet.word c = true) (hbefore : before.any alphabet.word = false)
    (rest : Text) :
    substituteFrom (matcher alphabet e) 0 before (word ++ text ++ '.' :: rest) =
      e.onText alphabet before word text ++
        '.' :: substituteFrom (matcher alphabet e) 0 (some '.') rest := by
  induction text generalizing word before with
  | nil =>
      rw [List.append_nil, Entry.onText]
      exact substituteFrom_onWord he hword alphabet.word_dot hbefore rest
  | cons c text ih =>
      rw [Entry.onText]
      by_cases hc : alphabet.word c = true
      · have hlonger : ∀ d ∈ word ++ [c], alphabet.word d = true := by
          intro d hd
          rcases List.mem_append.mp hd with hd | hd
          · exact hword d hd
          · exact List.mem_singleton.mp hd ▸ hc
        rw [if_pos hc, ← ih hlonger hbefore, List.append_assoc word [c], List.singleton_append]
      · have hmark : alphabet.word c = false := Bool.eq_false_iff.mpr hc
        have hafter : (some c).any alphabet.word = false := hmark
        rw [if_neg hc, List.append_assoc, List.cons_append,
          substituteFrom_onWord he hword hmark hbefore, List.append_assoc, List.cons_append]
        exact congrArg (fun t => _ ++ c :: t) (@ih (some c) [] nofun hafter)

theorem substituteFrom_last (before : Option Char) (hlast : ∀ c ∈ last, alphabet.word c = true) :
    substituteFrom (matcher alphabet e) 0 before last = last := by
  induction last generalizing before with
  | nil => rfl
  | cons c last ih =>
      have hdot : '.' ∉ c :: last := by
        intro hmem
        have hword := hlast '.' hmem
        rw [alphabet.word_dot] at hword
        cases hword
      rw [substituteFrom, matcher, found_of_dot hdot, if_neg Bool.false_ne_true,
        ih (some c) (List.forall_mem_cons.mp hlast).2]

/-! ## All entries -/

variable {gs : List Segment} {place : Place}

/-- Only before a dot is anything but a word. -/
structure Plain (alphabet : Alphabet) (g : Segment) : Prop where
  word : g.mark ≠ '.' → ∀ c ∈ g.word, alphabet.word c = true
  mark : alphabet.word g.mark = false

/-- A change of what stands before the dots. -/
def beforeDots (change : Option Char → Text → Text) : Option Char → List Segment → List Segment
  | _, [] => []
  | before, g :: gs =>
      ⟨if g.mark = '.' then change before g.word else g.word, g.mark⟩ ::
        beforeDots change (some g.mark) gs

attribute [local simp] beforeDots in
theorem beforeDots_keep (before : Option Char) (gs : List Segment) :
    beforeDots (fun _ word => word) before gs = gs := by
  induction gs generalizing before with
  | nil => rfl
  | cons g gs ih => rw [beforeDots, ih, ite_self]

theorem beforeDots_comp (change change' : Option Char → Text → Text) (before : Option Char)
    (gs : List Segment) :
    beforeDots change' before (beforeDots change before gs) =
      beforeDots (fun before word => change' before (change before word)) before gs := by
  induction gs generalizing before with
  | nil => rfl
  | cons g gs ih =>
      rw [beforeDots, beforeDots, beforeDots, ih]
      congr 2
      by_cases hdot : g.mark = '.'
      · rw [if_pos hdot, if_pos hdot, if_pos hdot]
      · rw [if_neg hdot, if_neg hdot, if_neg hdot]

theorem beforeDots_plain (change : Option Char → Text → Text)
    (hgs : ∀ g ∈ gs, Plain alphabet g) (before : Option Char) :
    ∀ g ∈ beforeDots change before gs, Plain alphabet g := by
  induction gs generalizing before with
  | nil => nofun
  | cons g gs ih =>
      obtain ⟨hg, hgs⟩ := List.forall_mem_cons.mp hgs
      refine List.forall_mem_cons.mpr ⟨⟨fun hdot => ?_, hg.mark⟩, ih hgs (some g.mark)⟩
      rw [if_neg hdot]
      exact hg.word hdot

theorem substitute_render (he : e.Literal alphabet) (hgs : ∀ g ∈ gs, Plain alphabet g)
    (hlast : ∀ c ∈ last, alphabet.word c = true) (hbefore : before.any alphabet.word = false) :
    substituteFrom (matcher alphabet e) 0 before (render gs last) =
      render (beforeDots (fun before name => e.onText alphabet before [] name) before gs) last := by
  induction gs generalizing before with
  | nil => exact substituteFrom_last before hlast
  | cons g gs ih =>
      obtain ⟨word, mark⟩ := g
      obtain ⟨hg, hrest⟩ := List.forall_mem_cons.mp hgs
      have hmark : alphabet.word mark = false := hg.mark
      have hafter : (some mark).any alphabet.word = false := hmark
      have htail := ih hrest hafter
      rw [beforeDots, render, render, ← htail]
      by_cases hdot : mark = '.'
      · subst hdot
        rw [if_pos rfl]
        exact @substituteFrom_onText _ _ _ [] he word (List.forall_mem_nil _) hbefore
          (render gs last)
      · rw [if_neg hdot, substituteFrom_onWord he (hg.word hdot) hmark hbefore, Entry.onWord,
          beq_eq_false_iff_ne.mpr hdot, Bool.and_false, if_neg Bool.false_ne_true]

theorem sub_render (he : e.Literal alphabet) (hgs : ∀ g ∈ gs, Plain alphabet g)
    (hlast : ∀ c ∈ last, alphabet.word c = true) :
    sub alphabet e (render gs last) = some
      (render (beforeDots (fun before name => e.onText alphabet before [] name) none gs) last) := by
  rw [sub, expand, expandFrom_of_plain he.target, substitute, substitute_render he hgs hlast rfl]
  rfl

/-- All the entries, each over the whole text, follow one another before every dot. -/
theorem apply_render (hmapping : ∀ e ∈ mapping, e.Literal alphabet)
    (hgs : ∀ g ∈ gs, Plain alphabet g) (hlast : ∀ c ∈ last, alphabet.word c = true) :
    apply alphabet mapping (render gs last) =
      some (render (beforeDots (follow alphabet mapping) none gs) last) := by
  induction mapping generalizing gs with
  | nil =>
      have hkeep : follow alphabet [] = fun _ word => word := rfl
      rw [hkeep, beforeDots_keep]
      rfl
  | cons e mapping ih =>
      obtain ⟨he, hmapping⟩ := List.forall_mem_cons.mp hmapping
      have hcomp : follow alphabet (e :: mapping) = fun before word =>
          follow alphabet mapping before (e.onText alphabet before [] word) := rfl
      rw [apply, List.foldlM_cons, sub_render he hgs hlast, hcomp,
        ← beforeDots_comp (fun before word => e.onText alphabet before [] word)]
      exact ih hmapping (beforeDots_plain _ hgs none)

/-! ## Where the passes rename at once -/

theorem render_eq_renamedFrom
    (h : ∀ q ∈ sitesFrom place before gs last, q.Settled alphabet mapping) :
    render (beforeDots (follow alphabet mapping) before gs) last =
      renamedFrom alphabet mapping place before gs last := by
  induction gs generalizing place before with
  | nil => rfl
  | cons g gs ih =>
      rw [sitesFrom] at h
      rw [beforeDots, render, renamedFrom]
      by_cases hdot : g.mark = '.'
      · rw [if_pos hdot] at h
        obtain ⟨hhere, hrest⟩ := List.forall_mem_cons.mp h
        have hsettled : follow alphabet mapping before g.word =
            if Site.qualifier ⟨g.word, before, place⟩ then rename alphabet mapping g.word
            else g.word := hhere
        rw [if_pos hdot, hsettled, ih hrest]
        simp only [hdot, true_and]
      · rw [if_neg hdot] at h
        rw [if_neg hdot, if_neg fun h => hdot h.1, ih h]

section Names

variable (hmapping : ∀ e ∈ mapping, Name alphabet e.target)
include hmapping

theorem follow_word (before : Option Char) (hword : ∀ c ∈ word, alphabet.word c = true) :
    ∀ c ∈ follow alphabet mapping before word, alphabet.word c = true := by
  induction mapping generalizing word with
  | nil => exact hword
  | cons e mapping ih =>
      obtain ⟨he, hmapping⟩ := List.forall_mem_cons.mp hmapping
      refine ih hmapping ?_
      have hstep : ∀ current text : Text, (∀ c ∈ current ++ text, alphabet.word c = true) →
          ∀ c ∈ e.onText alphabet before current text, alphabet.word c = true := by
        intro current text h
        induction text generalizing current with
        | nil =>
            rw [List.append_nil] at h
            rw [Entry.onText, Entry.onWord, Entry.onName]
            split
            · split
              · exact he.2
              · exact h
            · exact h
        | cons c text ih =>
            rw [Entry.onText, if_pos (h c (List.mem_append_right _ List.mem_cons_self))]
            apply ih
            rwa [List.append_assoc, List.singleton_append]
      exact hstep [] word hword

theorem rename_word (hword : ∀ c ∈ word, alphabet.word c = true) :
    ∀ c ∈ rename alphabet mapping word, alphabet.word c = true := by
  rw [rename]
  cases hfind : mapping.find? fun e => same alphabet word e.source with
  | none => exact hword
  | some e => exact (hmapping e (List.mem_of_find?_eq_some hfind)).2

/-- Between words the renamed text is told apart from every other one. -/
theorem settled_of_render (hgs : ∀ g ∈ gs,
    (∀ c ∈ g.word, alphabet.word c = true) ∧ alphabet.word g.mark = false)
    (h : render (beforeDots (follow alphabet mapping) before gs) last =
      renamedFrom alphabet mapping place before gs last) :
    ∀ q ∈ sitesFrom place before gs last, q.Settled alphabet mapping := by
  induction gs generalizing place before with
  | nil => nofun
  | cons g gs ih =>
      obtain ⟨⟨hword, hmark⟩, hgs⟩ := List.forall_mem_cons.mp hgs
      rw [beforeDots, render, renamedFrom] at h
      have hleft : ∀ c ∈ if g.mark = '.' then follow alphabet mapping before g.word else g.word,
          alphabet.word c = true := by
        split
        · exact follow_word hmapping before hword
        · exact hword
      have hright : ∀ c ∈ if g.mark = '.' ∧ Site.qualifier ⟨g.word, before, place⟩ then
          rename alphabet mapping g.word else g.word, alphabet.word c = true := by
        split
        · exact rename_word hmapping hword
        · exact hword
      obtain ⟨hhere, -, hrest⟩ := append_stop_inj hleft hright hmark hmark h
      rw [sitesFrom]
      by_cases hdot : g.mark = '.'
      · rw [if_pos hdot]
        simp only [hdot, if_true, true_and] at hhere
        exact List.forall_mem_cons.mpr ⟨hhere, ih hgs hrest⟩
      · rw [if_neg hdot]
        exact ih hgs hrest

end Names

/-! ## Names that the passes leave alone -/

section Kept

variable {text : Text}

theorem wordsFrom_eq (hword : ∀ c ∈ word, alphabet.word c = true) (before : Option Char)
    (current : Text) : wordsFrom alphabet before current word = [(before, current ++ word)] := by
  induction word generalizing current with
  | nil => rw [wordsFrom, List.append_nil]
  | cons c word ih =>
      obtain ⟨hc, hword⟩ := List.forall_mem_cons.mp hword
      rw [wordsFrom, if_pos hc, ih hword, List.append_assoc, List.singleton_append]

theorem onWord_of_untouched {next : Char} (h : next = '.' → clear alphabet before →
    same alphabet word e.source → e.target = word) :
    e.onWord alphabet before word next = word := by
  rw [Entry.onWord]
  split
  · next hclear =>
      rw [Bool.and_eq_true, beq_iff_eq] at hclear
      rw [Entry.onName]
      split
      · next hsame => exact h hclear.2 hclear.1 hsame
      · rfl
  · rfl

theorem onText_of_untouched (h : ∀ w ∈ wordsFrom alphabet before word text,
    clear alphabet w.1 → same alphabet w.2 e.source → e.target = w.2) :
    e.onText alphabet before word text = word ++ text := by
  induction text generalizing before word with
  | nil =>
      rw [Entry.onText, List.append_nil]
      exact onWord_of_untouched fun _ => h _ List.mem_cons_self
  | cons c text ih =>
      rw [wordsFrom] at h
      rw [Entry.onText]
      by_cases hc : alphabet.word c = true
      · rw [if_pos hc] at h ⊢
        rw [ih h, List.append_assoc, List.singleton_append]
      · rw [if_neg hc] at h ⊢
        by_cases hdot : c = '.'
        · rw [if_pos hdot] at h
          obtain ⟨hhere, hrest⟩ := List.forall_mem_cons.mp h
          rw [onWord_of_untouched fun _ => hhere, ih hrest, List.nil_append]
        · rw [if_neg hdot] at h
          rw [onWord_of_untouched fun hnext => absurd hnext hdot, ih h, List.nil_append]

theorem follow_of_untouched (h : Untouched alphabet mapping before text) :
    follow alphabet mapping before text = text := by
  induction mapping with
  | nil => rfl
  | cons e mapping ih =>
      obtain ⟨he, hrest⟩ := List.forall_mem_cons.mp h
      rw [follow, List.foldl_cons, onText_of_untouched he]
      exact ih hrest

theorem onText_word (hword : ∀ c ∈ word, alphabet.word c = true) (current : Text) :
    e.onText alphabet before current word = e.onWord alphabet before (current ++ word) '.' := by
  induction word generalizing current with
  | nil => rw [Entry.onText, List.append_nil]
  | cons c word ih =>
      obtain ⟨hc, hword⟩ := List.forall_mem_cons.mp hword
      rw [Entry.onText, if_pos hc, ih hword, List.append_assoc, List.singleton_append]

theorem onText_name (hword : ∀ c ∈ word, alphabet.word c = true)
    (hclear : clear alphabet before = true) :
    e.onText alphabet before [] word = e.onName alphabet word := by
  rw [onText_word hword, List.nil_append, Entry.onWord, hclear]
  rfl

theorem rename_cons (e : Entry) (mapping : List Entry) (name : Text) :
    rename alphabet (e :: mapping) name =
      if same alphabet name e.source then e.target else rename alphabet mapping name := by
  rw [rename, List.find?_cons]
  cases same alphabet name e.source with
  | true => rfl
  | false => rfl

theorem follow_of_keptTarget (hword : ∀ c ∈ word, alphabet.word c = true)
    (hclear : clear alphabet before = true) (h : KeptTarget alphabet before word mapping) :
    follow alphabet mapping before word = rename alphabet mapping word := by
  induction mapping with
  | nil => rfl
  | cons e mapping ih =>
      rw [KeptTarget] at h
      rw [follow, List.foldl_cons, onText_name hword hclear, Entry.onName, rename_cons]
      by_cases hsame : same alphabet word e.source = true
      · rw [if_pos hsame] at h ⊢
        rw [if_pos hsame]
        exact follow_of_untouched h
      · rw [if_neg hsame] at h ⊢
        rw [if_neg hsame]
        exact ih h

/-- After a quote no entry finds the word. -/
theorem follow_of_quote (hword : ∀ c ∈ word, alphabet.word c = true)
    (hclear : clear alphabet before = false) : follow alphabet mapping before word = word := by
  apply follow_of_untouched
  intro e _ w hw hwclear
  rw [wordsFrom_eq hword] at hw
  obtain rfl := List.mem_singleton.mp hw
  rw [hclear] at hwclear
  cases hwclear

theorem Site.Kept.settled {q : Site} (hword : ∀ c ∈ q.name, alphabet.word c = true)
    (h : q.Kept alphabet mapping) : q.Settled alphabet mapping := by
  rw [Site.Kept] at h
  rw [Site.Settled]
  by_cases hq : q.qualifier
  · rw [if_pos hq] at h ⊢
    cases hclear : clear alphabet q.before with
    | true =>
        rw [if_pos hclear] at h
        exact follow_of_keptTarget hword hclear h
    | false =>
        rw [if_neg (by rw [hclear]; exact Bool.false_ne_true)] at h
        rw [follow_of_quote hword hclear, h]
  · rw [if_neg hq] at h ⊢
    exact follow_of_untouched h

section Names

theorem follow_cons_name (hword : ∀ c ∈ word, alphabet.word c = true)
    (hclear : clear alphabet before = true) :
    follow alphabet (e :: mapping) before word =
      follow alphabet mapping before (e.onName alphabet word) := by
  rw [follow, List.foldl_cons, onText_name hword hclear, follow]

theorem onName_word (he : Name alphabet e.target) (hword : ∀ c ∈ word, alphabet.word c = true) :
    ∀ c ∈ e.onName alphabet word, alphabet.word c = true := by
  rw [Entry.onName]
  split
  · exact he.2
  · exact hword

/-- A name that no entry gives is not reached from another one. -/
theorem follow_ne (hmapping : ∀ e ∈ mapping, Name alphabet e.target)
    (hword : ∀ c ∈ word, alphabet.word c = true) (hclear : clear alphabet before = true)
    (hgone : ∀ e ∈ mapping, e.target ≠ name) (hne : word ≠ name) :
    follow alphabet mapping before word ≠ name := by
  induction mapping generalizing word with
  | nil => exact hne
  | cons e mapping ih =>
      obtain ⟨he, hmapping⟩ := List.forall_mem_cons.mp hmapping
      obtain ⟨htarget, hgone⟩ := List.forall_mem_cons.mp hgone
      rw [follow_cons_name hword hclear]
      refine ih hmapping (onName_word he hword) hgone ?_
      rw [Entry.onName]
      split
      · exact htarget
      · exact hne

theorem untouched_of_follow (hmapping : ∀ e ∈ mapping, Name alphabet e.target)
    (hword : ∀ c ∈ word, alphabet.word c = true) (hclear : clear alphabet before = true)
    (hback : NoReturn alphabet mapping) (h : follow alphabet mapping before word = word) :
    Untouched alphabet mapping before word := by
  rw [Untouched, wordsFrom_eq hword]
  simp only [List.mem_singleton, forall_eq, List.nil_append]
  induction mapping with
  | nil => nofun
  | cons e mapping ih =>
      obtain ⟨he, hmapping⟩ := List.forall_mem_cons.mp hmapping
      obtain ⟨hfirst, hback⟩ := List.pairwise_cons.mp hback
      rw [follow_cons_name hword hclear, Entry.onName] at h
      by_cases hsame : same alphabet word e.source = true
      · rw [if_pos hsame] at h
        have htarget : e.target = word := by
          by_contra hne
          refine follow_ne hmapping he.2 hclear (fun later hlater heq => ?_) hne h
          exact hfirst later hlater (heq ▸ hsame)
        rw [htarget] at h
        exact List.forall_mem_cons.mpr ⟨fun _ _ => htarget, ih hmapping hback h⟩
      · rw [if_neg hsame] at h
        exact List.forall_mem_cons.mpr ⟨fun _ heq => absurd heq hsame, ih hmapping hback h⟩

theorem keptTarget_of_follow (hmapping : ∀ e ∈ mapping, Name alphabet e.target)
    (hword : ∀ c ∈ word, alphabet.word c = true) (hclear : clear alphabet before = true)
    (hback : NoReturn alphabet mapping)
    (h : follow alphabet mapping before word = rename alphabet mapping word) :
    KeptTarget alphabet before word mapping := by
  induction mapping with
  | nil => trivial
  | cons e mapping ih =>
      obtain ⟨he, hmapping⟩ := List.forall_mem_cons.mp hmapping
      obtain ⟨-, hback⟩ := List.pairwise_cons.mp hback
      rw [follow_cons_name hword hclear, Entry.onName, rename_cons] at h
      rw [KeptTarget]
      by_cases hsame : same alphabet word e.source = true
      · rw [if_pos hsame] at h ⊢
        rw [if_pos hsame] at h
        exact untouched_of_follow hmapping he.2 hclear hback h
      · rw [if_neg hsame] at h ⊢
        rw [if_neg hsame] at h
        exact ih hmapping hback h

theorem Site.Settled.kept {q : Site} (hmapping : ∀ e ∈ mapping, Name alphabet e.target)
    (hback : NoReturn alphabet mapping) (hword : ∀ c ∈ q.name, alphabet.word c = true)
    (h : q.Settled alphabet mapping) : q.Kept alphabet mapping := by
  rw [Site.Settled] at h
  rw [Site.Kept]
  cases hclear : clear alphabet q.before with
  | true =>
      rw [if_pos rfl]
      by_cases hq : q.qualifier
      · rw [if_pos hq] at h ⊢
        exact keptTarget_of_follow hmapping hword hclear hback h
      · rw [if_neg hq] at h ⊢
        exact untouched_of_follow hmapping hword hclear hback h
  | false =>
      rw [follow_of_quote hword hclear] at h
      rw [if_neg Bool.false_ne_true]
      by_cases hq : q.qualifier
      · rw [if_pos hq] at h ⊢
        exact h.symm
      · rw [if_neg hq]
        intro e _ w hw hwclear
        rw [wordsFrom_eq hword] at hw
        obtain rfl := List.mem_singleton.mp hw
        rw [hclear] at hwclear
        cases hwclear

end Names

end Kept

theorem sitesFrom_word (hgs : ∀ g ∈ gs, ∀ c ∈ g.word, alphabet.word c = true) :
    ∀ q ∈ sitesFrom place before gs last, ∀ c ∈ q.name, alphabet.word c = true := by
  induction gs generalizing place before with
  | nil => nofun
  | cons g gs ih =>
      obtain ⟨hg, hgs⟩ := List.forall_mem_cons.mp hgs
      rw [sitesFrom]
      split
      · exact List.forall_mem_cons.mpr ⟨hg, ih hgs⟩
      · exact ih hgs

theorem isWord_toLower (c : Char) : isWord c.toLower = isWord c := by
  have hkinds : ∀ d : Char,
      isWord d = ((d.isUpper || d.isLower) || d.isDigit || decide (d = '_')) := fun _ => rfl
  by_cases hupper : c.val ≥ 'A'.val ∧ c.val ≤ 'Z'.val
  · have hlow : 65 ≤ c.val.toNat := UInt32.le_iff_toNat_le.mp hupper.1
    have hhigh : c.val.toNat ≤ 90 := UInt32.le_iff_toNat_le.mp hupper.2
    have hsum : c.toLower.val.toNat = c.val.toNat + 32 := by
      have hadd := UInt32.toNat_add c.val ('a'.val - 'A'.val)
      have hdiff : ('a'.val - 'A'.val).toNat = 32 := by decide
      unfold Char.toLower
      rw [dif_pos hupper]
      change (c.val + ('a'.val - 'A'.val)).toNat = _
      rw [hadd, hdiff]
      omega
    have hlower : c.toLower.isLower = true := by
      have hparts : (decide (c.toLower ≥ 'a') && decide (c.toLower ≤ 'z')) = true := by
        rw [Bool.and_eq_true, decide_eq_true_eq, decide_eq_true_eq]
        refine ⟨UInt32.le_iff_toNat_le.mpr ?_, UInt32.le_iff_toNat_le.mpr ?_⟩
        · rw [hsum]
          exact Nat.add_le_add_right hlow 32
        · rw [hsum]
          exact Nat.add_le_add_right hhigh 32
      exact hparts
    have hbefore : c.isUpper = true := decide_eq_true hupper
    rw [hkinds, hkinds, hlower, hbefore, Bool.or_true]
    rfl
  · unfold Char.toLower
    rw [dif_neg hupper]

def ascii : Alphabet where
  word := isWord
  fold := Char.toLower
  word_of_fold := by
    intro c d h
    rw [← isWord_toLower c, h, isWord_toLower]
  word_dot := rfl
  word_quote := rfl
  word_doubleQuote := rfl
  word_backslash := rfl

def sampleMapping : List Entry :=
  [⟨"dbo".toList, "public".toList⟩, ⟨"hr".toList, "\"People\"".toList⟩]

def sampleSql : Text := "SELECT DBO.f(x) FROM hr.t -- dbo".toList

theorem sampleMapping_literal : ∀ e ∈ sampleMapping, e.Literal ascii := by
  intro e he
  rcases List.mem_pair.mp he with rfl | rfl
  · exact ⟨⟨by decide, List.all_eq_true.mp rfl⟩, by decide⟩
  · exact ⟨⟨by decide, List.all_eq_true.mp rfl⟩, by decide⟩

end SqlOptima.SchemaMapper
