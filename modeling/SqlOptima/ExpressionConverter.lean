import SqlOptima.ConnectiveScan

namespace SqlOptima.ExpressionConverter

open PythonText
open ConnectiveScan (Lexing Place cut cutFrom Part Parts Gap inParens letters_of_alphanum
  not_alphanum_of_isSpace)

/-!
# Expressions and their connectives
-/

/-! ## Names and calls -/

/-- `\[(\w+)\]` -/
def identifierMatcher : Matcher := fun _ s =>
  (symbol '[' s).bind fun rest =>
    if leadingWord rest = [] then none
    else (symbol ']' (rest.drop (leadingWord rest).length)).map fun _ =>
      ('"' :: (leadingWord rest ++ ['"']), (leadingWord rest).length + 2)

def quoteIdentifiers (expr : Text) : Text :=
  if '[' ∈ expr then substitute identifierMatcher expr else expr

/-- What comes after the parenthesis that closes a call, if no parentheses are nested in those
of its arguments. -/
def argsEnd : Bool → Text → Option Text
  | _, [] => none
  | inner, c :: cs =>
      if c = '(' then
        if inner then none else argsEnd true cs
      else if c = ')' then
        if inner then argsEnd false cs else some cs
      else argsEnd inner cs

/-- The name of a call and how many characters the call takes. -/
def callAt (s : Text) : Option (Text × Nat) :=
  if s.head?.any fun c => c.isAlpha || c = '_' then
    ((symbol '(' (lstrip (s.dropWhile isWord))).bind (argsEnd false)).map fun rest =>
      (leadingWord s, s.length - rest.length)
  else none

/-- The functions `convert_function_call` has a branch or an entry for. -/
def knownFunctions : List Text :=
  ["ISNULL", "CHARINDEX", "PATINDEX", "DATEPART", "DATEADD", "DATEDIFF", "CONVERT", "IIF",
    "SPACE", "STUFF", "CHOOSE", "STRING_SPLIT", "TRY_CAST", "TRY_CONVERT", "PARSE", "OPENJSON",
    "CHECKSUM", "BINARY_CHECKSUM", "CHECKSUM_AGG", "OBJECT_NAME", "OBJECT_ID", "COL_LENGTH",
    "COL_NAME", "ORIGINAL_LOGIN", "APP_NAME", "HOST_ID", "GETANSINULL", "SUSER_SNAME", "FORMAT",
    "NUMBER_TO_STR", "GETDATE", "GETUTCDATE", "SYSDATETIME", "SYSUTCDATETIME", "NEWID",
    "SCOPE_IDENTITY", "DB_NAME", "HOST_NAME", "ROW_NUMBER", "RANK", "DENSE_RANK",
    "CURRENT_TIMESTAMP", "CURRENT_USER", "SYSDATETIMEOFFSET", "USER_NAME", "SESSION_USER",
    "SYSTEM_USER", "NEWSEQUENTIALID", "LEN", "SUBSTRING", "LEFT", "RIGHT", "UPPER", "LOWER",
    "RTRIM", "LTRIM", "TRIM", "REPLACE", "REPLICATE", "REVERSE", "ABS", "ROUND", "CEILING",
    "FLOOR", "IDENT_CURRENT", "YEAR", "MONTH", "DAY", "EOMONTH", "STRING_AGG", "NTILE", "LEAD",
    "LAG", "FIRST_VALUE", "LAST_VALUE", "JSON_VALUE", "JSON_QUERY", "NULLIF", "COALESCE"].map
    String.toList

/-- `rewriteCall` stands for what the branches make of the calls they are for. -/
def convertFunctionCall (rewriteCall : Text → Text) (expression : Text) : Text :=
  if upper (leadingWord (strip expression)) ∈ knownFunctions then rewriteCall (strip expression)
  else strip expression

def callMatcher (rewriteCall : Text → Text) : Matcher := fun _ s =>
  (callAt s).map fun call => (convertFunctionCall rewriteCall (s.take call.2), call.2)

def convertFunctionLayer (rewriteCall : Text → Text) (expr : Text) : Text :=
  substitute (callMatcher rewriteCall) expr

def convertLayers (rewriteCall : Text → Text) : Nat → Option Text → Text → Text
  | 0, _, current => current
  | n + 1, previous, current =>
      if some current = previous then current
      else convertLayers rewriteCall n (some current) (convertFunctionLayer rewriteCall current)

def convertAllFunctions (rewriteCall : Text → Text) (expr : Text) : Text :=
  convertLayers rewriteCall 20 none expr

/-! ## String concatenation -/

/-- `(?:[^'\\]|\\.)*'`; what comes after it. -/
def literalEnd : Bool → Text → Option Text
  | _, [] => none
  | true, c :: cs => if c = '\n' then none else literalEnd false cs
  | false, c :: cs => if c = '\'' then some cs else literalEnd (c = '\\') cs

def plusesAsPipes (s : Text) : Text := replace ['+'] ['|', '|'] s

/-- A literal, blanks and a plus sign. -/
def literalPlusMatcher : Matcher := fun _ s =>
  (((symbol '\'' s).bind (literalEnd false)).bind fun rest =>
    symbol '+' (lstrip rest)).map fun rest =>
    (plusesAsPipes (s.take (s.length - rest.length)), s.length - rest.length)

/-- A plus sign, blanks and a literal. -/
def plusLiteralMatcher : Matcher := fun _ s =>
  (((symbol '+' s).bind fun rest =>
    symbol '\'' (lstrip rest)).bind (literalEnd false)).map fun rest =>
    (plusesAsPipes (s.take (s.length - rest.length)), s.length - rest.length)

def convertStringConcat (expr : Text) : Text :=
  if '\'' ∉ expr ∨ '+' ∉ expr then expr
  else substitute plusLiteralMatcher (substitute literalPlusMatcher expr)

/-! ## The conversion -/

attribute [local simp] argsEnd in
theorem connective_nonempty : ∀ w ∈ ["OR".toList, "AND".toList], w ≠ [] := by decide

theorem connective_heads : ∀ w ∈ ["OR".toList, "AND".toList],
    ∀ w' ∈ ["OR".toList, "AND".toList], w.head? = w'.head? → w = w' := by decide

/-- `_split_logical_at_depth_zero` looks for OR first, and takes whatever is no letter or digit for
the end of a word. -/
def logicalScan : Lexing where
  escapes := true
  wordChar := Char.isAlphanum
  words := ["OR".toList, "AND".toList]
  nonempty := connective_nonempty
  heads := connective_heads
  letters := letters_of_alphanum rfl fun _ => id
  blank := not_alphanum_of_isSpace
  paren := rfl

def bracketed (lhs word rhs : Text) : Text :=
  inParens lhs ++ (Gap.text ⟨[' '], word, [' ']⟩ ++ inParens rhs)

def splitLogicalAtDepthZero (convert : Text → Option Text) (expr : Text) : Option Text :=
  match cut logicalScan expr with
  | none => some expr
  | some (lhs, word, rhs) =>
      (convert lhs).bind fun l => (convert rhs).map fun r => bracketed l word r

/-- The calls of itself may be nested as deep as `fuel` says. -/
def convertExpression (rewriteCall : Text → Text) : Nat → Text → Option Text
  | 0, _ => none
  | fuel + 1, expression =>
      if strip expression = [] then some []
      else
        (splitLogicalAtDepthZero (convertExpression rewriteCall fuel)
          (convertAllFunctions rewriteCall (quoteIdentifiers (strip expression)))).map
            convertStringConcat

def Converts (rewriteCall : Text → Text) (expression out : Text) : Prop :=
  ∃ fuel, convertExpression rewriteCall fuel expression = some out

/-! ## Texts without calls -/

/-- No call of a known function stands in the text. -/
def callFree : Text → Bool
  | [] => true
  | c :: cs =>
      !((callAt (c :: cs)).any fun call => upper call.1 ∈ knownFunctions) && callFree cs

section Calls

variable {s t a b rest : Text} {c : Char} {name : Text} {n : Nat} {rewriteCall : Text → Text}

attribute [local simp] callFree convertExpression in
theorem argsEnd_append {inner : Bool} (h : argsEnd inner s = some rest) (t : Text) :
    argsEnd inner (s ++ t) = some (rest ++ t) := by
  induction s generalizing inner with
  | nil => cases h
  | cons c s ih =>
      rw [argsEnd] at h
      rw [List.cons_append, argsEnd]
      split
      · next hopen =>
          rw [if_pos hopen] at h
          split
          · next hinner =>
              rw [if_pos hinner] at h
              cases h
          · next hinner =>
              rw [if_neg hinner] at h
              exact ih h
      · next hopen =>
          rw [if_neg hopen] at h
          split
          · next hclose =>
              rw [if_pos hclose] at h
              split
              · next hinner =>
                  rw [if_pos hinner] at h
                  exact ih h
              · next hinner =>
                  rw [if_neg hinner] at h
                  rw [Option.some.inj h]
          · next hclose =>
              rw [if_neg hclose] at h
              exact ih h

/-- A call ends with a parenthesis. -/
theorem argsEnd_some {inner : Bool} (h : argsEnd inner s = some rest) :
    ∃ args, s = args ++ ')' :: rest := by
  induction s generalizing inner with
  | nil => cases h
  | cons c s ih =>
      have hlater : ∀ {next}, argsEnd next s = some rest →
          ∃ args, c :: s = args ++ ')' :: rest := by
        intro next hnext
        obtain ⟨args, hargs⟩ := ih hnext
        exact ⟨c :: args, by rw [hargs, List.cons_append]⟩
      rw [argsEnd] at h
      split at h
      · split at h
        · cases h
        · exact hlater h
      · split at h
        · next hclose =>
            split at h
            · exact hlater h
            · exact ⟨[], by rw [hclose, Option.some.inj h, List.nil_append]⟩
        · exact hlater h

theorem symbol_eq_some {d : Char} (h : symbol d s = some rest) : s = d :: rest := by
  cases s with
  | nil => cases h
  | cons c s =>
      rw [symbol] at h
      split at h
      · next hc => rw [hc, Option.some.inj h]
      · cases h

/-- A call is a name, blanks and arguments in parentheses. -/
theorem callAt_some (h : callAt s = some (name, n)) :
    ∃ gap args rest, s = name ++ (gap ++ '(' :: (args ++ ')' :: rest)) ∧ Blank gap ∧
      name = leadingWord s ∧ (∃ c ∈ name.head?, (c.isAlpha || c = '_') = true) ∧
      n = s.length - rest.length ∧ argsEnd false (args ++ ')' :: rest) = some rest := by
  rw [callAt] at h
  split at h
  · next hhead =>
      obtain ⟨rest, hrest, heq⟩ := Option.map_eq_some_iff.mp h
      obtain ⟨opened, hopened, hend⟩ := Option.bind_eq_some_iff.mp hrest
      obtain ⟨rfl, rfl⟩ := Prod.mk.inj heq
      obtain ⟨args, rfl⟩ := argsEnd_some hend
      have hparen := symbol_eq_some hopened
      refine ⟨(s.dropWhile isWord).takeWhile isSpace, args, rest, ?_,
        List.all_eq_true.mp List.all_takeWhile, rfl, ?_, rfl, hend⟩
      · rw [← hparen, lstrip, List.takeWhile_append_dropWhile, leadingWord,
          List.takeWhile_append_dropWhile]
      · cases s with
        | nil => cases hhead
        | cons c s =>
            have hword : isWord c = true := by
              rw [List.head?_cons, Option.any_some, Bool.or_eq_true, decide_eq_true_eq] at hhead
              rw [isWord, Char.isAlphanum, Bool.or_eq_true, Bool.or_eq_true, decide_eq_true_eq]
              exact hhead.imp_left Or.inl
            refine ⟨c, ?_, hhead⟩
            rw [leadingWord, List.takeWhile_cons_of_pos hword]
            rfl
  · cases h

theorem word_leadingWord (s : Text) : ∀ c ∈ leadingWord s, isWord c = true :=
  List.all_eq_true.mp List.all_takeWhile

section Name

variable {gap : Text} (hname : ∀ c ∈ name, isWord c = true) (hgap : Blank gap) (u : Text)

include hgap in
theorem isWord_head_gap : ∀ c ∈ (gap ++ '(' :: u).head?, isWord c = false := by
  intro c hc
  cases gap with
  | nil =>
      cases hc
      decide
  | cons d gap =>
      cases hc
      exact isWord_of_isSpace (hgap c List.mem_cons_self)

include hname hgap

theorem leadingWord_name : leadingWord (name ++ (gap ++ '(' :: u)) = name := by
  rw [leadingWord, takeWhile_append_stop (isWord_head_gap hgap u),
    List.takeWhile_eq_self_iff.mpr hname]

theorem dropWhile_name : (name ++ (gap ++ '(' :: u)).dropWhile isWord = gap ++ '(' :: u := by
  have hstop := isWord_head_gap hgap u
  rw [List.dropWhile_append_of_pos hname]
  cases gap with
  | nil => rfl
  | cons d gap => exact List.dropWhile_cons_of_neg (by simp [hstop d rfl])

end Name

theorem callAt_of_append (h : callAt s = some (name, n)) (t : Text) :
    ∃ m, callAt (s ++ t) = some (name, m) := by
  obtain ⟨gap, args, rest, hs, hgap, hname, ⟨c, hc, halpha⟩, -, hend⟩ := callAt_some h
  have hword : ∀ c ∈ name, isWord c = true := hname ▸ word_leadingWord s
  have hshape : s ++ t = name ++ (gap ++ '(' :: (args ++ ')' :: (rest ++ t))) := by
    rw [hs]
    simp only [List.append_assoc, List.cons_append]
  have hhead : (s ++ t).head? = some c := by
    rw [hshape, List.head?_append, Option.mem_def.mp hc, Option.some_or]
  refine ⟨(s ++ t).length - (rest ++ t).length, ?_⟩
  rw [callAt, hhead, Option.any_some, halpha, if_pos rfl]
  have hargs : argsEnd false (args ++ ')' :: (rest ++ t)) = some (rest ++ t) := by
    have happend := argsEnd_append hend t
    rwa [List.append_assoc, List.cons_append] at happend
  have hopen : symbol '(' (lstrip ((s ++ t).dropWhile isWord)) =
      some (args ++ ')' :: (rest ++ t)) := by
    rw [hshape, dropWhile_name hword hgap, lstrip_of_isSpace hgap]
    rfl
  rw [hopen, Option.bind_some, hargs, Option.map_some, hshape, leadingWord_name hword hgap]

theorem callFree_cons (h : callFree (c :: s) = true) :
    (∀ name n, callAt (c :: s) = some (name, n) → upper name ∉ knownFunctions) ∧
      callFree s = true := by
  rw [callFree, Bool.and_eq_true, Bool.not_eq_true'] at h
  refine ⟨fun name n hcall hmem => ?_, h.2⟩
  rw [hcall, Option.any_some, decide_eq_false_iff_not] at h
  exact h.1 hmem

theorem callFree_right (h : callFree (s ++ t) = true) : callFree t = true := by
  induction s with
  | nil => exact h
  | cons c s ih => exact ih (callFree_cons h).2

theorem callFree_left (h : callFree (s ++ t) = true) : callFree s = true := by
  induction s with
  | nil => rfl
  | cons c s ih =>
      obtain ⟨hcall, hrest⟩ := callFree_cons h
      rw [callFree, ih hrest, Bool.and_true, Bool.not_eq_true', ← Bool.not_eq_true]
      intro hany
      cases hfound : callAt (c :: s) with
      | none =>
          rw [hfound] at hany
          cases hany
      | some call =>
          rw [hfound, Option.any_some, decide_eq_true_eq] at hany
          obtain ⟨m, hm⟩ := callAt_of_append hfound t
          exact hcall call.1 m hm hany

theorem callFree_strip (h : callFree s = true) : callFree (strip s) = true := by
  obtain ⟨w, w', -, -, hs⟩ := exists_blanks s
  rw [hs] at h
  exact callFree_right (callFree_left h)

/-- A call of another function stays. -/
theorem convertFunctionCall_unknown (h : callAt s = some (name, n))
    (hunknown : upper name ∉ knownFunctions) :
    convertFunctionCall rewriteCall (s.take n) = s.take n ∧ 0 < n ∧ n ≤ s.length := by
  obtain ⟨gap, args, rest, hs, hgap, hname, ⟨c, hc, halpha⟩, hn, -⟩ := callAt_some h
  have hword : ∀ c ∈ name, isWord c = true := hname ▸ word_leadingWord s
  have hcall : s = (name ++ (gap ++ '(' :: (args ++ [')']))) ++ rest := by
    rw [hs]
    simp only [List.append_assoc, List.cons_append, List.nil_append]
  have hlength : n = (name ++ (gap ++ '(' :: (args ++ [')']))).length := by
    have htotal := congrArg List.length hcall
    rw [List.length_append] at htotal
    omega
  have htake : s.take n = name ++ (gap ++ '(' :: (args ++ [')'])) := by
    rw [hlength]
    exact (congrArg (List.take _) hcall).trans List.take_left
  have htrimmed : Trimmed (name ++ (gap ++ '(' :: (args ++ [')']))) := by
    refine ⟨⟨c, ?_, ?_⟩, ⟨')', ?_, by decide⟩⟩
    · rw [List.head?_append, Option.mem_def.mp hc, Option.some_or]
      rfl
    · by_contra hspace
      have hnone := isWord_of_isSpace (Bool.not_eq_false _ ▸ hspace)
      rw [hword c (List.mem_of_mem_head? hc)] at hnone
      cases hnone
    · rw [← List.cons_append, ← List.append_assoc, ← List.append_assoc, List.getLast?_concat]
      rfl
  rw [htake, convertFunctionCall, htrimmed.strip_eq, leadingWord_name hword hgap,
    if_neg hunknown]
  refine ⟨rfl, ?_, by omega⟩
  rw [hlength]
  exact List.length_pos_iff.mpr htrimmed.ne_nil

theorem substituteFrom_callFree (h : callFree s = true) (k : Nat) (before : Option Char)
    (hk : k ≤ s.length) :
    substituteFrom (callMatcher rewriteCall) k before s = s.drop k := by
  induction s generalizing k before with
  | nil => rw [Nat.le_zero.mp hk]; rfl
  | cons c s ih =>
      obtain ⟨hunknown, hrest⟩ := callFree_cons h
      cases k with
      | succ k => exact ih hrest k (some c) (Nat.le_of_succ_le_succ hk)
      | zero =>
          rw [substituteFrom, callMatcher]
          cases hcall : callAt (c :: s) with
          | none =>
              change c :: substituteFrom (callMatcher rewriteCall) 0 (some c) s = _
              rw [ih hrest 0 (some c) (Nat.zero_le _)]
              rfl
          | some call =>
              obtain ⟨hsame, hpos, hle⟩ := @convertFunctionCall_unknown _ _ _ rewriteCall hcall
                (hunknown _ _ hcall)
              rw [List.length_cons] at hle
              obtain ⟨m, hm⟩ := Nat.exists_eq_succ_of_ne_zero (Nat.ne_of_gt hpos)
              change convertFunctionCall rewriteCall ((c :: s).take call.2) ++
                substituteFrom (callMatcher rewriteCall) (call.2 - 1) (some c) s = _
              rw [hsame, ih hrest _ (some c) (by omega), hm, Nat.succ_sub_one, List.take_succ_cons,
                List.cons_append, List.take_append_drop, List.drop_zero]

theorem convertAllFunctions_callFree (h : callFree s = true) :
    convertAllFunctions rewriteCall s = s := by
  have hlayer : convertFunctionLayer rewriteCall s = s :=
    substituteFrom_callFree h 0 none (Nat.zero_le _)
  have hlayers : ∀ n previous, convertLayers rewriteCall n previous s = s := by
    intro n
    induction n with
    | zero => exact fun _ => rfl
    | succ n ih =>
        intro previous
        rw [convertLayers, hlayer, ih, ite_self]
  exact hlayers 20 none

end Calls

section Quoting

variable {s t w : Text} {c : Char} {k : Nat} {before : Option Char}

/-- What quoting keeps: brackets and double quotes are the same. -/
def unmarked (c : Char) : Char := if c = '[' ∨ c = ']' then '"' else c

theorem unmarked_of_ne {c : Char} (h : c ≠ '[') (h' : c ≠ ']') : unmarked c = c :=
  if_neg (not_or.mpr ⟨h, h'⟩)

/-- A test that does not tell the three marks apart. -/
theorem test_unmarked {p : Char → Bool} (hopen : p '[' = p '"') (hclose : p ']' = p '"')
    (c : Char) : p (unmarked c) = p c := by
  rw [unmarked]
  split
  · next h =>
      rcases h with rfl | rfl
      · exact hopen.symm
      · exact hclose.symm
  · rfl

theorem takeWhile_unmarked {p : Char → Bool} (hopen : p '[' = p '"') (hclose : p ']' = p '"')
    (s : Text) : (s.map unmarked).takeWhile p = (s.takeWhile p).map unmarked := by
  rw [List.takeWhile_map, show p ∘ unmarked = p from funext (test_unmarked hopen hclose)]

theorem dropWhile_unmarked {p : Char → Bool} (hopen : p '[' = p '"') (hclose : p ']' = p '"')
    (s : Text) : (s.map unmarked).dropWhile p = (s.dropWhile p).map unmarked := by
  rw [List.dropWhile_map, show p ∘ unmarked = p from funext (test_unmarked hopen hclose)]

theorem leadingWord_unmarked (s : Text) : leadingWord (s.map unmarked) = leadingWord s := by
  have hfix : ∀ c ∈ leadingWord s, unmarked c = id c := by
    intro c hc
    apply unmarked_of_ne
    all_goals
      rintro rfl
      exact absurd (word_leadingWord s _ hc) (by decide)
  rw [leadingWord, takeWhile_unmarked rfl rfl, ← leadingWord, List.map_congr_left hfix, List.map_id]

theorem unmarked_eq_iff {d : Char} (hd : d ≠ '[' ∧ d ≠ ']' ∧ d ≠ '"') (c : Char) :
    unmarked c = d ↔ c = d := by
  rw [unmarked]
  split
  · next h =>
      refine iff_of_false hd.2.2.symm ?_
      rintro rfl
      rcases h with rfl | rfl
      · exact hd.1 rfl
      · exact hd.2.1 rfl
  · rfl

theorem argsEnd_unmarked (inner : Bool) (s : Text) :
    argsEnd inner (s.map unmarked) = (argsEnd inner s).map (List.map unmarked) := by
  have hopen := fun c => @unmarked_eq_iff '(' (by decide) c
  have hclose := fun c => @unmarked_eq_iff ')' (by decide) c
  induction s generalizing inner with
  | nil => rfl
  | cons c s ih =>
      rw [List.map_cons, argsEnd, argsEnd, ih, ih, ih]
      simp only [hopen, hclose]
      cases inner with
      | true =>
          split
          · rfl
          · split
            · rfl
            · rfl
      | false =>
          split
          · rfl
          · split
            · rfl
            · rfl

theorem symbol_unmarked {d : Char} (hd : d ≠ '[' ∧ d ≠ ']' ∧ d ≠ '"') (s : Text) :
    symbol d (s.map unmarked) = (symbol d s).map (List.map unmarked) := by
  cases s with
  | nil => rfl
  | cons c s =>
      rw [List.map_cons, symbol, symbol]
      simp only [unmarked_eq_iff hd]
      split
      · rfl
      · rfl

theorem callAt_unmarked (s : Text) : callAt (s.map unmarked) = callAt s := by
  have halpha : (s.map unmarked).head?.any (fun c => c.isAlpha || c = '_') =
      s.head?.any fun c => c.isAlpha || c = '_' := by
    cases s with
    | nil => rfl
    | cons c s => exact @test_unmarked (fun c => c.isAlpha || c = '_') rfl rfl c
  rw [callAt, callAt, halpha, leadingWord_unmarked, dropWhile_unmarked rfl rfl, lstrip,
    dropWhile_unmarked rfl rfl, symbol_unmarked (by decide), List.length_map, lstrip]
  cases symbol '(' ((s.dropWhile isWord).dropWhile isSpace) with
  | none => rfl
  | some args =>
      rw [Option.map_some, Option.bind_some, Option.bind_some, argsEnd_unmarked]
      cases argsEnd false args with
      | none => rfl
      | some rest => rw [Option.map_some, Option.map_some, Option.map_some, List.length_map]

theorem callFree_unmarked (s : Text) : callFree (s.map unmarked) = callFree s := by
  induction s with
  | nil => rfl
  | cons c s ih =>
      have hcall := callAt_unmarked (c :: s)
      rw [List.map_cons] at hcall ⊢
      rw [callFree, hcall, ih, callFree]

/-- A name in brackets. -/
theorem identifierMatcher_some {replacement : Text} {n : Nat}
    (h : identifierMatcher before s = some (replacement, n)) :
    ∃ w rest, s = '[' :: (w ++ ']' :: rest) ∧ w ≠ [] ∧ (∀ c ∈ w, isWord c = true) ∧
      replacement = '"' :: (w ++ ['"']) ∧ n = w.length + 2 := by
  obtain ⟨rest, hrest, h⟩ := Option.bind_eq_some_iff.mp h
  split at h
  · cases h
  · next hword =>
      obtain ⟨tail, htail, heq⟩ := Option.map_eq_some_iff.mp h
      obtain ⟨rfl, rfl⟩ := Prod.mk.inj heq
      refine ⟨leadingWord rest, tail, ?_, hword, word_leadingWord rest, rfl, rfl⟩
      have hsplit : leadingWord rest ++ rest.drop (leadingWord rest).length = rest := by
        have hdrop : (leadingWord rest ++ rest.dropWhile isWord).drop (leadingWord rest).length =
            rest.dropWhile isWord := List.drop_left
        rw [leadingWord, List.takeWhile_append_dropWhile] at hdrop
        rw [leadingWord, hdrop, List.takeWhile_append_dropWhile]
      rw [← symbol_eq_some htail, hsplit, symbol_eq_some hrest]

theorem unmarked_substituteFrom (hk : k ≤ s.length) :
    (substituteFrom identifierMatcher k before s).map unmarked = (s.drop k).map unmarked := by
  induction s generalizing k before with
  | nil => rw [Nat.le_zero.mp hk]; rfl
  | cons c s ih =>
      cases k with
      | succ k => exact ih (Nat.le_of_succ_le_succ hk)
      | zero =>
          rw [substituteFrom]
          cases hmatch : identifierMatcher before (c :: s) with
          | none =>
              change (c :: substituteFrom identifierMatcher 0 (some c) s).map unmarked = _
              rw [List.map_cons, ih (Nat.zero_le _)]
              rfl
          | some found =>
              obtain ⟨w, rest, hs, -, -, hreplacement, hn⟩ := identifierMatcher_some hmatch
              obtain ⟨rfl, rfl⟩ := List.cons.inj hs
              have hlength : w.length + 1 = (w ++ [']']).length := by
                rw [List.length_append, List.length_singleton]
              have hdrop : (w ++ ']' :: rest).drop (w.length + 1) = rest := by
                rw [hlength, List.append_cons w ']' rest, List.drop_left]
              change (found.1 ++ substituteFrom identifierMatcher (found.2 - 1) (some '[')
                (w ++ ']' :: rest)).map unmarked = _
              rw [List.map_append, hn, hreplacement, Nat.add_succ_sub_one,
                ih (by rw [List.length_append, List.length_cons]; omega), hdrop]
              simp only [List.map_cons, List.map_append, List.map_nil, List.append_assoc,
                List.cons_append, List.nil_append, List.drop_zero]
              rfl

theorem unmarked_quoteIdentifiers (s : Text) :
    (quoteIdentifiers s).map unmarked = s.map unmarked := by
  rw [quoteIdentifiers]
  split
  · exact unmarked_substituteFrom (Nat.zero_le _)
  · rfl

theorem length_quoteIdentifiers (s : Text) : (quoteIdentifiers s).length = s.length := by
  have h := congrArg List.length (unmarked_quoteIdentifiers s)
  rwa [List.length_map, List.length_map] at h

theorem callFree_quoteIdentifiers (h : callFree s = true) :
    callFree (quoteIdentifiers s) = true := by
  rwa [← callFree_unmarked, unmarked_quoteIdentifiers, callFree_unmarked]

/-- Whatever comes after `s`, quoting makes `s'` of it. -/
structure Quotes (s s' : Text) : Prop where
  written : ∀ before rest, ∃ before', substituteFrom identifierMatcher 0 before (s ++ rest) =
    s' ++ substituteFrom identifierMatcher 0 before' rest
  noBracket : '[' ∉ s'

theorem Quotes.append {s' t' : Text} (hs : Quotes s s') (ht : Quotes t t') :
    Quotes (s ++ t) (s' ++ t') where
  written before rest := by
    obtain ⟨mid, hmid⟩ := hs.written before (t ++ rest)
    obtain ⟨last, hlast⟩ := ht.written mid rest
    exact ⟨last, by rw [List.append_assoc, hmid, hlast, List.append_assoc]⟩
  noBracket := by
    rw [List.mem_append, not_or]
    exact ⟨hs.noBracket, ht.noBracket⟩

theorem quotes_of_noBracket (h : '[' ∉ s) : Quotes s s where
  written before rest := by
    induction s generalizing before with
    | nil => exact ⟨before, rfl⟩
    | cons c s ih =>
        obtain ⟨hc, hs⟩ := not_or.mp (mt List.mem_cons.mpr h)
        obtain ⟨last, hlast⟩ := ih hs (some c)
        have hnone : identifierMatcher before (c :: (s ++ rest)) = none := by
          rw [identifierMatcher, symbol, if_neg (Ne.symm hc)]
          rfl
        exact ⟨last, by rw [List.cons_append, substituteFrom, hnone, List.cons_append, ← hlast]⟩
  noBracket := h

theorem quotes_name (hne : w ≠ []) (hw : ∀ c ∈ w, isWord c = true) :
    Quotes ('[' :: (w ++ [']'])) ('"' :: (w ++ ['"'])) where
  written before rest := by
    have hstop : ∀ c ∈ (']' :: rest).head?, isWord c = false := by
      intro c hc
      cases hc
      decide
    have hlead : leadingWord (w ++ ']' :: rest) = w := by
      rw [leadingWord, takeWhile_append_stop hstop, List.takeWhile_eq_self_iff.mpr hw]
    have hmatch : identifierMatcher before ('[' :: (w ++ [']']) ++ rest) =
        some ('"' :: (w ++ ['"']), ('[' :: (w ++ [']'])).length) := by
      rw [identifierMatcher, List.cons_append, ← List.append_cons, symbol, if_pos rfl,
        Option.bind_some, hlead, if_neg hne, List.drop_left, symbol, if_pos rfl, Option.map_some,
        List.length_cons, List.length_append, List.length_singleton]
    exact ⟨_, substituteFrom_match (List.cons_ne_nil _ _) rest hmatch⟩
  noBracket := by
    rw [List.mem_cons, List.mem_append, List.mem_singleton, not_or, not_or]
    exact ⟨by decide, fun hmem => absurd (hw _ hmem) (by decide), by decide⟩

theorem quoteIdentifiers_of_quotes {s' : Text} (h : Quotes s s') : quoteIdentifiers s = s' := by
  rw [quoteIdentifiers]
  split
  · obtain ⟨last, hlast⟩ := h.written none []
    rwa [List.append_nil, substituteFrom, List.append_nil] at hlast
  · next hs =>
      obtain ⟨last, hlast⟩ := h.written none []
      obtain ⟨last', hlast'⟩ := (quotes_of_noBracket hs).written none []
      rw [hlast, substituteFrom, substituteFrom, List.append_nil, List.append_nil] at hlast'
      exact hlast'.symm

theorem trimmed_of_unmarked (h : s.map unmarked = t.map unmarked) (hs : Trimmed s) :
    Trimmed t := by
  have hspace : ∀ {o o' : Option Char}, o.map unmarked = o'.map unmarked →
      (∃ c ∈ o, isSpace c = false) → ∃ c ∈ o', isSpace c = false := by
    rintro o o' ho ⟨c, rfl, hc⟩
    obtain ⟨d, rfl, hd⟩ := Option.map_eq_some_iff.mp ho.symm
    refine ⟨d, rfl, ?_⟩
    rw [← test_unmarked (p := isSpace) rfl rfl d, hd, test_unmarked (p := isSpace) rfl rfl c, hc]
  constructor
  · exact hspace (by rw [← List.head?_map, h, List.head?_map]) hs.head
  · exact hspace (by rw [← List.getLast?_map, h, List.getLast?_map]) hs.last

end Quoting

/-! ## The conversion ends -/

section Ends

variable {x : Lexing} {s lhs word rhs before : Text} {p : Place} {rewriteCall : Text → Text}

/-- Both sides of a cut are parts of the text, without its word. -/
theorem cutFrom_some (h : cutFrom x before p s = some (lhs, word, rhs)) :
    ∃ a v b, before ++ s = a ++ (v ++ b) ∧ lhs = strip a ∧ rhs = strip b ∧ v ≠ [] := by
  induction s generalizing before p with
  | nil => cases h
  | cons c s ih =>
      rw [cutFrom] at h
      split at h
      · next w hfound =>
          obtain ⟨rfl, heq⟩ := Prod.mk.inj (Option.some.inj h)
          obtain ⟨rfl, rfl⟩ := Prod.mk.inj heq
          split at hfound
          · have hne := x.nonempty w (List.mem_of_find?_eq_some hfound)
            refine ⟨before, (c :: s).take w.length, (c :: s).drop w.length, ?_, rfl, rfl, ?_⟩
            · rw [List.take_append_drop]
            · obtain ⟨n, hn⟩ := Nat.exists_eq_succ_of_ne_zero (mt List.length_eq_zero_iff.mp hne)
              rw [hn, List.take_succ_cons]
              exact List.cons_ne_nil _ _
          · cases hfound
      · obtain ⟨a, v, b, hsplit, hrest⟩ := ih h
        rw [List.append_assoc, List.singleton_append] at hsplit
        exact ⟨a, v, b, hsplit, hrest⟩

theorem length_strip_le (s : Text) : (strip s).length ≤ s.length := by
  obtain ⟨w, w', -, -, hs⟩ := exists_blanks s
  have hlength := congrArg List.length hs
  rw [List.length_append, List.length_append] at hlength
  omega

theorem convertExpression_total (h : callFree s = true) {fuel : Nat} (hfuel : s.length < fuel) :
    ∃ out, convertExpression rewriteCall fuel s = some out := by
  induction fuel generalizing s with
  | zero => exact absurd hfuel (Nat.not_lt_zero _)
  | succ fuel ih =>
      have hfree := callFree_quoteIdentifiers (callFree_strip h)
      have hle := length_strip_le s
      have hlength := length_quoteIdentifiers (strip s)
      rw [convertExpression]
      split
      · exact ⟨_, rfl⟩
      · rw [convertAllFunctions_callFree hfree]
        generalize quoteIdentifiers (strip s) = expr at hfree hlength
        rw [splitLogicalAtDepthZero]
        split
        · exact ⟨_, rfl⟩
        · next lhs word rhs hcut =>
            obtain ⟨a, v, b, hsplit, rfl, rfl, hne⟩ := cutFrom_some hcut
            rw [List.nil_append] at hsplit
            have htotal := congrArg List.length hsplit
            rw [List.length_append, List.length_append] at htotal
            have hpos := List.length_pos_iff.mpr hne
            have ha := length_strip_le a
            have hb := length_strip_le b
            rw [hsplit] at hfree
            obtain ⟨l, hl⟩ := ih (callFree_strip (callFree_left hfree)) (by omega)
            obtain ⟨r, hr⟩ := ih (callFree_strip (callFree_right (callFree_right hfree)))
              (by omega)
            rw [hl, hr]
            exact ⟨_, rfl⟩

theorem convertExpression_succ {out : Text} {fuel : Nat}
    (h : convertExpression rewriteCall fuel s = some out) :
    convertExpression rewriteCall (fuel + 1) s = some out := by
  induction fuel generalizing s out with
  | zero => cases h
  | succ fuel ih =>
      rw [convertExpression] at h ⊢
      split
      · next hs =>
          rw [if_pos hs] at h
          exact h
      · next hs =>
          rw [if_neg hs] at h
          obtain ⟨split, hsplit, rfl⟩ := Option.map_eq_some_iff.mp h
          generalize convertAllFunctions rewriteCall (quoteIdentifiers (strip s)) = expr at hsplit ⊢
          rw [splitLogicalAtDepthZero] at hsplit ⊢
          cases hcut : cut logicalScan expr with
          | none =>
              rw [hcut] at hsplit
              rw [Option.some.inj hsplit]
              rfl
          | some found =>
              rw [hcut] at hsplit
              obtain ⟨l, hl, hmap⟩ := Option.bind_eq_some_iff.mp hsplit
              obtain ⟨r, hr, heq⟩ := Option.map_eq_some_iff.mp hmap
              change (((convertExpression rewriteCall (fuel + 1) found.1).bind _).map _) = _
              rw [ih hl, Option.bind_some, ih hr, ← heq]
              rfl

/-- More fuel changes nothing. -/
theorem convertExpression_mono {out : Text} {fuel fuel' : Nat} (hle : fuel ≤ fuel')
    (h : convertExpression rewriteCall fuel s = some out) :
    convertExpression rewriteCall fuel' s = some out := by
  induction hle with
  | refl => exact h
  | step _ ih => exact convertExpression_succ ih

end Ends

/-! ## Parts between connectives -/

/-- No plus sign stands beside a quote, blanks apart. -/
def unjoined : Text → Bool
  | [] => true
  | c :: cs =>
      !(c = '+' && (lstrip cs).head? = some '\'') &&
        (!(c = '\'' && (lstrip cs).head? = some '+') && unjoined cs)

section Unjoined

variable {s t l r : Text} {c : Char} {m : Matcher} {before : Option Char}

theorem unjoined_cons : unjoined (c :: s) = true ↔
    (c = '+' → (lstrip s).head? ≠ some '\'') ∧ (c = '\'' → (lstrip s).head? ≠ some '+') ∧
      unjoined s = true := by
  simp only [unjoined, Bool.and_eq_true, Bool.not_eq_true', Bool.and_eq_false_iff,
    decide_eq_false_iff_not, imp_iff_not_or, ne_eq]

theorem unjoined_right (h : unjoined (s ++ t) = true) : unjoined t = true := by
  induction s with
  | nil => exact h
  | cons c s ih => exact ih (unjoined_cons.mp h).2.2

theorem head_lstrip_append {d : Char} (h : (lstrip s).head? = some d) (t : Text) :
    (lstrip (s ++ t)).head? = some d := by
  have hne : lstrip s ≠ [] := by
    intro hnil
    rw [hnil] at h
    cases h
  rw [lstrip_append hne, List.head?_append, h, Option.some_or]

theorem unjoined_left (h : unjoined (s ++ t) = true) : unjoined s = true := by
  induction s with
  | nil => rfl
  | cons c s ih =>
      obtain ⟨hplus, hquote, hrest⟩ := unjoined_cons.mp h
      exact unjoined_cons.mpr ⟨fun hc hs => hplus hc (head_lstrip_append hs t),
        fun hc hs => hquote hc (head_lstrip_append hs t), ih hrest⟩

/-- Any other sign keeps a plus sign and a quote apart. -/
theorem unjoined_append (hs : unjoined s = true) (ht : unjoined (c :: t) = true)
    (hspace : isSpace c = false) (hplus : c ≠ '+') (hquote : c ≠ '\'') :
    unjoined (s ++ c :: t) = true := by
  have hhead : ∀ (u : Text) (d : Char), (lstrip (u ++ c :: t)).head? = some d →
      d ≠ c → (lstrip u).head? = some d := by
    intro u d hd hne
    by_cases hu : lstrip u = []
    · rw [lstrip_of_isSpace (blank_of_lstrip hu), lstrip_of_head, List.head?_cons] at hd
      · exact absurd (Option.some.inj hd).symm hne
      · intro e he
        cases he
        exact hspace
    · rw [lstrip_append hu] at hd
      obtain ⟨e, u', hu'⟩ := List.exists_cons_of_ne_nil hu
      rw [hu'] at hd ⊢
      exact hd
  induction s with
  | nil => exact ht
  | cons d s ih =>
      obtain ⟨hp, hq, hrest⟩ := unjoined_cons.mp hs
      exact unjoined_cons.mpr ⟨fun hd hnext => hp hd (hhead s _ hnext hquote.symm),
        fun hd hnext => hq hd (hhead s _ hnext hplus.symm), ih hrest⟩

theorem substituteFrom_none (h : ∀ before a b, s = a ++ b → m before b = none) :
    substituteFrom m 0 before s = s := by
  induction s generalizing before with
  | nil => rfl
  | cons c s ih =>
      rw [substituteFrom, h before [] (c :: s) rfl]
      exact congrArg (c :: ·) (ih fun before a b hs => h before (c :: a) b (by rw [hs]; rfl))

theorem literalEnd_some {escaped : Bool} {rest : Text} (h : literalEnd escaped s = some rest) :
    ∃ u, s = u ++ '\'' :: rest := by
  induction s generalizing escaped with
  | nil =>
      rw [literalEnd] at h
      cases h
  | cons c s ih =>
      have hlater : ∀ {next}, literalEnd next s = some rest → ∃ u, c :: s = u ++ '\'' :: rest := by
        intro next hnext
        obtain ⟨u, hu⟩ := ih hnext
        exact ⟨c :: u, by rw [hu, List.cons_append]⟩
      cases escaped with
      | true =>
          rw [literalEnd] at h
          split at h
          · cases h
          · exact hlater h
      | false =>
          rw [literalEnd] at h
          split at h
          · next hc => exact ⟨[], by rw [hc, Option.some.inj h, List.nil_append]⟩
          · exact hlater h

theorem convertStringConcat_unjoined (h : unjoined s = true) : convertStringConcat s = s := by
  have hfirst : substitute literalPlusMatcher s = s := by
    apply substituteFrom_none
    rintro before a b rfl
    rw [literalPlusMatcher, Option.map_eq_none_iff, Option.eq_none_iff_forall_ne_some]
    intro rest hrest
    obtain ⟨after, hafter, hplus⟩ := Option.bind_eq_some_iff.mp hrest
    obtain ⟨opened, hopened, hend⟩ := Option.bind_eq_some_iff.mp hafter
    obtain ⟨u, rfl⟩ := literalEnd_some hend
    rw [symbol_eq_some hopened, ← List.cons_append, ← List.append_assoc] at h
    exact (unjoined_cons.mp (unjoined_right h)).2.1 rfl (by rw [symbol_eq_some hplus]; rfl)
  have hsecond : substitute plusLiteralMatcher s = s := by
    apply substituteFrom_none
    rintro before a b rfl
    rw [plusLiteralMatcher, Option.map_eq_none_iff, Option.eq_none_iff_forall_ne_some]
    intro rest hrest
    obtain ⟨opened, hopened, -⟩ := Option.bind_eq_some_iff.mp hrest
    obtain ⟨after, hplus, hquote⟩ := Option.bind_eq_some_iff.mp hopened
    rw [symbol_eq_some hplus] at h
    exact (unjoined_cons.mp (unjoined_right h)).1 rfl (by rw [symbol_eq_some hquote]; rfl)
  rw [convertStringConcat, hfirst, hsecond, ite_self]

theorem unjoined_bracketed {word : Text} (hword : word ∈ logicalScan.words)
    (hl : unjoined l = true) (hr : unjoined r = true) :
    unjoined (bracketed l word r) = true := by
  have hclose : unjoined (r ++ [')']) = true :=
    unjoined_append hr rfl (by decide) (by decide) (by decide)
  have hrest : unjoined (' ' :: (word ++ (' ' :: '(' :: (r ++ [')'])))) = true := by
    have hwords : word = ['O', 'R'] ∨ word = ['A', 'N', 'D'] := by
      simpa [logicalScan] using hword
    rcases hwords with rfl | rfl
    · exact hclose
    · exact hclose
  have hall : unjoined ('(' :: (l ++ ')' :: (' ' :: (word ++ (' ' :: '(' :: (r ++ [')'])))))) =
      true := unjoined_append hl hrest (by decide) (by decide) (by decide)
  rwa [bracketed, inParens, inParens, Gap.text, List.cons_append, List.append_assoc,
    List.append_assoc, List.append_assoc, List.singleton_append, List.singleton_append,
    List.singleton_append]

end Unjoined

/-- A parenthesis around every operand, and around everything after a connective. -/
def nested : Parts → Text
  | .one t => t
  | .join t g rest => bracketed t (upper g.word) (nested rest)

def partCount : Parts → Nat
  | .one _ => 1
  | .join _ _ rest => partCount rest + 1

section Parts

variable {r : Parts} {t : Text} {rewriteCall : Text → Text}

theorem convertExpression_part {fuel : Nat} (hpart : Part logicalScan t)
    (hunjoined : unjoined t = true) (hfree : callFree t = true) (hbracket : '[' ∉ t) :
    convertExpression rewriteCall (fuel + 1) t = some t := by
  rw [convertExpression, hpart.trimmed.strip_eq, if_neg hpart.trimmed.ne_nil, quoteIdentifiers,
    if_neg hbracket, convertAllFunctions_callFree hfree, splitLogicalAtDepthZero,
    ConnectiveScan.cut_eq_none hpart]
  exact congrArg some (convertStringConcat_unjoined hunjoined)

theorem unjoined_nested (hr : r.Sound logicalScan) (h : unjoined r.write = true) :
    unjoined (nested r) = true := by
  induction r with
  | one t => exact h
  | join t g rest ih =>
      have hrest := ih hr.2.2 (unjoined_right (unjoined_right h))
      exact unjoined_bracketed hr.2.1.word (unjoined_left h) hrest

theorem convertExpression_parts (hr : r.Sound logicalScan) (hunjoined : unjoined r.write = true)
    (hfree : callFree r.write = true) (hbracket : '[' ∉ r.write) {fuel : Nat}
    (hfuel : partCount r ≤ fuel) :
    convertExpression rewriteCall fuel r.write = some (nested r) := by
  induction r generalizing fuel with
  | one t =>
      obtain ⟨fuel, rfl⟩ := Nat.exists_eq_succ_of_ne_zero (Nat.ne_of_gt hfuel)
      exact convertExpression_part hr hunjoined hfree hbracket
  | join t g rest ih =>
      have hall := unjoined_nested hr hunjoined
      have htrimmed := Parts.trimmed_write hr
      obtain ⟨hpart, hgap, hrest⟩ := hr
      rw [Parts.write, List.mem_append, List.mem_append, not_or, not_or] at hbracket
      rw [partCount] at hfuel
      obtain ⟨fuel, rfl⟩ : ∃ n, fuel = n + 1 + 1 := ⟨fuel - 2, by
        have hpos : 0 < partCount rest := by
          cases rest with
          | one t => exact Nat.one_pos
          | join t g rest => exact Nat.succ_pos _
        omega⟩
      have hlhs := @convertExpression_part _ rewriteCall fuel hpart (unjoined_left hunjoined)
        (callFree_left hfree) hbracket.1
      have hrhs := ih hrest (unjoined_right (unjoined_right hunjoined))
        (callFree_right (callFree_right hfree)) hbracket.2.2 (Nat.le_of_succ_le_succ hfuel)
      have hcut := ConnectiveScan.cut_join hpart (Parts.trimmed_write hrest) hgap
      rw [convertExpression, htrimmed.strip_eq, if_neg htrimmed.ne_nil, quoteIdentifiers,
        if_neg (by simpa [Parts.write] using hbracket), convertAllFunctions_callFree hfree,
        splitLogicalAtDepthZero, Parts.write, hcut]
      change ((convertExpression rewriteCall (fuel + 1) t).bind _).map _ = _
      rw [hlhs, Option.bind_some, hrhs]
      exact congrArg some (convertStringConcat_unjoined hall)

end Parts

end SqlOptima.ExpressionConverter
