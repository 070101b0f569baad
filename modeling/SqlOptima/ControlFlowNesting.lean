import SqlOptima.ControlFlowSyntax

namespace SqlOptima.ControlFlowNesting

open PythonText ControlFlow ControlFlowSyntax

section Blanks

/-- The lines that are not blank, without the blanks around them. -/
def content (ls : List Text) : List Text := (ls.map strip).filter (· ≠ [])

theorem content_cons_blank {line : Text} {rest : List Text} (h : strip line = []) :
    content (line :: rest) = content rest := by
  simp [content, h]

theorem content_cons {line : Text} {rest : List Text} (h : strip line ≠ []) :
    content (line :: rest) = strip line :: content rest := by
  simp [content, h]

theorem content_append (ls ls' : List Text) : content (ls ++ ls') = content ls ++ content ls' := by
  simp [content]

theorem content_congr {line line' : Text} (h : strip line = strip line') (rest : List Text) :
    content (line :: rest) = content (line' :: rest) := by
  simp [content, h]

theorem nextLine_cons_blank {line : Text} {rest : List Text} (h : strip line = []) :
    nextLine (line :: rest) = nextLine rest := by
  simp [nextLine, h, upper]

theorem nextLine_cons {line : Text} {rest : List Text} (h : strip line ≠ []) :
    nextLine (line :: rest) = some (upper (strip line)) := by
  simp [nextLine, h, upper]

theorem nextLine_content (ls : List Text) : nextLine (content ls) = nextLine ls := by
  induction ls with
  | nil => rfl
  | cons line rest ih =>
      by_cases h : strip line = []
      · rw [content_cons_blank h, nextLine_cons_blank h, ih]
      · have h' : strip (strip line) ≠ [] := by rwa [strip_strip]
        rw [content_cons h, nextLine_cons h, nextLine_cons h', strip_strip]

theorem strip_indent (line s : Text) : strip (line.takeWhile isSpace ++ s) = strip s := by
  have hblank : ∀ c ∈ line.takeWhile isSpace, isSpace c = true := by
    rw [← List.all_eq_true]
    exact List.all_takeWhile
  unfold strip
  rw [lstrip_of_isSpace hblank]

theorem strip_render (line : Text) (e : Emission) :
    strip (e.render line) = strip (e.render (strip line)) := by
  cases e with
  | same => exact (strip_strip line).symm
  | indented s =>
      change strip (line.takeWhile isSpace ++ s) = strip ((strip line).takeWhile isSpace ++ s)
      rw [strip_indent, strip_indent]

theorem content_render (line : Text) (out : List Emission) :
    content (out.map (Emission.render line)) =
      content (out.map (Emission.render (strip line))) := by
  simp only [content, List.map_map]
  congr 1
  apply List.map_congr_left
  intro e _
  exact strip_render line e

theorem convertLine_nil (stack : List BlockKind) (next : Option Text) :
    convertLine stack [] next = ⟨[.same], false, stack⟩ := by
  simp [convertLine, opensWith, opensWithout, isElseBegin, isBegin, isEnd, convertStatement, upper,
    leadingWord]

theorem convertLines_cons (stack : List BlockKind) (line : Text) (rest : List Text) :
    convertLines false stack (line :: rest) =
      (convertLine stack (strip line) (nextLine rest)).out.map (Emission.render line) ++
        convertLines (convertLine stack (strip line) (nextLine rest)).absorb
          (convertLine stack (strip line) (nextLine rest)).stack rest :=
  rfl

/-- Blank lines and indentation make no difference to the structure. -/
theorem content_convertLines (ls : List Text) (absorb : Bool) (stack : List BlockKind) :
    content (convertLines absorb stack ls) = content (convertLines absorb stack (content ls)) := by
  induction ls generalizing absorb stack with
  | nil => rfl
  | cons line rest ih =>
      by_cases h : strip line = []
      · rw [content_cons_blank h, ← ih]
        cases absorb with
        | true => simp [convertLines, h]
        | false =>
            rw [convertLines_cons, h, convertLine_nil]
            exact content_cons_blank h
      · rw [content_cons h]
        cases absorb with
        | true => simpa [convertLines, h, strip_strip] using ih false stack
        | false =>
            rw [convertLines_cons, convertLines_cons, strip_strip, nextLine_content,
              content_append, content_append, ← content_render, ih]

end Blanks

section Steps

variable {w u t : Text} {stack : List BlockKind} {next : Option Text}

theorem opensWith_iff {k o : Text} :
    opensWith k o u = true ↔ leadingWord u = k ∧ trailingWord u = o := by
  rw [opensWith, Bool.and_eq_true, decide_eq_true_eq, decide_eq_true_eq]

theorem opensWith_ne {k o : Text} (h : leadingWord u = w) (hne : w ≠ k) :
    ¬ opensWith k o u = true :=
  fun hu => hne (h.symm.trans (opensWith_iff.mp hu).1)

theorem opensWithout_ne {k : Text} {os : List Text} (h : leadingWord u = w) (hne : w ≠ k) :
    ¬ opensWithout k os u = true := by
  rw [opensWithout, Bool.and_eq_true, decide_eq_true_eq]
  exact fun hu => hne (h.symm.trans hu.1)

theorem isElseBegin_ne (h : leadingWord u = w) (hne : w ≠ "ELSE".toList) :
    ¬ isElseBegin u = true := by
  rw [isElseBegin, Bool.and_eq_true, decide_eq_true_eq]
  exact fun hu => hne (h.symm.trans hu.1)

theorem isBegin_ne (h : leadingWord u = w) (hne : w ≠ "BEGIN".toList) : ¬ isBegin u = true := by
  rw [isBegin, Bool.or_eq_true, decide_eq_true_eq, decide_eq_true_eq]
  rintro (rfl | rfl)
  · exact hne (h.symm.trans (by decide))
  · exact hne (h.symm.trans (by decide))

/-- The keyword that a line begins with decides which tests it can pass. -/
theorem convertLine_if_begin (h : leadingWord (upper t) = "IF".toList)
    (hbegin : trailingWord (upper t) = "BEGIN".toList) :
    convertLine stack t next =
      ⟨[.indented (replaceBegin t "THEN".toList)], false, .ifBlock :: stack⟩ := by
  rw [convertLine, if_pos (opensWith_iff.mpr ⟨h, hbegin⟩)]

theorem not_trailing_begin {k : Text} {os : List Text} (h : opensWithout k os u = true)
    (hmem : "BEGIN".toList ∈ os) : trailingWord u ≠ "BEGIN".toList := by
  intro hbegin
  rw [opensWithout, Bool.and_eq_true, Bool.not_eq_true'] at h
  have hword := List.any_eq_false.mp h.2 _ hmem
  rw [← hbegin] at hword
  exact hword (hasWord_trailingWord u)

theorem convertLine_if
    (hwithout : opensWithout "IF".toList ["THEN".toList, "BEGIN".toList] (upper t) = true) :
    convertLine stack t next =
      convertCondition stack stack (conditionLine t) (next = some "BEGIN".toList) := by
  have hbegin := not_trailing_begin hwithout (by decide)
  rw [convertLine, if_neg (fun hu => hbegin (opensWith_iff.mp hu).2), if_pos hwithout]

theorem convertLine_elsif_begin (h : leadingWord (upper t) = "ELSIF".toList)
    (hbegin : trailingWord (upper t) = "BEGIN".toList) :
    convertLine stack t next =
      ⟨[.indented (replaceBegin t "THEN".toList)], false, .ifBlock :: popIf stack⟩ := by
  rw [convertLine, if_neg (opensWith_ne h (by decide)), if_neg (opensWithout_ne h (by decide)),
    if_pos (opensWith_iff.mpr ⟨h, hbegin⟩)]

theorem convertLine_elsif (h : leadingWord (upper t) = "ELSIF".toList)
    (hwithout : opensWithout "ELSIF".toList ["THEN".toList, "BEGIN".toList] (upper t) = true) :
    convertLine stack t next =
      convertCondition (popIf stack) stack (conditionLine t) (next = some "BEGIN".toList) := by
  have hbegin := not_trailing_begin hwithout (by decide)
  rw [convertLine, if_neg (opensWith_ne h (by decide)), if_neg (opensWithout_ne h (by decide)),
    if_neg (fun hu => hbegin (opensWith_iff.mp hu).2), if_pos hwithout]

theorem convertLine_else_begin (h : leadingWord (upper t) = "ELSE".toList)
    (helse : isElseBegin (upper t) = true) :
    convertLine stack t next = ⟨[.indented "ELSE".toList], false, .elseBlock :: stack⟩ := by
  rw [convertLine, if_neg (opensWith_ne h (by decide)), if_neg (opensWithout_ne h (by decide)),
    if_neg (opensWith_ne h (by decide)), if_neg (opensWithout_ne h (by decide)), if_pos helse]

theorem convertLine_while_begin (h : leadingWord (upper t) = "WHILE".toList)
    (hbegin : trailingWord (upper t) = "BEGIN".toList) :
    convertLine stack t next =
      ⟨[.indented (replaceBegin t "LOOP".toList)], false, .whileBlock :: stack⟩ := by
  rw [convertLine, if_neg (opensWith_ne h (by decide)), if_neg (opensWithout_ne h (by decide)),
    if_neg (opensWith_ne h (by decide)), if_neg (opensWithout_ne h (by decide)),
    if_neg (isElseBegin_ne h (by decide)), if_neg (isBegin_ne h (by decide)),
    if_pos (opensWith_iff.mpr ⟨h, hbegin⟩)]

theorem convertLine_while (h : leadingWord (upper t) = "WHILE".toList)
    (hwithout : opensWithout "WHILE".toList ["LOOP".toList, "BEGIN".toList] (upper t) = true)
    (hnext : next = some "BEGIN".toList) :
    convertLine stack t next =
      ⟨[.indented (conditionLine t ++ " LOOP".toList)], true, .whileBlock :: stack⟩ := by
  have hbegin := not_trailing_begin hwithout (by decide)
  rw [convertLine, if_neg (opensWith_ne h (by decide)), if_neg (opensWithout_ne h (by decide)),
    if_neg (opensWith_ne h (by decide)), if_neg (opensWithout_ne h (by decide)),
    if_neg (isElseBegin_ne h (by decide)), if_neg (isBegin_ne h (by decide)),
    if_neg (fun hu => hbegin (opensWith_iff.mp hu).2), hwithout, hnext]
  rfl

theorem convertLine_end (h : leadingWord (upper t) = "END".toList) (hend : isEnd (upper t) = true) :
    convertLine stack t next = convertEnd stack := by
  rw [convertLine, if_neg (opensWith_ne h (by decide)), if_neg (opensWithout_ne h (by decide)),
    if_neg (opensWith_ne h (by decide)), if_neg (opensWithout_ne h (by decide)),
    if_neg (isElseBegin_ne h (by decide)), if_neg (isBegin_ne h (by decide)),
    if_neg (opensWith_ne h (by decide)), if_neg (fun hu => ?_), if_pos hend]
  exact opensWithout_ne h (by decide) (Bool.and_eq_true _ _ ▸ hu).1

theorem convertLine_statement (h : Statement t) :
    convertLine stack t next = convertStatement stack t next := by
  have hleads := h.leads
  simp only [List.mem_cons, List.not_mem_nil, or_false, not_or] at hleads
  obtain ⟨hif, helsif, helse, hwhile⟩ := hleads
  rw [convertLine, if_neg (opensWith_ne rfl hif), if_neg (opensWithout_ne rfl hif),
    if_neg (opensWith_ne rfl helsif), if_neg (opensWithout_ne rfl helsif),
    if_neg (isElseBegin_ne rfl helse), if_neg (Bool.eq_false_iff.mp h.notBegin),
    if_neg (opensWith_ne rfl hwhile), if_neg (fun hu => ?_),
    if_neg (Bool.eq_false_iff.mp h.notEnd)]
  exact opensWithout_ne rfl hwhile (Bool.and_eq_true _ _ ▸ hu).1

end Steps

section Lines

variable {t header : Text} {stack : List BlockKind} {rest : List Text}

def nextIsElse (rest : List Text) : Bool := (nextLine rest).any isElse

theorem nextLine_trimmed (ht : Trimmed t) (rest : List Text) :
    nextLine (t :: rest) = some (upper t) := by
  have h : strip t ≠ [] := by
    rw [ht.strip_eq]
    exact ht.ne_nil
  rw [nextLine_cons h, ht.strip_eq]

/-- The lines that a stripped line is replaced by. -/
def Emission.text (t : Text) : Emission → Text
  | .same => t
  | .indented s => s

theorem map_render_trimmed (ht : Trimmed t) (out : List Emission) :
    out.map (Emission.render t) = out.map (Emission.text t) := by
  apply List.map_congr_left
  intro e _
  cases e with
  | same => rfl
  | indented s =>
      change t.takeWhile isSpace ++ s = s
      rw [ht.indent_eq, List.nil_append]

theorem convertLines_trimmed (ht : Trimmed t) {step : Step}
    (hstep : convertLine stack t (nextLine rest) = step) :
    convertLines false stack (t :: rest) =
      step.out.map (Emission.text t) ++ convertLines step.absorb step.stack rest := by
  rw [convertLines_cons, ht.strip_eq, hstep, map_render_trimmed ht]

theorem statement_line (ht : Statement t) (hstack : stack.head? ≠ some .ifSingle) :
    convertLines false stack (t :: rest) = t :: convertLines false stack rest := by
  have hstep : convertLine stack t (nextLine rest) = ⟨[.same], false, stack⟩ := by
    rw [convertLine_statement ht, convertStatement, if_neg fun h => hstack h.1]
  exact convertLines_trimmed ht.trimmed hstep

/-- The statement of an `IF` without `BEGIN`. -/
theorem single_line (ht : Statement t) (hplain : Plain t) :
    convertLines false (.ifSingle :: stack) (t :: rest) =
      t :: (if nextIsElse rest then [] else ["END IF;".toList]) ++
        convertLines false stack rest := by
  have hstep : convertLine (.ifSingle :: stack) t (nextLine rest) =
      ⟨.same :: if nextIsElse rest then [] else [.indented "END IF;".toList], false, stack⟩ := by
    have hleads : leadingWord (upper t) ∉ ["IF".toList, "ELSIF".toList, "ELSE".toList,
        "BEGIN".toList, "END".toList, "WHILE".toList] := by
      have hkeyword := ht.leads
      have hblock := hplain.leads
      simp only [List.mem_cons, List.not_mem_nil, or_false, not_or] at hkeyword hblock ⊢
      exact ⟨hkeyword.1, hkeyword.2.1, hkeyword.2.2.1, hblock.1, hblock.2, hkeyword.2.2.2⟩
    rw [convertLine_statement ht, convertStatement, if_pos ⟨rfl, ht.trimmed.ne_nil, hleads⟩]
    rfl
  rw [convertLines_trimmed ht.trimmed hstep]
  cases nextIsElse rest with
  | true => rfl
  | false => rfl

theorem end_line (ht : Ending t) :
    convertLines false stack (t :: rest) =
      (convertEnd stack).out.map (Emission.text t) ++
        convertLines (convertEnd stack).absorb (convertEnd stack).stack rest := by
  have hlead : leadingWord (upper t) = "END".toList := by
    have h := ht.isEnd
    rw [isEnd, Bool.and_eq_true, decide_eq_true_eq] at h
    exact h.1
  exact convertLines_trimmed ht.trimmed (convertLine_end hlead ht.isEnd)

theorem trimmed_of_upper (h : Trimmed (upper t)) : Trimmed t := by
  obtain ⟨⟨c, hc, hcspace⟩, ⟨d, hd, hdspace⟩⟩ := h
  rw [upper, List.head?_map] at hc
  rw [upper, List.getLast?_map] at hd
  obtain ⟨c', hc', rfl⟩ := Option.map_eq_some_iff.mp hc
  obtain ⟨d', hd', rfl⟩ := Option.map_eq_some_iff.mp hd
  exact ⟨⟨c', hc', isSpace_of_toUpper hcspace⟩, ⟨d', hd', isSpace_of_toUpper hdspace⟩⟩

theorem trimmed_begins (h : upper t = "BEGIN".toList) : Trimmed t := by
  apply trimmed_of_upper
  rw [h]
  exact ⟨⟨'B', rfl, rfl⟩, ⟨'N', rfl, rfl⟩⟩

theorem nextLine_begins (h : upper t = "BEGIN".toList) (rest : List Text) :
    nextLine (t :: rest) = some "BEGIN".toList := by
  rw [nextLine_trimmed (trimmed_begins h), h]

/-- A `BEGIN` on the line after an opening line. -/
theorem absorbed_begin (h : upper t = "BEGIN".toList) :
    convertLines true stack (t :: rest) = convertLines false stack rest := by
  have hne : strip t ≠ [] := by
    rw [(trimmed_begins h).strip_eq]
    exact (trimmed_begins h).ne_nil
  rw [convertLines, decide_eq_false hne]

theorem replaceBegin_append (h : upper t = "BEGIN".toList) (s replacement : Text) :
    replaceBegin (s ++ t) replacement = s ++ replacement := by
  have hlength : t.length = 5 := by
    have h' := congrArg List.length h
    rwa [upper, List.length_map] at h'
  rw [replaceBegin, List.length_append, hlength, Nat.add_sub_cancel, List.take_left]

theorem conditionLine_eq (h : header.getLast? ≠ some ';') : conditionLine header = header := by
  rw [conditionLine, if_neg h]

/-- `IF` and `ELSIF`; the latter takes the branch before off the stack. -/
inductive Opener where
  | ifOpens
  | elsifOpens

def Opener.keyword : Opener → Text
  | .ifOpens => "IF".toList
  | .elsifOpens => "ELSIF".toList

def Opener.opened (stack : List BlockKind) : Opener → List BlockKind
  | .ifOpens => stack
  | .elsifOpens => popIf stack

theorem leads_of_with {keyword opening u : Text} (h : opensWith keyword opening u = true) :
    leadingWord u = keyword :=
  (opensWith_iff.mp h).1

theorem leads_of_without {keyword u : Text} {openings : List Text}
    (h : opensWithout keyword openings u = true) : leadingWord u = keyword := by
  rw [opensWithout, Bool.and_eq_true, decide_eq_true_eq] at h
  exact h.1

theorem convertLine_opener_begin (o : Opener) {next : Option Text}
    (h : opensWith o.keyword "BEGIN".toList (upper t) = true) :
    convertLine stack t next =
      ⟨[.indented (replaceBegin t "THEN".toList)], false, .ifBlock :: o.opened stack⟩ := by
  cases o with
  | ifOpens => exact convertLine_if_begin (leads_of_with h) (opensWith_iff.mp h).2
  | elsifOpens => exact convertLine_elsif_begin (leads_of_with h) (opensWith_iff.mp h).2

theorem convertLine_opener (o : Opener) {next : Option Text}
    (h : opensWithout o.keyword ["THEN".toList, "BEGIN".toList] (upper t) = true) :
    convertLine stack t next =
      convertCondition (o.opened stack) stack (conditionLine t) (next = some "BEGIN".toList) := by
  cases o with
  | ifOpens => exact convertLine_if h
  | elsifOpens => exact convertLine_elsif (leads_of_without h) h

theorem opener_begin_line (o : Opener) {gap : Text} (hh : Header o.keyword header)
    (hbegins : upper t = "BEGIN".toList)
    (hopens : opensWith o.keyword "BEGIN".toList (upper (header ++ gap ++ t)) = true) :
    convertLines false stack ((header ++ gap ++ t) :: rest) =
      (header ++ gap ++ "THEN".toList) ::
        convertLines false (.ifBlock :: o.opened stack) rest := by
  have hstep : convertLine stack (header ++ gap ++ t) (nextLine rest) =
      ⟨[.indented (header ++ gap ++ "THEN".toList)], false, .ifBlock :: o.opened stack⟩ := by
    rw [convertLine_opener_begin o hopens, replaceBegin_append hbegins]
  exact convertLines_trimmed (hh.trimmed.append (trimmed_begins hbegins) gap) hstep

theorem opener_own_line (o : Opener) (hh : Header o.keyword header)
    (hbegins : upper t = "BEGIN".toList)
    (hopens : opensWithout o.keyword ["THEN".toList, "BEGIN".toList] (upper header) = true) :
    convertLines false stack (header :: t :: rest) =
      (header ++ ' ' :: "THEN".toList) ::
        convertLines false (.ifBlock :: o.opened stack) rest := by
  have hstep : convertLine stack header (nextLine (t :: rest)) =
      ⟨[.indented (header ++ " THEN".toList)], true, .ifBlock :: o.opened stack⟩ := by
    rw [convertLine_opener o hopens, conditionLine_eq hh.noSemicolon, nextLine_begins hbegins]
    rfl
  rw [convertLines_trimmed hh.trimmed hstep, absorbed_begin hbegins]
  rfl

theorem opener_single (o : Opener) (hh : Header o.keyword header)
    (hopens : opensWithout o.keyword ["THEN".toList, "BEGIN".toList] (upper header) = true)
    (hnone : findIfBodyStart header = none) (hnext : nextLine rest ≠ some "BEGIN".toList) :
    convertLines false stack (header :: rest) =
      (header ++ ' ' :: "THEN".toList) ::
        convertLines false (.ifSingle :: o.opened stack) rest := by
  have hstep : convertLine stack header (nextLine rest) =
      ⟨[.indented (header ++ " THEN".toList)], false, .ifSingle :: o.opened stack⟩ := by
    rw [convertLine_opener o hopens, conditionLine_eq hh.noSemicolon, decide_eq_false hnext,
      convertCondition, hnone]
    rfl
  exact convertLines_trimmed hh.trimmed hstep

/-- An `IF` with its statement on the same line is closed at once. -/
theorem opener_inline (o : Opener) {gap : Text} (hh : Header o.keyword header)
    (ht : Statement t) (hsplit : SplitOn o.keyword header gap t)
    (hnext : nextLine rest ≠ some "BEGIN".toList) :
    convertLines false stack ((header ++ gap ++ t) :: rest) =
      (header ++ ' ' :: "THEN".toList) :: ("    ".toList ++ (conditionLine t ++ [';'])) ::
        "END IF;".toList :: convertLines false stack rest := by
  obtain ⟨start, hstart, hcondition, hbody⟩ := hsplit.split
  have hinline : inlineIf (conditionLine (header ++ gap ++ t)) start =
      [.indented (header ++ " THEN".toList),
        .indented ("    ".toList ++ (conditionLine t ++ [';'])), .indented "END IF;".toList] := by
    simp only [inlineIf, hcondition, hbody, if_neg hsplit.noSemicolon, if_neg hsplit.nonempty]
    rfl
  have hstep : convertLine stack (header ++ gap ++ t) (nextLine rest) =
      ⟨[.indented (header ++ " THEN".toList),
        .indented ("    ".toList ++ (conditionLine t ++ [';'])), .indented "END IF;".toList],
        false, stack⟩ := by
    rw [convertLine_opener o hsplit.without, decide_eq_false hnext, convertCondition, hstart,
      ← hinline]
    rfl
  exact convertLines_trimmed (hh.trimmed.append ht.trimmed gap) hstep

theorem else_begin_line {gap : Text} (hh : Header "ELSE".toList header)
    (hbegins : upper t = "BEGIN".toList)
    (helse : isElseBegin (upper (header ++ gap ++ t)) = true) :
    convertLines false stack ((header ++ gap ++ t) :: rest) =
      "ELSE".toList :: convertLines false (.elseBlock :: stack) rest := by
  have hlead : leadingWord (upper (header ++ gap ++ t)) = "ELSE".toList := by
    have h := helse
    rw [isElseBegin, Bool.and_eq_true, decide_eq_true_eq] at h
    exact h.1
  exact convertLines_trimmed (hh.trimmed.append (trimmed_begins hbegins) gap)
    (convertLine_else_begin hlead helse)

theorem while_begin_line {gap : Text} (hh : Header "WHILE".toList header)
    (hbegins : upper t = "BEGIN".toList)
    (hopens : opensWith "WHILE".toList "BEGIN".toList (upper (header ++ gap ++ t)) = true) :
    convertLines false stack ((header ++ gap ++ t) :: rest) =
      (header ++ gap ++ "LOOP".toList) :: convertLines false (.whileBlock :: stack) rest := by
  have hstep : convertLine stack (header ++ gap ++ t) (nextLine rest) =
      ⟨[.indented (header ++ gap ++ "LOOP".toList)], false, .whileBlock :: stack⟩ := by
    rw [convertLine_while_begin (leads_of_with hopens) (opensWith_iff.mp hopens).2,
      replaceBegin_append hbegins]
  exact convertLines_trimmed (hh.trimmed.append (trimmed_begins hbegins) gap) hstep

theorem while_own_line (hh : Header "WHILE".toList header)
    (hbegins : upper t = "BEGIN".toList)
    (hopens : opensWithout "WHILE".toList ["LOOP".toList, "BEGIN".toList] (upper header) = true) :
    convertLines false stack (header :: t :: rest) =
      (header ++ ' ' :: "LOOP".toList) :: convertLines false (.whileBlock :: stack) rest := by
  have hstep : convertLine stack header (nextLine (t :: rest)) =
      ⟨[.indented (header ++ " LOOP".toList)], true, .whileBlock :: stack⟩ := by
    rw [convertLine_while hh.leads hopens (nextLine_begins hbegins rest),
      conditionLine_eq hh.noSemicolon]
  rw [convertLines_trimmed hh.trimmed hstep, absorbed_begin hbegins]
  rfl

end Lines

end SqlOptima.ControlFlowNesting
