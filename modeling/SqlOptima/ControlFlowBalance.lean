import SqlOptima.ControlFlowNesting

namespace SqlOptima.ControlFlowBalance

open PythonText ControlFlow ControlFlowSyntax ControlFlowNesting

section Emits

variable {stack : List BlockKind} {ls ls' out out' rest : List Text} {t header : Text}

/-- What a statement can be followed by. -/
def Follows (rest : List Text) : Prop :=
  ∀ u ∈ nextLine rest, u ≠ "BEGIN".toList ∧ isElse u = false

/-- Lines that leave the stack as it is, whatever comes after them. -/
def Emits (stack : List BlockKind) (ls out : List Text) : Prop :=
  ∀ rest, Follows rest →
    content (convertLines false stack (ls ++ rest)) =
      out ++ content (convertLines false stack rest)

theorem follows_of_leads {w : Text} (ht : Trimmed t) (hw : leadingWord (upper t) = w)
    (hne : w ∉ ["BEGIN".toList, "ELSE".toList, "ELSIF".toList]) : Follows (t :: rest) := by
  intro u hu
  rw [nextLine_trimmed ht] at hu
  cases hu
  simp only [List.mem_cons, List.not_mem_nil, or_false, not_or] at hne
  refine ⟨fun hbegin => hne.1 ?_, decide_eq_false ?_⟩
  · rw [← hw, hbegin]
    decide
  · rw [hw]
    simp only [List.mem_cons, List.not_mem_nil, or_false, not_or]
    exact hne.2

theorem Follows.next_ne (h : Follows rest) : nextLine rest ≠ some "BEGIN".toList :=
  fun hnext => (h _ hnext).1 rfl

theorem Follows.nextIsElse (h : Follows rest) : nextIsElse rest = false := by
  unfold ControlFlowNesting.nextIsElse
  cases hnext : nextLine rest with
  | none => rfl
  | some u => exact (h u hnext).2

theorem follows_statement (ht : Statement t) : Follows (t :: rest) := by
  intro u hu
  rw [nextLine_trimmed ht.trimmed] at hu
  cases hu
  have hleads := ht.leads
  simp only [List.mem_cons, List.not_mem_nil, or_false, not_or] at hleads
  refine ⟨fun hbegin => ?_, decide_eq_false ?_⟩
  · have hnot := ht.notBegin
    rw [hbegin] at hnot
    exact absurd hnot (by decide)
  · simp only [List.mem_cons, List.not_mem_nil, or_false, not_or]
    exact ⟨hleads.2.2.1, hleads.2.1⟩

theorem emits_nil : Emits stack [] [] := fun _ _ => rfl

theorem Emits.append (h : Emits stack ls out) (h' : Emits stack ls' out')
    (hstart : ∀ rest, Follows rest → Follows (ls' ++ rest)) :
    Emits stack (ls ++ ls') (out ++ out') := by
  intro rest hrest
  rw [List.append_assoc, h _ (hstart rest hrest), h' rest hrest, List.append_assoc]

theorem content_cons_trimmed (ht : Trimmed t) (rest : List Text) :
    content (t :: rest) = t :: content rest := by
  have hne : strip t ≠ [] := by
    rw [ht.strip_eq]
    exact ht.ne_nil
  rw [content_cons hne, ht.strip_eq]

theorem statement_emits (ht : Statement t) (hstack : stack.head? ≠ some .ifSingle) :
    Emits stack [t] [t] := by
  intro rest _
  rw [List.singleton_append, statement_line ht hstack, content_cons_trimmed ht.trimmed]
  rfl

theorem follows_ending (ht : Ending t) : Follows (t :: rest) := by
  have hlead : leadingWord (upper t) = "END".toList := by
    have h := ht.isEnd
    rw [isEnd, Bool.and_eq_true, decide_eq_true_eq] at h
    exact h.1
  exact follows_of_leads ht.trimmed hlead (by decide)

/-- The statements of a block and its `END`. -/
theorem block_content {k : BlockKind} {closing : Text} (hss : Emits (k :: stack) ls out)
    (ht : Ending t) (htrim : Trimmed closing)
    (hclose : convertEnd (k :: stack) = ⟨[.indented closing], false, stack⟩) (rest : List Text) :
    content (convertLines false (k :: stack) (ls ++ [t] ++ rest)) =
      out ++ closing :: content (convertLines false stack rest) := by
  rw [List.append_assoc, List.singleton_append, hss _ (follows_ending ht), end_line ht, hclose]
  exact congrArg (out ++ ·) (content_cons_trimmed htrim _)

theorem trimmed_endIf : Trimmed "END IF;".toList := ⟨⟨'E', rfl, rfl⟩, ⟨';', rfl, rfl⟩⟩

theorem trimmed_endLoop : Trimmed "END LOOP;".toList := ⟨⟨'E', rfl, rfl⟩, ⟨';', rfl, rfl⟩⟩

theorem trimmed_then : Trimmed "THEN".toList := ⟨⟨'T', rfl, rfl⟩, ⟨'N', rfl, rfl⟩⟩

theorem trimmed_loop : Trimmed "LOOP".toList := ⟨⟨'L', rfl, rfl⟩, ⟨'P', rfl, rfl⟩⟩

theorem trimmed_else : Trimmed "ELSE".toList := ⟨⟨'E', rfl, rfl⟩, ⟨'E', rfl, rfl⟩⟩

theorem trimmed_space {keyword : Text} (hh : Trimmed header) (hk : Trimmed keyword) :
    Trimmed (header ++ ' ' :: keyword) := by
  have h := hh.append hk [' ']
  rwa [List.append_assoc] at h

end Emits

section Branches

variable {stack : List BlockKind} {ls out : List Text} {header : Text} {b : Branch} {inIf : Bool}

/-- Where a statement can stand: no single statement is waited for. -/
structure Ready (inIf : Bool) (stack : List BlockKind) : Prop where
  noSingle : stack.head? ≠ some .ifSingle
  inIf : stack.head? = some .ifBlock → inIf = true

theorem ready_ifBlock : Ready true (.ifBlock :: stack) := ⟨nofun, fun _ => rfl⟩

theorem ready_elseBlock : Ready false (.elseBlock :: stack) := ⟨nofun, nofun⟩

theorem ready_whileBlock : Ready false (.whileBlock :: stack) := ⟨nofun, nofun⟩

/-- The statements keep their nesting where they are clean. -/
def Kept (ss : Stmts) : Prop :=
  ∀ inIf stack, ss.Recognised → ss.Clean inIf → Ready inIf stack →
    Emits stack (ss.layout (substitute elseIf)) ss.nested

/-- The block of a branch, if it has one. -/
def BlockKept (b : Branch) : Prop := ∀ opening ending ss, b = .block opening ending ss → Kept ss

theorem Opener.opened_of_ready (hready : Ready inIf stack) (o : Opener)
    (h : inIf = false ∨ o = .ifOpens) : o.opened stack = stack := by
  cases o with
  | ifOpens => rfl
  | elsifOpens =>
      have hinIf : inIf = false := h.resolve_right nofun
      change popIf stack = stack
      cases stack with
      | nil => rfl
      | cons k stack =>
          cases k with
          | ifBlock => exact absurd (hready.inIf rfl) (by simp [hinIf])
          | ifSingle => exact absurd rfl hready.noSingle
          | elseBlock => rfl
          | whileBlock => rfl
          | block => rfl

theorem prefix_conditionLine (t : Text) : conditionLine t <+: t := by
  rw [conditionLine]
  split_ifs
  · exact List.dropLast_prefix t
  · exact List.prefix_refl t

theorem trimmed_body {t : Text} (ht : Trimmed t) : Trimmed (conditionLine t ++ [';']) where
  head := by
    cases hline : conditionLine t with
    | nil => exact ⟨';', rfl, rfl⟩
    | cons d u =>
        obtain ⟨c, hc, hspace⟩ := ht.head
        obtain ⟨v, hv⟩ := prefix_conditionLine t
        rw [← hv, hline] at hc
        exact ⟨c, hc, hspace⟩
  last := ⟨';', by rw [List.getLast?_append]; rfl, rfl⟩

theorem inline_emits (o : Opener) {gap t : Text} (hh : Header o.keyword header)
    (ht : Statement t) (hsplit : SplitOn o.keyword header gap t) :
    Emits stack [header ++ gap ++ t]
      [header ++ ' ' :: "THEN".toList, conditionLine t ++ [';'], "END IF;".toList] := by
  intro rest hrest
  have hbody := trimmed_body ht.trimmed
  have hstrip : strip ("    ".toList ++ (conditionLine t ++ [';'])) = conditionLine t ++ [';'] := by
    rw [strip, lstrip_of_isSpace (by decide), hbody.lstrip_eq, hbody.rstrip_eq]
  have hne : strip ("    ".toList ++ (conditionLine t ++ [';'])) ≠ [] := by
    rw [hstrip]
    exact hbody.ne_nil
  rw [List.singleton_append, opener_inline o hh ht hsplit hrest.next_ne,
    content_cons_trimmed (trimmed_space hh.trimmed trimmed_then), content_cons hne, hstrip,
    content_cons_trimmed trimmed_endIf]
  rfl

/-- The header of a statement without `BEGIN`, and the statement. -/
theorem simple_content (o : Opener) {t : Text} (hh : Header o.keyword header)
    (ht : Statement t) (hplain : Plain t) (hopened : o.opened stack = stack)
    (hopens : opensWithout o.keyword ["THEN".toList, "BEGIN".toList] (upper header) = true)
    (hnone : findIfBodyStart header = none) (rest : List Text) :
    content (convertLines false stack (header :: t :: rest)) =
      (header ++ ' ' :: "THEN".toList) :: t ::
        content ((if nextIsElse rest then [] else ["END IF;".toList]) ++
          convertLines false stack rest) := by
  have hnext : nextLine (t :: rest) ≠ some "BEGIN".toList := (follows_statement ht).next_ne
  rw [opener_single o hh hopens hnone hnext, single_line ht hplain, hopened,
    content_cons_trimmed (trimmed_space hh.trimmed trimmed_then), List.cons_append,
    content_cons_trimmed ht.trimmed]

theorem opener_content (stack : List BlockKind) (o : Opener) {opening : Opening} (ending : Text)
    (ss : Stmts) (hh : Header o.keyword header)
    (hopening : opening.Recognised o.keyword ["THEN".toList, "BEGIN".toList] header)
    (rest : List Text) :
    content (convertLines false stack (opening.layout header ++ rest)) =
      (Branch.block opening ending ss).opened header "THEN".toList ::
        content (convertLines false (.ifBlock :: o.opened stack) rest) := by
  cases opening with
  | sameLine gap begins =>
      obtain ⟨hbegins, -, hopens⟩ := hopening
      change content (convertLines false stack ((header ++ gap ++ begins) :: rest)) = _
      rw [opener_begin_line o hh hbegins hopens,
        content_cons_trimmed (hh.trimmed.append trimmed_then gap)]
      rfl
  | ownLine begins =>
      obtain ⟨hbegins, hopens⟩ := hopening
      change content (convertLines false stack (header :: begins :: rest)) = _
      rw [opener_own_line o hh hbegins hopens,
        content_cons_trimmed (trimmed_space hh.trimmed trimmed_then)]
      rfl

theorem while_content (stack : List BlockKind) {opening : Opening} (ending : Text) (ss : Stmts)
    (hh : Header "WHILE".toList header)
    (hopening : opening.Recognised "WHILE".toList ["LOOP".toList, "BEGIN".toList] header)
    (rest : List Text) :
    content (convertLines false stack (opening.layout header ++ rest)) =
      (Branch.block opening ending ss).opened header "LOOP".toList ::
        content (convertLines false (.whileBlock :: stack) rest) := by
  cases opening with
  | sameLine gap begins =>
      obtain ⟨hbegins, -, hopens⟩ := hopening
      change content (convertLines false stack ((header ++ gap ++ begins) :: rest)) = _
      rw [while_begin_line hh hbegins hopens,
        content_cons_trimmed (hh.trimmed.append trimmed_loop gap)]
      rfl
  | ownLine begins =>
      obtain ⟨hbegins, hopens⟩ := hopening
      change content (convertLines false stack (header :: begins :: rest)) = _
      rw [while_own_line hh hbegins hopens,
        content_cons_trimmed (trimmed_space hh.trimmed trimmed_loop)]
      rfl

/-- A block whose `END` takes off the stack what its header has put there. -/
theorem block_emits {k : BlockKind} {first closing ending : Text} {lines : List Text}
    (hfirst : ∀ rest, content (convertLines false stack (lines ++ rest)) =
      first :: content (convertLines false (k :: stack) rest))
    (hss : Emits (k :: stack) ls out) (hending : Ending ending) (htrim : Trimmed closing)
    (hclose : convertEnd (k :: stack) = ⟨[.indented closing], false, stack⟩) :
    Emits stack (lines ++ ls ++ [ending]) (first :: out ++ [closing]) := by
  intro rest _
  rw [List.append_assoc, List.append_assoc, hfirst, ← List.append_assoc,
    block_content hss hending htrim hclose, List.append_assoc]
  rfl

/-- The last branch, with the `END IF` after it. -/
theorem last_emits (o : Opener) (hb : BlockKept b) (hh : Header o.keyword header)
    (hrec : b.Recognised o.keyword ["THEN".toList, "BEGIN".toList] header) (hclean : b.CleanLast)
    (hopened : o.opened stack = stack ∨ b.IsInline) :
    Emits stack (b.layout (substitute elseIf) header)
      (b.opened header "THEN".toList :: b.nested ++ ["END IF;".toList]) := by
  cases b with
  | inline gap t => exact inline_emits o hh hrec.1 hrec.2.2
  | single s =>
      cases s with
      | simple t =>
          intro rest hrest
          have hcontent := simple_content o hh hrec.1 hclean (hopened.resolve_right id) hrec.2.1
            hrec.2.2 rest
          rw [hrest.nextIsElse] at hcontent
          exact hcontent.trans (congrArg (_ :: t :: ·) (content_cons_trimmed trimmed_endIf _))
      | whileLoop h body => exact hclean.elim
      | ifThen h body rest => exact hclean.elim
  | block opening ending ss =>
      obtain ⟨hrecss, hopening, hending⟩ := hrec
      have hfirst := opener_content stack o ending ss hh hopening
      rw [hopened.resolve_right id] at hfirst
      have hss := hb opening ending ss rfl true (.ifBlock :: stack) hrecss hclean ready_ifBlock
      exact block_emits hfirst hss hending trimmed_endIf rfl

theorem loop_emits (hb : BlockKept b) (hh : Header "WHILE".toList header)
    (hrec : b.Recognised "WHILE".toList ["LOOP".toList, "BEGIN".toList] header)
    (hclean : b.CleanLoop) :
    Emits stack (b.layout (substitute elseIf) header)
      (b.opened header "LOOP".toList :: b.nested ++ ["END LOOP;".toList]) := by
  cases b with
  | inline gap t => exact hclean.elim
  | single s => exact hclean.elim
  | block opening ending ss =>
      obtain ⟨hrecss, hopening, hending⟩ := hrec
      have hfirst := while_content stack ending ss hh hopening
      have hss := hb opening ending ss rfl false (.whileBlock :: stack) hrecss hclean
        ready_whileBlock
      exact block_emits hfirst hss hending trimmed_endLoop rfl

theorem else_emits (hb : BlockKept b) (hh : Header "ELSE".toList header)
    (hrec : b.RecognisedElse header) (hclean : b.CleanElse) :
    Emits stack (b.layout (substitute elseIf) header)
      ("ELSE".toList :: b.nested ++ ["END IF;".toList]) := by
  cases b with
  | inline gap t => exact hclean.elim
  | single s => exact hclean.elim
  | block opening ending ss =>
      cases opening with
      | ownLine begins => exact hclean.elim
      | sameLine gap begins =>
          obtain ⟨hrecss, ⟨hbegins, -, helse⟩, hending⟩ := hrec
          have hfirst : ∀ rest,
              content (convertLines false stack ([header ++ gap ++ begins] ++ rest)) =
                "ELSE".toList :: content (convertLines false (.elseBlock :: stack) rest) := by
            intro rest
            rw [List.singleton_append, else_begin_line hh hbegins helse,
              content_cons_trimmed trimmed_else]
          have hss := hb (.sameLine gap begins) ending ss rfl false (.elseBlock :: stack) hrecss
            hclean ready_elseBlock
          exact block_emits hfirst hss hending trimmed_endIf rfl

end Branches

section Starts

variable {header : Text} {b : Branch}

/-- The first line of a branch begins with its keyword. -/
theorem nextLine_branch {keyword : Text} {openings : List Text} (hh : Header keyword header)
    (hrec : b.Recognised keyword openings header) (rest : List Text) :
    ∃ u, nextLine (b.layout (substitute elseIf) header ++ rest) = some u ∧
      leadingWord u = keyword := by
  cases b with
  | inline gap t =>
      refine ⟨_, nextLine_trimmed (hh.trimmed.append hrec.1.trimmed gap) rest, ?_⟩
      exact leads_of_without hrec.2.2.without
  | single s => exact ⟨_, nextLine_trimmed hh.trimmed _, hh.leads⟩
  | block opening ending ss =>
      obtain ⟨-, hopening, -⟩ := hrec
      cases opening with
      | sameLine gap begins =>
          have htrim := hh.trimmed.append (trimmed_begins hopening.1) gap
          exact ⟨_, nextLine_trimmed htrim _, leads_of_with hopening.2.2⟩
      | ownLine begins => exact ⟨_, nextLine_trimmed hh.trimmed _, hh.leads⟩

theorem follows_branch {keyword : Text} {openings : List Text} (hh : Header keyword header)
    (hrec : b.Recognised keyword openings header)
    (hne : keyword ∉ ["BEGIN".toList, "ELSE".toList, "ELSIF".toList]) (rest : List Text) :
    Follows (b.layout (substitute elseIf) header ++ rest) := by
  cases b with
  | inline gap t =>
      exact follows_of_leads (hh.trimmed.append hrec.1.trimmed gap)
        (leads_of_without hrec.2.2.without) hne
  | single s => exact follows_of_leads hh.trimmed hh.leads hne
  | block opening ending ss =>
      obtain ⟨-, hopening, -⟩ := hrec
      cases opening with
      | sameLine gap begins =>
          exact follows_of_leads (hh.trimmed.append (trimmed_begins hopening.1) gap)
            (leads_of_with hopening.2.2) hne
      | ownLine begins => exact follows_of_leads hh.trimmed hh.leads hne

theorem follows_stmt {s : Stmt} (hrec : s.Recognised) (rest : List Text) :
    Follows (s.layout (substitute elseIf) ++ rest) := by
  cases s with
  | simple t => exact follows_statement hrec
  | whileLoop header body => exact follows_branch hrec.1 hrec.2 (by decide) rest
  | ifThen header body chain =>
      obtain ⟨hh, hbody, -⟩ := hrec
      have h := follows_branch hh hbody (by decide) (chain.layout (substitute elseIf) ++ rest)
      rwa [← List.append_assoc] at h

theorem follows_stmts {ss : Stmts} (hrec : ss.Recognised) {rest : List Text}
    (hrest : Follows rest) : Follows (ss.layout (substitute elseIf) ++ rest) := by
  cases ss with
  | nil => exact hrest
  | cons s ss =>
      have h := follows_stmt hrec.1 (ss.layout (substitute elseIf) ++ rest)
      rwa [← List.append_assoc] at h

theorem nextIsElse_chain {chain : Chain} {inIf : Bool} (hrec : chain.Recognised)
    (hclean : chain.Clean inIf) (hne : chain ≠ .endIf) (rest : List Text) :
    nextIsElse (chain.layout (substitute elseIf) ++ rest) = true := by
  unfold nextIsElse
  cases chain with
  | endIf => exact absurd rfl hne
  | elseIf header body chain =>
      obtain ⟨hh, hbody, -⟩ := hrec
      obtain ⟨u, hu, hlead⟩ := nextLine_branch hh hbody (chain.layout (substitute elseIf) ++ rest)
      rw [← List.append_assoc] at hu
      change (nextLine (body.layout _ _ ++ chain.layout _ ++ rest)).any isElse = true
      rw [hu, Option.any_some, isElse, hlead]
      decide
  | otherwise header body =>
      obtain ⟨hh, hbody⟩ := hrec
      cases body with
      | inline gap t => exact hclean.elim
      | single s => exact hclean.elim
      | block opening ending ss =>
          cases opening with
          | ownLine begins => exact hclean.elim
          | sameLine gap begins =>
              obtain ⟨-, ⟨hbegins, -, helse⟩, -⟩ := hbody
              have htrim := hh.trimmed.append (trimmed_begins hbegins) gap
              rw [isElseBegin, Bool.and_eq_true, decide_eq_true_eq] at helse
              change (nextLine ((header ++ gap ++ begins) :: _)).any isElse = true
              rw [nextLine_trimmed htrim, Option.any_some, isElse, helse.1]
              decide

end Starts

section Runs

variable {header : Text} {b : Branch} {inIf : Bool} {stack : List BlockKind}

def StmtKept (s : Stmt) : Prop :=
  ∀ inIf stack, s.Recognised → s.Clean inIf → Ready inIf stack →
    Emits stack (s.layout (substitute elseIf)) s.nested

/-- The branches after the first, with the `END IF` after them. -/
def ChainKept (chain : Chain) : Prop :=
  ∀ inIf stack, chain.Recognised → chain.Clean inIf → Ready inIf stack → chain ≠ .endIf →
    Emits stack (chain.layout (substitute elseIf)) (chain.nested ++ ["END IF;".toList])

/-- A branch that is not the last is a statement on its own line. -/
theorem condition_emits (o : Opener) {chain : Chain} (hb : BlockKept b) (hchain : ChainKept chain)
    (hh : Header o.keyword header)
    (hrec : b.Recognised o.keyword ["THEN".toList, "BEGIN".toList] header)
    (hchainRec : chain.Recognised) (hready : Ready inIf stack)
    (hlast : chain = .endIf → b.CleanLast ∧ (o.opened stack = stack ∨ b.IsInline))
    (hmore : chain ≠ .endIf → o.opened stack = stack ∧ b.IsSimple ∧ chain.Clean inIf) :
    Emits stack (b.layout (substitute elseIf) header ++ chain.layout (substitute elseIf))
      (b.opened header "THEN".toList :: b.nested ++ chain.nested ++ ["END IF;".toList]) := by
  by_cases hend : chain = .endIf
  · obtain ⟨hclean, hopened⟩ := hlast hend
    subst hend
    have h := last_emits o hb hh hrec hclean hopened
    change Emits stack (b.layout _ header ++ []) (b.opened header _ :: b.nested ++ [] ++ _)
    rwa [List.append_nil, List.append_nil]
  · obtain ⟨hopened, hsimple, hclean⟩ := hmore hend
    cases b with
    | inline gap t => exact hsimple.elim
    | block opening ending ss => exact hsimple.elim
    | single s =>
        cases s with
        | whileLoop h body => exact hsimple.elim
        | ifThen h body chain => exact hsimple.elim
        | simple t =>
            intro rest hrest
            have hcontent := simple_content o hh hrec.1 hsimple hopened hrec.2.1 hrec.2.2
              (chain.layout (substitute elseIf) ++ rest)
            rw [nextIsElse_chain hchainRec hclean hend] at hcontent
            refine hcontent.trans ?_
            have hrun := hchain inIf stack hchainRec hclean hready hend rest hrest
            exact congrArg (_ :: t :: ·) hrun

theorem simple_kept (t : Text) : StmtKept (.simple t) :=
  fun _ _ hrec _ hready => statement_emits hrec hready.noSingle

theorem while_kept (header : Text) (body : Branch) (hb : BlockKept body) :
    StmtKept (.whileLoop header body) :=
  fun _ _ hrec hclean _ => loop_emits hb hrec.1 hrec.2 hclean

theorem if_kept (header : Text) (body : Branch) (chain : Chain) (hb : BlockKept body)
    (hchain : ChainKept chain) : StmtKept (.ifThen header body chain) := by
  intro inIf stack hrec hclean hready
  obtain ⟨hh, hbody, hchainRec⟩ := hrec
  apply condition_emits .ifOpens hb hchain hh hbody hchainRec hready
  · rintro rfl
    exact ⟨hclean, Or.inl rfl⟩
  · intro hne
    cases chain with
    | endIf => exact absurd rfl hne
    | elseIf h b c => exact ⟨rfl, hclean⟩
    | otherwise h b => exact ⟨rfl, hclean⟩

theorem elseIf_kept (header : Text) (body : Branch) (chain : Chain) (hb : BlockKept body)
    (hchain : ChainKept chain) : ChainKept (.elseIf header body chain) := by
  intro inIf stack hrec hclean hready _
  obtain ⟨hh, hbody, hchainRec⟩ := hrec
  apply condition_emits .elsifOpens hb hchain hh hbody hchainRec hready
  · rintro rfl
    refine ⟨hclean.1, ?_⟩
    cases inIf with
    | false => exact Or.inl (Opener.opened_of_ready hready .elsifOpens (Or.inl rfl))
    | true => exact Or.inr (hclean.2 rfl)
  · intro hne
    have hmore : inIf = false ∧ body.IsSimple ∧ chain.Clean inIf := by
      cases chain with
      | endIf => exact absurd rfl hne
      | elseIf h b c => exact hclean
      | otherwise h b => exact hclean
    exact ⟨Opener.opened_of_ready hready .elsifOpens (Or.inl hmore.1), hmore.2⟩

theorem otherwise_kept (header : Text) (body : Branch) (hb : BlockKept body) :
    ChainKept (.otherwise header body) :=
  fun _ _ hrec hclean _ _ => else_emits hb hrec.1 hrec.2 hclean

theorem cons_kept (s : Stmt) (ss : Stmts) (hs : StmtKept s) (hss : Kept ss) :
    Kept (.cons s ss) := by
  intro inIf stack hrec hclean hready
  exact (hs inIf stack hrec.1 hclean.1 hready).append (hss inIf stack hrec.2 hclean.2 hready)
    fun rest hrest => follows_stmts hrec.2 hrest

/-- By induction on the statements, each branch under its header. -/
theorem stmts_kept (ss : Stmts) : Kept ss := by
  apply @Stmts.rec StmtKept BlockKept ChainKept Kept
  · exact simple_kept
  · exact while_kept
  · exact if_kept
  · exact fun gap t => nofun
  · exact fun s _ => nofun
  · rintro opening ending ss hss _ _ _ ⟨⟩
    exact hss
  · exact fun _ _ _ _ _ hne => absurd rfl hne
  · exact elseIf_kept
  · exact otherwise_kept
  · exact fun _ _ _ _ _ => emits_nil
  · exact cons_kept

end Runs

end SqlOptima.ControlFlowBalance
