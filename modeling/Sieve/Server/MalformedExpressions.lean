import Sieve.Server.TreeRebuild

/-!
# Malformed trigger expressions

The shunting-yard does not look at the grammar.  What it makes of any text:

* `openAfter`: the connectives that nothing completes yet;
* `Fits`: the parentheses are closed, the names distinct, and every connective has its operands;
* `Emitted`: what the shunting-yard holds and has emitted, against the tokens it has read;
* `buildTriggerGraph_iff`: a text has a trigger graph if and only if its tokens fit;
* `rejectsMalformed_iff`: when a malformed text is rejected.
-/

namespace Sieve.Server

open Sieve.Trigger Sieve.Library

/-! ### Tokens -/

inductive TokenKind where
  | name
  | connective (op : Connective)
  | opening
  | closing
  deriving DecidableEq

def tokenKind (token : String) : TokenKind :=
  if token = ";" then .connective .seq
  else if token = "&" then .connective .and
  else if token = "|" then .connective .or
  else if token = "(" then .opening
  else if token = ")" then .closing
  else .name

def isConnective (token : String) : Bool := token == ";" || token == "&" || token == "|"

def connectiveCount (tokens : List String) : ℕ := tokens.countP isConnective

theorem connectiveCount_append (tokens tokens' : List String) :
    connectiveCount (tokens ++ tokens') = connectiveCount tokens + connectiveCount tokens' :=
  List.countP_append

/-- A looser connective on the left completes the other one. -/
def completes (op : Connective) : Option Connective → Bool
  | none => false
  | some op' => decide (op.level < op'.level)

/-- The connectives that no looser connective and no opening parenthesis on their left completes, and
the closing parentheses (`none`) that are not opened. -/
def openAfter : List String → List (Option Connective)
  | [] => []
  | token :: after =>
    match tokenKind token with
    | .name => openAfter after
    | .closing => none :: openAfter after
    | .opening => ((openAfter after).dropWhile Option.isSome).tail
    | .connective op => some op :: (openAfter after).dropWhile (completes op)

def openCount (tokens : List String) : ℕ := (openAfter tokens).countP Option.isSome

/-- From every point to the end, the completed connectives are fewer than the operands. -/
def EnoughOperands (tokens : List String) : Prop :=
  ∀ after, after <:+ tokens → after ≠ [] →
    connectiveCount after < operandCount after + openCount after

/-- Every opening parenthesis has a closing one. -/
def Closed (tokens : List String) : Prop :=
  ∀ after, ("(" :: after) <:+ tokens → none ∈ openAfter after

/-- The tokens of a text that is accepted. -/
structure Fits (tokens : List String) : Prop where
  closed : Closed tokens
  distinct : (tokens.filter fun token => !isOperator token).Nodup
  operands : EnoughOperands tokens
  complete : connectiveCount tokens + (openAfter tokens).countP Option.isNone < operandCount tokens

/-- How the shunting-yard keeps what is open. -/
def openText : Option Connective → String
  | none => "("
  | some op => op.symbol

theorem token_cases (token : String) : (tokenKind token = .name ∧ isOperator token = false) ∨
    (tokenKind token = .opening ∧ token = "(") ∨ (tokenKind token = .closing ∧ token = ")") ∨
      ∃ op : Connective, tokenKind token = .connective op ∧ token = op.symbol := by
  by_cases hseq : token = ";"
  · exact .inr (.inr (.inr ⟨.seq, by rw [hseq]; decide, hseq⟩))
  · by_cases hand : token = "&"
    · exact .inr (.inr (.inr ⟨.and, by rw [hand]; decide, hand⟩))
    · by_cases hor : token = "|"
      · exact .inr (.inr (.inr ⟨.or, by rw [hor]; decide, hor⟩))
      · by_cases hopening : token = "("
        · exact .inr (.inl ⟨by rw [hopening]; decide, hopening⟩)
        · by_cases hclosing : token = ")"
          · exact .inr (.inr (.inl ⟨by rw [hclosing]; decide, hclosing⟩))
          · refine .inl ⟨?_, ?_⟩
            · simp [tokenKind, hseq, hand, hor, hopening, hclosing]
            · simp [isOperator, hseq, hand, hor, hopening, hclosing]

theorem isOperator_openText (o : Option Connective) : isOperator (openText o) = true := by
  cases o with
  | none => decide
  | some op => exact isOperator_symbol op

theorem isConnective_symbol (op : Connective) : isConnective op.symbol = true := by
  cases op <;> decide

/-- Every token is an operator or has none in it, and the last one is a name. -/
theorem expressionToInfixTokens_spec (exp : String) : ∃ front last,
    expressionToInfixTokens exp = front ++ [last] ∧ OperatorFree last ∧
      ∀ token ∈ front, isOperator token = true ∨ OperatorFree token := by
  have hall : ∀ (cs : List Char) (state : List String × String), OperatorFree state.2 →
      (∀ token ∈ state.1, isOperator token = true ∨ OperatorFree token) →
        OperatorFree (cs.foldl expressionToInfixTokensStep state).2 ∧
          ∀ token ∈ (cs.foldl expressionToInfixTokensStep state).1,
            isOperator token = true ∨ OperatorFree token := by
    intro cs
    induction cs with
    | nil => exact fun state hcur htokens => ⟨hcur, htokens⟩
    | cons c cs ih =>
      intro state hcur htokens
      rw [List.foldl_cons]
      by_cases hc : c ∈ operatorChars
      · rw [expressionToInfixTokensStep_operator hc]
        refine ih _ (by simp [OperatorFree]) fun token hmem => ?_
        rw [List.mem_append, List.mem_singleton] at hmem
        rcases hmem with hmem | rfl
        · rw [flush] at hmem
          split at hmem
          · rw [List.mem_append, List.mem_singleton] at hmem
            rcases hmem with hmem | rfl
            · exact htokens token hmem
            · exact .inr hcur
          · exact htokens token hmem
        · exact .inl ((isOperator_singleton c).mpr hc)
      · have hop : isOperator (String.singleton c) = false :=
          Bool.eq_false_iff.mpr fun hop => hc ((isOperator_singleton c).mp hop)
        have hstep : expressionToInfixTokensStep state c =
            (state.1, state.2 ++ String.singleton c) := by
          show (if isOperator (String.singleton c) then _ else _) = _
          rw [hop]
          rfl
        rw [hstep]
        refine ih _ ?_ htokens
        intro d hd
        rw [String.toList_append, String.toList_singleton, List.mem_append, List.mem_singleton] at hd
        rcases hd with hd | rfl
        · exact hcur d hd
        · exact hc
  obtain ⟨hlast, hfront⟩ := hall exp.toList ([], "") (by simp [OperatorFree]) (by simp)
  exact ⟨_, _, rfl, hlast, hfront⟩

/-! ### The shunting-yard -/

/-- What the shunting-yard holds and has emitted after the mirrored tokens. -/
structure Emitted (after : List String) (tokenStack : Stack) (out : List String) : Prop where
  live : tokenStack.live = (openAfter after).map openText
  names : (out.filter fun token => !isOperator token) =
    (after.filter fun token => !isOperator token).reverse
  operators : operatorCount out + openCount after = connectiveCount after
  arity : Arity out ↔ EnoughOperands after

theorem Emitted.operandCount_eq {after : List String} {tokenStack : Stack} {out : List String}
    (h : Emitted after tokenStack out) : operandCount out = operandCount after := by
  rw [operandCount, operandCount, List.countP_eq_length_filter,
    List.countP_eq_length_filter, h.names, List.length_reverse]

/-- Only the whole text is new among its ends. -/
theorem enoughOperands_cons_iff {token : String} {after : List String} :
    EnoughOperands (token :: after) ↔ EnoughOperands after ∧ connectiveCount (token :: after) <
      operandCount (token :: after) + openCount (token :: after) := by
  constructor
  · intro h
    exact ⟨fun end' hend => h end' (hend.trans (List.suffix_cons token after)),
      h _ (List.suffix_refl _) (List.cons_ne_nil token after)⟩
  · intro ⟨h, hwhole⟩ end' hend hne
    rcases List.suffix_cons_iff.mp hend with rfl | hend
    · exact hwhole
    · exact h end' hend hne

section Emission

variable {after : List String} {tokenStack : Stack} {out : List String}

/-- Completed connectives are emitted in front of the rest. -/
theorem Emitted.emit (h : Emitted after tokenStack out) (hne : after ≠ [])
    {done rest : List (Option Connective)} (hopen : openAfter after = done ++ rest)
    (hdone : ∀ o ∈ done, o.isSome = true) :
    (Arity (out ++ done.map openText) ↔ EnoughOperands after ∧
      connectiveCount after < operandCount after + rest.countP Option.isSome) ∧
      operatorCount (out ++ done.map openText) + rest.countP Option.isSome = connectiveCount after ∧
      ((out ++ done.map openText).filter fun token => !isOperator token) =
        (after.filter fun token => !isOperator token).reverse := by
  have hops : ∀ op ∈ done.map openText, isOperator op = true := by
    intro op hop
    obtain ⟨o, _, rfl⟩ := List.mem_map.mp hop
    exact isOperator_openText o
  have hoperators := h.operators
  have hsplit : openCount after = done.length + rest.countP Option.isSome := by
    rw [openCount, hopen, List.countP_append, List.countP_eq_length.mpr hdone]
  have hcount : operatorCount (done.map openText) = done.length := by
    rw [operatorCount, List.countP_eq_length.mpr hops, List.length_map]
  have hoperands := h.operandCount_eq
  refine ⟨?_, ?_, ?_⟩
  · rw [arity_append_operators_iff hops, h.arity, List.length_map, hoperands]
    refine and_congr_right fun henough => ?_
    have hlast := henough after (List.suffix_refl _) hne
    constructor
    · intro hlt
      by_cases hempty : done = []
      · rw [hempty, List.length_nil] at hsplit
        omega
      · have := hlt (by simpa using hempty)
        omega
    · intro hlt _
      omega
  · rw [operatorCount_append, hcount]
    omega
  · rw [List.filter_append, h.names]
    have hnone : ((done.map openText).filter fun token => !isOperator token) = [] := by
      rw [List.filter_eq_nil_iff]
      intro op hop
      simp [hops op hop]
    rw [hnone, List.append_nil]

theorem infixToPostfixStep_name {n : String} (hn : isOperator n = false) (tokenStack : Stack)
    (out : List String) :
    infixToPostfixStep (tokenStack, out) (swapParenthesis n) = .ok (tokenStack, out ++ [n]) := by
  have hnot : n ≠ "(" ∧ n ≠ ")" := by
    constructor <;>
    · rintro rfl
      revert hn
      decide
  rw [swapParenthesis, if_neg (by simpa using hnot.1), if_neg (by simpa using hnot.2),
    infixToPostfixStep, hn]
  rfl

theorem isConnective_name {n : String} (hn : isOperator n = false) : isConnective n = false := by
  rw [isOperator, Bool.or_eq_false_iff, Bool.or_eq_false_iff] at hn
  exact hn.1.1

/-- The last token is a name. -/
theorem emitted_last {n : String} (hkind : tokenKind n = .name) (hn : isOperator n = false) :
    Emitted [n] Stack.new [n] := by
  have hconnective := isConnective_name hn
  have hopen : openAfter [n] = [] := by rw [openAfter, hkind, openAfter]
  refine ⟨by rw [hopen, Stack.new_live]; rfl, by simp [hn], ?_, iff_of_true ?_ ?_⟩
  · simp [operatorCount, openCount, connectiveCount, hopen, hn, hconnective]
  · exact (arity_concat_name_iff hn).mpr arity_nil
  · rw [enoughOperands_cons_iff]
    refine ⟨fun end' hend hne => absurd (List.suffix_nil.mp hend) hne, ?_⟩
    have hcounts : connectiveCount [n] = 0 ∧ operandCount [n] = 1 := by
      simp [connectiveCount, operandCount, hn, hconnective]
    omega

/-- A name is emitted at once. -/
theorem Emitted.name (h : Emitted after tokenStack out) (hne : after ≠ []) {n : String}
    (hkind : tokenKind n = .name) (hn : isOperator n = false) :
    Emitted (n :: after) tokenStack (out ++ [n]) := by
  have hconnective := isConnective_name hn
  have hopen : openAfter (n :: after) = openAfter after := by rw [openAfter, hkind]
  have hcounts : connectiveCount (n :: after) = connectiveCount after ∧
      operandCount (n :: after) = operandCount after + 1 := by
    simp [connectiveCount, operandCount, hconnective, hn]
  refine ⟨?_, ?_, ?_, ?_⟩
  · rw [hopen, h.live]
  · simp [List.filter_append, h.names, hn]
  · have hone : operatorCount [n] = 0 := by simp [operatorCount, hn]
    have := h.operators
    rw [openCount] at this ⊢
    rw [hopen, operatorCount_append, hone, hcounts.1]
    omega
  · rw [arity_concat_name_iff hn, enoughOperands_cons_iff, hcounts.1, hcounts.2, openCount, hopen,
      h.arity]
    refine ⟨fun henough => ⟨henough, ?_⟩, And.left⟩
    have := henough after (List.suffix_refl _) hne
    rw [openCount] at this
    omega

/-- A closing parenthesis waits for its opening one. -/
theorem Emitted.closing (h : Emitted after tokenStack out) (hne : after ≠ []) :
    infixToPostfixStep (tokenStack, out) (swapParenthesis ")") = .ok (tokenStack.push "(", out) ∧
      Emitted (")" :: after) (tokenStack.push "(") out := by
  have hopen : openAfter (")" :: after) = none :: openAfter after := rfl
  have hcounts : connectiveCount (")" :: after) = connectiveCount after ∧
      operandCount (")" :: after) = operandCount after ∧
        openCount (")" :: after) = openCount after := by
    refine ⟨?_, ?_, ?_⟩
    · rw [connectiveCount, connectiveCount, List.countP_cons_of_neg (by decide)]
    · rw [operandCount, operandCount, List.countP_cons_of_neg (by decide)]
    · rw [openCount, openCount, hopen, List.countP_cons_of_neg (by decide)]
  refine ⟨rfl, ⟨?_, ?_, ?_, ?_⟩⟩
  · rw [Stack.push_live, hopen, h.live]
    rfl
  · rw [h.names, List.filter_cons_of_neg (by decide)]
  · rw [hcounts.1, hcounts.2.2, h.operators]
  · rw [enoughOperands_cons_iff, hcounts.1, hcounts.2.1, hcounts.2.2, h.arity]
    exact ⟨fun henough => ⟨henough, henough after (List.suffix_refl _) hne⟩, And.left⟩

theorem keptFrom_openText {k : ℕ} {done : List (Option Connective)}
    (hdone : ∀ o ∈ done, ∃ op : Connective, o = some op ∧ k ≤ op.level) :
    KeptFrom k (done.map openText) := by
  intro b hb
  obtain ⟨o, ho, rfl⟩ := List.mem_map.mp hb
  obtain ⟨op, rfl, hle⟩ := hdone o ho
  exact ⟨op, rfl, hle⟩

/-- An opening parenthesis completes what is open down to its closing one. -/
theorem Emitted.opening (h : Emitted after tokenStack out) (hne : after ≠ [])
    (hclosed : none ∈ openAfter after) : ∃ tokenStack' out',
      infixToPostfixStep (tokenStack, out) (swapParenthesis "(") = .ok (tokenStack', out') ∧
        Emitted ("(" :: after) tokenStack' out' := by
  obtain ⟨done, rest, hsplit, hnot⟩ := List.eq_append_cons_of_mem hclosed
  have hdone : ∀ o ∈ done, o.isSome = true := by
    intro o ho
    cases o with
    | none => exact absurd ho hnot
    | some op => rfl
  have hopen : openAfter ("(" :: after) = rest := by
    show ((openAfter after).dropWhile Option.isSome).tail = rest
    rw [hsplit, List.dropWhile_append_of_pos hdone]
    rfl
  have hlive := h.live
  rw [hsplit, List.map_append, List.map_cons] at hlive
  obtain ⟨tokenStack₁, hpar, hlive₁⟩ := popToParenthesis_kept hlive (keptFrom_openText fun o ho => by
    obtain ⟨op, rfl⟩ := Option.isSome_iff_exists.mp (hdone o ho)
    exact ⟨op, rfl, Nat.zero_le _⟩) out (n := tokenStack.size) (by
      rw [← Stack.live_length, hlive, List.length_append, List.length_cons]
      omega)
  obtain ⟨tokenStack₂, hpop, hlive₂⟩ := Stack.pop_of_live hlive₁
  obtain ⟨harity, hoperators, hnames⟩ := h.emit hne hsplit hdone
  have hcounts : connectiveCount ("(" :: after) = connectiveCount after ∧
      operandCount ("(" :: after) = operandCount after := by
    constructor
    · rw [connectiveCount, connectiveCount, List.countP_cons_of_neg (by decide)]
    · rw [operandCount, operandCount, List.countP_cons_of_neg (by decide)]
  have hrest : (none :: rest).countP Option.isSome = rest.countP Option.isSome :=
    List.countP_cons_of_neg (by decide)
  rw [hrest] at harity hoperators
  refine ⟨tokenStack₂, out ++ done.map openText, ?_, ⟨?_, ?_, ?_, ?_⟩⟩
  · show (popToParenthesis tokenStack.size tokenStack out >>= fun s => _) = _
    rw [hpar]
    show (tokenStack₁.pop >>= fun s => _) = _
    rw [hpop]
    rfl
  · rw [hopen, hlive₂]
  · rw [hnames, List.filter_cons_of_neg (by decide)]
  · rw [openCount, hopen, hcounts.1, hoperators]
  · rw [enoughOperands_cons_iff, hcounts.1, hcounts.2, openCount, hopen, harity]

/-- A parenthesis that is never closed ends the process. -/
theorem Emitted.opening_error (h : Emitted after tokenStack out) (hclosed : none ∉ openAfter after) :
    ∃ fatal, infixToPostfixStep (tokenStack, out) (swapParenthesis "(") = .error fatal := by
  have hall : ∀ n (tokenStack : Stack) out, "(" ∉ tokenStack.live →
      ∃ fatal, popToParenthesis n tokenStack out = .error fatal := by
    intro n
    induction n with
    | zero => exact fun tokenStack out _ => ⟨_, rfl⟩
    | succ n ih =>
      intro tokenStack out hnot
      cases hlive : tokenStack.live with
      | nil =>
        refine ⟨.indexOutOfRange, ?_⟩
        rw [popToParenthesis, Stack.top_of_live_nil hlive]
        rfl
      | cons token live =>
        rw [hlive, List.mem_cons, not_or] at hnot
        obtain ⟨tokenStack', hpop, hlive'⟩ := Stack.pop_of_live hlive
        obtain ⟨fatal, hfatal⟩ := ih tokenStack' (out ++ [token]) (hlive' ▸ hnot.2)
        refine ⟨fatal, ?_⟩
        rw [popToParenthesis, Stack.top_of_live hlive]
        show (if token != "(" then _ else _) = _
        rw [if_pos (bne_iff_ne.mpr (Ne.symm hnot.1)), hpop]
        exact hfatal
  obtain ⟨fatal, hfatal⟩ := hall tokenStack.size tokenStack out (by
    rw [h.live, List.mem_map]
    rintro ⟨o, ho, htext⟩
    cases o with
    | none => exact hclosed ho
    | some op => exact (symbol_ne_parenthesis op).1 htext)
  refine ⟨fatal, ?_⟩
  show (popToParenthesis tokenStack.size tokenStack out >>= fun s => _) = _
  rw [hfatal]
  rfl

/-- A connective completes those that bind more tightly. -/
theorem Emitted.connective (h : Emitted after tokenStack out) (hne : after ≠ []) (op : Connective) :
    ∃ tokenStack' out', infixToPostfixStep (tokenStack, out) (swapParenthesis op.symbol) =
        .ok (tokenStack', out') ∧ Emitted (op.symbol :: after) tokenStack' out' := by
  have hkind : tokenKind op.symbol = .connective op := by cases op <;> decide
  have hsplit : openAfter after =
      (openAfter after).takeWhile (completes op) ++ (openAfter after).dropWhile (completes op) :=
    List.takeWhile_append_dropWhile.symm
  have hcompletes : ∀ o ∈ (openAfter after).takeWhile (completes op),
      ∃ op' : Connective, o = some op' ∧ op.level + 1 ≤ op'.level := by
    intro o ho
    have htrue := (List.all_eq_true.mp List.all_takeWhile o ho)
    cases o with
    | none => cases htrue
    | some op' => exact ⟨op', rfl, of_decide_eq_true htrue⟩
  have hopen : openAfter (op.symbol :: after) =
      some op :: (openAfter after).dropWhile (completes op) := by rw [openAfter, hkind]
  have htop : TopAtMost op.level (((openAfter after).dropWhile (completes op)).map openText) := by
    intro x hx
    cases hrest : (openAfter after).dropWhile (completes op) with
    | nil =>
      rw [hrest] at hx
      cases hx
    | cons o rest =>
      rw [hrest] at hx
      rw [← Option.some.inj hx]
      have hfalse := List.head?_dropWhile_not (completes op) (openAfter after)
      rw [hrest] at hfalse
      cases o with
      | none => exact ⟨0, rfl, by omega⟩
      | some op' =>
        have hle : op'.level ≤ op.level := by
          simpa [completes] using hfalse
        exact ⟨op'.level, priority_symbol op', by omega⟩
  generalize (openAfter after).takeWhile (completes op) = done at hsplit hcompletes
  generalize (openAfter after).dropWhile (completes op) = rest at hsplit hopen htop
  have hdone : ∀ o ∈ done, o.isSome = true := by
    intro o ho
    obtain ⟨op', rfl, _⟩ := hcompletes o ho
    rfl
  have hlive := h.live
  rw [hsplit, List.map_append] at hlive
  obtain ⟨tokenStack₁, hpop, hlive₁⟩ := popHigher_kept op hlive (keptFrom_openText hcompletes) htop out
    (n := tokenStack.size) (by
      rw [← Stack.live_length, hlive, List.length_append]
      omega)
  obtain ⟨harity, hoperators, hnames⟩ := h.emit hne hsplit hdone
  have hcounts : connectiveCount (op.symbol :: after) = connectiveCount after + 1 ∧
      operandCount (op.symbol :: after) = operandCount after := by
    constructor
    · rw [connectiveCount, connectiveCount, List.countP_cons_of_pos (isConnective_symbol op)]
    · rw [operandCount, operandCount, List.countP_cons_of_neg (by simp [isOperator_symbol])]
  have hcount : openCount (op.symbol :: after) = rest.countP Option.isSome + 1 := by
    rw [openCount, hopen, List.countP_cons_of_pos rfl]
  refine ⟨tokenStack₁.push op.symbol, out ++ done.map openText, ?_, ⟨?_, ?_, ?_, ?_⟩⟩
  · rw [swapParenthesis_symbol, infixToPostfixStep, isOperator_symbol]
    show (if op.symbol == "(" then _ else if op.symbol == ")" then _ else _) = _
    rw [if_neg (by rw [beq_iff_eq]; exact (symbol_ne_parenthesis op).1),
      if_neg (by rw [beq_iff_eq]; exact (symbol_ne_parenthesis op).2), hpop]
    rfl
  · rw [Stack.push_live, hlive₁, hopen]
    rfl
  · rw [hnames, List.filter_cons_of_neg (by simp [isOperator_symbol])]
  · rw [hcount, hcounts.1, ← hoperators, Nat.add_assoc]
  · rw [enoughOperands_cons_iff, hcounts.1, hcounts.2, hcount, harity]
    exact and_congr_right' (by omega)

end Emission

/-! ### Any text -/

theorem closed_cons_iff {token : String} {after : List String} :
    Closed (token :: after) ↔ Closed after ∧ (token = "(" → none ∈ openAfter after) := by
  constructor
  · intro h
    refine ⟨fun end' hend => h end' (hend.trans (List.suffix_cons token after)), ?_⟩
    rintro rfl
    exact h after (List.suffix_refl _)
  · intro ⟨h, hfirst⟩ end' hend
    rcases List.suffix_cons_iff.mp hend with heq | hend
    · obtain ⟨rfl, rfl⟩ := List.cons.inj heq
      exact hfirst rfl
    · exact h end' hend

/-- **The shunting-yard over any tokens** that end with a name. -/
theorem foldlM_emitted (front : List String) {last : String} (hlast : OperatorFree last) :
    (Closed (front ++ [last]) → ∃ tokenStack out,
      (mirror (front ++ [last])).foldlM infixToPostfixStep (Stack.new, []) = .ok (tokenStack, out) ∧
        Emitted (front ++ [last]) tokenStack out) ∧
      (¬ Closed (front ++ [last]) → ∃ fatal,
        (mirror (front ++ [last])).foldlM infixToPostfixStep (Stack.new, []) = .error fatal) := by
  induction front with
  | nil =>
    have hop := isOperator_of_operatorFree hlast
    have hkind : tokenKind last = .name := by
      rcases token_cases last with ⟨hkind, _⟩ | ⟨_, rfl⟩ | ⟨_, rfl⟩ | ⟨op, _, rfl⟩
      · exact hkind
      · revert hop
        decide
      · revert hop
        decide
      · rw [isOperator_symbol] at hop
        cases hop
    have hclosed : Closed [last] := by
      rw [closed_cons_iff]
      refine ⟨fun after hafter => absurd (List.suffix_nil.mp hafter) (List.cons_ne_nil _ _), ?_⟩
      rintro rfl
      revert hop
      decide
    refine ⟨fun _ => ⟨Stack.new, [last], ?_, emitted_last hkind hop⟩, fun h => absurd hclosed h⟩
    exact foldlM_cons_ok (infixToPostfixStep_name hop Stack.new []) rfl
  | cons token front ih =>
    obtain ⟨ihok, iherror⟩ := ih
    have hne : front ++ [last] ≠ [] := by simp
    have hmirror : mirror (token :: (front ++ [last])) =
        mirror (front ++ [last]) ++ [swapParenthesis token] := by
      rw [mirror, List.reverse_cons, List.map_append]
      rfl
    rw [List.cons_append, hmirror, closed_cons_iff, List.foldlM_append]
    simp only [foldlM_singleton]
    by_cases hclosed : Closed (front ++ [last])
    · obtain ⟨tokenStack, out, hrun, hemitted⟩ := ihok hclosed
      rw [hrun]
      show (_ → ∃ tokenStack' out', infixToPostfixStep (tokenStack, out) (swapParenthesis token) = _ ∧ _) ∧
        (_ → ∃ fatal, infixToPostfixStep (tokenStack, out) (swapParenthesis token) = _)
      simp only [hclosed, true_and]
      rcases token_cases token with ⟨hkind, hop⟩ | ⟨_, rfl⟩ | ⟨_, rfl⟩ | ⟨op, _, rfl⟩
      · refine ⟨fun _ => ⟨_, _, infixToPostfixStep_name hop tokenStack out,
          hemitted.name hne hkind hop⟩, fun h => absurd ?_ h⟩
        rintro rfl
        exact absurd hop (by decide)
      · simp only [true_imp_iff]
        exact ⟨fun h => hemitted.opening hne h, fun h => hemitted.opening_error h⟩
      · obtain ⟨hstep, hafter⟩ := hemitted.closing hne
        exact ⟨fun _ => ⟨_, _, hstep, hafter⟩, fun h => absurd (fun heq => absurd heq (by decide)) h⟩
      · refine ⟨fun _ => hemitted.connective hne op, fun h => absurd (fun heq => ?_) h⟩
        exact absurd heq (symbol_ne_parenthesis op).1
    · obtain ⟨fatal, hrun⟩ := iherror hclosed
      rw [hrun]
      exact ⟨fun h => absurd h.1 hclosed, fun _ => ⟨fatal, rfl⟩⟩

/-- The tokens can be evaluated after the shunting-yard if and only if they fit. -/
theorem Emitted.evaluable_iff {tokens : List String} {tokenStack : Stack} {out : List String}
    (h : Emitted tokens tokenStack out) (hclosed : Closed tokens) (hne : tokens ≠ []) :
    Evaluable (out ++ tokenStack.live) ↔ Fits tokens := by
  have hops : ∀ op ∈ tokenStack.live, isOperator op = true := by
    intro op hop
    rw [h.live] at hop
    obtain ⟨o, _, rfl⟩ := List.mem_map.mp hop
    exact isOperator_openText o
  have hnone : (tokenStack.live.filter fun token => !isOperator token) = [] := by
    rw [List.filter_eq_nil_iff]
    intro op hop
    simp [hops op hop]
  have hdistinct : ((out ++ tokenStack.live).filter fun token => !isOperator token).Nodup ↔
      (tokens.filter fun token => !isOperator token).Nodup := by
    rw [List.filter_append, hnone, List.append_nil, h.names, List.nodup_reverse]
  have hlength : tokenStack.live.length =
      openCount tokens + (openAfter tokens).countP Option.isNone := by
    rw [h.live, List.length_map, List.length_eq_countP_add_countP Option.isSome, openCount]
    congr 1
    exact List.countP_congr fun o _ => by cases o <;> simp
  have hoperators := h.operators
  have hoperands := h.operandCount_eq
  constructor
  · intro ⟨hnodup, harity⟩
    obtain ⟨hout, hlive⟩ := (arity_append_operators_iff hops).mp harity
    have henough := h.arity.mp hout
    refine ⟨hclosed, hdistinct.mp hnodup, henough, ?_⟩
    have hlast := henough tokens (List.suffix_refl _) hne
    by_cases hempty : tokenStack.live = []
    · rw [hempty, List.length_nil] at hlength
      omega
    · have := hlive hempty
      omega
  · intro hfits
    have hcomplete := hfits.complete
    refine ⟨hdistinct.mpr hfits.distinct, (arity_append_operators_iff hops).mpr
      ⟨h.arity.mpr hfits.operands, fun _ => ?_⟩⟩
    omega

/-- **A text has a tree if and only if its tokens fit.** -/
theorem expressionToBinaryTree_fits (exp : String) :
    (Fits (expressionToInfixTokens exp) → ∃ node, expressionToBinaryTree exp = .ok node ∧ Whole node) ∧
      (¬ Fits (expressionToInfixTokens exp) → ∃ fatal, expressionToBinaryTree exp = .error fatal) := by
  obtain ⟨front, last, htokens, hlast, hfront⟩ := expressionToInfixTokens_spec exp
  have hmem : ∀ token ∈ front ++ [last], isOperator token = true ∨ OperatorFree token := by
    intro token hmem
    rw [List.mem_append, List.mem_singleton] at hmem
    rcases hmem with hmem | rfl
    · exact hfront token hmem
    · exact .inr hlast
  have hne : front ++ [last] ≠ [] := by simp
  obtain ⟨hok, herror⟩ := foldlM_emitted front hlast
  rw [expressionToBinaryTree, htokens]
  by_cases hclosed : Closed (front ++ [last])
  · obtain ⟨tokenStack, out, hrun, hemitted⟩ := hok hclosed
    have hresult : infixToPrefix (front ++ [last]) = .ok (out ++ tokenStack.live).reverse := by
      show (((mirror (front ++ [last])).foldlM infixToPostfixStep (Stack.new, []) >>=
        fun s => popAll s.1.size s.1 s.2) >>= fun s => Except.ok s.reverse) = _
      rw [hrun]
      show (popAll tokenStack.size tokenStack out >>= fun s => Except.ok s.reverse) = _
      rw [popAll_live rfl out (by rw [← Stack.live_length])]
      rfl
    have houtput : ∀ token ∈ out ++ tokenStack.live, isOperator token = true ∨ OperatorFree token := by
      intro token htoken
      by_cases hop : isOperator token = true
      · exact .inl hop
      · rw [List.mem_append] at htoken
        rcases htoken with htoken | htoken
        · have hname : token ∈ out.filter fun token => !isOperator token :=
            List.mem_filter.mpr ⟨htoken, by simpa using hop⟩
          rw [hemitted.names, List.mem_reverse, List.mem_filter] at hname
          exact hmem token hname.1
        · rw [hemitted.live] at htoken
          obtain ⟨o, _, rfl⟩ := List.mem_map.mp htoken
          exact .inl (isOperator_openText o)
    have houtputNe : out ++ tokenStack.live ≠ [] := by
      intro hempty
      obtain ⟨hout, _⟩ := List.append_eq_nil_iff.mp hempty
      have hnames := hemitted.names
      rw [hout, List.filter_append, List.reverse_append] at hnames
      simp [isOperator_of_operatorFree hlast] at hnames
    rw [hresult]
    show (_ → ∃ node, prefixExpressionToBinaryTree (out ++ tokenStack.live).reverse = _ ∧ _) ∧
      (_ → ∃ fatal, prefixExpressionToBinaryTree (out ++ tokenStack.live).reverse = _)
    rw [← hemitted.evaluable_iff hclosed hne]
    exact prefixExpressionToBinaryTree_rebuilt houtputNe houtput
  · obtain ⟨fatal, hrun⟩ := herror hclosed
    refine ⟨fun h => absurd h.closed hclosed, fun _ => ⟨fatal, ?_⟩⟩
    show ((((mirror (front ++ [last])).foldlM infixToPostfixStep (Stack.new, []) >>=
      fun s => popAll s.1.size s.1 s.2) >>= fun s => Except.ok s.reverse) >>= fun s =>
        prefixExpressionToBinaryTree s) = _
    rw [hrun]
    rfl

/-! ### Malformed texts -/

/-- From the expression to the trigger graph. -/
def buildTriggerGraph (exp : String) : Except Fatal TriggerGraph := do
  let binaryTreeRoot ← expressionToBinaryTree exp
  binaryTreeToTriggerGraph binaryTreeRoot

theorem buildTriggerGraph_fits (exp : String) :
    (Fits (expressionToInfixTokens exp) → ∃ triggerGraph, buildTriggerGraph exp = .ok triggerGraph) ∧
      (¬ Fits (expressionToInfixTokens exp) → ∃ fatal, buildTriggerGraph exp = .error fatal) := by
  obtain ⟨hok, herror⟩ := expressionToBinaryTree_fits exp
  constructor
  · intro h
    obtain ⟨node, hnode, hwhole⟩ := hok h
    obtain ⟨triggerGraph, hgraph⟩ := hwhole.triggerGraph
    exact ⟨triggerGraph, by rw [buildTriggerGraph, hnode]; exact hgraph⟩
  · intro h
    obtain ⟨fatal, hfatal⟩ := herror h
    exact ⟨fatal, by rw [buildTriggerGraph, hfatal]; rfl⟩

/-- If the text is not in the grammar, building its trigger graph ends the process. -/
def RejectsMalformed (exp : String) : Prop :=
  (¬ ∃ names, Generates exp names) → ∃ fatal, buildTriggerGraph exp = .error fatal

/-- **A malformed text is rejected if and only if its tokens do not fit.** -/
theorem rejectsMalformed_iff (exp : String) : RejectsMalformed exp ↔
    (∃ names, Generates exp names) ∨ ¬ Fits (expressionToInfixTokens exp) := by
  obtain ⟨hok, herror⟩ := buildTriggerGraph_fits exp
  constructor
  · intro h
    by_cases hnames : ∃ names, Generates exp names
    · exact .inl hnames
    · refine .inr fun hfits => ?_
      obtain ⟨fatal, hfatal⟩ := h hnames
      obtain ⟨triggerGraph, hgraph⟩ := hok hfits
      cases hgraph.symm.trans hfatal
  · intro h hnames
    exact herror (h.resolve_left hnames)

/-- A text of the grammar has one operand more than connectives. -/
theorem counts_of_generates {exp : String} {names : List String} (h : Generates exp names) :
    ∃ tokens, Lexes exp tokens ∧ operandCount tokens = connectiveCount tokens + 1 := by
  have hparen : ∀ paren : String, paren = "(" ∨ paren = ")" →
      operandCount [paren] = 0 ∧ connectiveCount [paren] = 0 := by
    rintro paren (rfl | rfl) <;> decide
  induction h with
  | @name n hne hfree =>
    have hop := isOperator_of_operatorFree hfree
    refine ⟨_, Lexes.name hne hfree, ?_⟩
    simp [operandCount, connectiveCount, hop, isConnective_name hop]
  | binary op _ _ ihs iht =>
    obtain ⟨ts, hlex, hts⟩ := ihs
    obtain ⟨us, hlex', hus⟩ := iht
    refine ⟨_, Lexes.binary op hlex hlex', ?_⟩
    have hone : operandCount [op.symbol] = 0 ∧ connectiveCount [op.symbol] = 1 := by
      simp [operandCount, connectiveCount, isOperator_symbol, isConnective_symbol]
    rw [operandCount_append, operandCount_append, connectiveCount_append, connectiveCount_append]
    omega
  | paren _ ih =>
    obtain ⟨ts, hlex, hts⟩ := ih
    refine ⟨_, hlex.paren, ?_⟩
    have hopening := hparen "(" (.inl rfl)
    have hclosing := hparen ")" (.inr rfl)
    rw [operandCount_append, operandCount_append, connectiveCount_append, connectiveCount_append]
    omega

/-- **Two operands without a connective between them**: the second one is dropped. -/
theorem not_rejectsMalformed_juxtaposed : ¬ RejectsMalformed "a(b)" := by
  intro h
  have hnames : ¬ ∃ names, Generates "a(b)" names := by
    intro ⟨names, hnames⟩
    obtain ⟨tokens, hlex, hcounts⟩ := counts_of_generates hnames
    have htokens : tokens = ["a", "(", "b", ")"] := ((hlex []).symm.trans (by decide))
    rw [htokens] at hcounts
    revert hcounts
    decide
  obtain ⟨fatal, hfatal⟩ := h hnames
  have htree : expressionToBinaryTree "a(b)" = .ok (.node "a" "a" .nil .nil) := by decide
  rw [buildTriggerGraph, htree] at hfatal
  cases hfatal

end Sieve.Server
