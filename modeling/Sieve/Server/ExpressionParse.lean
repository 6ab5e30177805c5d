import Sieve.Library.FoldExcept
import Sieve.Server.TriggerTree

/-!
# The parser returns the tree a trigger expression denotes

* `Lexes s ts`: whatever stands before `s`, its tokens are `ts`;
* `Yields k ts e`: over the mirrored tokens the shunting-yard emits the operators and operands of
  `e` from right to left, keeping back only connectives of level `k` and above;
* `foldlM_postfix`: the tree is rebuilt from them, whatever lies below on the stack;
* `expressionToBinaryTree_denotes`: together, for every text of the grammar.

Each of the first two is closed under the rules of the grammar, so both hold by induction on what
the text denotes.
-/

namespace Sieve.Server

open Sieve.Trigger Sieve.Library

/-! ### Operators -/

theorem isOperator_symbol (op : Connective) : isOperator op.symbol = true := by
  cases op <;> decide

theorem priority_symbol (op : Connective) : priority op.symbol = .ok (op.level : ℤ) := by
  cases op <;> rfl

theorem symbol_ne_parenthesis (op : Connective) : op.symbol ≠ "(" ∧ op.symbol ≠ ")" := by
  cases op <;> decide

theorem swapParenthesis_symbol (op : Connective) : swapParenthesis op.symbol = op.symbol := by
  cases op <;> decide

theorem isOperator_of_operatorFree {n : String} (h : OperatorFree n) : isOperator n = false := by
  by_contra hop
  simp only [isOperator, Bool.not_eq_false, Bool.or_eq_true, beq_iff_eq] at hop
  rcases hop with (((rfl | rfl) | rfl) | rfl) | rfl <;> revert h <;> decide

theorem swapParenthesis_of_operatorFree {n : String} (h : OperatorFree n) :
    swapParenthesis n = n := by
  have hop := isOperator_of_operatorFree h
  rw [swapParenthesis, if_neg, if_neg]
  · intro heq
    rw [beq_iff_eq.mp heq] at hop
    revert hop
    decide
  · intro heq
    rw [beq_iff_eq.mp heq] at hop
    revert hop
    decide

theorem isOperator_singleton (c : Char) :
    isOperator (String.singleton c) = true ↔ c ∈ operatorChars := by
  have hinj : ∀ d : Char, String.singleton c = String.singleton d ↔ c = d := by
    intro d
    rw [← String.toList_inj, String.toList_singleton, String.toList_singleton, List.cons.injEq]
    simp
  simp only [isOperator, Bool.or_eq_true, beq_iff_eq, operatorChars, List.mem_cons,
    List.not_mem_nil, or_false]
  rw [show ";" = String.singleton ';' from rfl, show "&" = String.singleton '&' from rfl,
    show "|" = String.singleton '|' from rfl, show "(" = String.singleton '(' from rfl,
    show ")" = String.singleton ')' from rfl, hinj, hinj, hinj, hinj, hinj]
  tauto

/-! ### Tokens -/

/-- The tokens read so far, the unfinished one included. -/
def flush (state : List String × String) : List String :=
  if state.2 != "" then state.1 ++ [state.2] else state.1

/-- Whatever was read before, the text adds the tokens `ts`. -/
def Lexes (s : String) (ts : List String) : Prop :=
  ∀ acc, flush (s.toList.foldl expressionToInfixTokensStep (acc, "")) = acc ++ ts

theorem expressionToInfixTokensStep_operator {c : Char} (hc : c ∈ operatorChars)
    (state : List String × String) :
    expressionToInfixTokensStep state c = (flush state ++ [String.singleton c], "") := by
  show (if isOperator (String.singleton c) then _ else _) = _
  rw [if_pos ((isOperator_singleton c).mpr hc)]
  rfl

theorem foldl_operatorFree {cs : List Char} (h : ∀ c ∈ cs, c ∉ operatorChars)
    (acc : List String) (cur : String) :
    cs.foldl expressionToInfixTokensStep (acc, cur) = (acc, cur ++ String.ofList cs) := by
  induction cs generalizing cur with
  | nil => simp
  | cons c cs ih =>
    have hc : isOperator (String.singleton c) = false :=
      Bool.eq_false_iff.mpr fun hop => h c (by simp) ((isOperator_singleton c).mp hop)
    have hstep : expressionToInfixTokensStep (acc, cur) c = (acc, cur ++ String.singleton c) := by
      show (if isOperator (String.singleton c) then _ else _) = _
      rw [hc]
      rfl
    rw [List.foldl_cons, hstep, ih fun d hd => h d (List.mem_cons_of_mem _ hd)]
    apply congrArg (Prod.mk acc)
    apply String.toList_injective
    simp only [String.toList_append, String.toList_ofList, String.toList_singleton,
      List.append_assoc, List.cons_append, List.nil_append]

theorem Lexes.name {n : String} (hne : n ≠ "") (hfree : OperatorFree n) : Lexes n [n] := by
  intro acc
  rw [foldl_operatorFree hfree, String.ofList_toList, String.empty_append, flush,
    if_pos (bne_iff_ne.mpr hne)]

/-- An operator character ends the current token and is one itself. -/
theorem Lexes.operator {s t : String} {ts us : List String} {c : Char} (hc : c ∈ operatorChars)
    (hs : Lexes s ts) (ht : Lexes t us) :
    Lexes (s ++ String.singleton c ++ t) (ts ++ [String.singleton c] ++ us) := by
  intro acc
  rw [String.toList_append, String.toList_append, String.toList_singleton, List.foldl_append,
    List.foldl_append, List.foldl_cons, List.foldl_nil,
    expressionToInfixTokensStep_operator hc, hs, ht]
  simp only [List.append_assoc]

theorem Lexes.empty : Lexes "" [] := by
  intro acc
  show acc = acc ++ []
  rw [List.append_nil]

theorem Lexes.binary (op : Connective) {s t : String} {ts us : List String} (hs : Lexes s ts)
    (ht : Lexes t us) : Lexes (s ++ op.symbol ++ t) (ts ++ [op.symbol] ++ us) := by
  cases op with
  | seq => exact Lexes.operator (c := ';') (by decide) hs ht
  | and => exact Lexes.operator (c := '&') (by decide) hs ht
  | or => exact Lexes.operator (c := '|') (by decide) hs ht

theorem Lexes.paren {s : String} {ts : List String} (hs : Lexes s ts) :
    Lexes ("(" ++ s ++ ")") (["("] ++ ts ++ [")"]) := by
  have hopen := Lexes.operator (c := '(') (by decide) Lexes.empty hs
  have h := Lexes.operator (c := ')') (by decide) hopen Lexes.empty
  rw [String.append_empty, List.append_nil, String.empty_append, List.nil_append] at h
  exact h

/-- The tokenizer's result: the tokens of the text, and one empty token more if the text ends
with an operator character. -/
theorem Lexes.expressionToInfixTokens {s : String} {ts : List String} (h : Lexes s ts) :
    expressionToInfixTokens s = ts ∨ expressionToInfixTokens s = ts ++ [""] := by
  have hflush := h []
  rw [List.nil_append, flush] at hflush
  rw [Server.expressionToInfixTokens]
  split at hflush
  · exact Or.inl hflush
  · rename_i hcur
    rw [bne_iff_ne, not_not] at hcur
    exact Or.inr (congrArg₂ (fun a b => a ++ [b]) hflush hcur)

/-! ### The shunting-yard -/

/-- The topmost token, if there is one, binds at most as tightly as level `k`. -/
def TopAtMost (k : ℤ) (l : List String) : Prop :=
  ∀ x ∈ l.head?, ∃ p, priority x = .ok p ∧ p ≤ k

/-- The kept tokens are connectives of level `k` and above. -/
def KeptFrom (k : ℕ) (l : List String) : Prop :=
  ∀ b ∈ l, ∃ op : Connective, b = op.symbol ∧ k ≤ op.level

theorem TopAtMost.mono {j k : ℤ} {l : List String} (h : TopAtMost j l) (hjk : j ≤ k) :
    TopAtMost k l := by
  intro x hx
  obtain ⟨p, hp, hle⟩ := h x hx
  exact ⟨p, hp, Int.le_trans hle hjk⟩

theorem KeptFrom.mono {j k : ℕ} {l : List String} (h : KeptFrom k l) (hjk : j ≤ k) :
    KeptFrom j l := by
  intro b hb
  obtain ⟨op, hop, hle⟩ := h b hb
  exact ⟨op, hop, Nat.le_trans hjk hle⟩

theorem topAtMost_symbol (op : Connective) (l : List String) :
    TopAtMost op.level (op.symbol :: l) := by
  intro x hx
  rw [← Option.some.inj hx]
  exact ⟨op.level, priority_symbol op, Int.le_refl _⟩

/-- A connective moves the kept tokens that bind more tightly to the output, and no others. -/
theorem popHigher_kept (op : Connective) {B l : List String} {tokenStack : Stack}
    (hlive : tokenStack.live = B ++ l) (hB : KeptFrom (op.level + 1) B)
    (hl : TopAtMost op.level l) (out : List String) {n : ℕ} (hn : B.length ≤ n) :
    ∃ tokenStack', popHigher op.symbol n tokenStack out = .ok (tokenStack', out ++ B) ∧
      tokenStack'.live = l := by
  induction B generalizing tokenStack out n with
  | nil =>
    refine ⟨tokenStack, ?_, hlive⟩
    rw [List.append_nil]
    cases n with
    | zero => rfl
    | succ n =>
      rw [popHigher]
      split
      · rfl
      · rename_i hne
        obtain ⟨x, l', rfl⟩ := List.exists_cons_of_ne_nil fun h : l = [] =>
          hne ((Stack.empty_iff _).mpr (hlive.trans h))
        obtain ⟨p, hp, hle⟩ := hl x rfl
        rw [priority_symbol, Stack.top_of_live hlive]
        show (priority x >>= fun q => _) = _
        rw [hp]
        show (if (op.level : ℤ) < p then _ else _) = _
        rw [if_neg (by omega)]
  | cons b B ih =>
    obtain ⟨n, rfl⟩ : ∃ m, n = m + 1 := ⟨n - 1, by rw [List.length_cons] at hn; omega⟩
    obtain ⟨op', rfl, hlt⟩ := hB b (by simp)
    obtain ⟨tokenStack₁, hpop, hlive₁⟩ := Stack.pop_of_live hlive
    obtain ⟨tokenStack', hrest, hlive'⟩ := ih hlive₁
      (fun b hb => hB b (List.mem_cons_of_mem _ hb)) (out ++ [op'.symbol])
      (Nat.le_of_succ_le_succ hn)
    refine ⟨tokenStack', ?_, hlive'⟩
    rw [popHigher, if_neg, priority_symbol, Stack.top_of_live hlive]
    · show (priority op'.symbol >>= fun q => _) = _
      rw [priority_symbol]
      show (if (op.level : ℤ) < op'.level then _ else _) = _
      rw [if_pos (by omega), hpop]
      show popHigher op.symbol n tokenStack₁ (out ++ [op'.symbol]) = _
      rw [hrest, List.append_assoc, List.singleton_append]
    · intro hempty
      rw [Stack.empty_iff, hlive] at hempty
      cases hempty

/-- A closing parenthesis moves the kept tokens down to the opening one to the output. -/
theorem popToParenthesis_kept {B l : List String} {tokenStack : Stack}
    (hlive : tokenStack.live = B ++ "(" :: l) (hB : KeptFrom 0 B) (out : List String) {n : ℕ}
    (hn : B.length < n) :
    ∃ tokenStack', popToParenthesis n tokenStack out = .ok (tokenStack', out ++ B) ∧
      tokenStack'.live = "(" :: l := by
  induction B generalizing tokenStack out n with
  | nil =>
    obtain ⟨n, rfl⟩ : ∃ m, n = m + 1 := ⟨n - 1, by omega⟩
    refine ⟨tokenStack, ?_, hlive⟩
    rw [popToParenthesis, Stack.top_of_live hlive, List.append_nil]
    rfl
  | cons b B ih =>
    obtain ⟨n, rfl⟩ : ∃ m, n = m + 1 := ⟨n - 1, by omega⟩
    obtain ⟨op, rfl, _⟩ := hB b (by simp)
    obtain ⟨tokenStack₁, hpop, hlive₁⟩ := Stack.pop_of_live hlive
    obtain ⟨tokenStack', hrest, hlive'⟩ := ih hlive₁
      (fun b hb => hB b (List.mem_cons_of_mem _ hb)) (out ++ [op.symbol])
      (Nat.lt_of_succ_lt_succ hn)
    refine ⟨tokenStack', ?_, hlive'⟩
    rw [popToParenthesis, Stack.top_of_live hlive]
    show (if op.symbol != "(" then _ else _) = _
    rw [if_pos (bne_iff_ne.mpr (symbol_ne_parenthesis op).1), hpop]
    show popToParenthesis n tokenStack₁ (out ++ [op.symbol]) = _
    rw [hrest, List.append_assoc, List.singleton_append]

theorem popAll_live {B : List String} {tokenStack : Stack} (hlive : tokenStack.live = B)
    (out : List String) {n : ℕ} (hn : B.length ≤ n) : popAll n tokenStack out = .ok (out ++ B) := by
  induction B generalizing tokenStack out n with
  | nil =>
    rw [List.append_nil]
    cases n with
    | zero => rfl
    | succ n => rw [popAll, if_pos ((Stack.empty_iff _).mpr hlive)]
  | cons b B ih =>
    obtain ⟨n, rfl⟩ : ∃ m, n = m + 1 := ⟨n - 1, by rw [List.length_cons] at hn; omega⟩
    obtain ⟨tokenStack₁, hpop, hlive₁⟩ := Stack.pop_of_live hlive
    rw [popAll, if_neg, hpop]
    · show popAll n tokenStack₁ (out ++ [b]) = _
      rw [ih hlive₁ _ (Nat.le_of_succ_le_succ hn), List.append_assoc, List.singleton_append]
    · intro hempty
      rw [Stack.empty_iff, hlive] at hempty
      cases hempty

/-- The tokens as `infixToPostfix` sees them. -/
def mirror (ts : List String) : List String := ts.reverse.map swapParenthesis

theorem mirror_append (ts us : List String) : mirror (ts ++ us) = mirror us ++ mirror ts := by
  rw [mirror, List.reverse_append, List.map_append]
  rfl

/-- The operators and operands of an expression as the shunting-yard emits them: the prefix form
from its end. -/
def postfixTokens : TriggerExpr String → List String
  | .literal n => [n]
  | .node op l r => postfixTokens r ++ postfixTokens l ++ [op.symbol]

/-- Over the mirrored tokens the shunting-yard emits `e`, except for kept connectives of level `k`
and above, which it leaves on the stack. -/
def Yields (k : ℕ) (ts : List String) (e : TriggerExpr String) : Prop :=
  ∀ (tokenStack : Stack) (out : List String), TopAtMost k tokenStack.live →
    ∃ tokenStack' A B,
      (mirror ts).foldlM infixToPostfixStep (tokenStack, out) = .ok (tokenStack', out ++ A) ∧
      tokenStack'.live = B ++ tokenStack.live ∧ A ++ B = postfixTokens e ∧ KeptFrom k B

theorem Yields.name {n : String} (hfree : OperatorFree n) (k : ℕ) :
    Yields k [n] (.literal n) := by
  intro tokenStack out _
  refine ⟨tokenStack, [n], [], ?_, rfl, rfl, by simp [KeptFrom]⟩
  have hop := isOperator_of_operatorFree hfree
  show (infixToPostfixStep (tokenStack, out) (swapParenthesis n) >>= fun s => _) = _
  rw [swapParenthesis_of_operatorFree hfree, infixToPostfixStep, hop]
  rfl

theorem Yields.looser {k : ℕ} {ts : List String} {e : TriggerExpr String}
    (h : Yields (k + 1) ts e) : Yields k ts e := by
  intro tokenStack out htop
  obtain ⟨tokenStack', A, B, hrun, hlive, hAB, hB⟩ :=
    h tokenStack out (htop.mono (by omega))
  exact ⟨tokenStack', A, B, hrun, hlive, hAB, hB.mono (by omega)⟩

/-- The mirrored text starts with `(` and ends with `)`, which empties the stack down to it. -/
theorem Yields.paren {ts : List String} {e : TriggerExpr String} (h : Yields 1 ts e) (k : ℕ) :
    Yields k (["("] ++ ts ++ [")"]) e := by
  intro tokenStack out _
  obtain ⟨tokenStack₁, A, B, hrun, hlive, hAB, hB⟩ := h (tokenStack.push "(") out (by
    rw [Stack.push_live]
    intro x hx
    rw [← Option.some.inj hx]
    exact ⟨0, rfl, by omega⟩)
  rw [Stack.push_live] at hlive
  obtain ⟨tokenStack₂, hpar, hlive₂⟩ := popToParenthesis_kept hlive (hB.mono (Nat.zero_le _))
    (out ++ A) (n := tokenStack₁.size) (by
      rw [← Stack.live_length, hlive, List.length_append, List.length_cons]
      omega)
  obtain ⟨tokenStack₃, hpop, hlive₃⟩ := Stack.pop_of_live hlive₂
  refine ⟨tokenStack₃, postfixTokens e, [], ?_, hlive₃, List.append_nil _, by simp [KeptFrom]⟩
  have hopen : infixToPostfixStep (tokenStack, out) "(" = .ok (tokenStack.push "(", out) := rfl
  have hclose : infixToPostfixStep (tokenStack₁, out ++ A) ")" =
      .ok (tokenStack₃, out ++ A ++ B) := by
    show (popToParenthesis tokenStack₁.size tokenStack₁ (out ++ A) >>= fun s => _) = _
    rw [hpar]
    show (tokenStack₂.pop >>= fun s => _) = _
    rw [hpop]
    rfl
  have hmirror : mirror (["("] ++ ts ++ [")"]) = "(" :: (mirror ts ++ [")"]) := by
    rw [mirror_append, mirror_append]
    rfl
  rw [hmirror, ← hAB, ← List.append_assoc]
  exact foldlM_cons_ok hopen (foldlM_append_ok hrun (foldlM_cons_ok hclose rfl))

/-- The mirrored text starts with the right operand.  What it leaves on the stack binds more
tightly than the connective, which therefore completes it; the connective itself stays. -/
theorem Yields.binary (op : Connective) {ts us : List String} {l r : TriggerExpr String}
    (hl : Yields op.level ts l) (hr : Yields (op.level + 1) us r) :
    Yields op.level (ts ++ [op.symbol] ++ us) (.node op l r) := by
  intro tokenStack out htop
  obtain ⟨tokenStack₁, A, B, hrun, hlive, hAB, hB⟩ := hr tokenStack out (htop.mono (by omega))
  obtain ⟨tokenStack₂, hpop, hlive₂⟩ := popHigher_kept op hlive hB htop (out ++ A)
    (n := tokenStack₁.size) (by
      rw [← Stack.live_length, hlive, List.length_append]
      omega)
  have hstep : infixToPostfixStep (tokenStack₁, out ++ A) op.symbol =
      .ok (tokenStack₂.push op.symbol, out ++ A ++ B) := by
    rw [infixToPostfixStep, isOperator_symbol]
    show (if op.symbol == "(" then _ else if op.symbol == ")" then _ else _) = _
    rw [if_neg (by rw [beq_iff_eq]; exact (symbol_ne_parenthesis op).1),
      if_neg (by rw [beq_iff_eq]; exact (symbol_ne_parenthesis op).2), hpop]
    rfl
  have hlive₃ : (tokenStack₂.push op.symbol).live = op.symbol :: tokenStack.live := by
    rw [Stack.push_live, hlive₂]
  obtain ⟨tokenStack₄, A', B', hrun', hlive₄, hAB', hB'⟩ :=
    hl (tokenStack₂.push op.symbol) (out ++ A ++ B) (hlive₃ ▸ topAtMost_symbol op _)
  have hmirror : mirror (ts ++ [op.symbol] ++ us) = mirror us ++ op.symbol :: mirror ts := by
    rw [mirror_append, mirror_append]
    show _ ++ (swapParenthesis op.symbol :: mirror ts) = _
    rw [swapParenthesis_symbol]
  refine ⟨tokenStack₄, A ++ B ++ A', B' ++ [op.symbol], ?_, ?_, ?_, ?_⟩
  · rw [hmirror, ← List.append_assoc, ← List.append_assoc]
    exact foldlM_append_ok hrun (foldlM_cons_ok hstep hrun')
  · rw [hlive₄, hlive₃, List.append_assoc, List.singleton_append]
  · rw [postfixTokens, ← hAB, ← hAB']
    simp only [List.append_assoc]
  · intro b hb
    rcases List.mem_append.mp hb with hb | hb
    · exact hB' b hb
    · exact ⟨op, List.mem_singleton.mp hb, Nat.le_refl _⟩

/-- **Every text that denotes an expression** has tokens over which the shunting-yard yields it. -/
theorem lexes_yields_of_denotes {k : ℕ} {s : String} {e : TriggerExpr String}
    (h : Denotes k s e) : ∃ ts, Lexes s ts ∧ Yields k ts e := by
  induction h with
  | name hne hfree => exact ⟨_, Lexes.name hne hfree, Yields.name hfree 4⟩
  | paren _ ih =>
    obtain ⟨ts, hlex, hyields⟩ := ih
    exact ⟨_, hlex.paren, hyields.paren 4⟩
  | binary op _ _ ihs iht =>
    obtain ⟨ts, hlex, hyields⟩ := ihs
    obtain ⟨us, hlex', hyields'⟩ := iht
    exact ⟨_, Lexes.binary op hlex hlex', Yields.binary op hyields hyields'⟩
  | looser _ ih =>
    obtain ⟨ts, hlex, hyields⟩ := ih
    exact ⟨ts, hlex, hyields.looser⟩

/-- The prefix form; a trailing empty token, first among the mirrored ones, stays last. -/
theorem Yields.infixToPrefix {ts : List String} {e : TriggerExpr String} (h : Yields 1 ts e) :
    infixToPrefix ts = .ok (postfixTokens e).reverse ∧
      infixToPrefix (ts ++ [""]) = .ok (("" :: postfixTokens e).reverse) := by
  have hrun : ∀ out, ((mirror ts).foldlM infixToPostfixStep (Stack.new, out) >>=
      fun s => popAll s.1.size s.1 s.2) = .ok (out ++ postfixTokens e) := by
    intro out
    obtain ⟨tokenStack, A, B, hfold, hlive, hAB, _⟩ := h Stack.new out (by
      rw [Stack.new_live]
      intro x hx
      cases hx)
    rw [Stack.new_live, List.append_nil] at hlive
    rw [hfold]
    show popAll tokenStack.size tokenStack (out ++ A) = _
    rw [popAll_live hlive _ (by rw [← Stack.live_length, hlive]), List.append_assoc, hAB]
  constructor
  · show (infixToPostfix (mirror ts) >>= fun s => _) = _
    rw [show infixToPostfix (mirror ts) = .ok ([] ++ postfixTokens e) from hrun []]
    rfl
  · show (infixToPostfix (mirror (ts ++ [""])) >>= fun s => _) = _
    rw [show infixToPostfix (mirror (ts ++ [""])) = .ok ([""] ++ postfixTokens e) by
      rw [mirror_append]
      exact hrun [""]]
    rfl

/-! ### Rebuilding the tree -/

/-- The names of `e` are not in the map. -/
def Fresh (e : TriggerExpr String) (treeNodesMap : TreeNodesMap) : Prop :=
  ∀ n ∈ e.subNames, treeNodesMap n = none

theorem prefixStep_literal {n : String} (hop : isOperator n = false) (tokenStack : Stack)
    {treeNodesMap : TreeNodesMap} (hfresh : treeNodesMap n = none) :
    prefixExpressionToBinaryTreeStep (tokenStack, treeNodesMap) n =
      .ok (tokenStack.push n,
        Function.update treeNodesMap n (some (.node n n .nil .nil))) := by
  rw [prefixExpressionToBinaryTreeStep, hop]
  show (if (treeNodesMap n).isSome then _ else _) = _
  rw [hfresh]
  rfl

theorem prefixStep_operator (op : Connective) {l r : TriggerExpr String} {tokenStack : Stack}
    {live : List String} {treeNodesMap : TreeNodesMap}
    (hlive : tokenStack.live = l.composedName :: r.composedName :: live)
    (hl : treeNodesMap l.composedName = some l.toTree)
    (hr : treeNodesMap r.composedName = some r.toTree)
    (hfresh : treeNodesMap (TriggerExpr.node op l r).composedName = none) :
    ∃ tokenStack', prefixExpressionToBinaryTreeStep (tokenStack, treeNodesMap) op.symbol =
        .ok (tokenStack', Function.update treeNodesMap (TriggerExpr.node op l r).composedName
          (some (TriggerExpr.node op l r).toTree)) ∧
      tokenStack'.live = (TriggerExpr.node op l r).composedName :: live := by
  obtain ⟨tokenStack₁, hpop₁, hlive₁⟩ := Stack.pop_of_live hlive
  obtain ⟨tokenStack₂, hpop₂, hlive₂⟩ := Stack.pop_of_live hlive₁
  refine ⟨tokenStack₂.push (TriggerExpr.node op l r).composedName, ?_, ?_⟩
  · rw [prefixExpressionToBinaryTreeStep, isOperator_symbol]
    show (tokenStack.pop >>= fun s => _) = _
    rw [hpop₁]
    show (tokenStack₁.pop >>= fun s => _) = _
    rw [hpop₂]
    show (if (treeNodesMap (TriggerExpr.node op l r).composedName).isSome then _ else
      Except.ok (tokenStack₂.push (TriggerExpr.node op l r).composedName,
        Function.update treeNodesMap (TriggerExpr.node op l r).composedName
          (some (.node op.symbol (TriggerExpr.node op l r).composedName
            ((treeNodesMap l.composedName).getD .nil)
            ((treeNodesMap r.composedName).getD .nil))))) = _
    rw [hfresh, hl, hr]
    rfl
  · rw [Stack.push_live, hlive₂]

/-- **The tree of `e` is rebuilt from its operators and operands**: its composed name ends on top
of the stack and the map leads from there to the tree; other names are untouched. -/
theorem foldlM_postfix {e : TriggerExpr String} (hwn : e.WellNamed) (tokenStack : Stack)
    (treeNodesMap : TreeNodesMap) (hfresh : Fresh e treeNodesMap) :
    ∃ tokenStack' treeNodesMap',
      (postfixTokens e).foldlM prefixExpressionToBinaryTreeStep (tokenStack, treeNodesMap) =
        .ok (tokenStack', treeNodesMap') ∧
      tokenStack'.live = e.composedName :: tokenStack.live ∧
      treeNodesMap' e.composedName = some e.toTree ∧
      ∀ n, n ∉ e.subNames → treeNodesMap' n = treeNodesMap n := by
  induction e generalizing tokenStack treeNodesMap with
  | literal n =>
    have hop := isOperator_of_operatorFree (hwn.operatorFree n (List.mem_singleton_self n))
    have hstep := prefixStep_literal hop tokenStack (hfresh n (List.mem_singleton_self n))
    refine ⟨_, _, foldlM_cons_ok hstep rfl, Stack.push_live _ _, Function.update_self _ _ _, ?_⟩
    intro m hm
    exact Function.update_of_ne (fun h => hm (List.mem_singleton.mpr h)) _ _
  | node op l r ihl ihr =>
    have hsub : ∀ n, n ∈ (TriggerExpr.node op l r).subNames ↔
        (n ∈ r.subNames ∨ n ∈ l.subNames) ∨ n = (TriggerExpr.node op l r).composedName := by
      intro n
      rw [TriggerExpr.subNames, List.mem_append, List.mem_append, List.mem_singleton]
    obtain ⟨tokenStack₁, map₁, hrun₁, hlive₁, hroot₁, hframe₁⟩ := ihr hwn.right tokenStack
      treeNodesMap fun n hn => hfresh n ((hsub n).mpr (Or.inl (Or.inl hn)))
    have hfresh₁ : Fresh l map₁ := by
      intro n hn
      rw [hframe₁ n (hwn.subNames_disjoint hn)]
      exact hfresh n ((hsub n).mpr (Or.inl (Or.inr hn)))
    obtain ⟨tokenStack₂, map₂, hrun₂, hlive₂, hroot₂, hframe₂⟩ := ihl hwn.left tokenStack₁
      map₁ hfresh₁
    have hright : map₂ r.composedName = some r.toTree := by
      rw [hframe₂ _ fun hn =>
        hwn.subNames_disjoint hn (TriggerExpr.composedName_mem_subNames r), hroot₁]
    have hroot : map₂ (TriggerExpr.node op l r).composedName = none := by
      rw [hframe₂ _ hwn.composedName_fresh.1, hframe₁ _ hwn.composedName_fresh.2]
      exact hfresh _ ((hsub _).mpr (Or.inr rfl))
    rw [hlive₁] at hlive₂
    obtain ⟨tokenStack₃, hstep, hlive₃⟩ := prefixStep_operator op hlive₂ hroot₂ hright hroot
    refine ⟨tokenStack₃, Function.update map₂ (TriggerExpr.node op l r).composedName
      (some (TriggerExpr.node op l r).toTree), ?_, hlive₃, Function.update_self _ _ _, ?_⟩
    · exact foldlM_append_ok (foldlM_append_ok hrun₁ hrun₂) (foldlM_cons_ok hstep rfl)
    · intro n hn
      rw [hsub, not_or, not_or] at hn
      rw [Function.update_of_ne hn.2, hframe₂ n hn.1.2, hframe₁ n hn.1.1]

/-- The tree comes back whether or not the empty token was pushed first. -/
theorem prefixExpressionToBinaryTree_postfix {e : TriggerExpr String} (hwn : e.WellNamed)
    (hne : ∀ n ∈ e.literals, n ≠ "") :
    prefixExpressionToBinaryTree (postfixTokens e).reverse = .ok e.toTree ∧
      prefixExpressionToBinaryTree ("" :: postfixTokens e).reverse = .ok e.toTree := by
  have hrun : ∀ tokenStack treeNodesMap, Fresh e treeNodesMap →
      ((postfixTokens e).foldlM prefixExpressionToBinaryTreeStep (tokenStack, treeNodesMap) >>=
        fun s => s.1.pop >>= fun t => Except.ok ((s.2 t.1).getD .nil)) = .ok e.toTree := by
    intro tokenStack treeNodesMap hfresh
    obtain ⟨tokenStack', treeNodesMap', hfold, hlive, hroot, _⟩ :=
      foldlM_postfix hwn tokenStack treeNodesMap hfresh
    obtain ⟨tokenStack₁, hpop, _⟩ := Stack.pop_of_live hlive
    rw [hfold]
    show (tokenStack'.pop >>= fun t => Except.ok ((treeNodesMap' t.1).getD .nil)) = _
    rw [hpop]
    show Except.ok ((treeNodesMap' e.composedName).getD .nil) = _
    rw [hroot]
    rfl
  constructor
  · rw [prefixExpressionToBinaryTree, List.reverse_reverse]
    exact hrun Stack.new (fun _ => none) fun _ _ => rfl
  · rw [prefixExpressionToBinaryTree, List.reverse_reverse, List.foldlM_cons,
      prefixStep_literal (by decide) Stack.new rfl]
    refine hrun _ _ fun n hn => ?_
    have hn' : n ≠ "" := by
      intro h
      rw [h] at hn
      exact TriggerExpr.empty_notMem_subNames hne hn
    rw [Function.update_of_ne hn']

/-! ### The parser as a whole -/

theorem expressionToBinaryTree_of_denotes {exp : String} {e : TriggerExpr String}
    (h : Denotes 1 exp e) (hnd : e.literals.Nodup) :
    expressionToBinaryTree exp = .ok e.toTree := by
  obtain ⟨ts, hlex, hyields⟩ := lexes_yields_of_denotes h
  have hnames := h.generates.operatorFree
  obtain ⟨htree, htree'⟩ := prefixExpressionToBinaryTree_postfix
    ⟨fun n hn => (hnames n hn).2, hnd⟩ fun n hn => (hnames n hn).1
  obtain ⟨hpre, hpre'⟩ := hyields.infixToPrefix
  rw [expressionToBinaryTree]
  rcases hlex.expressionToInfixTokens with htokens | htokens
  · rw [htokens, hpre]
    exact htree
  · rw [htokens, hpre']
    exact htree'

/-- The names of a text can be read off its tokens, hence off the text. -/
theorem names_eq_of_generates {s : String} {names : List String} (h : Generates s names) :
    ∃ ts, Lexes s ts ∧ ts.filter (fun t => !isOperator t) = names := by
  induction h with
  | name hne hfree =>
    refine ⟨_, Lexes.name hne hfree, ?_⟩
    rw [List.filter_singleton, isOperator_of_operatorFree hfree]
    rfl
  | binary op _ _ ihs iht =>
    obtain ⟨ts, hlex, hts⟩ := ihs
    obtain ⟨us, hlex', hus⟩ := iht
    refine ⟨_, Lexes.binary op hlex hlex', ?_⟩
    rw [List.filter_append, List.filter_append, hts, hus, List.filter_singleton,
      isOperator_symbol]
    show _ ++ [] ++ _ = _
    rw [List.append_nil]
  | paren _ ih =>
    obtain ⟨ts, hlex, hts⟩ := ih
    refine ⟨_, hlex.paren, ?_⟩
    rw [List.filter_append, List.filter_append, hts]
    show [] ++ _ ++ [] = _
    rw [List.append_nil, List.nil_append]

theorem Lexes.unique {s : String} {ts us : List String} (h : Lexes s ts) (h' : Lexes s us) :
    ts = us := (h []).symm.trans (h' [])

theorem names_unique {s : String} {names names' : List String} (h : Generates s names)
    (h' : Generates s names') : names = names' := by
  obtain ⟨ts, hlex, hts⟩ := names_eq_of_generates h
  obtain ⟨us, hlex', hus⟩ := names_eq_of_generates h'
  rw [← hts, ← hus, hlex.unique hlex']

/-- **The parser is correct**: a text of the grammar with pairwise distinct names denotes exactly
one expression, and the parser returns its tree. -/
theorem expressionToBinaryTree_denotes {exp : String} {names : List String}
    (h : Generates exp names) (hnd : names.Nodup) :
    ∃ e, (∀ e', Denotes 1 exp e' ↔ e' = e) ∧ e.literals = names ∧
      expressionToBinaryTree exp = .ok e.toTree := by
  obtain ⟨e, he, hlit⟩ := h.denotes
  have htree := expressionToBinaryTree_of_denotes he (hlit ▸ hnd)
  refine ⟨e, fun e' => ⟨fun he' => ?_, fun heq => heq ▸ he⟩, hlit, htree⟩
  have hlit' := names_unique he'.generates h
  have htree' := expressionToBinaryTree_of_denotes he' (hlit' ▸ hnd)
  exact TriggerExpr.toTree_injective (Except.ok.inj (htree'.symm.trans htree))

/-- The text ends with `)`, so the tokenizer adds an empty token. -/
theorem expressionToBinaryTree_denotes_paren :
    Generates "a;(b|c)" ["a", "b", "c"] ∧
      ∃ e, (∀ e', Denotes 1 "a;(b|c)" e' ↔ e' = e) ∧ e.literals = ["a", "b", "c"] ∧
        expressionToBinaryTree "a;(b|c)" = .ok e.toTree := by
  have h : Generates "a;(b|c)" ["a", "b", "c"] :=
    .binary .seq (.name (n := "a") (by decide) (by decide))
      (.paren (.binary .or (.name (n := "b") (by decide) (by decide))
        (.name (n := "c") (by decide) (by decide))))
  exact ⟨h, expressionToBinaryTree_denotes h (by decide)⟩

end Sieve.Server
