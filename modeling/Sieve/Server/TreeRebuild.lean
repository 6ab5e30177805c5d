import Sieve.Server.ExpressionParse
import Sieve.Server.TreeGraph
import Sieve.Server.TriggerGraphRun

/-!
# Trees from any operators and operands

`prefixExpressionToBinaryTree` over tokens that need not come from an expression.

* `pieces`: the names in a text, with `pieces_composed`;
* `Evaluable`: the operands are distinct, and every operator finds two of them;
* `Rebuilt`: what the stack and the map hold after the tokens;
* `foldlM_rebuilt`: the tree is rebuilt from the tokens if and only if they are evaluable;
* `Whole.triggerGraph`: every tree that is rebuilt has a graph.
-/

namespace Sieve.Server

open Sieve.Trigger Sieve.Library

/-! ### The names in a text -/

theorem foldl_expressionToInfixTokensStep (cs : List Char) (acc tokens : List String) (cur : String) :
    cs.foldl expressionToInfixTokensStep (acc ++ tokens, cur) =
      (acc ++ (cs.foldl expressionToInfixTokensStep (tokens, cur)).1,
        (cs.foldl expressionToInfixTokensStep (tokens, cur)).2) := by
  induction cs generalizing tokens cur with
  | nil => rfl
  | cons c cs ih =>
    rw [List.foldl_cons, List.foldl_cons]
    by_cases hc : c ∈ operatorChars
    · rw [expressionToInfixTokensStep_operator hc, expressionToInfixTokensStep_operator hc]
      have hflush : flush (acc ++ tokens, cur) = acc ++ flush (tokens, cur) := by
        rw [flush, flush]
        split <;> simp
      rw [hflush, List.append_assoc, ih]
    · have hop : isOperator (String.singleton c) = false :=
        Bool.eq_false_iff.mpr fun hop => hc ((isOperator_singleton c).mp hop)
      have hstep : ∀ tokens : List String,
          expressionToInfixTokensStep (tokens, cur) c = (tokens, cur ++ String.singleton c) := by
        intro tokens
        show (if isOperator (String.singleton c) then _ else _) = _
        rw [hop]
        rfl
      rw [hstep, hstep, ih]

/-- Every text has tokens. -/
theorem exists_lexes (s : String) : ∃ ts, Lexes s ts := by
  refine ⟨flush (s.toList.foldl expressionToInfixTokensStep ([], "")), fun acc => ?_⟩
  have hfold := foldl_expressionToInfixTokensStep s.toList acc [] ""
  rw [List.append_nil] at hfold
  rw [hfold, flush, flush]
  split <;> simp

/-- The names in a text. -/
def pieces (s : String) : List String :=
  (flush (s.toList.foldl expressionToInfixTokensStep ([], ""))).filter fun t => !isOperator t

theorem pieces_of_lexes {s : String} {ts : List String} (h : Lexes s ts) :
    pieces s = ts.filter fun t => !isOperator t := by
  rw [pieces, h [], List.nil_append]

theorem pieces_empty : pieces "" = [] := rfl

theorem pieces_name {n : String} (hne : n ≠ "") (hfree : OperatorFree n) : pieces n = [n] := by
  rw [pieces_of_lexes (Lexes.name hne hfree), List.filter_singleton, isOperator_of_operatorFree hfree]
  rfl

theorem exists_char_of_isOperator {op : String} (h : isOperator op = true) :
    ∃ c ∈ operatorChars, op = String.singleton c := by
  simp only [isOperator, Bool.or_eq_true, beq_iff_eq] at h
  rcases h with (((rfl | rfl) | rfl) | rfl) | rfl
  · exact ⟨';', by decide, rfl⟩
  · exact ⟨'&', by decide, rfl⟩
  · exact ⟨'|', by decide, rfl⟩
  · exact ⟨'(', by decide, rfl⟩
  · exact ⟨')', by decide, rfl⟩

/-- A composed name has the names of both operands. -/
theorem pieces_composed {op : String} (hop : isOperator op = true) (operand1 operand2 : String) :
    pieces ("(" ++ operand1 ++ op ++ operand2 ++ ")") = pieces operand1 ++ pieces operand2 := by
  obtain ⟨c, hc, rfl⟩ := exists_char_of_isOperator hop
  obtain ⟨ts, hts⟩ := exists_lexes operand1
  obtain ⟨us, hus⟩ := exists_lexes operand2
  have hlex := (Lexes.operator hc hts hus).paren
  rw [show "(" ++ (operand1 ++ String.singleton c ++ operand2) ++ ")" =
    "(" ++ operand1 ++ String.singleton c ++ operand2 ++ ")" by simp only [String.append_assoc]] at hlex
  rw [pieces_of_lexes hlex, pieces_of_lexes hts, pieces_of_lexes hus]
  have hparen : isOperator "(" = true ∧ isOperator ")" = true := by decide
  simp [List.filter_append, hop, hparen]

theorem length_composed (operand1 op operand2 : String) :
    operand1.length < ("(" ++ operand1 ++ op ++ operand2 ++ ")").length ∧
      operand2.length < ("(" ++ operand1 ++ op ++ operand2 ++ ")").length := by
  have hparen : "(".length = 1 ∧ ")".length = 1 := by decide
  simp only [String.length_append, hparen]
  omega

/-! ### Tokens that can be evaluated -/

def operatorCount (tokens : List String) : ℕ := tokens.countP isOperator

def operandCount (tokens : List String) : ℕ := tokens.countP fun token => !isOperator token

/-- Every operator finds two operands. -/
def Arity (tokens : List String) : Prop :=
  ∀ start, start <+: tokens → start ≠ [] → operatorCount start < operandCount start

/-- The operands are distinct, and every operator finds two of them. -/
structure Evaluable (tokens : List String) : Prop where
  distinct : (tokens.filter fun token => !isOperator token).Nodup
  arity : Arity tokens

theorem operatorCount_append (tokens tokens' : List String) :
    operatorCount (tokens ++ tokens') = operatorCount tokens + operatorCount tokens' :=
  List.countP_append

theorem operandCount_append (tokens tokens' : List String) :
    operandCount (tokens ++ tokens') = operandCount tokens + operandCount tokens' :=
  List.countP_append

theorem arity_nil : Arity [] := by
  intro start hstart hne
  exact absurd (List.prefix_nil.mp hstart) hne

theorem arity_concat_iff {tokens : List String} {token : String} : Arity (tokens ++ [token]) ↔
    Arity tokens ∧ operatorCount (tokens ++ [token]) < operandCount (tokens ++ [token]) := by
  constructor
  · intro h
    exact ⟨fun start hstart => h start (hstart.trans (List.prefix_append _ _)),
      h _ (List.prefix_refl _) (by simp)⟩
  · intro ⟨h, hlast⟩ start hstart hne
    rcases List.prefix_concat_iff.mp hstart with rfl | hstart
    · exact hlast
    · exact h start hstart hne

theorem Arity.operatorCount_le {tokens : List String} (h : Arity tokens) :
    operatorCount tokens ≤ operandCount tokens := by
  by_cases hne : tokens = []
  · rw [hne]
    rfl
  · exact Nat.le_of_lt (h tokens (List.prefix_refl _) hne)

theorem arity_concat_name_iff {tokens : List String} {n : String} (hn : isOperator n = false) :
    Arity (tokens ++ [n]) ↔ Arity tokens := by
  rw [arity_concat_iff, operatorCount_append, operandCount_append]
  refine ⟨And.left, fun h => ⟨h, ?_⟩⟩
  have hle := h.operatorCount_le
  have hone : operatorCount [n] = 0 ∧ operandCount [n] = 1 := by simp [operatorCount, operandCount, hn]
  omega

/-- Operators one after the other: the last one decides. -/
theorem arity_append_operators_iff {tokens ops : List String} (hops : ∀ op ∈ ops, isOperator op = true) :
    Arity (tokens ++ ops) ↔
      Arity tokens ∧ (ops ≠ [] → operatorCount tokens + ops.length < operandCount tokens) := by
  induction ops using List.reverseRecOn with
  | nil => simp
  | append_singleton ops op ih =>
    have hmem : ∀ op ∈ ops, isOperator op = true := fun op h => hops op (List.mem_append_left _ h)
    have hcount : operatorCount (ops ++ [op]) = ops.length + 1 ∧ operandCount (ops ++ [op]) = 0 := by
      constructor
      · rw [operatorCount, List.countP_eq_length.mpr hops, List.length_append, List.length_singleton]
      · rw [operandCount, List.countP_eq_zero]
        intro op hop
        simp [hops op hop]
    rw [← List.append_assoc, arity_concat_iff, ih hmem, List.append_assoc, operatorCount_append,
      operandCount_append, hcount.1, hcount.2, List.length_append, List.length_singleton]
    constructor
    · intro ⟨⟨h, _⟩, hlast⟩
      exact ⟨h, fun _ => by omega⟩
    · intro ⟨h, hlast⟩
      have := hlast (by simp)
      exact ⟨⟨h, fun _ => by omega⟩, by omega⟩

theorem Evaluable.of_concat {tokens : List String} {token : String} (h : Evaluable (tokens ++ [token])) :
    Evaluable tokens := by
  refine ⟨?_, (arity_concat_iff.mp h.arity).1⟩
  have hdistinct := h.distinct
  rw [List.filter_append, List.nodup_append] at hdistinct
  exact hdistinct.1

/-! ### Rebuilding the tree -/

/-- A tree without a missing operand. -/
inductive Whole : TreeNode → Prop where
  | name {n : String} (hn : isOperator n = false) : Whole (.node n n .nil .nil)
  | operator {op composedName : String} {left right : TreeNode} (hop : isOperator op = true)
      (hl : Whole left) (hr : Whole right) : Whole (.node op composedName left right)

/-- What the stack and the map hold after the tokens. -/
structure Rebuilt (tokens : List String) (tokenStack : Stack) (treeNodesMap : TreeNodesMap) : Prop where
  count : tokenStack.live.length + operatorCount tokens = operandCount tokens
  known : ∀ x ∈ tokenStack.live, (treeNodesMap x).isSome
  whole : ∀ x node, treeNodesMap x = some node → Whole node
  covered : ∀ x, (treeNodesMap x).isSome →
    ∃ y ∈ tokenStack.live, pieces x ⊆ pieces y ∧ x.length ≤ y.length
  distinct : tokenStack.live.Nodup
  apart : (tokenStack.live.flatMap pieces).Nodup
  unnamed : ∀ x ∈ tokenStack.live, pieces x = [] → x = ""
  read : ∀ n, OperatorFree n → ((treeNodesMap n).isSome ↔ n ∈ tokens)
  pieces_read : ∀ x ∈ tokenStack.live, ∀ n ∈ pieces x, n ∈ tokens

theorem rebuilt_nil : Rebuilt [] Stack.new fun _ => none := by
  constructor <;> simp [Stack.new_live, operatorCount, operandCount]

theorem Stack.topPtr_of_live_nil {s : Stack} (h : s.live = []) : s.topPtr < 0 := by
  have hempty := (Stack.empty_iff s).mpr h
  rw [Stack.empty, beq_iff_eq] at hempty
  omega

theorem Stack.pop_of_live_nil {s : Stack} (h : s.live = []) : s.pop = .error .indexOutOfRange := by
  rw [Stack.pop, dif_pos (Stack.topPtr_of_live_nil h)]

theorem Stack.top_of_live_nil {s : Stack} (h : s.live = []) : s.top = .error .indexOutOfRange := by
  rw [Stack.top, if_pos (Stack.topPtr_of_live_nil h)]

section Steps

variable {tokens : List String} {tokenStack : Stack} {treeNodesMap : TreeNodesMap}

/-- A new operand. -/
theorem Rebuilt.name (h : Rebuilt tokens tokenStack treeNodesMap) {n : String} (hfree : OperatorFree n)
    (hn : n ∉ tokens) :
    prefixExpressionToBinaryTreeStep (tokenStack, treeNodesMap) n =
        .ok (tokenStack.push n, Function.update treeNodesMap n (some (.node n n .nil .nil))) ∧
      Rebuilt (tokens ++ [n]) (tokenStack.push n)
        (Function.update treeNodesMap n (some (.node n n .nil .nil))) := by
  have hop := isOperator_of_operatorFree hfree
  have hnone : treeNodesMap n = none := by
    rw [← Option.not_isSome_iff_eq_none, h.read n hfree]
    exact hn
  have hpieces : ∀ m ∈ pieces n, m = n := by
    intro m hm
    by_cases hne : n = ""
    · rw [hne, pieces_empty] at hm
      cases hm
    · rw [pieces_name hne hfree] at hm
      exact List.mem_singleton.mp hm
  have hone : operatorCount [n] = 0 ∧ operandCount [n] = 1 := by simp [operatorCount, operandCount, hop]
  have hupdate : ∀ x, (Function.update treeNodesMap n (some (.node n n .nil .nil)) x).isSome ↔
      x = n ∨ (treeNodesMap x).isSome := by
    intro x
    by_cases hx : x = n
    · rw [hx, Function.update_self]
      simp
    · rw [Function.update_of_ne hx]
      simp [hx]
  refine ⟨prefixStep_literal hop tokenStack hnone, ?_⟩
  constructor
  · rw [Stack.push_live, List.length_cons, operatorCount_append, operandCount_append]
    have := h.count
    omega
  · intro x hx
    rw [Stack.push_live, List.mem_cons] at hx
    rw [hupdate]
    exact hx.imp_right (h.known x)
  · intro x node hx
    by_cases hxn : x = n
    · rw [hxn, Function.update_self] at hx
      rw [← Option.some.inj hx]
      exact .name hop
    · rw [Function.update_of_ne hxn] at hx
      exact h.whole x node hx
  · intro x hx
    rw [Stack.push_live]
    rcases (hupdate x).mp hx with rfl | hx
    · exact ⟨x, List.mem_cons_self, fun _ h => h, Nat.le_refl _⟩
    · obtain ⟨y, hy, hcover⟩ := h.covered x hx
      exact ⟨y, List.mem_cons_of_mem n hy, hcover⟩
  · rw [Stack.push_live, List.nodup_cons]
    refine ⟨fun hmem => ?_, h.distinct⟩
    have hknown := h.known n hmem
    rw [hnone] at hknown
    cases hknown
  · rw [Stack.push_live, List.flatMap_cons, List.nodup_append]
    refine ⟨?_, h.apart, fun m hm m' hm' heq => ?_⟩
    · by_cases hne : n = ""
      · rw [hne, pieces_empty]
        exact List.nodup_nil
      · rw [pieces_name hne hfree]
        exact List.nodup_singleton n
    · obtain ⟨x, hx, hmx⟩ := List.mem_flatMap.mp hm'
      rw [← heq, hpieces m hm] at hmx
      exact hn (h.pieces_read x hx n hmx)
  · intro x hx hempty
    rw [Stack.push_live, List.mem_cons] at hx
    rcases hx with rfl | hx
    · by_contra hne
      rw [pieces_name hne hfree] at hempty
      cases hempty
    · exact h.unnamed x hx hempty
  · intro m hm
    rw [hupdate, h.read m hm, List.mem_append, List.mem_singleton]
    exact or_comm
  · intro x hx m hm
    rw [Stack.push_live, List.mem_cons] at hx
    rw [List.mem_append, List.mem_singleton]
    rcases hx with rfl | hx
    · exact .inr (hpieces m hm)
    · exact .inl (h.pieces_read x hx m hm)

/-- A composed name is new. -/
theorem Rebuilt.composed_fresh (h : Rebuilt tokens tokenStack treeNodesMap)
    {operand1 operand2 : String} {live : List String}
    (hlive : tokenStack.live = operand1 :: operand2 :: live) {op : String} (hop : isOperator op = true) :
    treeNodesMap ("(" ++ operand1 ++ op ++ operand2 ++ ")") = none := by
  by_contra hsome
  obtain ⟨y, hy, hsub, hlength⟩ := h.covered _ (Option.isSome_iff_ne_none.mpr hsome)
  rw [pieces_composed hop] at hsub
  have hapart := h.apart
  rw [hlive, List.flatMap_cons, List.flatMap_cons, ← List.append_assoc, List.nodup_append] at hapart
  have hshorter := length_composed operand1 op operand2
  rw [hlive, List.mem_cons, List.mem_cons] at hy
  rcases hy with rfl | rfl | hy
  · omega
  · omega
  · -- the operands have a name, and it is none of another value on the stack
    have hnames : pieces operand1 ++ pieces operand2 ≠ [] := by
      intro hempty
      rw [List.append_eq_nil_iff] at hempty
      have h1 := h.unnamed operand1 (by simp [hlive]) hempty.1
      have h2 := h.unnamed operand2 (by simp [hlive]) hempty.2
      have hdistinct := h.distinct
      rw [hlive, h1, h2] at hdistinct
      simp at hdistinct
    obtain ⟨n, hn⟩ := List.exists_mem_of_ne_nil _ hnames
    exact hapart.2.2 n hn n (List.mem_flatMap.mpr ⟨y, hy, hsub hn⟩) rfl

/-- An operator takes the two topmost operands. -/
theorem Rebuilt.operator (h : Rebuilt tokens tokenStack treeNodesMap) {op : String}
    (hop : isOperator op = true) {operand1 operand2 : String} {live : List String}
    (hlive : tokenStack.live = operand1 :: operand2 :: live) :
    ∃ tokenStack' treeNodesMap', prefixExpressionToBinaryTreeStep (tokenStack, treeNodesMap) op =
        .ok (tokenStack', treeNodesMap') ∧ Rebuilt (tokens ++ [op]) tokenStack' treeNodesMap' := by
  have hfresh := h.composed_fresh hlive hop
  have hcomposed := pieces_composed hop operand1 operand2
  have hlonger := length_composed operand1 op operand2
  have hmem1 : operand1 ∈ tokenStack.live := by simp [hlive]
  have hmem2 : operand2 ∈ tokenStack.live := by simp [hlive]
  obtain ⟨node1, hnode1⟩ := Option.isSome_iff_exists.mp (h.known operand1 hmem1)
  obtain ⟨node2, hnode2⟩ := Option.isSome_iff_exists.mp (h.known operand2 hmem2)
  obtain ⟨tokenStack₁, hpop₁, hlive₁⟩ := Stack.pop_of_live hlive
  obtain ⟨tokenStack₂, hpop₂, hlive₂⟩ := Stack.pop_of_live hlive₁
  generalize hcomposedToken : "(" ++ operand1 ++ op ++ operand2 ++ ")" = composedToken at *
  have hstep : prefixExpressionToBinaryTreeStep (tokenStack, treeNodesMap) op =
      .ok (tokenStack₂.push composedToken, Function.update treeNodesMap composedToken
        (some (.node op composedToken node1 node2))) := by
    rw [prefixExpressionToBinaryTreeStep, hop]
    show (tokenStack.pop >>= fun s => _) = _
    rw [hpop₁]
    show (tokenStack₁.pop >>= fun s => _) = _
    rw [hpop₂]
    show (if (treeNodesMap ("(" ++ operand1 ++ op ++ operand2 ++ ")")).isSome then _ else
      Except.ok (tokenStack₂.push ("(" ++ operand1 ++ op ++ operand2 ++ ")"),
        Function.update treeNodesMap ("(" ++ operand1 ++ op ++ operand2 ++ ")")
          (some (.node op ("(" ++ operand1 ++ op ++ operand2 ++ ")")
            ((treeNodesMap operand1).getD .nil) ((treeNodesMap operand2).getD .nil))))) = _
    rw [hcomposedToken, hfresh, hnode1, hnode2]
    rfl
  have hlive' : (tokenStack₂.push composedToken).live = composedToken :: live := by
    rw [Stack.push_live, hlive₂]
  have hupdate : ∀ x, (Function.update treeNodesMap composedToken
      (some (.node op composedToken node1 node2)) x).isSome ↔
        x = composedToken ∨ (treeNodesMap x).isSome := by
    intro x
    by_cases hx : x = composedToken
    · rw [hx, Function.update_self]
      simp
    · rw [Function.update_of_ne hx]
      simp [hx]
  have hrest : ∀ x ∈ live, x ∈ tokenStack.live := by
    intro x hx
    simp [hlive, hx]
  have hone : operatorCount [op] = 1 ∧ operandCount [op] = 0 := by simp [operatorCount, operandCount, hop]
  refine ⟨_, _, hstep, ?_⟩
  constructor
  · have := h.count
    rw [hlive, List.length_cons, List.length_cons] at this
    rw [hlive', List.length_cons, operatorCount_append, operandCount_append]
    omega
  · intro x hx
    rw [hlive', List.mem_cons] at hx
    rw [hupdate]
    exact hx.imp_right fun hx => h.known x (hrest x hx)
  · intro x node hx
    by_cases hxc : x = composedToken
    · rw [hxc, Function.update_self] at hx
      rw [← Option.some.inj hx]
      exact .operator hop (h.whole _ _ hnode1) (h.whole _ _ hnode2)
    · rw [Function.update_of_ne hxc] at hx
      exact h.whole x node hx
  · intro x hx
    rw [hlive']
    rcases (hupdate x).mp hx with rfl | hx
    · exact ⟨x, List.mem_cons_self, fun _ h => h, Nat.le_refl _⟩
    · obtain ⟨y, hy, hsub, hlength⟩ := h.covered x hx
      rw [hlive, List.mem_cons, List.mem_cons] at hy
      rcases hy with rfl | rfl | hy
      · refine ⟨composedToken, List.mem_cons_self, ?_, by omega⟩
        rw [hcomposed]
        exact fun n hn => List.mem_append_left _ (hsub hn)
      · refine ⟨composedToken, List.mem_cons_self, ?_, by omega⟩
        rw [hcomposed]
        exact fun n hn => List.mem_append_right _ (hsub hn)
      · exact ⟨y, List.mem_cons_of_mem _ hy, hsub, hlength⟩
  · have hdistinct := h.distinct
    rw [hlive, List.nodup_cons, List.nodup_cons] at hdistinct
    rw [hlive', List.nodup_cons]
    refine ⟨fun hmem => ?_, hdistinct.2.2⟩
    have hknown := h.known _ (hrest _ hmem)
    rw [hfresh] at hknown
    cases hknown
  · have hapart := h.apart
    rw [hlive, List.flatMap_cons, List.flatMap_cons, ← List.append_assoc] at hapart
    rw [hlive', List.flatMap_cons, hcomposed]
    exact hapart
  · intro x hx hempty
    rw [hlive', List.mem_cons] at hx
    rcases hx with rfl | hx
    · rw [hcomposed, List.append_eq_nil_iff] at hempty
      have h1 := h.unnamed operand1 hmem1 hempty.1
      have h2 := h.unnamed operand2 hmem2 hempty.2
      have hdistinct := h.distinct
      rw [hlive, h1, h2] at hdistinct
      simp at hdistinct
    · exact h.unnamed x (hrest x hx) hempty
  · intro m hm
    have hne : m ≠ composedToken := by
      rintro rfl
      refine hm '(' ?_ (by decide)
      rw [← hcomposedToken]
      simp
    rw [hupdate, h.read m hm, List.mem_append, List.mem_singleton, or_iff_right hne, or_iff_left]
    rintro rfl
    have hfree := isOperator_of_operatorFree hm
    rw [hop] at hfree
    cases hfree
  · intro x hx n hn
    rw [hlive', List.mem_cons] at hx
    rw [List.mem_append]
    rcases hx with rfl | hx
    · rw [hcomposed, List.mem_append] at hn
      exact .inl (hn.elim (h.pieces_read operand1 hmem1 n) (h.pieces_read operand2 hmem2 n))
    · exact .inl (h.pieces_read x (hrest x hx) n hn)

end Steps

/-! ### Runs -/

/-- **The tree is rebuilt from the tokens if and only if they can be evaluated.** -/
theorem foldlM_rebuilt {tokens : List String}
    (htokens : ∀ token ∈ tokens, isOperator token = true ∨ OperatorFree token) :
    (Evaluable tokens → ∃ tokenStack treeNodesMap,
      tokens.foldlM prefixExpressionToBinaryTreeStep (Stack.new, fun _ => none) =
          .ok (tokenStack, treeNodesMap) ∧ Rebuilt tokens tokenStack treeNodesMap) ∧
      (¬ Evaluable tokens → ∃ fatal,
        tokens.foldlM prefixExpressionToBinaryTreeStep (Stack.new, fun _ => none) = .error fatal) := by
  induction tokens using List.reverseRecOn with
  | nil =>
    refine ⟨fun _ => ⟨_, _, rfl, rebuilt_nil⟩, fun h => ?_⟩
    exact absurd ⟨List.nodup_nil, arity_nil⟩ h
  | append_singleton tokens token ih =>
    obtain ⟨ihok, iherror⟩ := ih fun token h => htokens token (List.mem_append_left _ h)
    rw [List.foldlM_append]
    simp only [foldlM_singleton]
    by_cases hbefore : Evaluable tokens
    · obtain ⟨tokenStack, treeNodesMap, hrun, hrebuilt⟩ := ihok hbefore
      rw [hrun]
      show (Evaluable _ → ∃ tokenStack' treeNodesMap',
        prefixExpressionToBinaryTreeStep (tokenStack, treeNodesMap) token = _ ∧ _) ∧
          (_ → ∃ fatal, prefixExpressionToBinaryTreeStep (tokenStack, treeNodesMap) token = _)
      have hcount := hrebuilt.count
      rcases htokens token (by simp) with hop | hfree
      · -- an operator: are there two operands?
        have hone : operatorCount [token] = 1 ∧ operandCount [token] = 0 := by
          simp [operatorCount, operandCount, hop]
        constructor
        · intro h
          have hlast := (arity_concat_iff.mp h.arity).2
          rw [operatorCount_append, operandCount_append] at hlast
          cases hlive : tokenStack.live with
          | nil =>
            rw [hlive, List.length_nil] at hcount
            omega
          | cons operand1 live =>
            cases live with
            | nil =>
              rw [hlive, List.length_singleton] at hcount
              omega
            | cons operand2 live => exact hrebuilt.operator hop hlive
        · intro h
          have hlast : ¬ operatorCount tokens + 1 < operandCount tokens := by
            intro hlt
            refine h ⟨?_, arity_concat_iff.mpr ⟨hbefore.arity, ?_⟩⟩
            · rw [List.filter_append, List.filter_singleton, hop]
              simpa using hbefore.distinct
            · rw [operatorCount_append, operandCount_append]
              omega
          rw [prefixExpressionToBinaryTreeStep, hop]
          show ∃ fatal, (tokenStack.pop >>= fun s => _) = _
          cases hlive : tokenStack.live with
          | nil => exact ⟨_, by rw [Stack.pop_of_live_nil hlive]; rfl⟩
          | cons operand1 live =>
            obtain ⟨tokenStack₁, hpop₁, hlive₁⟩ := Stack.pop_of_live hlive
            cases live with
            | nil =>
              rw [hpop₁]
              show ∃ fatal, (tokenStack₁.pop >>= fun s => _) = _
              exact ⟨_, by rw [Stack.pop_of_live_nil hlive₁]; rfl⟩
            | cons operand2 live =>
              rw [hlive, List.length_cons, List.length_cons] at hcount
              omega
      · -- a name: is it new?
        have hop := isOperator_of_operatorFree hfree
        have hmem : token ∈ tokens ↔ token ∈ tokens.filter fun token => !isOperator token := by
          simp [hop]
        have hdistinct : ((tokens ++ [token]).filter fun token => !isOperator token).Nodup ↔
            token ∉ tokens := by
          rw [List.filter_append, List.filter_singleton, hop, hmem]
          show (_ ++ [token]).Nodup ↔ _
          rw [List.nodup_append]
          constructor
          · rintro ⟨_, _, hne⟩ hin
            exact hne token hin token List.mem_cons_self rfl
          · intro hnot
            refine ⟨hbefore.distinct, List.nodup_singleton token, fun m hm m' hm' heq => hnot ?_⟩
            rw [← List.mem_singleton.mp hm', ← heq]
            exact hm
        constructor
        · intro h
          obtain ⟨hstep, hafter⟩ := hrebuilt.name hfree (hdistinct.mp h.distinct)
          exact ⟨_, _, hstep, hafter⟩
        · intro h
          have hin : token ∈ tokens := by
            by_contra hnot
            exact h ⟨hdistinct.mpr hnot, (arity_concat_name_iff hop).mpr hbefore.arity⟩
          refine ⟨.alreadyFound token, ?_⟩
          rw [prefixExpressionToBinaryTreeStep, hop]
          show (if (treeNodesMap token).isSome then _ else _) = _
          rw [if_pos ((hrebuilt.read token hfree).mpr hin)]
    · obtain ⟨fatal, hrun⟩ := iherror hbefore
      rw [hrun]
      exact ⟨fun h => absurd h.of_concat hbefore, fun _ => ⟨fatal, rfl⟩⟩

/-- The tree of tokens that can be evaluated. -/
theorem prefixExpressionToBinaryTree_rebuilt {tokens : List String} (hne : tokens ≠ [])
    (htokens : ∀ token ∈ tokens, isOperator token = true ∨ OperatorFree token) :
    (Evaluable tokens → ∃ node, prefixExpressionToBinaryTree tokens.reverse = .ok node ∧ Whole node) ∧
      (¬ Evaluable tokens → ∃ fatal, prefixExpressionToBinaryTree tokens.reverse = .error fatal) := by
  obtain ⟨hok, herror⟩ := foldlM_rebuilt htokens
  rw [prefixExpressionToBinaryTree, List.reverse_reverse]
  constructor
  · intro h
    obtain ⟨tokenStack, treeNodesMap, hrun, hrebuilt⟩ := hok h
    have hcount := hrebuilt.count
    have hlast := h.arity tokens (List.prefix_refl _) hne
    cases hlive : tokenStack.live with
    | nil =>
      rw [hlive, List.length_nil] at hcount
      omega
    | cons token live =>
      obtain ⟨tokenStack', hpop, _⟩ := Stack.pop_of_live hlive
      obtain ⟨node, hnode⟩ := Option.isSome_iff_exists.mp (hrebuilt.known token (by simp [hlive]))
      refine ⟨node, ?_, hrebuilt.whole token node hnode⟩
      rw [hrun]
      show (tokenStack.pop >>= fun t => Except.ok ((treeNodesMap t.1).getD .nil)) = _
      rw [hpop]
      show Except.ok ((treeNodesMap token).getD .nil) = _
      rw [hnode, Option.getD_some]
  · intro h
    obtain ⟨fatal, hrun⟩ := herror h
    exact ⟨fatal, by rw [hrun]; rfl⟩

/-! ### Graphs -/

/-- Any other operator is taken for a literal. -/
theorem Whole.triggerTree {node : TreeNode} (h : Whole node) : TriggerTree node := by
  induction h with
  | @name n hn =>
    refine .literal ⟨?_, ?_, ?_⟩ n .nil .nil <;>
    · rintro rfl
      revert hn
      decide
  | @operator op composedName left right hop hl hr ihl ihr =>
    by_cases hliteral : op ≠ ";" ∧ op ≠ "&" ∧ op ≠ "|"
    · exact .literal hliteral composedName left right
    · exact .operator (by tauto) composedName ihl ihr

theorem Whole.triggerGraph {node : TreeNode} (h : Whole node) :
    ∃ triggerGraph, binaryTreeToTriggerGraph node = .ok triggerGraph := by
  have ⟨tg, hrun, _⟩ := h.triggerTree.triggerGraph
  exact ⟨tg, hrun⟩

end Sieve.Server
