import Mathlib.Data.List.Basic
import Mathlib.Logic.Function.Basic
import Mathlib.Data.Int.Notation
import Mathlib.Data.Nat.Notation
import Mathlib.Tactic.Common

/-!
# Parsing trigger expressions: the coordinator's code

The definitions follow `stack.go`, `expression.go` and the first half of `trigger_graph.go`:

* `Stack`: a slice with a top pointer, never truncated by `pop`;
* `expressionToInfixTokens`: the tokenizer, which appends one last token even when it is empty;
* `infixToPostfix`, `infixToPrefix`: the shunting-yard over the reversed tokens;
* `prefixExpressionToBinaryTree`: the tree, rebuilt through a map keyed by composed names.

`Fatal` collects the ways in which the process ends: the `log.Fatalf` calls and the run-time
panics.  A function that may end the process returns `Except Fatal`.
-/

namespace Sieve.Server

/-- Why the coordinator's process ends. -/
inductive Fatal where
  | invalidOperator (text : String)
  | alreadyFound (token : String)
  | notInToSatisfy (nodeName : String)
  | inSatisfied (nodeName : String)
  | notLiteral (nodeName : String)
  | notOrNorAnd (nodeName : String)
  | indexOutOfRange
  | nilDereference
  | nilMapAssignment
  | stackOverflow
  deriving DecidableEq, Repr

/-- What the process prints when it ends. -/
def Fatal.text : Fatal → String
  | .invalidOperator text => "invalid operator " ++ text ++ "\n"
  | .alreadyFound token => token ++ " already found in treeNodesMap"
  | .notInToSatisfy nodeName => nodeName ++ " not in toSatisfy"
  | .inSatisfied nodeName => nodeName ++ " in satisfied"
  | .notLiteral nodeName => nodeName ++ " is not literal"
  | .notOrNorAnd nodeName => nodeName ++ " is not Or nor And"
  | .indexOutOfRange => "index out of range"
  | .nilDereference => "invalid memory address or nil pointer dereference"
  | .nilMapAssignment => "assignment to entry in nil map"
  | .stackOverflow => "stack overflow"

/-! ### The stack -/

/-- The token stack: the live part of `elements` ends at `topPtr`. -/
structure Stack where
  elements : List String
  topPtr : ℤ
  bounded : -1 ≤ topPtr ∧ topPtr < elements.length

namespace Stack

/-- `NewStack`. -/
def new : Stack := ⟨[], -1, by simp⟩

def empty (s : Stack) : Bool := s.topPtr == -1

/-- The number of live elements. -/
def size (s : Stack) : ℕ := (s.topPtr + 1).toNat

def top (s : Stack) : Except Fatal String :=
  if s.topPtr < 0 then .error .indexOutOfRange
  else .ok (s.elements.getD s.topPtr.toNat "")

def push (s : Stack) (element : String) : Stack :=
  if h : (s.elements.length : ℤ) > s.topPtr + 1 then
    ⟨s.elements.set (s.topPtr + 1).toNat element, s.topPtr + 1, by
      have := s.bounded
      rw [List.length_set]
      omega⟩
  else
    ⟨s.elements ++ [element], s.topPtr + 1, by
      have := s.bounded
      rw [List.length_append, List.length_singleton]
      omega⟩

def pop (s : Stack) : Except Fatal (String × Stack) :=
  if h : s.topPtr < 0 then .error .indexOutOfRange
  else .ok (s.elements.getD s.topPtr.toNat "", ⟨s.elements, s.topPtr - 1, by
    have := s.bounded
    omega⟩)

/-- The live elements, top first. -/
def live (s : Stack) : List String := (s.elements.take s.size).reverse

theorem live_length (s : Stack) : s.live.length = s.size := by
  have := s.bounded
  rw [live, List.length_reverse, List.length_take, size]
  omega

theorem new_live : new.live = [] := rfl

theorem empty_iff (s : Stack) : s.empty = true ↔ s.live = [] := by
  have := s.bounded
  rw [← List.length_eq_zero_iff, live_length, size, empty, beq_iff_eq]
  omega

theorem push_live (s : Stack) (x : String) : (s.push x).live = x :: s.live := by
  have hb := s.bounded
  have hsize : (s.topPtr + 1 + 1).toNat = s.size + 1 := by
    rw [size]
    omega
  have hle : s.size ≤ s.elements.length := by
    rw [size]
    omega
  rw [push]
  split
  · rename_i hlt
    have hlt' : s.size < s.elements.length := by
      rw [size]
      omega
    rw [live, live, size, hsize]
    show ((s.elements.set s.size x).take (s.size + 1)).reverse = x :: (s.elements.take s.size).reverse
    rw [List.take_add_one, List.getElem?_set_self hlt', List.take_set_of_le (Nat.le_refl _),
      List.reverse_append]
    rfl
  · rename_i hge
    have heq : s.size = s.elements.length := by
      rw [size]
      omega
    rw [live, live, size, hsize]
    show ((s.elements ++ [x]).take (s.size + 1)).reverse = x :: (s.elements.take s.size).reverse
    rw [heq, List.take_length, List.take_of_length_le (by simp), List.reverse_append]
    rfl

theorem top_of_live {s : Stack} {x : String} {l : List String} (h : s.live = x :: l) :
    s.top = .ok x := by
  obtain ⟨k, hk⟩ : ∃ k, s.size = k + 1 := by
    rw [← live_length, h]
    exact ⟨l.length, rfl⟩
  have hb := s.bounded
  have hk' : s.topPtr.toNat = k := by
    rw [size] at hk
    omega
  have hlt : k < s.elements.length := by
    rw [size] at hk
    omega
  have hx : s.elements[k]? = some x := by
    rw [live, hk, List.take_add_one, List.getElem?_eq_getElem hlt, List.reverse_append] at h
    rw [List.getElem?_eq_getElem hlt]
    exact congrArg some (List.cons.inj h).1
  rw [top, if_neg (by rw [size] at hk; omega), hk', List.getD_eq_getElem?_getD, hx]
  rfl

theorem pop_of_live {s : Stack} {x : String} {l : List String} (h : s.live = x :: l) :
    ∃ s', s.pop = .ok (x, s') ∧ s'.live = l := by
  have htop := top_of_live h
  have hneg : ¬ s.topPtr < 0 := by
    intro hneg
    rw [top, if_pos hneg] at htop
    cases htop
  obtain ⟨k, hk⟩ : ∃ k, s.size = k + 1 := by
    rw [← live_length, h]
    exact ⟨l.length, rfl⟩
  rw [top, if_neg hneg] at htop
  refine ⟨⟨s.elements, s.topPtr - 1, by have := s.bounded; omega⟩, ?_, ?_⟩
  · rw [pop, dif_neg hneg, Except.ok.inj htop]
  · have hsize : (s.topPtr - 1 + 1).toNat = k := by
      rw [size] at hk
      omega
    have hb := s.bounded
    have hlt : k < s.elements.length := by
      rw [size] at hk
      omega
    rw [live, size, hsize]
    rw [live, hk, List.take_add_one, List.getElem?_eq_getElem hlt, List.reverse_append] at h
    exact (List.cons.inj h).2

end Stack

/-! ### Tokens -/

def isOperator (text : String) : Bool :=
  text == ";" || text == "&" || text == "|" || text == "(" || text == ")"

def priority (text : String) : Except Fatal ℤ :=
  if text == ";" then .ok 1
  else if text == "|" then .ok 2
  else if text == "&" then .ok 3
  else if text == "(" then .ok 0
  else if text == ")" then .ok 0
  else .error (.invalidOperator text)

/-- One round of the tokenizer's loop over the characters. -/
def expressionToInfixTokensStep (state : List String × String) (c : Char) : List String × String :=
  let (tokens, currentToken) := state
  if isOperator (String.singleton c) then
    let tokens := if currentToken != "" then tokens ++ [currentToken] else tokens
    (tokens ++ [String.singleton c], "")
  else
    (tokens, currentToken ++ String.singleton c)

def expressionToInfixTokens (exp : String) : List String :=
  let (tokens, currentToken) := exp.toList.foldl expressionToInfixTokensStep ([], "")
  tokens ++ [currentToken]

/-! ### The shunting-yard -/

/-- `for tokenStack.Top() != "("`.  The bound is the stack's size: at `0` the stack is empty and
`Top` panics. -/
def popToParenthesis : ℕ → Stack → List String → Except Fatal (Stack × List String)
  | 0, _, _ => .error .indexOutOfRange
  | n + 1, tokenStack, postfixTokens => do
    let top ← tokenStack.top
    if top != "(" then
      let (token, tokenStack) ← tokenStack.pop
      popToParenthesis n tokenStack (postfixTokens ++ [token])
    else
      .ok (tokenStack, postfixTokens)

/-- `for !tokenStack.Empty() && priority(token) < priority(tokenStack.Top())`. -/
def popHigher (token : String) : ℕ → Stack → List String → Except Fatal (Stack × List String)
  | 0, tokenStack, postfixTokens => .ok (tokenStack, postfixTokens)
  | n + 1, tokenStack, postfixTokens => do
    if tokenStack.empty then .ok (tokenStack, postfixTokens)
    else
      let p ← priority token
      let top ← tokenStack.top
      let q ← priority top
      if p < q then
        let (top, tokenStack) ← tokenStack.pop
        popHigher token n tokenStack (postfixTokens ++ [top])
      else
        .ok (tokenStack, postfixTokens)

/-- `for !tokenStack.Empty()`. -/
def popAll : ℕ → Stack → List String → Except Fatal (List String)
  | 0, _, postfixTokens => .ok postfixTokens
  | n + 1, tokenStack, postfixTokens => do
    if tokenStack.empty then .ok postfixTokens
    else
      let (token, tokenStack) ← tokenStack.pop
      popAll n tokenStack (postfixTokens ++ [token])

/-- One round of the loop over the infix tokens. -/
def infixToPostfixStep (state : Stack × List String) (token : String) :
    Except Fatal (Stack × List String) :=
  let (tokenStack, postfixTokens) := state
  if !isOperator token then
    .ok (tokenStack, postfixTokens ++ [token])
  else if token == "(" then
    .ok (tokenStack.push token, postfixTokens)
  else if token == ")" then do
    let (tokenStack, postfixTokens) ← popToParenthesis tokenStack.size tokenStack postfixTokens
    let (_, tokenStack) ← tokenStack.pop
    .ok (tokenStack, postfixTokens)
  else do
    let (tokenStack, postfixTokens) ← popHigher token tokenStack.size tokenStack postfixTokens
    .ok (tokenStack.push token, postfixTokens)

def infixToPostfix (infixTokens : List String) : Except Fatal (List String) := do
  let (tokenStack, postfixTokens) ← infixTokens.foldlM infixToPostfixStep (Stack.new, [])
  popAll tokenStack.size tokenStack postfixTokens

/-- The parentheses change sides when the tokens are reversed. -/
def swapParenthesis (token : String) : String :=
  if token == "(" then ")" else if token == ")" then "(" else token

def infixToPrefix (infixTokens : List String) : Except Fatal (List String) := do
  let postfixTokens ← infixToPostfix (infixTokens.reverse.map swapParenthesis)
  .ok postfixTokens.reverse

/-! ### The binary tree -/

/-- A `*TreeNode`, possibly nil. -/
inductive TreeNode where
  | nil
  | node (name composedName : String) (left right : TreeNode)
  deriving DecidableEq, Repr

/-- `treeNodesMap`. -/
abbrev TreeNodesMap := String → Option TreeNode

/-- One round of the loop over the prefix tokens, from the last to the first. -/
def prefixExpressionToBinaryTreeStep (state : Stack × TreeNodesMap) (token : String) :
    Except Fatal (Stack × TreeNodesMap) :=
  let (tokenStack, treeNodesMap) := state
  if !isOperator token then
    if (treeNodesMap token).isSome then .error (.alreadyFound token)
    else
      .ok (tokenStack.push token,
        Function.update treeNodesMap token (some (.node token token .nil .nil)))
  else do
    let (operand1, tokenStack) ← tokenStack.pop
    let (operand2, tokenStack) ← tokenStack.pop
    let composedToken := "(" ++ operand1 ++ token ++ operand2 ++ ")"
    let treeNode := TreeNode.node token composedToken
      ((treeNodesMap operand1).getD .nil) ((treeNodesMap operand2).getD .nil)
    if (treeNodesMap composedToken).isSome then .error (.alreadyFound composedToken)
    else
      .ok (tokenStack.push composedToken,
        Function.update treeNodesMap composedToken (some treeNode))

def prefixExpressionToBinaryTree (prefixTokens : List String) : Except Fatal TreeNode := do
  let (tokenStack, treeNodesMap) ←
    prefixTokens.reverse.foldlM prefixExpressionToBinaryTreeStep (Stack.new, fun _ => none)
  let (token, _) ← tokenStack.pop
  .ok ((treeNodesMap token).getD .nil)

/-- The parsing half of `parseAction`: from the expression to the root of the binary tree. -/
def expressionToBinaryTree (exp : String) : Except Fatal TreeNode := do
  let prefixTokens ← infixToPrefix (expressionToInfixTokens exp)
  prefixExpressionToBinaryTree prefixTokens

example : expressionToBinaryTree "a;(b)" =
    .ok (.node ";" "(a;b)" (.node "a" "a" .nil .nil) (.node "b" "b" .nil .nil)) := by decide

end Sieve.Server
