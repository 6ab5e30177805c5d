import Sieve.Trigger.Grammar
import Sieve.Server.Expression

/-!
# Trigger expressions as the coordinator's binary trees

* `composedName`, `toTree`: the tree a trigger expression stands for, with the composed names that
  key every map of the coordinator;
* `composedName_injective`: composed names can be read back, as long as no literal contains one
  of the five operator characters;
* `WellNamed.subNames_disjoint`, `WellNamed.composedName_fresh`: hence the names of all
  subexpressions are pairwise distinct when the literals are.
-/

namespace Sieve.Trigger

namespace TriggerExpr

/-- The name of a subexpression: a literal's own name, otherwise fully parenthesised. -/
def composedName : TriggerExpr String → String
  | .literal n => n
  | .node op l r => "(" ++ l.composedName ++ op.symbol ++ r.composedName ++ ")"

/-- The binary tree of a trigger expression. -/
def toTree : TriggerExpr String → Server.TreeNode
  | .literal n => .node n n .nil .nil
  | .node op l r =>
    .node op.symbol (TriggerExpr.node op l r).composedName l.toTree r.toTree

/-- The names of all subexpressions, in the order in which the coordinator composes them. -/
def subNames : TriggerExpr String → List String
  | .literal n => [n]
  | .node op l r => r.subNames ++ l.subNames ++ [(TriggerExpr.node op l r).composedName]

/-! ### Well-named expressions -/

/-- The names of an expression: operator-free and pairwise distinct. -/
structure WellNamed (e : TriggerExpr String) : Prop where
  operatorFree : ∀ n ∈ e.literals, OperatorFree n
  distinct : e.literals.Nodup

theorem WellNamed.left {op : Connective} {l r : TriggerExpr String}
    (h : WellNamed (.node op l r)) : l.WellNamed :=
  ⟨fun n hn => h.operatorFree n (List.mem_append_left _ hn), (List.nodup_append.mp h.distinct).1⟩

theorem WellNamed.right {op : Connective} {l r : TriggerExpr String}
    (h : WellNamed (.node op l r)) : r.WellNamed :=
  ⟨fun n hn => h.operatorFree n (List.mem_append_right _ hn),
    (List.nodup_append.mp h.distinct).2.1⟩

theorem WellNamed.disjoint {op : Connective} {l r : TriggerExpr String}
    (h : WellNamed (.node op l r)) : ∀ a ∈ l.literals, ∀ b ∈ r.literals, a ≠ b :=
  (List.nodup_append.mp h.distinct).2.2

end TriggerExpr

/-! ### Reading a composed name back -/

/-- The rest of a text after a complete name: it ends, or a connective or `)` follows. -/
def Stops (rest : List Char) : Prop := ∀ c cs, rest = c :: cs → c ∈ operatorChars ∧ c ≠ '('

theorem stops_cons {c : Char} {cs : List Char} (h : c ∈ operatorChars ∧ c ≠ '(') :
    Stops (c :: cs) := by
  intro c' cs' heq
  rw [← (List.cons.inj heq).1]
  exact h

theorem symbol_toList (op : Connective) :
    ∃ c, op.symbol.toList = [c] ∧ c ∈ operatorChars ∧ c ≠ '(' := by
  cases op with
  | seq => exact ⟨';', by decide⟩
  | and => exact ⟨'&', by decide⟩
  | or => exact ⟨'|', by decide⟩

theorem symbol_injective {op op' : Connective} (h : op.symbol = op'.symbol) : op = op' := by
  revert h
  cases op <;> cases op' <;> decide

/-- A name is read up to the first operator character. -/
theorem name_unique {n n' rest rest' : List Char} (hn : ∀ c ∈ n, c ∉ operatorChars)
    (hn' : ∀ c ∈ n', c ∉ operatorChars) (hr : Stops rest) (hr' : Stops rest')
    (h : n ++ rest = n' ++ rest') : n = n' ∧ rest = rest' := by
  induction n generalizing n' with
  | nil =>
    cases n' with
    | nil => exact ⟨rfl, h⟩
    | cons c cs => exact absurd (hr c _ h).1 (hn' c (by simp))
  | cons c cs ih =>
    cases n' with
    | nil => exact absurd (hr' c _ h.symm).1 (hn c (by simp))
    | cons c' cs' =>
      obtain ⟨rfl, htail⟩ := List.cons.inj h
      obtain ⟨rfl, hrest⟩ := ih (fun d hd => hn d (List.mem_cons_of_mem _ hd))
        (fun d hd => hn' d (List.mem_cons_of_mem _ hd)) htail
      exact ⟨rfl, hrest⟩

/-- A name is never mistaken for a parenthesised expression. -/
theorem name_ne_paren {n rest cs : List Char} (hn : ∀ c ∈ n, c ∉ operatorChars)
    (hr : Stops rest) : n ++ rest ≠ '(' :: cs := by
  intro h
  cases n with
  | nil => exact (hr '(' cs h).2 rfl
  | cons c n =>
    rw [List.cons_append] at h
    exact hn c (by simp) ((List.cons.inj h).1 ▸ by decide)

namespace TriggerExpr

theorem composedName_node_toList (op : Connective) (l r : TriggerExpr String) :
    (TriggerExpr.node op l r).composedName.toList
      = '(' :: (l.composedName.toList ++ (op.symbol.toList ++ (r.composedName.toList ++ [')']))) := by
  simp only [composedName, String.toList_append, List.append_assoc]
  rfl

/-- **Unique readability**: a composed name at the head of a text determines the expression and
the rest of the text. -/
theorem composedName_unique {e e' : TriggerExpr String}
    (he : ∀ n ∈ e.literals, OperatorFree n) (he' : ∀ n ∈ e'.literals, OperatorFree n)
    {rest rest' : List Char} (hr : Stops rest) (hr' : Stops rest')
    (h : e.composedName.toList ++ rest = e'.composedName.toList ++ rest') :
    e = e' ∧ rest = rest' := by
  induction e generalizing e' rest rest' with
  | literal n =>
    have hn := he n (by simp [literals])
    cases e' with
    | literal n' =>
      obtain ⟨hnn, hrest⟩ := name_unique hn (he' n' (by simp [literals])) hr hr' h
      exact ⟨congrArg _ (String.toList_injective hnn), hrest⟩
    | node op' l' r' =>
      rw [composedName_node_toList] at h
      exact absurd h (name_ne_paren hn hr)
  | node op l r ihl ihr =>
    rw [composedName_node_toList] at h
    cases e' with
    | literal n' => exact absurd h.symm (name_ne_paren (he' n' (by simp [literals])) hr')
    | node op' l' r' =>
      rw [composedName_node_toList] at h
      obtain ⟨c, hc, hcop⟩ := symbol_toList op
      obtain ⟨c', hc', hcop'⟩ := symbol_toList op'
      simp only [hc, hc', List.cons_append, List.append_assoc, List.nil_append] at h
      have htail := (List.cons.inj h).2
      obtain ⟨rfl, hop⟩ := ihl (fun n hn => he n (List.mem_append_left _ hn))
        (fun n hn => he' n (List.mem_append_left _ hn)) (stops_cons hcop) (stops_cons hcop') htail
      obtain ⟨rfl, hright⟩ := List.cons.inj hop
      obtain ⟨rfl, hclose⟩ := ihr (fun n hn => he n (List.mem_append_right _ hn))
        (fun n hn => he' n (List.mem_append_right _ hn)) (stops_cons (by decide))
        (stops_cons (by decide)) hright
      have hsym : op = op' := symbol_injective (String.toList_injective (hc.trans hc'.symm))
      exact ⟨by rw [hsym], (List.cons.inj hclose).2⟩

theorem composedName_injective {e e' : TriggerExpr String}
    (he : ∀ n ∈ e.literals, OperatorFree n) (he' : ∀ n ∈ e'.literals, OperatorFree n)
    (h : e.composedName = e'.composedName) : e = e' := by
  have hnil : Stops [] := fun c cs hc => by cases hc
  exact (composedName_unique he he' hnil hnil (by rw [h])).1

/-! ### The names of all subexpressions are distinct -/

/-- Every subexpression name belongs to an expression over literals of `e` that is no larger. -/
theorem mem_subNames {e : TriggerExpr String} {n : String} (h : n ∈ e.subNames) :
    ∃ d : TriggerExpr String, d.composedName = n ∧ (∀ a ∈ d.literals, a ∈ e.literals) ∧
      d.nodeCount ≤ e.nodeCount := by
  induction e with
  | literal m =>
    rw [subNames, List.mem_singleton] at h
    exact ⟨.literal m, h.symm, fun a ha => ha, Nat.le_refl _⟩
  | node op l r ihl ihr =>
    simp only [subNames, List.mem_append, List.mem_singleton] at h
    rcases h with (hr | hl) | heq
    · obtain ⟨d, hd, hlit, hcount⟩ := ihr hr
      exact ⟨d, hd, fun a ha => List.mem_append_right _ (hlit a ha), by
        rw [nodeCount]
        omega⟩
    · obtain ⟨d, hd, hlit, hcount⟩ := ihl hl
      exact ⟨d, hd, fun a ha => List.mem_append_left _ (hlit a ha), by
        rw [nodeCount]
        omega⟩
    · exact ⟨.node op l r, heq.symm, fun a ha => ha, Nat.le_refl _⟩

theorem composedName_mem_subNames (e : TriggerExpr String) : e.composedName ∈ e.subNames := by
  cases e <;> simp [subNames, composedName]

/-- The sides of a connective share no subexpression name. -/
theorem WellNamed.subNames_disjoint {op : Connective} {l r : TriggerExpr String}
    (h : WellNamed (.node op l r)) {n : String} (hl : n ∈ l.subNames) : n ∉ r.subNames := by
  intro hr
  obtain ⟨d, hd, hdl, _⟩ := mem_subNames hl
  obtain ⟨d', hd', hdr, _⟩ := mem_subNames hr
  have heq : d = d' := composedName_injective (fun a ha => h.left.operatorFree a (hdl a ha))
    (fun a ha => h.right.operatorFree a (hdr a ha)) (hd.trans hd'.symm)
  obtain ⟨a, ha⟩ := List.exists_mem_of_ne_nil _ d.literals_ne_nil
  exact h.disjoint a (hdl a ha) a (hdr a (heq ▸ ha)) rfl

/-- The name of a connective's node is no name of its sides. -/
theorem WellNamed.composedName_fresh {op : Connective} {l r : TriggerExpr String}
    (h : WellNamed (.node op l r)) :
    (TriggerExpr.node op l r).composedName ∉ l.subNames ∧
      (TriggerExpr.node op l r).composedName ∉ r.subNames := by
  have hfresh : ∀ d : TriggerExpr String, (∀ a ∈ d.literals, a ∈ (node op l r).literals) →
      d.nodeCount < (node op l r).nodeCount →
      d.composedName ≠ (node op l r).composedName := by
    intro d hlit hcount heq
    have hd := composedName_injective (fun a ha => h.operatorFree a (hlit a ha))
      h.operatorFree heq
    rw [hd] at hcount
    omega
  constructor
  · intro hl
    obtain ⟨d, hd, hlit, hcount⟩ := mem_subNames hl
    exact hfresh d (fun a ha => List.mem_append_left _ (hlit a ha))
      (by rw [nodeCount]; omega) hd
  · intro hr
    obtain ⟨d, hd, hlit, hcount⟩ := mem_subNames hr
    exact hfresh d (fun a ha => List.mem_append_right _ (hlit a ha))
      (by rw [nodeCount]; omega) hd

theorem composedName_ne_empty {e : TriggerExpr String}
    (h : ∀ n ∈ e.literals, n ≠ "") : e.composedName ≠ "" := by
  cases e with
  | literal n => exact h n (List.mem_singleton_self n)
  | node op l r =>
    intro heq
    have hlen := congrArg String.toList heq
    rw [composedName_node_toList] at hlen
    cases hlen

/-- No subexpression has the empty name. -/
theorem empty_notMem_subNames {e : TriggerExpr String}
    (h : ∀ n ∈ e.literals, n ≠ "") : "" ∉ e.subNames := by
  intro hmem
  obtain ⟨d, hd, hlit, _⟩ := mem_subNames hmem
  exact composedName_ne_empty (fun n hn => h n (hlit n hn)) hd

theorem toTree_injective {e e' : TriggerExpr String} (h : e.toTree = e'.toTree) :
    e = e' := by
  induction e generalizing e' with
  | literal n =>
    cases e' with
    | literal n' => exact congrArg _ (Server.TreeNode.node.inj h).1
    | node op' l' r' => cases l' <;> cases (Server.TreeNode.node.inj h).2.2.1
  | node op l r ihl ihr =>
    cases e' with
    | literal n' => cases l <;> cases (Server.TreeNode.node.inj h).2.2.1
    | node op' l' r' =>
      obtain ⟨hop, _, hl, hr⟩ := Server.TreeNode.node.inj h
      rw [symbol_injective hop, ihl hl, ihr hr]

end TriggerExpr

end Sieve.Trigger
