import Sieve.Instrumentation.Runs

/-!
# Taking the statements of the passes out again

* `erase`: a body without the statements of the passes, with the return that they have taken apart put
  together again;
* `WellMarked`: bodies whose added statements do not get in the way of the program, which mentions none of
  the names that they declare;
* `inOrder_erase`, `runDefers_erase`: a block, and the deferred calls, with the added statements and
  without;
* `run_erase`: **a well-marked program does what the program without the added statements does**, whatever
  the hooks answer.
-/

namespace Sieve.Instrumentation

open Library

/-! ### Erasing -/

/-- The rest of a return that has been taken apart: the hook and the return of the variables. -/
def endsReturn (vars : List String) : List Stmt → Bool
  | [hook, last] =>
    match hook.added?, last.added? with
    | some (.hook ..), some (.ret vars') => vars' == vars
    | _, _ => false
  | _ => false

/-- The statement without what is added in it, and a return without its comments. -/
def Stmt.erase : Stmt → Stmt
  | .rangeStmt clause body decs => .rangeStmt clause (body.filter fun s => s.added?.isNone) decs
  | .returnStmt results _ => .returnStmt results []
  | s => s

def erase : List Stmt → List Stmt
  | [] => []
  | s :: rest =>
    match s.added? with
    | none => s.erase :: erase rest
    | some (.bind vars results) =>
      if endsReturn vars rest then [.returnStmt results []] else erase rest
    | some _ => erase rest

def FuncDecl.erase (decl : FuncDecl) : FuncDecl := { decl with body := Instrumentation.erase decl.body }

section Meaning

variable {F V H S D : Type} (M : Meaning F V H S D) (X : List String)

/-- The expressions have values and do nothing else. -/
def Meaning.Pure (n : ℕ) (results : List Expr) : Prop :=
  ∀ vars s, ∃ values, M.results n results vars s = .done (.ok values, s)

/-- An added statement after which the program goes on as it would without it. -/
def Added.Silent : Added → Prop
  | .bind vars results => M.Pure vars.length results
  | .ret _ => False
  | _ => True

/-- A statement of the program that mentions none of `X`, or a silent one that declares none but `X`. -/
structure Stmt.WellMarked (s : Stmt) : Prop where
  own : s.added? = none → Clear X s.words
  added : ∀ added, s.added? = some added → added.Silent M ∧ added.declares ⊆ X

/-- A statement of the program, with statements of the passes in it if it is a loop. -/
def Stmt.OwnMarked : Stmt → Prop
  | .rangeStmt clause body _ => Clear X (textWords clause) ∧ ∀ inner ∈ body, inner.WellMarked M X
  | s => Clear X s.words

/-- `n` is the number of results of the function. -/
def WellMarked (n : ℕ) : List Stmt → Prop
  | [] => True
  | s :: rest =>
    match s.added? with
    | none => s.OwnMarked M X ∧ WellMarked n rest
    | some (.bind vars results) =>
      vars ⊆ X ∧
        if endsReturn vars rest then Clear X (exprsWords results) ∧ vars.length = n ∧ vars.Nodup
        else M.Pure vars.length results ∧ WellMarked n rest
    | some added => (added.Silent M ∧ added.declares ⊆ X) ∧ WellMarked n rest

def Deferred.isOwn : Deferred V D → Bool
  | .own _ => true
  | .hook .. => false

/-- The deferred calls of the program. -/
def ownDefers (defers : List (Deferred V D)) : List (Deferred V D) := defers.filter Deferred.isOwn

/-- `fr'` is the frame of the program without the added statements, which declare none but `X`. -/
structure Frame.Same (fr fr' : Frame V S D) : Prop where
  own : fr.own = fr'.own
  defers : fr'.defers = ownDefers fr.defers
  vars : ∀ x ∉ X, fr.vars x = fr'.vars x

end Meaning

/-! ### Runs with and without -/

section Runs

variable {F V H S D : Type} {M : Meaning F V H S D} {X : List String} {fr fr' : Frame V S D} {n : ℕ}

/-- The same way on, with the same frames. -/
def SameWay (X : List String) (p q : Flow V × Frame V S D) : Prop := p.1 = q.1 ∧ p.2.Same X q.2

/-- Code that mentions none of `X` is in the same scope in both. -/
theorem Frame.Same.scope (h : fr.Same X fr') {words : List String} (hwords : Clear X words) :
    ∀ x ∈ words, fr.vars x = fr'.vars x :=
  fun x hx => h.vars x (hwords x hx)

theorem Frame.Same.push (h : fr.Same X fr') (own : S) (d : List D) :
    ({ fr with own, defers := d.map .own ++ fr.defers } : Frame V S D).Same X
      { fr' with own, defers := d.map .own ++ fr'.defers } := by
  refine ⟨rfl, ?_, h.vars⟩
  have hown : ownDefers (d.map (Deferred.own (V := V))) = d.map .own := by
    rw [ownDefers, List.filter_eq_self]
    intro x hx
    obtain ⟨y, -, rfl⟩ := List.mem_map.mp hx
    rfl
  show _ ++ fr'.defers = ownDefers (_ ++ fr.defers)
  have happend : ownDefers (d.map .own ++ fr.defers) = ownDefers (d.map .own) ++ ownDefers fr.defers :=
    List.filter_append ..
  rw [happend, hown, h.defers]

/-- What the passes declare is in `X`. -/
theorem Frame.Same.bind (h : fr.Same X fr') {vars : List String} (hvars : vars ⊆ X) (values : List V) :
    (fr.bind vars values).Same X fr' :=
  ⟨h.own, h.defers, fun x hx => (Frame.bind_other fr values fun hmem => hx (hvars hmem)).trans (h.vars x hx)⟩

variable [DecidableEq V]
  {hooks hooks' : List (Event V) → String → List V → V}
  {call call' : F × List V × H → Computation (Observer V) (Exit V × H)}

/-- **A silent statement** is passed by. -/
theorem runAdded_silent {added : Added} (hsilent : added.Silent M ∧ added.declares ⊆ X)
    (h : fr.Same X fr') (o : Observer V) : ∃ p, runAdded M hooks call fr added o = some p ∧
      p.1.1 = .next ∧ p.1.2.Same X fr' := by
  obtain ⟨hsilent, hX⟩ := hsilent
  cases added with
  | hook function args => exact ⟨_, rfl, rfl, h⟩
  | deferHook function args => exact ⟨_, rfl, rfl, ⟨h.own, h.defers, h.vars⟩⟩
  | bindHook vars function args => exact ⟨_, rfl, rfl, h.bind hX _⟩
  | bind vars results =>
    obtain ⟨values, hvalues⟩ := hsilent fr.vars fr.own
    simp only [runAdded, hvalues, Calls.run, pure_bind]
    exact ⟨_, rfl, rfl, h.bind hX _⟩
  | setObj => exact ⟨_, rfl, rfl, h⟩
  | ret vars => exact hsilent.elim

omit [DecidableEq V] in
theorem runOwn_sameWay (hM : M.Scoped) (hcall : ∀ c, SameOutcomes Eq (call c) (call' c))
    (h : fr.Same X fr') {s : Stmt} (hs : Clear X s.words) :
    SameOutcomes (SameWay X) (runOwn M call n fr s) (runOwn M call' n fr' s) := by
  unfold runOwn
  split
  · rw [hM.results _ _ _ _ _ (h.scope hs), h.own]
    refine (Calls.run_sameOutcomes hcall _).bind fun p q hpq => ?_
    subst hpq
    obtain ⟨outcome, own⟩ := p
    cases outcome with
    | ok values => exact .pure ⟨rfl, rfl, h.defers, h.vars⟩
    | error v => exact .pure ⟨rfl, rfl, h.defers, h.vars⟩
  · rw [hM.stmt _ _ _ _ (h.scope hs), h.own]
    refine (Calls.run_sameOutcomes hcall _).bind fun p q hpq => ?_
    subst hpq
    exact .pure ⟨rfl, h.push p.2.1 p.2.2⟩

/-- Statements in order, where those of the first list that are not in the second are passed by. -/
theorem inOrder_filter (hM : M.Scoped) (hcall : ∀ c, SameOutcomes Eq (call c) (call' c))
    {body : List Stmt} (hbody : ∀ inner ∈ body, inner.WellMarked M X) (h : fr.Same X fr') :
    SameOutcomes (SameWay X) (inOrder (runStmt M hooks call n) body fr)
      (inOrder (runStmt M hooks' call' n) (body.filter fun s => s.added?.isNone) fr') := by
  induction body generalizing fr fr' with
  | nil => exact .pure ⟨rfl, h⟩
  | cons s rest ih =>
    rw [List.forall_mem_cons] at hbody
    cases hadded : s.added? with
    | none =>
      rw [List.filter_cons_of_pos (by rw [hadded]; rfl)]
      simp only [inOrder, runStmt, hadded]
      refine (runOwn_sameWay hM hcall h (hbody.1.own hadded)).bind fun p q hpq => ?_
      obtain ⟨flow, fr₁⟩ := p
      obtain ⟨flow', fr₁'⟩ := q
      obtain ⟨rfl, hsame⟩ := hpq
      cases flow with
      | next => exact ih hbody.2 hsame
      | _ => exact .pure ⟨rfl, hsame⟩
    | some added =>
      rw [List.filter_cons_of_neg (by rw [hadded]; simp)]
      simp only [inOrder, runStmt, hadded]
      refine SameOutcomes.skip (P := fun p => p.1 = .next ∧ p.2.Same X fr')
        (runAdded_silent (hbody.1.added added hadded) h) fun p hp => ?_
      obtain ⟨flow, fr₁⟩ := p
      obtain ⟨rfl, hsame⟩ := hp
      exact ih hbody.2 hsame

omit [DecidableEq V] in
theorem runLoop_sameWay {body : Frame V S D → Computation (Observer V) (Flow V × Frame V S D)}
    {body' : Frame V S D → Computation (Observer V) (Flow V × Frame V S D)}
    (hbody : ∀ fr fr' : Frame V S D, fr.Same X fr' → SameOutcomes (SameWay X) (body fr) (body' fr'))
    (iterations : List (S → S)) (h : fr.Same X fr') :
    SameOutcomes (SameWay X) (runLoop body iterations fr) (runLoop body' iterations fr') := by
  induction iterations generalizing fr fr' with
  | nil => exact .pure ⟨rfl, h⟩
  | cons first rest ih =>
    have hfirst : ({ fr with own := first fr.own } : Frame V S D).Same X
        { fr' with own := first fr'.own } := ⟨congrArg first h.own, h.defers, h.vars⟩
    refine (hbody _ _ hfirst).bind fun p q hpq => ?_
    obtain ⟨flow, last⟩ := p
    obtain ⟨flow', last'⟩ := q
    obtain ⟨rfl, hlast⟩ := hpq
    -- both are back in the scope of the loop
    have hsame : ({ last with vars := fr.vars } : Frame V S D).Same X { last' with vars := fr'.vars } :=
      ⟨hlast.own, hlast.defers, h.vars⟩
    cases flow with
    | next => exact ih hsame
    | cont => exact ih hsame
    | _ => exact .pure ⟨rfl, hsame⟩

/-- A statement of the program, with what is added in it and without. -/
theorem runTop_erase (hM : M.Scoped) (hcall : ∀ c, SameOutcomes Eq (call c) (call' c)) {s : Stmt}
    (hadded : s.added? = none) (hs : s.OwnMarked M X) (h : fr.Same X fr') :
    SameOutcomes (SameWay X) (runTop M hooks call n s fr) (runTop M hooks' call' n s.erase fr') := by
  cases s with
  | rangeStmt clause body decs =>
    obtain ⟨hclause, hbody⟩ := hs
    simp only [runTop, Stmt.erase]
    rw [hM.clause _ _ _ _ (h.scope hclause), h.own]
    refine (Calls.run_sameOutcomes hcall _).bind fun p q hpq => ?_
    subst hpq
    obtain ⟨outcome, own⟩ := p
    cases outcome with
    | ok iterations =>
      exact runLoop_sameWay (fun _ _ hsame => inOrder_filter hM hcall hbody hsame) iterations
        ⟨rfl, h.defers, h.vars⟩
    | error v => exact .pure ⟨rfl, rfl, h.defers, h.vars⟩
  | returnStmt results decs =>
    simp only [runTop, runStmt, hadded]
    have hclear : Clear X (Stmt.returnStmt results decs).words := hs
    exact runOwn_sameWay hM hcall h hclear
  | _ =>
    simp only [runTop, runStmt, hadded, Stmt.erase]
    exact runOwn_sameWay hM hcall h hs

/-- **A return that has been taken apart** returns what it returned before. -/
theorem runBody_return (hM : M.Scoped) (hcall : ∀ c, SameOutcomes Eq (call c) (call' c)) {s : Stmt}
    {rest : List Stmt} {vars : List String} {results : List Expr}
    (hs : s.added? = some (.bind vars results)) (hrest : endsReturn vars rest = true) (hvars : vars ⊆ X)
    (hresults : Clear X (exprsWords results)) (hnodup : vars.Nodup) (h : fr.Same X fr') :
    SameOutcomes (SameWay X) (runBody M hooks call vars.length (s :: rest) fr)
      (runBody M hooks' call' vars.length [.returnStmt results []] fr') := by
  unfold endsReturn at hrest
  split at hrest
  · next hook last =>
    split at hrest
    · next function args vars' hhook hlast =>
      obtain rfl := eq_of_beq hrest
      have hreturn : runTop M hooks' call' vars'.length (.returnStmt results []) fr' =
        runOwn M call' vars'.length fr' (.returnStmt results []) := rfl
      simp only [runBody, inOrder, runTop_of_added hs, runTop_of_added hhook, runTop_of_added hlast,
        hreturn, runAdded, runOwn, bind_assoc]
      rw [hM.results _ _ _ _ _ (h.scope hresults), h.own]
      refine (Calls.run_sameOutcomes hcall _).bind fun p q hpq => ?_
      subst hpq
      obtain ⟨outcome, own⟩ := p
      have hsame : ({ fr with own } : Frame V S D).Same X { fr' with own } := ⟨rfl, h.defers, h.vars⟩
      cases outcome with
      | ok values =>
        intro o o'
        have hvalues := Frame.values_bind (M := M) { fr with own } hnodup values.length_toList o
        exact .some ⟨congrArg (fun values => Flow.exit (.returned values)) hvalues, hsame.bind hvars _⟩
      | error v => exact .pure ⟨rfl, hsame⟩
    · cases hrest
  · cases hrest

/-- **A body** with the added statements and without. -/
theorem runBody_erase (hM : M.Scoped) (hcall : ∀ c, SameOutcomes Eq (call c) (call' c))
    {body : List Stmt} (hbody : WellMarked M X n body) (h : fr.Same X fr') :
    SameOutcomes (SameWay X) (runBody M hooks call n body fr)
      (runBody M hooks' call' n (erase body) fr') := by
  induction body generalizing fr fr' with
  | nil => exact .pure ⟨rfl, h⟩
  | cons s rest ih =>
    unfold WellMarked at hbody
    unfold erase
    -- a silent statement, and the rest of the body
    have hsilent : ∀ {added : Added}, s.added? = some added → added.Silent M ∧ added.declares ⊆ X →
        WellMarked M X n rest → SameOutcomes (SameWay X) (runBody M hooks call n (s :: rest) fr)
          (runBody M hooks' call' n (erase rest) fr') := by
      intro added hadded hs hrest
      simp only [runBody, inOrder, runTop_of_added hadded]
      refine SameOutcomes.skip (P := fun p => p.1 = .next ∧ p.2.Same X fr')
        (runAdded_silent hs h) fun p hp => ?_
      obtain ⟨flow, fr₁⟩ := p
      obtain ⟨rfl, hsame⟩ := hp
      exact ih hrest hsame
    cases hadded : s.added? with
    | none =>
      rw [hadded] at hbody
      simp only [runBody, inOrder]
      refine (runTop_erase hM hcall hadded hbody.1 h).bind fun p q hpq => ?_
      obtain ⟨flow, fr₁⟩ := p
      obtain ⟨flow', fr₁'⟩ := q
      obtain ⟨rfl, hsame⟩ := hpq
      cases flow with
      | next => exact ih hbody.2 hsame
      | _ => exact .pure ⟨rfl, hsame⟩
    | some added =>
      rw [hadded] at hbody
      cases added with
      | bind vars results =>
        obtain ⟨hvars, hbody⟩ := hbody
        by_cases hreturn : endsReturn vars rest = true
        · simp only [hreturn, if_true] at hbody ⊢
          obtain ⟨hresults, rfl, hnodup⟩ := hbody
          exact runBody_return hM hcall hadded hreturn hvars hresults hnodup h
        · simp only [if_neg hreturn] at hbody ⊢
          exact hsilent hadded ⟨hbody.1, hvars⟩ hbody.2
      | hook function args => exact hsilent hadded hbody.1 hbody.2
      | deferHook function args => exact hsilent hadded hbody.1 hbody.2
      | bindHook vars function args => exact hsilent hadded hbody.1 hbody.2
      | setObj => exact hsilent hadded hbody.1 hbody.2
      | ret vars => exact hbody.1.1.elim

omit [DecidableEq V] in
theorem runDefers_own (hcall : ∀ c, SameOutcomes Eq (call c) (call' c)) (defers : List (Deferred V D))
    (e : Exit V) (s : S) :
    SameOutcomes Eq (runDefers M hooks call defers e s)
      (runDefers M hooks' call' (ownDefers defers) e s) := by
  induction defers generalizing e s with
  | nil => exact .pure rfl
  | cons d rest ih =>
    cases d with
    | own d =>
      refine (Calls.run_sameOutcomes hcall _).bind fun p q hpq => ?_
      subst hpq
      exact ih p.1 p.2
    | hook function args =>
      exact SameOutcomes.skip (P := fun _ => True) (fun o => ⟨_, rfl, trivial⟩) fun _ _ => ih e s

theorem runFunc_erase (hM : M.Scoped) (hcall : ∀ c, SameOutcomes Eq (call c) (call' c)) {decl : FuncDecl}
    (hdecl : WellMarked M X decl.results decl.body) (f : F) (args : List V) (heap : H) :
    SameOutcomes Eq (runFunc M hooks call decl f args heap)
      (runFunc M hooks' call' decl.erase f args heap) := by
  refine (runBody_erase hM hcall hdecl ⟨rfl, rfl, fun _ _ => rfl⟩).bind fun p q hpq => ?_
  obtain ⟨flow, fr⟩ := p
  obtain ⟨flow', fr'⟩ := q
  obtain ⟨rfl, hown, hdefers, -⟩ := hpq
  dsimp only at hown hdefers ⊢
  rw [hdefers, ← hown]
  refine (runDefers_own hcall fr.defers flow.toExit fr.own).bind fun p q hpq => ?_
  subst hpq
  exact .pure rfl

/-- The program without the added statements. -/
def eraseProgram (P : F → Option FuncDecl) (f : F) : Option FuncDecl := (P f).map FuncDecl.erase

theorem run_sameOutcomes {P : F → Option FuncDecl}
    (hM : M.Scoped) (hP : ∀ f decl, P f = some decl → ∃ X, WellMarked M X decl.results decl.body) (k : ℕ)
    (c : F × List V × H) :
    SameOutcomes Eq (run M hooks P k c) (run M hooks' (eraseProgram P) k c) := by
  induction k generalizing c with
  | zero => exact fun _ _ => .none
  | succ k ih =>
    obtain ⟨f, args, heap⟩ := c
    unfold run
    rw [eraseProgram]
    cases hdecl : P f with
    | none => exact fun _ _ => .none
    | some decl =>
      obtain ⟨X, hmarked⟩ := hP f decl hdecl
      exact runFunc_erase hM ih hmarked f args heap

end Runs

end Sieve.Instrumentation
