import Sieve.Instrumentation.Passes
import Sieve.Library.CallTrees
import Mathlib.Logic.Function.Basic

/-!
# Runs of an instrumented program

What Go files compute, with and without the statements of the passes. The program's own statements have any
meaning: what they do to the state of the running function, which functions they call and how they end.
The statements of the passes are recognised by their mark and run as Go runs them:

* `Meaning`: what the program's own code means, in a scope of variables that the passes have declared;
* `Meaning.Scoped`: code is affected by the variables that it mentions only;
* `Stmt.added?`: the statements of the passes;
* `runStmt`, `runBody`, `runDefers`, `runFunc`: the statements of a function, its loops over a range, its
  deferred calls, last in first out, on every way out of it;
* `run`: a program, to a depth of calls.

A declaration of the passes hides what its name meant before: code that mentions the name then reads the new
variable. Code that assigns to such a variable or jumps to a label outside its own statement has no meaning
here; `FuncDecl.Unmarked` leaves it out. One goroutine runs at a time.
-/

namespace Sieve.Instrumentation

open Library

/-- How a function ends. -/
inductive Exit (V : Type)
  | returned (values : List V)
  | panicked (value : V)

/-- How a statement ends: `brk` and `cont` are those of the innermost loop. -/
inductive Flow (V : Type)
  | next
  | brk
  | cont
  | exit (e : Exit V)

/-- The variables of the passes that are in scope. -/
abbrev Scope (V : Type) := String → Option V

/-- The meaning of the program's own code, for functions `F`, values `V`, heaps `H`, states `S` of a running
function (its variables and the heap) and deferred calls `D`. -/
structure Meaning (F V H S D : Type) where
  enter : F → List V → H → S
  leave : S → H
  stmt : Stmt → Scope V → S → Calls (F × List V × H) (Exit V × H) (Flow V × S × List D)
  /-- The values of a list of expressions where `n` values are asked for, or a panic. -/
  results : (n : ℕ) → List Expr → Scope V → S →
    Calls (F × List V × H) (Exit V × H) (Except V (Vector V n) × S)
  /-- What a loop over a range does before each of its iterations. -/
  clause : String → Scope V → S → Calls (F × List V × H) (Exit V × H) (Except V (List (S → S)) × S)
  /-- A deferred call may change how the function ends. -/
  deferred : D → Exit V → S → Calls (F × List V × H) (Exit V × H) (Exit V × S)
  /-- The arguments of the hooks, which have no effects. -/
  read : Expr → S → V

/-- Code does the same in two scopes that differ in variables that it does not mention. -/
structure Meaning.Scoped {F V H S D : Type} (M : Meaning F V H S D) : Prop where
  stmt : ∀ s vars vars' own, (∀ x ∈ s.words, vars x = vars' x) → M.stmt s vars own = M.stmt s vars' own
  results : ∀ n es vars vars' own, (∀ x ∈ exprsWords es, vars x = vars' x) →
    M.results n es vars own = M.results n es vars' own
  clause : ∀ text vars vars' own, (∀ x ∈ textWords text, vars x = vars' x) →
    M.clause text vars own = M.clause text vars' own

/-! ### The statements of the passes -/

/-- `setObj` is `r.obj = obj`. -/
inductive Added
  | hook (function : String) (args : List Expr)
  | deferHook (function : String) (args : List Expr)
  | bindHook (vars : List String) (function : String) (args : List Expr)
  | bind (vars : List String) (results : List Expr)
  | setObj
  | ret (vars : List String)

/-- The variables that an added statement declares. -/
def Added.declares : Added → List String
  | .bindHook vars .. => vars
  | .bind vars _ => vars
  | _ => []

def Expr.name? : Expr → Option String
  | .ident name _ => some name
  | _ => none

/-- A call of the client library. -/
def Expr.notified? : Expr → Option (String × List Expr)
  | .callExpr (.ident function path) args =>
    if path = "sieve.client" then some (function, args) else none
  | _ => none

def Stmt.decs : Stmt → List String
  | .exprStmt _ decs => decs
  | .assignStmt _ _ _ decs => decs
  | .deferStmt _ decs => decs
  | .returnStmt _ decs => decs
  | .rangeStmt _ _ decs => decs
  | .other _ decs => decs

def Stmt.addition? : Stmt → Option Added
  | .exprStmt x _ => x.notified?.map fun (function, args) => .hook function args
  | .deferStmt call _ => call.notified?.map fun (function, args) => .deferHook function args
  | .assignStmt lhs .define rhs _ =>
    match rhs.head?.bind Expr.notified? with
    | some (function, args) => some (.bindHook (lhs.filterMap Expr.name?) function args)
    | none => some (.bind (lhs.filterMap Expr.name?) rhs)
  | .assignStmt _ .assign _ _ => some .setObj
  | .assignStmt _ (.other _) _ _ => none
  | .returnStmt results _ => some (.ret (results.filterMap Expr.name?))
  | .rangeStmt .. => none
  | .other .. => none

def Stmt.added? (s : Stmt) : Option Added := if "//sieve" ∈ s.decs then s.addition? else none

/-! ### Runs -/

structure Event (V : Type) where
  function : String
  args : List V
  answer : V

/-- What the hooks have been called with, and the field that they add to requests. -/
structure Observer (V : Type) where
  log : List (Event V)
  obj : V → V

inductive Deferred (V D : Type)
  | own (d : D)
  | hook (function : String) (args : List V)

/-- A running function: `vars` are the variables of the passes that are in scope, `defers` the deferred
calls, the last one first. -/
structure Frame (V S D : Type) where
  own : S
  vars : Scope V
  defers : List (Deferred V D)

section Runs

variable {F V H S D : Type} [DecidableEq V] (M : Meaning F V H S D)
  (hooks : List (Event V) → String → List V → V)
  (call : F × List V × H → Computation (Observer V) (Exit V × H))

def Frame.bind (fr : Frame V S D) (vars : List String) (values : List V) : Frame V S D :=
  { fr with vars := (vars.zip values).foldl (fun known (x, v) => Function.update known x (some v)) fr.vars }

/-- The value of an argument: a variable of the passes, the field of the request, or the program's own. -/
def Frame.value (fr : Frame V S D) (o : Observer V) : Expr → V
  | .ident name path =>
    match fr.vars name with
    | some v => v
    | none =>
      if name = "r.obj" then o.obj (M.read (.ident "r" "") fr.own)
      else M.read (.ident name path) fr.own
  | e => M.read e fr.own

def Frame.values (fr : Frame V S D) (args : List Expr) : Computation (Observer V) (List V) :=
  fun o => some (args.map (fr.value M o), o)

/-- The hook is called, and the call is logged with its answer. -/
def ask (function : String) (args : List V) : Computation (Observer V) V := fun o =>
  let answer := hooks o.log function args
  some (answer, { o with log := o.log ++ [{ function, args, answer }] })

def setObj (fr : Frame V S D) : Computation (Observer V) Unit := fun o =>
  some ((), { o with
    obj := Function.update o.obj (M.read (.ident "r" "") fr.own) (fr.value M o (.ident "obj" "")) })

def runAdded (fr : Frame V S D) : Added → Computation (Observer V) (Flow V × Frame V S D)
  | .hook function args => do
    let values ← fr.values M args
    let _ ← ask hooks function values
    pure (.next, fr)
  | .deferHook function args => do
    -- the arguments are evaluated here, the call is made on the way out
    let values ← fr.values M args
    pure (.next, { fr with defers := .hook function values :: fr.defers })
  | .bindHook vars function args => do
    let values ← fr.values M args
    let answer ← ask hooks function values
    pure (.next, fr.bind vars [answer])
  | .bind vars results => do
    let (outcome, own) ← (M.results vars.length results fr.vars fr.own).run call
    match outcome with
    | .ok values => pure (.next, { fr with own }.bind vars values.toList)
    | .error v => pure (.exit (.panicked v), { fr with own })
  | .setObj => do
    setObj M fr
    pure (.next, fr)
  | .ret vars => do
    let values ← fr.values M (names vars)
    pure (.exit (.returned values), fr)

/-- A statement of the program, in a function of `n` results. -/
def runOwn (n : ℕ) (fr : Frame V S D) : Stmt → Computation (Observer V) (Flow V × Frame V S D)
  | .returnStmt results _ => do
    let (outcome, own) ← (M.results n results fr.vars fr.own).run call
    match outcome with
    | .ok values => pure (.exit (.returned values.toList), { fr with own })
    | .error v => pure (.exit (.panicked v), { fr with own })
  | s => do
    let (flow, own, defers) ← (M.stmt s fr.vars fr.own).run call
    pure (flow, { fr with own, defers := defers.map .own ++ fr.defers })

def runStmt (n : ℕ) (s : Stmt) (fr : Frame V S D) : Computation (Observer V) (Flow V × Frame V S D) :=
  match s.added? with
  | some added => runAdded M hooks call fr added
  | none => runOwn M call n fr s

/-- What comes after a statement that goes on to the next. -/
def goOn {σ : Type} (next : σ → Computation (Observer V) (Flow V × σ)) :
    Flow V × σ → Computation (Observer V) (Flow V × σ)
  | (.next, fr) => next fr
  | (flow, fr) => pure (flow, fr)

/-- Statements one after the other, up to the first that does not go on to the next. -/
def inOrder {σ : Type} (step : Stmt → σ → Computation (Observer V) (Flow V × σ)) :
    List Stmt → σ → Computation (Observer V) (Flow V × σ)
  | [], fr => pure (.next, fr)
  | s :: rest, fr => step s fr >>= goOn (inOrder step rest)

/-- The iterations of a loop; what each does first is in the list, and what it declares is out of scope
after it. -/
def runLoop (body : Frame V S D → Computation (Observer V) (Flow V × Frame V S D)) :
    List (S → S) → Frame V S D → Computation (Observer V) (Flow V × Frame V S D)
  | [], fr => pure (.next, fr)
  | first :: rest, fr => do
    let (flow, last) ← body { fr with own := first fr.own }
    let fr := { last with vars := fr.vars }
    match flow with
    | .next => runLoop body rest fr
    | .cont => runLoop body rest fr
    | .brk => pure (.next, fr)
    | flow => pure (flow, fr)

/-- A loop in a loop is a statement of the program like any other: no pass looks into it. -/
def runTop (n : ℕ) (s : Stmt) (fr : Frame V S D) : Computation (Observer V) (Flow V × Frame V S D) :=
  match s with
  | .rangeStmt clause body _ => do
    let (outcome, own) ← (M.clause clause fr.vars fr.own).run call
    match outcome with
    | .ok iterations => runLoop (inOrder (runStmt M hooks call n) body) iterations { fr with own }
    | .error v => pure (.exit (.panicked v), { fr with own })
  | s => runStmt M hooks call n s fr

def runBody (n : ℕ) : List Stmt → Frame V S D → Computation (Observer V) (Flow V × Frame V S D) :=
  inOrder (runTop M hooks call n)

/-- The deferred calls run however the function ends. -/
def runDefers : List (Deferred V D) → Exit V → S → Computation (Observer V) (Exit V × S)
  | [], e, s => pure (e, s)
  | .own d :: rest, e, s => do
    let (e, s) ← (M.deferred d e s).run call
    runDefers rest e s
  | .hook function args :: rest, e, s => do
    let _ ← ask hooks function args
    runDefers rest e s

/-- A function whose statements come to an end returns. -/
def Flow.toExit : Flow V → Exit V
  | .exit e => e
  | _ => .returned []

def runFunc (decl : FuncDecl) (f : F) (args : List V) (h : H) :
    Computation (Observer V) (Exit V × H) := do
  let (flow, fr) ← runBody M hooks call decl.results decl.body
    { own := M.enter f args h, vars := fun _ => none, defers := [] }
  let (e, s) ← runDefers M hooks call fr.defers flow.toExit fr.own
  pure (e, M.leave s)

/-- A run to a depth of `k` calls: there is no outcome where the run is deeper. -/
def run (P : F → Option FuncDecl) : ℕ → F × List V × H → Computation (Observer V) (Exit V × H)
  | 0, _ => fun _ => none
  | k + 1, (f, args, h) =>
    match P f with
    | some decl => runFunc M hooks (run P k) decl f args h
    | none => fun _ => none

end Runs

/-! ### The variables of the passes -/

section Variables

variable {F V H S D : Type} {M : Meaning F V H S D}

def Frame.set (fr : Frame V S D) (x : String) (v : V) : Frame V S D :=
  { fr with vars := Function.update fr.vars x (some v) }

theorem Frame.bind_cons (fr : Frame V S D) (x : String) (vars : List String) (v : V) (values : List V) :
    fr.bind (x :: vars) (v :: values) = (fr.set x v).bind vars values := rfl

theorem Frame.bind_other (fr : Frame V S D) {vars : List String} (values : List V) {x : String}
    (hx : x ∉ vars) : (fr.bind vars values).vars x = fr.vars x := by
  induction vars generalizing fr values with
  | nil => rfl
  | cons y rest ih =>
    rw [List.mem_cons, not_or] at hx
    cases values with
    | nil => rfl
    | cons v values =>
      rw [Frame.bind_cons]
      exact (ih (fr.set y v) values hx.2).trans (Function.update_of_ne hx.1 ..)

theorem Frame.values_bind (fr : Frame V S D) {vars : List String} {values : List V}
    (hnodup : vars.Nodup) (hlength : values.length = vars.length) (o : Observer V) :
    (names vars).map ((fr.bind vars values).value M o) = values := by
  induction vars generalizing fr values with
  | nil =>
    rw [List.length_nil, List.length_eq_zero_iff] at hlength
    rw [hlength]
    rfl
  | cons x rest ih =>
    obtain ⟨v, values, rfl⟩ := List.exists_cons_of_length_eq_add_one hlength
    rw [List.nodup_cons] at hnodup
    rw [Frame.bind_cons]
    have hx : ((fr.set x v).bind rest values).vars x = some v :=
      (Frame.bind_other _ values hnodup.1).trans (Function.update_self ..)
    have hfirst : ((fr.set x v).bind rest values).value M o (.ident x "") = v := by
      simp only [Frame.value, hx]
    exact congrArg₂ List.cons hfirst (ih (fr.set x v) hnodup.2 (Nat.succ.inj hlength))

end Variables

theorem runTop_of_added {F V H S D : Type} [DecidableEq V] {M : Meaning F V H S D}
    {hooks : List (Event V) → String → List V → V}
    {call : F × List V × H → Computation (Observer V) (Exit V × H)} {n : ℕ} {fr : Frame V S D} {s : Stmt}
    {added : Added} (hadded : s.added? = some added) :
    runTop M hooks call n s fr = runAdded M hooks call fr added := by
  cases s with
  | rangeStmt clause body decs =>
    unfold Stmt.added? at hadded
    split at hadded <;> cases hadded
  | _ => simp only [runTop, runStmt, hadded]

end Sieve.Instrumentation
