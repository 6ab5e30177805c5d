import Sieve.Instrumentation.Runs
import Sieve.Library.Nesting

/-!
# Hooks that enclose what they are about

* `Opens`, `Pairs`: the hooks before something, and the ones after it that answer them, with the id of the
  call before where there is one;
* `TameBlock`: statements after which nothing of the passes is left to do;
* `Bracketed`: bodies of tame blocks and of pairs of a hook and a deferred hook;
* `runDefers_log`, `runFunc_log`: what a function logs, its deferred calls included;
* `run_nested`: **the log of a bracketed program is a nested word**.
-/

namespace Sieve.Instrumentation

open Library

/-! ### Hooks before and after -/

def modes : List String := ["Learn", "Test"]

def kinds : List String :=
  ["Reconcile", "AnnotatedAPICall", "ControllerRecv", "RestCall", "CacheGet", "CacheList", "APIServerRecv"]

/-- What the hook before returns an id for. -/
def withId : List String := ["AnnotatedAPICall", "ControllerRecv", "RestCall"]

def beforeName (mode kind : String) : String := "Notify" ++ mode ++ ("Before" ++ kind)

def afterName (mode kind : String) : String := "Notify" ++ mode ++ ("After" ++ kind)

variable {V : Type}

def Opens (e : Event V) : Prop := ∃ mode ∈ modes, ∃ kind ∈ kinds, e.function = beforeName mode kind

/-- `a` answers `b`. -/
def Pairs (b a : Event V) : Prop :=
  ∃ mode ∈ modes, ∃ kind ∈ kinds, b.function = beforeName mode kind ∧
    a.function = afterName mode kind ∧ (kind ∈ withId → a.args.head? = some b.answer)

theorem Pairs.opens {b a : Event V} (h : Pairs b a) : Opens b := by
  obtain ⟨mode, hmode, kind, hkind, hb, -, -⟩ := h
  exact ⟨mode, hmode, kind, hkind, hb⟩

abbrev NestedLog (w : List (Event V)) : Prop := Nested Opens Pairs w

/-- The hook `function` with the arguments `args` answers the added statement. -/
def Added.AnsweredBy (function : String) (args : List Expr) : Added → Prop
  | .hook before _ => ∃ mode ∈ modes, ∃ kind ∈ kinds, before = beforeName mode kind ∧
      function = afterName mode kind ∧ kind ∉ withId
  | .bindHook vars before _ => ∃ mode ∈ modes, ∃ kind ∈ kinds, before = beforeName mode kind ∧
      function = afterName mode kind ∧ ∃ x, vars = [x] ∧ args.head? = some (.ident x "")
  | _ => False

/-- The hook that an added statement calls where it stands. -/
def Added.called? : Added → Option String
  | .hook function _ => some function
  | .bindHook _ function _ => some function
  | _ => none

/-- An added statement that calls no hook. -/
def Added.Quiet : Added → Prop
  | .bind .. => True
  | .setObj => True
  | .ret _ => True
  | _ => False

/-! ### Bodies with hooks in pairs -/

/-- A statement of the program, with none of the passes in it; if it is a return, it does not call the
client library. -/
structure Stmt.Own (s : Stmt) : Prop where
  added : s.added? = none
  loop : ∀ clause body decs, s = .rangeStmt clause body decs → ∀ inner ∈ body, inner.added? = none
  results : ∀ results decs, s = .returnStmt results decs → results.head?.bind Expr.notified? = none

/-- The check of `Stmt.Own`. -/
def Stmt.isOwn (s : Stmt) : Bool :=
  s.added?.isNone && match s with
    | .rangeStmt _ body _ => body.all fun inner => inner.added?.isNone
    | .returnStmt results _ => (results.head?.bind Expr.notified?).isNone
    | _ => true

theorem Stmt.isOwn_iff {s : Stmt} : s.isOwn = true ↔ s.Own := by
  unfold isOwn
  rw [Bool.and_eq_true, Option.isNone_iff_eq_none]
  constructor
  · rintro ⟨hadded, hrest⟩
    refine ⟨hadded, ?_, ?_⟩
    · rintro clause body decs rfl inner hinner
      exact Option.isNone_iff_eq_none.mp (List.all_eq_true.mp hrest inner hinner)
    · rintro results decs rfl
      exact Option.isNone_iff_eq_none.mp hrest
  · intro h
    refine ⟨h.added, ?_⟩
    cases s with
    | rangeStmt clause body decs =>
      exact List.all_eq_true.mpr fun inner hinner =>
        Option.isNone_iff_eq_none.mpr (h.loop clause body decs rfl inner hinner)
    | returnStmt results decs => exact Option.isNone_iff_eq_none.mpr (h.results results decs rfl)
    | _ => rfl

instance (s : Stmt) : Decidable s.Own := decidable_of_iff _ Stmt.isOwn_iff

/-- A statement that calls no hook and declares none of `vars`. -/
def Stmt.Calm (vars : List String) (s : Stmt) : Prop :=
  s.Own ∨ ∃ declared results, s.added? = some (.bind declared results) ∧ ∀ x ∈ vars, x ∉ declared

/-- The body of a loop, with a hook before and one after. -/
inductive LoopBracketed : List Stmt → Prop
  | own {body : List Stmt} : (∀ s ∈ body, s.added? = none) → LoopBracketed body
  | straight {first last : Stmt} {body : List Stmt} {before : Added} {function : String} {args : List Expr} :
      first.added? = some before → last.added? = some (.hook function args) →
      before.AnsweredBy function args → (∀ s ∈ body, s.added? = none) →
      LoopBracketed (first :: (body ++ [last]))

inductive TameBlock : List Stmt → Prop
  | own {s : Stmt} : s.added? = none →
      (∀ clause body decs, s = .rangeStmt clause body decs → LoopBracketed body) → TameBlock [s]
  | quiet {s : Stmt} {added : Added} : s.added? = some added → added.Quiet → TameBlock [s]
  | opened {s : Stmt} {mode kind : String} {args : List Expr} : mode ∈ modes → kind ∈ kinds →
      s.added? = some (.hook (beforeName mode kind) args) → TameBlock [s]
  | straight {first last : Stmt} {body : List Stmt} {before : Added} {function : String} {args : List Expr} :
      first.added? = some before → last.added? = some (.hook function args) →
      before.AnsweredBy function args → (∀ s ∈ body, s.Calm before.declares) →
      TameBlock (first :: (body ++ [last]))

inductive Bracketed : List Stmt → Prop
  | nil : Bracketed []
  | block {block rest : List Stmt} : TameBlock block → Bracketed rest → Bracketed (block ++ rest)
  | deferred {first second : Stmt} {before : Added} {function : String} {args : List Expr}
      {rest : List Stmt} : first.added? = some before → second.added? = some (.deferHook function args) →
      before.AnsweredBy function args → Bracketed rest → Bracketed (first :: second :: rest)
  | deferredFirst {first second : Stmt} {before : String} {args args' : List Expr} {function : String}
      {rest : List Stmt} : first.added? = some (.deferHook function args) →
      second.added? = some (.hook before args') → (Added.hook before args').AnsweredBy function args →
      Bracketed rest → Bracketed (first :: second :: rest)

/-! ### What is logged -/

/-- What the deferred calls may log. -/
inductive Undone {D : Type} : List (Deferred V D) → List (Event V) → Prop
  | nil : Undone [] []
  | own {d : D} {rest : List (Deferred V D)} {w w' : List (Event V)} : NestedLog w → Undone rest w' →
      Undone (.own d :: rest) (w ++ w')
  | hook {function : String} {args : List V} {answer : V} {rest : List (Deferred V D)}
      {w : List (Event V)} : Undone rest w →
      Undone (.hook function args :: rest) ({ function, args, answer } :: w)

/-- After `w`, and anything nested, the deferred calls complete a nested word. -/
def Closes {D : Type} (defers : List (Deferred V D)) (w : List (Event V)) : Prop :=
  ∀ m w', NestedLog m → Undone defers w' → NestedLog (w ++ (m ++ w'))

section Closes

variable {D : Type} {defers defers' : List (Deferred V D)} {w w' : List (Event V)}

theorem Undone.append (h : Undone (defers ++ defers') w) :
    ∃ v v', w = v ++ v' ∧ Undone defers v ∧ Undone defers' v' := by
  induction defers generalizing w with
  | nil => exact ⟨[], w, rfl, .nil, h⟩
  | cons d rest ih =>
    cases h with
    | @own d _ u u' hu hrest =>
      obtain ⟨v, v', rfl, hv, hv'⟩ := ih hrest
      exact ⟨u ++ v, v', by rw [List.append_assoc], .own hu hv, hv'⟩
    | hook hrest =>
      obtain ⟨v, v', rfl, hv, hv'⟩ := ih hrest
      exact ⟨_ :: v, v', rfl, .hook hv, hv'⟩

theorem Undone.nested_of_own {ds : List D} (h : Undone (ds.map Deferred.own) w) : NestedLog w := by
  induction ds generalizing w with
  | nil =>
    cases h
    exact .nil
  | cons d rest ih =>
    cases h with
    | own hu hrest => exact hu.append (ih hrest)

theorem Closes.of_nested {ds : List D} (h : NestedLog w) : Closes (ds.map Deferred.own) w :=
  fun _ _ hm hw' => h.append (hm.append hw'.nested_of_own)

theorem Closes.append (h : Closes defers w) (h' : Closes defers' w') :
    Closes (defers' ++ defers) (w ++ w') := by
  intro m v hm hv
  obtain ⟨u', u, rfl, hu', hu⟩ := hv.append
  have hinner : NestedLog (w' ++ (m ++ u')) := h' m u' hm hu'
  have hall := h _ u hinner hu
  simpa only [List.append_assoc] using hall

theorem Closes.deferred {function : String} {args : List V} {b : Event V}
    (hpairs : ∀ answer, Pairs b { function, args, answer }) :
    Closes (D := D) [.hook function args] [b] := by
  intro m w' hm hw'
  cases hw' with
  | hook hrest =>
    cases hrest
    exact .bracket (hpairs b.answer).opens (hpairs _) hm

end Closes

/-! ### Runs of blocks -/

/-- What was logged is nested. -/
def Logs (o o' : Observer V) : Prop := ∃ w, NestedLog w ∧ o'.log = o.log ++ w

theorem Logs.refl (o : Observer V) : Logs o o := ⟨[], .nil, (List.append_nil _).symm⟩

theorem Logs.trans (o o₁ o₂ : Observer V) (h : Logs o o₁) (h' : Logs o₁ o₂) : Logs o o₂ := by
  obtain ⟨w, hw, hlog⟩ := h
  obtain ⟨w', hw', hlog'⟩ := h'
  exact ⟨w ++ w', hw.append hw', by rw [hlog', hlog, List.append_assoc]⟩

section Runs

variable {F H S D : Type}

/-- What was logged is nested, only the program's own calls were deferred, and `vars` are as they were. -/
def Kept (vars : List String) (p q : Frame V S D × Observer V) : Prop :=
  Logs p.2 q.2 ∧ (∃ ds : List D, q.1.defers = ds.map .own ++ p.1.defers) ∧
    ∀ x ∈ vars, q.1.vars x = p.1.vars x

theorem Kept.refl (vars : List String) (p : Frame V S D × Observer V) : Kept vars p p :=
  ⟨.refl _, ⟨[], rfl⟩, fun _ _ => rfl⟩

theorem Kept.trans {vars : List String} {p q r : Frame V S D × Observer V} (h : Kept vars p q)
    (h' : Kept vars q r) : Kept vars p r := by
  obtain ⟨hlog, ⟨ds, hds⟩, hvars⟩ := h
  obtain ⟨hlog', ⟨ds', hds'⟩, hvars'⟩ := h'
  refine ⟨hlog.trans _ _ _ hlog', ⟨ds' ++ ds, ?_⟩, fun x hx => (hvars' x hx).trans (hvars x hx)⟩
  rw [hds', hds, List.map_append, List.append_assoc]

theorem Kept.mono {vars vars' : List String} {p q : Frame V S D × Observer V} (h : Kept vars p q)
    (hsub : ∀ x ∈ vars', x ∈ vars) : Kept vars' p q :=
  ⟨h.1, h.2.1, fun x hx => h.2.2 x (hsub x hx)⟩

/-- Every run of the computation, from the frame, keeps `vars`. -/
def Keeps (vars : List String) (fr : Frame V S D) (x : Computation (Observer V) (Flow V × Frame V S D)) :
    Prop :=
  ∀ o p, x o = some p → Kept vars (fr, o) (p.1.2, p.2)

theorem Keeps.pure (vars : List String) (flow : Flow V) (fr : Frame V S D) :
    Keeps vars fr (Pure.pure (flow, fr)) := by
  intro o p hp
  cases hp
  exact .refl vars _

theorem Keeps.bind {vars : List String} {fr : Frame V S D}
    {x : Computation (Observer V) (Flow V × Frame V S D)}
    {next : Flow V × Frame V S D → Computation (Observer V) (Flow V × Frame V S D)}
    (h : Keeps vars fr x) (hnext : ∀ flow fr', Keeps vars fr' (next (flow, fr'))) :
    Keeps vars fr (x >>= next) := by
  intro o p hp
  obtain ⟨q, hq, hlast⟩ := bind_eq_some_iff.mp hp
  exact (h o q hq).trans (hnext q.1.1 q.1.2 q.2 p hlast)

theorem inOrder_keeps {vars : List String} {body : List Stmt}
    {step : Stmt → Frame V S D → Computation (Observer V) (Flow V × Frame V S D)}
    (hstep : ∀ s ∈ body, ∀ fr, Keeps vars fr (step s fr)) (fr : Frame V S D) :
    Keeps vars fr (inOrder step body fr) := by
  induction body generalizing fr with
  | nil => exact .pure vars .next fr
  | cons s rest ih =>
    rw [List.forall_mem_cons] at hstep
    refine (hstep.1 fr).bind fun flow fr' => ?_
    cases flow with
    | next => exact ih hstep.2 fr'
    | _ => exact .pure vars _ fr'

theorem runLoop_keeps {vars : List String}
    {body : Frame V S D → Computation (Observer V) (Flow V × Frame V S D)}
    (hbody : ∀ fr, Keeps vars fr (body fr)) (iterations : List (S → S)) (fr : Frame V S D) :
    Keeps vars fr (runLoop body iterations fr) := by
  induction iterations generalizing fr with
  | nil => exact .pure vars .next fr
  | cons first rest ih =>
    intro o p hp
    obtain ⟨⟨⟨flow, last⟩, o'⟩, hq, hp⟩ := bind_eq_some_iff.mp hp
    obtain ⟨hlogs, hdefers, -⟩ := hbody _ o _ hq
    -- the scope is that of the loop again
    have hiteration : Kept vars (fr, o) ({ last with vars := fr.vars }, o') := ⟨hlogs, hdefers, fun _ _ => rfl⟩
    cases flow with
    | next => exact hiteration.trans (ih _ _ _ hp)
    | cont => exact hiteration.trans (ih _ _ _ hp)
    | _ =>
      cases hp
      exact hiteration

theorem goOn_some {σ : Type} {next : σ → Computation (Observer V) (Flow V × σ)}
    {x : Computation (Observer V) (Flow V × σ)} {o : Observer V} {p : (Flow V × σ) × Observer V}
    (h : (x >>= goOn next) o = some p) :
    ∃ q, x o = some q ∧ (q.1.1 = .next ∧ next q.1.2 q.2 = some p ∨ q.1.1 ≠ .next ∧ p = q) := by
  obtain ⟨⟨⟨flow, fr'⟩, o'⟩, hq, hlast⟩ := bind_eq_some_iff.mp h
  refine ⟨_, hq, ?_⟩
  cases flow with
  | next => exact .inl ⟨rfl, hlast⟩
  | _ =>
    cases hlast
    exact .inr ⟨by simp, rfl⟩

theorem inOrder_append {σ : Type} {step : Stmt → σ → Computation (Observer V) (Flow V × σ)}
    (l l' : List Stmt) (fr : σ) :
    inOrder step (l ++ l') fr = inOrder step l fr >>= goOn (inOrder step l') := by
  induction l generalizing fr with
  | nil => exact (pure_bind _ _).symm
  | cons s rest ih =>
    show step s fr >>= goOn (inOrder step (rest ++ l')) =
      (step s fr >>= goOn (inOrder step rest)) >>= goOn (inOrder step l')
    rw [bind_assoc]
    refine congrArg _ (funext fun q => ?_)
    obtain ⟨flow, fr'⟩ := q
    cases flow with
    | next => exact ih fr'
    | _ => exact (pure_bind _ _).symm

variable {M : Meaning F V H S D} {call : F × List V × H → Computation (Observer V) (Exit V × H)} {n : ℕ}

theorem runOwn_keeps (hcall : ∀ c, Moves Logs (call c)) (vars : List String) (s : Stmt)
    (fr : Frame V S D) : Keeps vars fr (runOwn M call n fr s) := by
  intro o p hp
  unfold runOwn at hp
  split at hp
  · obtain ⟨q, hq, hlast⟩ := bind_eq_some_iff.mp hp
    have hlogs := Calls.run_moves Logs.refl Logs.trans hcall _ o q hq
    obtain ⟨⟨outcome, own⟩, o'⟩ := q
    cases outcome with
    | ok values =>
      cases hlast
      exact ⟨hlogs, ⟨[], rfl⟩, fun _ _ => rfl⟩
    | error v =>
      cases hlast
      exact ⟨hlogs, ⟨[], rfl⟩, fun _ _ => rfl⟩
  · obtain ⟨q, hq, hlast⟩ := bind_eq_some_iff.mp hp
    have hlogs := Calls.run_moves Logs.refl Logs.trans hcall _ o q hq
    cases hlast
    exact ⟨hlogs, ⟨q.1.2.2, rfl⟩, fun _ _ => rfl⟩

variable [DecidableEq V] {hooks : List (Event V) → String → List V → V}

theorem runAdded_bind_keeps (hcall : ∀ c, Moves Logs (call c)) {vars declared : List String}
    {results : List Expr} (hvars : ∀ x ∈ vars, x ∉ declared) (fr : Frame V S D) :
    Keeps vars fr (runAdded M hooks call fr (.bind declared results)) := by
  intro o p hp
  obtain ⟨q, hq, hlast⟩ := bind_eq_some_iff.mp hp
  have hlogs := Calls.run_moves Logs.refl Logs.trans hcall _ o q hq
  obtain ⟨⟨outcome, own⟩, o'⟩ := q
  cases outcome with
  | ok values =>
    cases hlast
    exact ⟨hlogs, ⟨[], rfl⟩, fun x hx => Frame.bind_other _ values.toList (hvars x hx)⟩
  | error v =>
    cases hlast
    exact ⟨hlogs, ⟨[], rfl⟩, fun _ _ => rfl⟩

/-- A loop keeps what the statements in it keep. -/
theorem runTop_range_keeps (hcall : ∀ c, Moves Logs (call c)) {vars : List String} {clause : String}
    {body : List Stmt} {decs : List String}
    (hbody : ∀ fr, Keeps vars fr (inOrder (runStmt M hooks call n) body fr)) (fr : Frame V S D) :
    Keeps vars fr (runTop M hooks call n (.rangeStmt clause body decs) fr) := by
  intro o p hp
  obtain ⟨q, hq, hlast⟩ := bind_eq_some_iff.mp hp
  have hlogs := Calls.run_moves Logs.refl Logs.trans hcall _ o q hq
  obtain ⟨⟨outcome, own⟩, o'⟩ := q
  cases outcome with
  | ok iterations =>
    have hloop := runLoop_keeps hbody iterations { fr with own } o' p hlast
    exact ⟨hlogs.trans _ _ _ hloop.1, hloop.2.1, hloop.2.2⟩
  | error v =>
    cases hlast
    exact ⟨hlogs, ⟨[], rfl⟩, fun _ _ => rfl⟩

theorem runStmt_keeps (hcall : ∀ c, Moves Logs (call c)) {s : Stmt} (hs : s.added? = none)
    (vars : List String) (fr : Frame V S D) : Keeps vars fr (runStmt M hooks call n s fr) := by
  simp only [runStmt, hs]
  exact runOwn_keeps hcall vars s fr

/-- A statement of the program, with what the loop that it may be keeps. -/
theorem runTop_own_keeps (hcall : ∀ c, Moves Logs (call c)) {vars : List String} {s : Stmt}
    (hs : s.added? = none) (hloop : ∀ clause body decs, s = .rangeStmt clause body decs →
      ∀ fr, Keeps vars fr (inOrder (runStmt M hooks call n) body fr)) (fr : Frame V S D) :
    Keeps vars fr (runTop M hooks call n s fr) := by
  cases s with
  | rangeStmt clause body decs => exact runTop_range_keeps hcall (hloop clause body decs rfl) fr
  | _ => exact runStmt_keeps hcall hs vars fr

theorem runTop_calm_keeps (hcall : ∀ c, Moves Logs (call c)) {vars : List String} {s : Stmt}
    (hs : s.Calm vars) (fr : Frame V S D) : Keeps vars fr (runTop M hooks call n s fr) := by
  rcases hs with ⟨hown, hloop, -⟩ | ⟨declared, results, hadded, hvars⟩
  · refine runTop_own_keeps hcall hown (fun clause body decs hs => ?_) fr
    exact inOrder_keeps fun inner hinner => runStmt_keeps hcall (hloop clause body decs hs inner hinner) vars
  · rw [runTop_of_added hadded]
    exact runAdded_bind_keeps hcall hvars fr

/-! ### Hooks in pairs -/

theorem runAdded_hook (M : Meaning F V H S D) (hooks : List (Event V) → String → List V → V)
    (call : F × List V × H → Computation (Observer V) (Exit V × H)) (fr : Frame V S D) (function : String)
    (args : List Expr) (o : Observer V) : ∃ b : Event V, b.function = function ∧
      runAdded M hooks call fr (.hook function args) o =
        some ((.next, fr), { o with log := o.log ++ [b] }) :=
  ⟨⟨function, _, _⟩, rfl, rfl⟩

/-- The event of the hook after answers that of the hook before, where the variables that the latter
declares are as it left them. -/
theorem pairs_of_answeredBy (M : Meaning F V H S D) (hooks : List (Event V) → String → List V → V)
    (call : F × List V × H → Computation (Observer V) (Exit V × H)) {before : Added} {function : String}
    {args : List Expr} (hanswer : before.AnsweredBy function args) (fr : Frame V S D) (o : Observer V) :
    ∃ b fr', runAdded M hooks call fr before o = some ((.next, fr'), { o with log := o.log ++ [b] }) ∧
      before.called? = some b.function ∧ fr'.defers = fr.defers ∧
      ∀ fr₁ : Frame V S D, (∀ x ∈ before.declares, fr₁.vars x = fr'.vars x) →
        ∀ o₁ answer, Pairs b { function, args := args.map (fr₁.value M o₁), answer } := by
  cases before with
  | hook before bargs =>
    obtain ⟨mode, hmode, kind, hkind, rfl, rfl, hid⟩ := hanswer
    refine ⟨_, fr, rfl, rfl, rfl, fun fr₁ _ o₁ answer => ?_⟩
    exact ⟨mode, hmode, kind, hkind, rfl, rfl, fun h => absurd h hid⟩
  | bindHook vars before bargs =>
    obtain ⟨mode, hmode, kind, hkind, rfl, rfl, x, rfl, hx⟩ := hanswer
    refine ⟨_, _, rfl, rfl, rfl, fun fr₁ hfr₁ o₁ answer => ?_⟩
    refine ⟨mode, hmode, kind, hkind, rfl, rfl, fun _ => ?_⟩
    obtain ⟨rest, rfl⟩ := List.head?_eq_some_iff.mp hx
    have hvar := hfr₁ x (List.mem_singleton_self x)
    simp only [Frame.bind, List.zip_cons_cons, List.zip_nil_right, List.foldl_cons, List.foldl_nil,
      Function.update_self] at hvar
    simp only [List.map_cons, List.head?_cons, Frame.value, hvar]
  | deferHook function' args' => exact hanswer.elim
  | bind vars results => exact hanswer.elim
  | setObj => exact hanswer.elim
  | ret vars => exact hanswer.elim

/-- **A hook, statements and the hook that answers it.** -/
theorem straight_keeps (M : Meaning F V H S D) (hooks : List (Event V) → String → List V → V)
    (call : F × List V × H → Computation (Observer V) (Exit V × H))
    {step : Stmt → Frame V S D → Computation (Observer V) (Flow V × Frame V S D)} {first last : Stmt}
    {body : List Stmt} {before : Added} {function : String} {args : List Expr}
    (hfirst : ∀ fr, step first fr = runAdded M hooks call fr before)
    (hlast : ∀ fr, step last fr = runAdded M hooks call fr (.hook function args))
    (hanswer : before.AnsweredBy function args)
    (hbody : ∀ s ∈ body, ∀ fr, Keeps before.declares fr (step s fr)) (fr : Frame V S D) :
    Keeps [] fr (inOrder step (first :: (body ++ [last])) fr) := by
  intro o p hp
  obtain ⟨b, fr₁, hrun, -, hdefers, hpairs⟩ := pairs_of_answeredBy M hooks call hanswer fr o
  obtain ⟨q, hq, hrest⟩ := goOn_some hp
  rw [hfirst, hrun] at hq
  cases hq
  obtain ⟨-, hrest⟩ | ⟨hnext, -⟩ := hrest
  · rw [inOrder_append] at hrest
    obtain ⟨⟨⟨flow, fr₂⟩, o₂⟩, hq, hend⟩ := goOn_some hrest
    obtain ⟨⟨w, hw, hlog⟩, ⟨ds, hds⟩, hvars⟩ := inOrder_keeps hbody fr₁ _ _ hq
    dsimp only at hlog hds hvars hend
    obtain ⟨-, hend⟩ | ⟨-, rfl⟩ := hend
    · obtain ⟨q, hq, hend⟩ := goOn_some hend
      rw [hlast] at hq
      cases hq
      obtain ⟨-, hend⟩ | ⟨hnext, -⟩ := hend
      · cases hend
        have hpair := hpairs fr₂ hvars o₂ (hooks o₂.log function (args.map (fr₂.value M o₂)))
        refine ⟨⟨_, .bracket hpair.opens hpair hw, ?_⟩, ⟨ds, hds.trans (by rw [hdefers])⟩, by simp⟩
        show o₂.log ++ _ = _
        rw [hlog]
        simp
      · exact absurd rfl hnext
    · refine ⟨⟨b :: w, .opened (hpairs fr₂ hvars o₂ b.answer).opens hw, ?_⟩,
        ⟨ds, hds.trans (by rw [hdefers])⟩, by simp⟩
      show o₂.log = _
      rw [hlog]
      simp
  · exact absurd rfl hnext

/-- **A tame block.** -/
theorem tameBlock_keeps (hcall : ∀ c, Moves Logs (call c)) {block : List Stmt} (hblock : TameBlock block)
    (fr : Frame V S D) : Keeps [] fr (runBody M hooks call n block fr) := by
  cases hblock with
  | @own s hs hloop =>
    refine inOrder_keeps (List.forall_mem_singleton.mpr fun fr => ?_) fr
    refine runTop_own_keeps hcall hs (fun clause body decs hs fr => ?_) fr
    cases hloop clause body decs hs with
    | own hown => exact inOrder_keeps (fun inner hinner => runStmt_keeps hcall (hown inner hinner) []) fr
    | straight hfirst hlast hanswer hbody =>
      refine straight_keeps M hooks call (fun fr => ?_) (fun fr => ?_) hanswer
        (fun inner hinner => runStmt_keeps hcall (hbody inner hinner) _) fr
      · simp only [runStmt, hfirst]
      · simp only [runStmt, hlast]
  | @quiet s added hadded hquiet =>
    refine inOrder_keeps (List.forall_mem_singleton.mpr fun fr => ?_) fr
    rw [runTop_of_added hadded]
    cases added with
    | hook function args => exact hquiet.elim
    | deferHook function args => exact hquiet.elim
    | bindHook vars function args => exact hquiet.elim
    | bind vars results => exact runAdded_bind_keeps hcall (by simp) fr
    | setObj =>
      intro o p hp
      cases hp
      exact ⟨⟨[], .nil, (List.append_nil _).symm⟩, ⟨[], rfl⟩, by simp⟩
    | ret vars =>
      intro o p hp
      cases hp
      exact .refl [] _
  | @opened s mode kind args hmode hkind hadded =>
    refine inOrder_keeps (List.forall_mem_singleton.mpr fun fr => ?_) fr
    rw [runTop_of_added hadded]
    intro o p hp
    cases hp
    exact ⟨⟨_, .opened ⟨mode, hmode, kind, hkind, rfl⟩ .nil, rfl⟩, ⟨[], rfl⟩, by simp⟩
  | straight hfirst hlast hanswer hbody =>
    exact straight_keeps M hooks call (fun fr => runTop_of_added hfirst)
      (fun fr => runTop_of_added hlast) hanswer (fun inner hinner => runTop_calm_keeps hcall (hbody inner hinner)) fr

/-! ### Runs of functions -/

/-- A hook and a deferred one, in front of a body. -/
theorem runBody_deferred {first second : Stmt} {before : Added} {function : String} {args : List Expr}
    {rest : List Stmt} (hfirst : first.added? = some before)
    (hsecond : second.added? = some (.deferHook function args)) (hanswer : before.AnsweredBy function args)
    {fr : Frame V S D} {o : Observer V} {p : (Flow V × Frame V S D) × Observer V}
    (h : runBody M hooks call n (first :: second :: rest) fr o = some p) :
    ∃ b fr₂ o₂, o₂.log = o.log ++ [b] ∧
      fr₂.defers = .hook function (args.map (fr₂.value M o₂)) :: fr.defers ∧
      runBody M hooks call n rest fr₂ o₂ = some p ∧ before.called? = some b.function ∧
      ∀ answer, Pairs b { function, args := args.map (fr₂.value M o₂), answer } := by
  obtain ⟨b, fr₁, hrun, hcalled, hdefers, hpairs⟩ := pairs_of_answeredBy M hooks call hanswer fr o
  obtain ⟨q, hq, h⟩ := goOn_some h
  rw [runTop_of_added hfirst, hrun] at hq
  cases hq
  obtain ⟨-, h⟩ | ⟨hnext, -⟩ := h
  · obtain ⟨q, hq, h⟩ := goOn_some h
    rw [runTop_of_added hsecond] at hq
    cases hq
    obtain ⟨-, h⟩ | ⟨hnext, -⟩ := h
    · exact ⟨b, _, _, rfl, congrArg _ hdefers, h, hcalled, hpairs fr₁ (fun _ _ => rfl) _⟩
    · exact absurd rfl hnext
  · exact absurd rfl hnext

/-- What a body logs, and what it leaves to the deferred calls. -/
theorem runBody_closes (hcall : ∀ c, Moves Logs (call c)) {body : List Stmt} (hbody : Bracketed body)
    {fr : Frame V S D} {o : Observer V} {p : (Flow V × Frame V S D) × Observer V}
    (h : runBody M hooks call n body fr o = some p) :
    ∃ w defers, p.2.log = o.log ++ w ∧ p.1.2.defers = defers ++ fr.defers ∧ Closes defers w := by
  induction hbody generalizing fr o with
  | nil =>
    cases h
    have hnil : Closes (([] : List D).map .own) ([] : List (Event V)) := .of_nested .nil
    exact ⟨[], [], (List.append_nil _).symm, rfl, hnil⟩
  | block hblock _ ih =>
    unfold runBody at h
    rw [inOrder_append] at h
    obtain ⟨q, hq, hrest⟩ := goOn_some h
    obtain ⟨⟨w, hw, hlog⟩, ⟨ds, hds⟩, -⟩ := tameBlock_keeps hcall hblock fr o q hq
    obtain ⟨-, hrest⟩ | ⟨-, rfl⟩ := hrest
    · obtain ⟨w', defers, hlog', hdefers, hcloses⟩ := ih hrest
      refine ⟨w ++ w', defers ++ ds.map .own, ?_, ?_, (Closes.of_nested hw).append hcloses⟩
      · rw [hlog', hlog, List.append_assoc]
      · rw [hdefers, hds, List.append_assoc]
    · exact ⟨w, ds.map .own, hlog, hds, .of_nested hw⟩
  | deferred hfirst hsecond hanswer _ ih =>
    obtain ⟨b, fr₂, o₂, hlog₂, hdefers₂, hrest, -, hpairs⟩ := runBody_deferred hfirst hsecond hanswer h
    obtain ⟨w, defers, hlog, hdefers, hcloses⟩ := ih hrest
    have hdeferred := Closes.deferred (D := D) hpairs
    refine ⟨b :: w, _, ?_, ?_, hdeferred.append hcloses⟩
    · rw [hlog, hlog₂, List.append_assoc, List.singleton_append]
    · rw [hdefers, hdefers₂, List.append_assoc, List.singleton_append]
  | @deferredFirst first second before args args' function rest hfirst hsecond hanswer _ ih =>
    obtain ⟨q, hq, h⟩ := goOn_some h
    rw [runTop_of_added hfirst] at hq
    cases hq
    obtain ⟨-, h⟩ | ⟨hnext, -⟩ := h
    · obtain ⟨b, hb, hrun⟩ := runAdded_hook M hooks call
        { fr with defers := .hook function (args.map (fr.value M o)) :: fr.defers } before args' o
      obtain ⟨q, hq, h⟩ := goOn_some h
      rw [runTop_of_added hsecond] at hq
      replace hq := hrun.symm.trans hq
      cases hq
      obtain ⟨-, h⟩ | ⟨hnext, -⟩ := h
      · obtain ⟨w, defers, hlog, hdefers, hcloses⟩ := ih h
        obtain ⟨mode, hmode, kind, hkind, hbefore, rfl, hid⟩ := hanswer
        have hdeferred : Closes (D := D) [.hook (afterName mode kind) (args.map (fr.value M o))] [b] :=
          .deferred fun answer => ⟨mode, hmode, kind, hkind, hb.trans hbefore, rfl, fun h => absurd h hid⟩
        exact ⟨b :: w, _, by rw [hlog]; simp, by rw [hdefers]; simp, hdeferred.append hcloses⟩
      · exact absurd rfl hnext
    · exact absurd rfl hnext

omit [DecidableEq V] in
theorem runDefers_log (hcall : ∀ c, Moves Logs (call c)) {defers : List (Deferred V D)} {e : Exit V}
    {s : S} {o : Observer V} {p : (Exit V × S) × Observer V}
    (h : runDefers M hooks call defers e s o = some p) : ∃ w, Undone defers w ∧ p.2.log = o.log ++ w := by
  induction defers generalizing e s o with
  | nil =>
    cases h
    exact ⟨[], .nil, (List.append_nil _).symm⟩
  | cons d rest ih =>
    cases d with
    | own d =>
      obtain ⟨q, hq, hrest⟩ := bind_eq_some_iff.mp h
      obtain ⟨w, hw, hlog⟩ := Calls.run_moves Logs.refl Logs.trans hcall _ o q hq
      obtain ⟨w', hw', hlog'⟩ := ih hrest
      exact ⟨w ++ w', .own hw hw', by rw [hlog', hlog, List.append_assoc]⟩
    | hook function args =>
      obtain ⟨q, hq, hrest⟩ := bind_eq_some_iff.mp h
      cases hq
      obtain ⟨w', hw', hlog'⟩ := ih hrest
      exact ⟨_, .hook hw', hlog'.trans (List.append_assoc ..)⟩

/-- **A function** logs a nested word. -/
theorem runFunc_logs (hcall : ∀ c, Moves Logs (call c)) {decl : FuncDecl} (hdecl : Bracketed decl.body)
    (f : F) (args : List V) (h : H) : Moves Logs (runFunc M hooks call decl f args h) := by
  intro o p hp
  obtain ⟨q, hq, hp⟩ := bind_eq_some_iff.mp hp
  obtain ⟨w, defers, hlog, hdefers, hcloses⟩ := runBody_closes hcall hdecl hq
  obtain ⟨r, hr, hp⟩ := bind_eq_some_iff.mp hp
  obtain ⟨w', hw', hlog'⟩ := runDefers_log hcall hr
  cases hp
  rw [hdefers, List.append_nil] at hw'
  refine ⟨w ++ w', hcloses [] w' .nil hw', ?_⟩
  rw [hlog', hlog, List.append_assoc]

theorem run_logs {P : F → Option FuncDecl} (hP : ∀ f decl, P f = some decl → Bracketed decl.body) (k : ℕ)
    (c : F × List V × H) : Moves Logs (run M hooks P k c) := by
  induction k generalizing c with
  | zero => exact nofun
  | succ k ih =>
    obtain ⟨f, args, h⟩ := c
    unfold run
    cases hdecl : P f with
    | none => exact nofun
    | some decl => exact runFunc_logs ih (hP f decl hdecl) f args h

end Runs

end Sieve.Instrumentation
