import Sieve.Instrumentation.Brackets
import Sieve.Instrumentation.Erased
import Sieve.Instrumentation.Shapes

/-!
# The bodies that the passes write are sound

* `FuncDecl.Unmarked`: functions as they are given, which mention none of the names that the passes declare;
* `Sound M decl decl'`: `decl'` is `decl` with statements of the passes, all in their places;
* `Sound.enclosed`: two statements in front of a sound body, the second deferred;
* `deltas_sound`, `request_sound`, `cacheGet_sound`, `cacheListing_sound`, `watchCache_sound`: what the other
  passes make of a body that has no statements of theirs yet;
* `Step`: the functions of a file before and after some passes.
-/

namespace Sieve.Instrumentation

open Library

variable {F V H S D : Type} {M : Meaning F V H S D} {X : List String} {decl decl' : FuncDecl} {n : ℕ}

/-- The names that the passes declare in any function, their package, and `goto`. -/
def reserved : List String :=
  ["invocationIDVar", "recvID", "operationID", "resultObj", "decodingError", "sieve", "goto"]

/-- A statement of the program that mentions none of `X`. -/
structure Stmt.Given (X : List String) (s : Stmt) : Prop where
  own : s.Own
  clear : Clear X s.words

/-- No statement is one of the passes', and neither they nor the parameters have a name of `X`. -/
structure FuncDecl.Unmarked (X : List String) (decl : FuncDecl) : Prop where
  given : ∀ s ∈ decl.body, s.Given X
  declared : Clear X decl.declared

structure Sound (M : Meaning F V H S D) (decl decl' : FuncDecl) : Prop where
  name : decl'.name = decl.name
  erase : decl'.erase = decl.erase
  wellMarked : ∃ X, reserved ⊆ X ∧ WellMarked M X decl'.results decl'.body
  bracketed : Bracketed decl'.body

/-! ### Statements of the program in front -/

theorem erase_own_append {before rest : List Stmt} (h : ∀ s ∈ before, s.Given X) :
    erase (before ++ rest) = before.map Stmt.erase ++ erase rest := by
  induction before with
  | nil => rfl
  | cons s before ih =>
    rw [List.forall_mem_cons] at h
    rw [List.cons_append, Instrumentation.erase, h.1.own.added]
    exact congrArg _ (ih h.2)

theorem clear_of_mem_stmtsWords {body : List Stmt} (h : Clear X (stmtsWords body)) :
    ∀ s ∈ body, Clear X s.words := by
  induction body with
  | nil => exact fun s hs => absurd hs List.not_mem_nil
  | cons s body ih =>
    rw [stmtsWords, Clear, List.forall_mem_append] at h
    exact List.forall_mem_cons.mpr ⟨h.1, ih h.2⟩

/-- What a loop of the program mentions. -/
theorem Stmt.Given.loop {clause : String} {body : List Stmt} {decs : List String}
    (h : (Stmt.rangeStmt clause body decs).Given X) : Clear X (textWords clause) ∧
      ∀ inner ∈ body, inner.added? = none ∧ Clear X inner.words := by
  have hclear := h.clear
  rw [Stmt.words, Clear, List.forall_mem_append] at hclear
  exact ⟨hclear.1, fun inner hinner =>
    ⟨h.own.loop clause body decs rfl inner hinner, clear_of_mem_stmtsWords hclear.2 inner hinner⟩⟩

theorem Stmt.WellMarked.of_own {s : Stmt} (h : s.added? = none ∧ Clear X s.words) : s.WellMarked M X where
  own _ := h.2
  added added hadded := by
    rw [h.1] at hadded
    cases hadded

theorem Stmt.WellMarked.of_added {s : Stmt} {added : Added} (hadded : s.added? = some added)
    (h : added.Silent M ∧ added.declares ⊆ X) : s.WellMarked M X where
  own hown := by
    rw [hadded] at hown
    cases hown
  added added' hadded' := by
    obtain rfl := Option.some.inj (hadded.symm.trans hadded')
    exact h

theorem Stmt.Given.ownMarked {s : Stmt} (h : s.Given X) : s.OwnMarked M X := by
  cases s with
  | rangeStmt clause body decs =>
    obtain ⟨hclause, hbody⟩ := h.loop
    exact ⟨hclause, fun inner hinner => .of_own (hbody inner hinner)⟩
  | _ => exact h.clear

theorem WellMarked.own_append {before rest : List Stmt} (h : ∀ s ∈ before, s.Given X)
    (hrest : WellMarked M X n rest) : WellMarked M X n (before ++ rest) := by
  induction before with
  | nil => exact hrest
  | cons s before ih =>
    rw [List.forall_mem_cons] at h
    rw [List.cons_append, WellMarked, h.1.own.added]
    exact ⟨h.1.ownMarked, ih h.2⟩

theorem Bracketed.own_append {before rest : List Stmt} (h : ∀ s ∈ before, s.Given X)
    (hrest : Bracketed rest) : Bracketed (before ++ rest) := by
  induction before with
  | nil => exact hrest
  | cons s before ih =>
    rw [List.forall_mem_cons] at h
    have hown := h.1.own
    have hblock : TameBlock [s] :=
      .own hown.added fun clause body decs hs => .own (hown.loop clause body decs hs)
    show Bracketed ([s] ++ (before ++ rest))
    exact .block hblock (ih h.2)

theorem sound_of_unmarked (h : decl.Unmarked X) (hX : reserved ⊆ X) : Sound M decl decl where
  name := rfl
  erase := rfl
  wellMarked := by
    have hown : WellMarked M X decl.results (decl.body ++ []) := .own_append h.given trivial
    rw [List.append_nil] at hown
    exact ⟨X, hX, hown⟩
  bracketed := by
    have hown := Bracketed.own_append h.given .nil
    rwa [List.append_nil] at hown

/-! ### Statements of the passes -/

@[simp] theorem added?_notifyStmt (function : String) (args : List String) :
    (notifyStmt function args).added? = some (.hook function (names args)) := by
  simp [notifyStmt, notify, Stmt.added?, Stmt.decs, sieve, Stmt.addition?, Expr.notified?, names]

@[simp] theorem added?_deferNotify (function : String) (args : List String) :
    (deferNotify function args).added? = some (.deferHook function (names args)) := by
  simp [deferNotify, notify, Stmt.added?, Stmt.decs, sieve, Stmt.addition?, Expr.notified?, names]

@[simp] theorem added?_assignNotify (x function : String) (args : List String) :
    (assignNotify x function args).added? = some (.bindHook [x] function (names args)) := by
  simp [assignNotify, notify, Stmt.added?, Stmt.decs, sieve, Stmt.addition?, Expr.notified?, names,
    Expr.name?]

@[simp] theorem added?_resultGet : resultGet.added? = some (.bind ["resultObj", "decodingError"]
    [.callExpr (.ident "result.Get" "") []]) := by
  simp [resultGet, Stmt.added?, Stmt.decs, sieve, Stmt.addition?, Expr.notified?, names, Expr.name?]

theorem erase_return {s : Stmt} {vars : List String} {results : List Expr} {rest : List Stmt}
    (h : s.added? = some (.bind vars results)) (hends : endsReturn vars rest = true) :
    erase (s :: rest) = [.returnStmt results []] := by
  rw [Instrumentation.erase, h]
  simp only [hends, if_true]

theorem wellMarked_return {s : Stmt} {vars : List String} {results : List Expr} {rest : List Stmt}
    (h : s.added? = some (.bind vars results)) (hends : endsReturn vars rest = true) (hvars : vars ⊆ X)
    (hresults : Clear X (exprsWords results)) (hlength : vars.length = n) (hnodup : vars.Nodup) :
    WellMarked M X n (s :: rest) := by
  rw [WellMarked, h]
  simp only [hends, if_true]
  exact ⟨hvars, hresults, hlength, hnodup⟩

/-- A hook, or the declaration of its answer, in front. -/
theorem erase_hook {s : Stmt} {rest : List Stmt} {added : Added} (h : s.added? = some added)
    (hbind : ∀ vars results, added ≠ .bind vars results) :
    erase (s :: rest) = erase rest := by
  rw [Instrumentation.erase, h]
  cases added with
  | bind vars results => exact absurd rfl (hbind vars results)
  | _ => rfl

theorem wellMarked_hook {s : Stmt} {rest : List Stmt} {added : Added} (h : s.added? = some added)
    (hbind : ∀ vars results, added ≠ .bind vars results) (hret : ∀ vars, added ≠ .ret vars)
    (hdeclares : added.declares ⊆ X) (hrest : WellMarked M X n rest) : WellMarked M X n (s :: rest) := by
  rw [WellMarked, h]
  cases added with
  | bind vars results => exact absurd rfl (hbind vars results)
  | ret vars => exact absurd rfl (hret vars)
  | _ => exact ⟨⟨trivial, hdeclares⟩, hrest⟩

theorem erase_notifyStmt (function : String) (args : List String) (rest : List Stmt) :
    erase (notifyStmt function args :: rest) = erase rest :=
  erase_hook (added?_notifyStmt function args) nofun

theorem erase_deferNotify (function : String) (args : List String) (rest : List Stmt) :
    erase (deferNotify function args :: rest) = erase rest :=
  erase_hook (added?_deferNotify function args) nofun

theorem erase_assignNotify (x function : String) (args : List String) (rest : List Stmt) :
    erase (assignNotify x function args :: rest) = erase rest :=
  erase_hook (added?_assignNotify x function args) nofun

theorem wellMarked_notifyStmt (function : String) (args : List String) {rest : List Stmt}
    (h : WellMarked M X n rest) : WellMarked M X n (notifyStmt function args :: rest) :=
  wellMarked_hook (added?_notifyStmt function args) nofun nofun (List.nil_subset _) h

theorem wellMarked_deferNotify (function : String) (args : List String) {rest : List Stmt}
    (h : WellMarked M X n rest) : WellMarked M X n (deferNotify function args :: rest) :=
  wellMarked_hook (added?_deferNotify function args) nofun nofun (List.nil_subset _) h

theorem wellMarked_assignNotify {x : String} (hx : x ∈ X) (function : String) (args : List String)
    {rest : List Stmt} (h : WellMarked M X n rest) : WellMarked M X n (assignNotify x function args :: rest) :=
  wellMarked_hook (added?_assignNotify x function args) nofun nofun
    (List.cons_subset.mpr ⟨hx, List.nil_subset _⟩) h

theorem sound_setBody {body : List Stmt} (hX : reserved ⊆ X) (herase : erase body = erase decl.body)
    (hmarked : WellMarked M X decl.results body) (hbracketed : Bracketed body) :
    Sound M decl (decl.setBody body) where
  name := rfl
  erase := congrArg (fun body => { decl with body }) herase
  wellMarked := ⟨X, hX, hmarked⟩
  bracketed := hbracketed

/-! ### The passes -/

section Passes

variable {mode kind : String} {args : List String}

/-- **Around a function**: a hook and a deferred hook. -/
theorem Sound.enclosed (h : Sound M decl decl') (hmode : mode ∈ modes) (hkind : kind ∈ kinds)
    (hid : kind ∉ withId) (args' : List String) :
    Sound M decl (decl'.setBody (notifyStmt (beforeName mode kind) args ::
      deferNotify (afterName mode kind) args' :: decl'.body)) where
  name := h.name
  erase := by
    rw [← h.erase]
    refine congrArg (fun body => { decl' with body }) ?_
    show Instrumentation.erase (_ :: _ :: _) = _
    rw [erase_notifyStmt, erase_deferNotify]
  wellMarked := by
    obtain ⟨X, hX, hmarked⟩ := h.wellMarked
    exact ⟨X, hX, wellMarked_notifyStmt _ _ (wellMarked_deferNotify _ _ hmarked)⟩
  bracketed := .deferred (added?_notifyStmt ..) (added?_deferNotify ..)
    ⟨mode, hmode, kind, hkind, rfl, rfl, hid⟩ h.bracketed

/-- Around a function, with the id that the hook before returns. -/
theorem Sound.enclosedWithId (h : Sound M decl decl') (hmode : mode ∈ modes) (hkind : kind ∈ kinds)
    {x : String} (hx : x ∈ reserved) (args' : List String) :
    Sound M decl (decl'.setBody (assignNotify x (beforeName mode kind) args ::
      deferNotify (afterName mode kind) (x :: args') :: decl'.body)) where
  name := h.name
  erase := by
    rw [← h.erase]
    refine congrArg (fun body => { decl' with body }) ?_
    show Instrumentation.erase (_ :: _ :: _) = _
    rw [erase_assignNotify, erase_deferNotify]
  wellMarked := by
    obtain ⟨X, hX, hmarked⟩ := h.wellMarked
    exact ⟨X, hX, wellMarked_assignNotify (hX hx) _ _ (wellMarked_deferNotify _ _ hmarked)⟩
  bracketed := .deferred (added?_assignNotify ..) (added?_deferNotify ..)
    ⟨mode, hmode, kind, hkind, rfl, rfl, x, rfl, rfl⟩ h.bracketed

theorem filter_deltaLoop {inner : List Stmt} :
    (deltaLoop mode inner).filter (fun s => s.added?.isNone) = inner.filter fun s => s.added?.isNone := by
  simp [deltaLoop]

theorem deltas_sound (hmode : mode ∈ modes) (hX : reserved ⊆ X) (h : decl.Unmarked X)
    {before inner after : List Stmt} {clause : String} {decs : List String}
    (hbody : decl.body = before ++ .rangeStmt clause inner decs :: after) :
    Sound M decl (decl.setBody (before ++ .rangeStmt clause (deltaLoop mode inner) decs :: after)) := by
  have hgiven := h.given
  rw [hbody, List.forall_mem_append, List.forall_mem_cons] at hgiven
  obtain ⟨hbefore, hloop, hafter⟩ := hgiven
  obtain ⟨hclause, hinner⟩ := hloop.loop
  have hadded : ∀ inner, (Stmt.rangeStmt clause inner decs).added? = none := by
    intro inner
    unfold Stmt.added?
    split <;> rfl
  refine sound_setBody hX ?_ (.own_append hbefore ?_) (.own_append hbefore ?_)
  · rw [hbody, erase_own_append hbefore, erase_own_append hbefore, Instrumentation.erase,
      Instrumentation.erase, hadded, hadded]
    simp only [Stmt.erase, filter_deltaLoop]
  · rw [WellMarked, hadded]
    have hrest : WellMarked M X decl.results (after ++ []) := .own_append hafter trivial
    rw [List.append_nil] at hrest
    refine ⟨⟨hclause, fun s hs => ?_⟩, hrest⟩
    rw [deltaLoop, List.mem_cons, List.mem_append, List.mem_singleton] at hs
    obtain rfl | hs | rfl := hs
    · exact .of_added (added?_assignNotify ..)
        ⟨trivial, List.cons_subset.mpr ⟨hX (by decide), List.nil_subset _⟩⟩
    · exact .of_own (hinner s hs)
    · exact .of_added (added?_notifyStmt ..) ⟨trivial, List.nil_subset _⟩
  · have hrest : Bracketed (after ++ []) := .own_append hafter .nil
    rw [List.append_nil] at hrest
    have hblock : TameBlock [.rangeStmt clause (deltaLoop mode inner) decs] := by
      refine .own (hadded _) fun clause' body decs' hs => ?_
      obtain ⟨rfl, rfl, rfl⟩ := Stmt.rangeStmt.inj hs
      exact .straight (added?_assignNotify ..) (added?_notifyStmt ..)
        ⟨mode, hmode, "ControllerRecv", by decide, rfl, rfl, "recvID", rfl, rfl⟩ fun s hs => (hinner s hs).1
    exact Bracketed.block hblock hrest

theorem requestBody_sound (hX : reserved ⊆ X) (h : decl.Unmarked X) :
    Sound M decl (decl.setBody (.assignStmt (names ["r.obj"]) .assign (names ["obj"]) sieve :: decl.body)) := by
  have hadded : (Stmt.assignStmt (names ["r.obj"]) .assign (names ["obj"]) sieve).added? = some .setObj := by
    simp [Stmt.added?, Stmt.decs, sieve, Stmt.addition?]
  have hmarked : WellMarked M X decl.results (decl.body ++ []) := .own_append h.given trivial
  have hbracketed : Bracketed (decl.body ++ []) := .own_append h.given .nil
  rw [List.append_nil] at hmarked hbracketed
  have hblock : TameBlock [.assignStmt (names ["r.obj"]) .assign (names ["obj"]) sieve] :=
    .quiet hadded trivial
  exact sound_setBody hX (erase_hook hadded nofun)
    (wellMarked_hook hadded nofun nofun (List.nil_subset _) hmarked) (Bracketed.block hblock hbracketed)

theorem endsReturn_own {vars : List String} {s : Stmt} {rest : List Stmt} (h : ∀ s ∈ rest, s.Given X) :
    endsReturn vars (s :: rest) = false := by
  cases rest with
  | nil => rfl
  | cons last rest =>
    cases rest with
    | nil =>
      have hlast := (h last (List.mem_singleton_self last)).own.added
      simp [endsReturn, hlast]
    | cons _ _ => rfl

/-- `M.Pure` says that `result.Get` has two results and no effects. -/
theorem requestDo_sound (hmode : mode ∈ modes) (hX : reserved ⊆ X) (h : decl.Unmarked X)
    (hget : M.Pure 2 [.callExpr (.ident "result.Get" "") []]) {before after : List Stmt} {s : Stmt}
    (hbody : decl.body = before ++ s :: after) :
    Sound M decl (decl.setBody
      (beforeRest mode :: (before ++ s :: resultGet :: afterRest mode :: after))) := by
  have hfront : ∀ t ∈ before ++ [s], t.Given X := by
    intro t ht
    refine h.given t (hbody ▸ ?_)
    rw [List.mem_append, List.mem_singleton] at ht
    rw [List.mem_append, List.mem_cons]
    exact ht.imp_right .inl
  have hafter : ∀ t ∈ after, t.Given X := fun t ht =>
    h.given t (hbody ▸ List.mem_append_right _ (List.mem_cons_of_mem _ ht))
  have hshape : before ++ s :: resultGet :: afterRest mode :: after =
      (before ++ [s]) ++ resultGet :: afterRest mode :: after := by simp
  have hends : endsReturn ["resultObj", "decodingError"] (afterRest mode :: after) = false :=
    endsReturn_own hafter
  have hrest : WellMarked M X decl.results (after ++ []) := .own_append hafter trivial
  have hbracketed : Bracketed (after ++ []) := .own_append hafter .nil
  rw [List.append_nil] at hrest hbracketed
  refine sound_setBody hX ?_ ?_ ?_
  · rw [beforeRest, erase_assignNotify, hshape, erase_own_append hfront, Instrumentation.erase,
      added?_resultGet]
    simp only [hends, Bool.false_eq_true, if_false]
    rw [afterRest, erase_notifyStmt, hbody, ← erase_own_append hfront, List.append_assoc]
    rfl
  · refine wellMarked_assignNotify (hX (by decide)) _ _ ?_
    rw [hshape]
    refine .own_append hfront ?_
    rw [WellMarked, added?_resultGet]
    simp only [hends, Bool.false_eq_true, if_false]
    exact ⟨List.cons_subset.mpr ⟨hX (by decide), List.cons_subset.mpr ⟨hX (by decide), List.nil_subset _⟩⟩,
      hget, wellMarked_notifyStmt _ _ hrest⟩
  · have hblock : TameBlock (beforeRest mode :: ((before ++ [s]) ++ [resultGet] ++ [afterRest mode])) := by
      refine .straight (added?_assignNotify ..) (added?_notifyStmt ..)
        ⟨mode, hmode, "RestCall", by decide, rfl, rfl, "operationID", rfl, rfl⟩ fun t ht => ?_
      rw [List.mem_append, List.mem_singleton] at ht
      obtain ht | rfl := ht
      · exact .inl (hfront t ht).own
      · exact .inr ⟨_, _, added?_resultGet, by simp [Added.declares]⟩
    have hall := Bracketed.block hblock hbracketed
    simpa using hall

theorem cacheGet_sound (hmode : mode ∈ modes) (hX : reserved ⊆ X) (h : decl.Unmarked X) {s : Stmt}
    {rest : List Stmt} (hbody : decl.body = s :: rest) (args' : List String) :
    Sound M decl (decl.setBody (notifyStmt (beforeName mode "CacheGet") args :: s ::
      notifyStmt (afterName mode "CacheGet") args' :: rest)) := by
  have hgiven := h.given
  rw [hbody, List.forall_mem_cons] at hgiven
  obtain ⟨hs, hrest⟩ := hgiven
  have hfront : ∀ t ∈ [s], t.Given X := List.forall_mem_singleton.mpr hs
  have hmarked : WellMarked M X decl.results (rest ++ []) := .own_append hrest trivial
  have hbracketed : Bracketed (rest ++ []) := .own_append hrest .nil
  rw [List.append_nil] at hmarked hbracketed
  refine sound_setBody hX ?_ (wellMarked_notifyStmt _ _ ?_) ?_
  · rw [erase_notifyStmt, ← List.singleton_append, erase_own_append hfront, erase_notifyStmt,
      ← erase_own_append hfront, hbody, List.singleton_append]
  · exact WellMarked.own_append hfront (wellMarked_notifyStmt _ _ hmarked)
  · have hblock : TameBlock (notifyStmt (beforeName mode "CacheGet") args ::
        ([s] ++ [notifyStmt (afterName mode "CacheGet") args'])) :=
      .straight (added?_notifyStmt ..) (added?_notifyStmt ..)
        ⟨mode, hmode, "CacheGet", by decide, rfl, rfl, by decide⟩ fun t ht => .inl (hfront t ht).own
    exact Bracketed.block hblock hbracketed

theorem names_filterMap (vars : List String) : (names vars).filterMap Expr.name? = vars := by
  induction vars with
  | nil => rfl
  | cons x vars ih => exact congrArg (x :: ·) ih

theorem cacheListing_sound (hmode : mode ∈ modes) (hX : reserved ⊆ X) (h : decl.Unmarked X)
    {vars args' : List String} {before : List Stmt} {results : List Expr} {decs : List String}
    (hbody : decl.body = before ++ [.returnStmt results decs]) (hvars : vars ⊆ X)
    (hlength : vars.length = decl.results) (hnodup : vars.Nodup) :
    Sound M decl (decl.setBody (notifyStmt (beforeName mode "CacheList") args :: (before ++
      [.assignStmt (names vars) .define results sieve, notifyStmt (afterName mode "CacheList") args',
        .returnStmt (names vars) sieve]))) := by
  have hgiven := h.given
  rw [hbody, List.forall_mem_append, List.forall_mem_singleton] at hgiven
  obtain ⟨hbefore, hreturn⟩ := hgiven
  have hbind : (Stmt.assignStmt (names vars) .define results sieve).added? = some (.bind vars results) := by
    simp [Stmt.added?, Stmt.decs, sieve, Stmt.addition?, hreturn.own.results results decs rfl,
      names_filterMap]
  have hret : (Stmt.returnStmt (names vars) sieve).added? = some (.ret vars) := by
    simp [Stmt.added?, Stmt.decs, sieve, Stmt.addition?, names_filterMap]
  have hends : endsReturn vars [notifyStmt (afterName mode "CacheList") args',
      .returnStmt (names vars) sieve] = true := by
    simp [endsReturn, hret]
  refine sound_setBody hX ?_ (wellMarked_notifyStmt _ _ (.own_append hbefore ?_)) ?_
  · have hlast : erase [.returnStmt results decs] = [.returnStmt results []] := by
      rw [Instrumentation.erase, hreturn.own.added]
      rfl
    rw [erase_notifyStmt, erase_own_append hbefore, erase_return hbind hends, hbody,
      erase_own_append hbefore, hlast]
  · exact wellMarked_return hbind hends hvars hreturn.clear hlength hnodup
  · have hblock : TameBlock (notifyStmt (beforeName mode "CacheList") args ::
        ((before ++ [.assignStmt (names vars) .define results sieve]) ++
          [notifyStmt (afterName mode "CacheList") args'])) := by
      refine .straight (added?_notifyStmt ..) (added?_notifyStmt ..)
        ⟨mode, hmode, "CacheList", by decide, rfl, rfl, by decide⟩ fun t ht => ?_
      rw [List.mem_append, List.mem_singleton] at ht
      obtain ht | rfl := ht
      · exact .inl (hbefore t ht).own
      · exact .inr ⟨vars, results, hbind, by simp [Added.declares]⟩
    have hlast : TameBlock [.returnStmt (names vars) sieve] := .quiet hret trivial
    have hall := Bracketed.block hblock (.block hlast .nil)
    simpa using hall

/-- The hook after the event is deferred before the hook before it is called. -/
theorem watchCache_sound (hmode : mode ∈ modes) (hX : reserved ⊆ X) (h : decl.Unmarked X)
    {before after : List Stmt} (hbody : decl.body = before ++ after) (instrumentAfter : Bool) :
    Sound M decl (decl.setBody (before ++
      (if instrumentAfter then [deferNotify (afterName mode "APIServerRecv") args] else []) ++
      [notifyStmt (beforeName mode "APIServerRecv") args] ++ after)) := by
  have hgiven := h.given
  rw [hbody, List.forall_mem_append] at hgiven
  obtain ⟨hbefore, hafter⟩ := hgiven
  have hmarked : WellMarked M X decl.results (after ++ []) := .own_append hafter trivial
  have hbracketed : Bracketed (after ++ []) := .own_append hafter .nil
  rw [List.append_nil] at hmarked hbracketed
  have hlast := wellMarked_notifyStmt (beforeName mode "APIServerRecv") args hmarked
  cases instrumentAfter with
  | false =>
    simp only [Bool.false_eq_true, if_false, List.append_nil, List.append_assoc, List.singleton_append]
    have hblock : TameBlock [notifyStmt (beforeName mode "APIServerRecv") args] :=
      .opened hmode (by decide) (added?_notifyStmt ..)
    refine sound_setBody hX ?_ (.own_append hbefore hlast)
      (.own_append hbefore (Bracketed.block hblock hbracketed))
    rw [erase_own_append hbefore, erase_notifyStmt, hbody, erase_own_append hbefore]
  | true =>
    simp only [if_true, List.append_assoc, List.cons_append, List.nil_append]
    refine sound_setBody hX ?_ (.own_append hbefore (wellMarked_deferNotify _ _ hlast))
      (.own_append hbefore (.deferredFirst (added?_deferNotify ..) (added?_notifyStmt ..)
        ⟨mode, hmode, "APIServerRecv", by decide, rfl, rfl, by decide⟩ hbracketed))
    rw [erase_own_append hbefore, erase_deferNotify, erase_notifyStmt, hbody, erase_own_append hbefore]

end Passes

end Sieve.Instrumentation
