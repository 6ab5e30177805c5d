import Sieve.Instrumentation.Passes
import Sieve.Library.FoldExcept

/-!
# What the passes write

Every pass replaces the body of at most one method and leaves the other functions of the file as they are:

* `Replaces f f' name R`: a function of `f'` is that of `f`, or is called `name` and has a new body, in `R`
  with the old function;
* `FuncDecl.HasReceiver`: methods with a pointer receiver of some type;
* `Puts f f' name recvTypeName stmts`: one method of that name and receiver has `stmts` put in front of its
  body;
* `annotatedReconcile_puts`, `annotatedAPI_puts`, `sharedInformer_replaces`, `requestBody_replaces`,
  `requestDo_replaces`, `cacheGet_replaces`, `cacheListing_replaces`, `watchCache_replaces`: the bodies that
  the passes write.
-/

namespace Sieve.Instrumentation

open Library

variable {spare : Spare} {f f' : File} {funName recvTypeName mode : String} {i : ℕ} {decl : FuncDecl}

/-- The function at a position of the file. -/
def File.func (f : File) (i : ℕ) : Option FuncDecl :=
  match f.decls[i]? with
  | some (.funcDecl decl) => some decl
  | _ => none

def Replaces (f f' : File) (name : String) (R : FuncDecl → List Stmt → Prop) : Prop :=
  ∀ i, f'.func i = f.func i ∨ ∃ decl body, f.func i = some decl ∧ decl.name = name ∧
    f'.func i = some (decl.setBody body) ∧ R decl body

/-- `recvTypeName` is a pointer type, such as `*Client`, and the function is a method of it. -/
def FuncDecl.HasReceiver (decl : FuncDecl) (recvTypeName : String) : Prop :=
  ∃ fields, decl.recv = some fields ∧ ∃ field ∈ fields, ∃ typeName path,
    field.type = .starExpr (.ident typeName path) ∧ recvTypeName = "*" ++ typeName

def Puts (f f' : File) (name recvTypeName : String) (stmts : List Stmt) : Prop :=
  ∃ i decl, f.func i = some decl ∧ (decl.name = name ∧ decl.HasReceiver recvTypeName) ∧
    ∀ j, f'.func j = if j = i then some (decl.setBody (stmts ++ decl.body)) else f.func j

theorem Puts.replaces {name : String} {stmts : List Stmt} (h : Puts f f' name recvTypeName stmts) :
    Replaces f f' name fun decl body => body = stmts ++ decl.body := by
  obtain ⟨i, decl, hfunc, ⟨hname, -⟩, hall⟩ := h
  intro j
  rw [hall]
  split
  · next hj =>
    subst hj
    exact .inr ⟨decl, _, hfunc, hname, rfl, rfl⟩
  · exact .inl rfl

theorem insertAt_ok {α : Type} {spare : List α → Bool} {list list' : List α} {index : ℕ} {x : α}
    (h : insertAt spare list index x = .ok list') :
    ∃ before after, list = before ++ after ∧ before.length = index ∧ list' = before ++ x :: after := by
  unfold insertAt at h
  split at h
  · next hindex =>
    have hle : index ≤ list.length := by
      simp only [Bool.or_eq_true, Bool.and_eq_true, decide_eq_true_iff, beq_iff_eq] at hindex
      omega
    cases h
    exact ⟨_, _, (List.take_append_drop index list).symm, List.length_take_of_le hle, rfl⟩
  · cases h

theorem receiverMatches_ok {field : Field} (h : receiverMatches recvTypeName field = .ok true) :
    ∃ typeName path, field.type = .starExpr (.ident typeName path) ∧ recvTypeName = "*" ++ typeName := by
  unfold receiverMatches at h
  split at h
  · next typeName hpointer =>
    split at h
    · next name path htype =>
      refine ⟨name, path, htype, ?_⟩
      have hname : name.toList = typeName := eq_of_beq (Except.ok.inj h)
      rw [← String.toList_inj, hpointer, String.toList_append, hname]
      rfl
    · cases h
  · cases h

theorem findReceiver_ok {fields : List Field} (h : findReceiver recvTypeName fields = .ok true) :
    ∃ field ∈ fields, ∃ typeName path,
      field.type = .starExpr (.ident typeName path) ∧ recvTypeName = "*" ++ typeName := by
  induction fields with
  | nil => cases h
  | cons field rest ih =>
    obtain ⟨matched, hmatched, h⟩ := bind_ok_iff.mp h
    cases matched with
    | true => exact ⟨field, List.mem_cons_self, receiverMatches_ok hmatched⟩
    | false =>
      obtain ⟨field', hmem, hfield'⟩ := ih h
      exact ⟨field', List.mem_cons_of_mem _ hmem, hfield'⟩

theorem isMethod_ok {d : Decl} {found : FuncDecl}
    (h : isMethod funName recvTypeName d = .ok (some found)) :
    d = .funcDecl found ∧ found.name = funName ∧ found.HasReceiver recvTypeName := by
  unfold isMethod at h
  split at h
  · next decl =>
    split at h
    · next fields hrecv =>
      split at h
      · next hname =>
        obtain ⟨matched, hmatched, h⟩ := bind_ok_iff.mp h
        cases matched with
        | true =>
          cases h
          exact ⟨rfl, eq_of_beq hname, fields, hrecv, findReceiver_ok hmatched⟩
        | false => cases h
      · cases h
    · cases h
  · cases h

theorem findFuncDecl_go_ok {decls : List Decl} {start : ℕ}
    (h : findFuncDecl.go funName recvTypeName start decls = .ok (some (i, decl))) :
    start ≤ i ∧ decls[i - start]? = some (.funcDecl decl) ∧
      decl.name = funName ∧ decl.HasReceiver recvTypeName := by
  induction decls generalizing start with
  | nil => cases h
  | cons d rest ih =>
    obtain ⟨found, hfound, h⟩ := bind_ok_iff.mp h
    cases found with
    | some found =>
      cases h
      obtain ⟨rfl, hname⟩ := isMethod_ok hfound
      exact ⟨Nat.le_refl _, by simp, hname⟩
    | none =>
      obtain ⟨hle, hrest, hname⟩ := ih h
      refine ⟨by omega, ?_, hname⟩
      rw [show i - start = i - (start + 1) + 1 by omega]
      exact hrest

theorem findFuncDecl_ok (h : findFuncDecl f funName recvTypeName = .ok (some (i, decl))) :
    f.func i = some decl ∧ decl.name = funName ∧ decl.HasReceiver recvTypeName := by
  obtain ⟨-, hat, hname⟩ := findFuncDecl_go_ok h
  rw [Nat.sub_zero] at hat
  exact ⟨by rw [File.func, hat], hname⟩

theorem File.func_setFunc (hfunc : f.func i = some decl) (decl' : FuncDecl) (j : ℕ) :
    (f.setFunc i decl').func j = if j = i then some decl' else f.func j := by
  have hlt : i < f.decls.length := by
    by_contra hge
    rw [File.func, List.getElem?_eq_none (by omega)] at hfunc
    cases hfunc
  unfold File.func File.setFunc
  rw [List.getElem?_set]
  by_cases hj : i = j
  · subst hj
    simp [hlt]
  · rw [if_neg hj, if_neg (Ne.symm hj)]

/-- **One method** is replaced. -/
theorem replaces_setFunc {R : FuncDecl → List Stmt → Prop} {body : List Stmt}
    (hfind : findFuncDecl f funName recvTypeName = .ok (some (i, decl))) (hR : R decl body) :
    Replaces f (f.setFunc i (decl.setBody body)) funName R := by
  obtain ⟨hfunc, hname, -⟩ := findFuncDecl_ok hfind
  intro j
  rw [File.func_setFunc hfunc]
  split
  · next hj =>
    subst hj
    exact .inr ⟨decl, body, hfunc, hname, rfl, hR⟩
  · exact .inl rfl

/-! ### The passes -/

theorem insertAt_front {spare : List Stmt → Bool} {list list' : List Stmt} {s : Stmt}
    (h : insertAt spare list 0 s = .ok list') : list' = s :: list := by
  obtain ⟨before, after, rfl, hlength, rfl⟩ := insertAt_ok h
  rw [List.length_eq_zero_iff.mp hlength]
  rfl

/-- The statements before the body of an annotated reconcile function. -/
def reconcileStmts (stackFrame : String) : List Stmt :=
  [notifyStmt "NotifyLearnBeforeReconcile" [quoted stackFrame],
    deferNotify "NotifyLearnAfterReconcile" [quoted stackFrame]]

theorem annotatedReconcile_puts {stackFrame : String}
    (h : instrumentAnnotatedReconcile spare f funName recvTypeName stackFrame = .ok f') :
    Puts f f' funName recvTypeName (reconcileStmts stackFrame) := by
  obtain ⟨found, hfind, h⟩ := bind_ok_iff.mp h
  cases found with
  | none => cases h
  | some found =>
    obtain ⟨i, decl⟩ := found
    obtain ⟨body₁, hfirst, h⟩ := bind_ok_iff.mp h
    obtain ⟨body₂, hsecond, h⟩ := bind_ok_iff.mp h
    cases h
    obtain rfl := insertAt_front hfirst
    obtain ⟨before, after, hbody, hlength, rfl⟩ := insertAt_ok hsecond
    obtain ⟨s, rfl⟩ := List.length_eq_one_iff.mp hlength
    obtain ⟨rfl, rfl⟩ := List.cons.inj hbody
    obtain ⟨hfunc, hname⟩ := findFuncDecl_ok hfind
    exact ⟨i, decl, hfunc, hname, File.func_setFunc hfunc _⟩

/-- The statements before the body of an annotated function. -/
def annotatedStmts (module filePath recvTypeName funName mode : String) : List Stmt :=
  [assignNotify "invocationIDVar" ("Notify" ++ mode ++ "BeforeAnnotatedAPICall")
      (annotatedArgs module filePath recvTypeName funName),
    deferNotify ("Notify" ++ mode ++ "AfterAnnotatedAPICall")
      ("invocationIDVar" :: annotatedArgs module filePath recvTypeName funName)]

theorem annotatedAPI_puts {module filePath : String}
    (h : instrumentAnnotatedAPI spare f module filePath funName recvTypeName mode true = .ok f') :
    Puts f f' funName recvTypeName (annotatedStmts module filePath recvTypeName funName mode) := by
  obtain ⟨found, hfind, h⟩ := bind_ok_iff.mp h
  cases found with
  | none => cases h
  | some found =>
    obtain ⟨i, decl⟩ := found
    obtain ⟨body₁, hfirst, h⟩ := bind_ok_iff.mp h
    obtain ⟨body₂, hsecond, h⟩ := bind_ok_iff.mp h
    cases h
    obtain rfl := insertAt_front hfirst
    obtain rfl := insertAt_front hsecond
    obtain ⟨hfunc, hname⟩ := findFuncDecl_ok hfind
    exact ⟨i, decl, hfunc, hname, File.func_setFunc hfunc _⟩

/-- The body of a loop over deltas, with its hooks. -/
def deltaLoop (mode : String) (body : List Stmt) : List Stmt :=
  assignNotify "recvID" ("Notify" ++ mode ++ "BeforeControllerRecv") deltaArgs ::
    (body ++ [notifyStmt ("Notify" ++ mode ++ "AfterControllerRecv") ("recvID" :: deltaArgs)])

theorem instrumentFirstRange_ok {spare : List Stmt → Bool} {body body' : List Stmt}
    (h : instrumentFirstRange spare mode body = .ok body') :
    body' = body ∨ ∃ before clause inner decs after, body = before ++ .rangeStmt clause inner decs :: after ∧
      body' = before ++ .rangeStmt clause (deltaLoop mode inner) decs :: after := by
  induction body generalizing body' with
  | nil =>
    cases h
    exact .inl rfl
  | cons s rest ih =>
    have hnext : ∀ {rest'}, instrumentFirstRange spare mode rest = .ok rest' → body' = s :: rest' →
        body' = s :: rest ∨ ∃ before clause inner decs after,
          s :: rest = before ++ .rangeStmt clause inner decs :: after ∧
            body' = before ++ .rangeStmt clause (deltaLoop mode inner) decs :: after := by
      rintro rest' hrest rfl
      rcases ih hrest with rfl | ⟨before, clause, inner, decs, after, rfl, rfl⟩
      · exact .inl rfl
      · exact .inr ⟨s :: before, clause, inner, decs, after, rfl, rfl⟩
    cases s with
    | rangeStmt clause inner decs =>
      obtain ⟨inner', hinner, h⟩ := bind_ok_iff.mp h
      cases h
      obtain ⟨inner₁, hfirst, hlast⟩ := bind_ok_iff.mp hinner
      cases hlast
      obtain rfl := insertAt_front hfirst
      exact .inr ⟨[], clause, inner, decs, rest, rfl, rfl⟩
    | _ =>
      obtain ⟨rest', hrest, h⟩ := bind_ok_iff.mp h
      cases h
      exact hnext hrest rfl

theorem sharedInformer_replaces (h : instrumentSharedInformerGoForAll spare f mode = .ok f') :
    Replaces f f' "HandleDeltas" fun decl body => body = decl.body ∨
      ∃ before clause inner decs after, decl.body = before ++ .rangeStmt clause inner decs :: after ∧
        body = before ++ .rangeStmt clause (deltaLoop mode inner) decs :: after := by
  obtain ⟨found, hfind, h⟩ := bind_ok_iff.mp h
  cases found with
  | none => cases h
  | some found =>
    obtain ⟨i, decl⟩ := found
    obtain ⟨body, hbody, h⟩ := bind_ok_iff.mp h
    cases h
    exact replaces_setFunc hfind (instrumentFirstRange_ok hbody)

theorem requestType_func (h : instrumentRequestType f = .ok f') (j : ℕ) : f'.func j = f.func j := by
  unfold instrumentRequestType at h
  split at h
  · cases h
  · next i k spec hspec =>
    split at h
    · cases h
    · obtain ⟨fields, -, h⟩ := bind_ok_iff.mp h
      split at h
      · next isType specs hdecl =>
        cases h
        unfold File.func
        rw [List.getElem?_set]
        by_cases hij : i = j
        · subst hij
          obtain ⟨hlt, -⟩ := List.getElem?_eq_some_iff.mp hdecl
          rw [if_pos rfl, if_pos hlt, hdecl]
        · rw [if_neg hij]
      · cases h
        rfl

theorem requestBody_replaces (h : instrumentRequestBody spare f = .ok f') :
    Replaces f f' "Body" fun decl body =>
      body = .assignStmt (names ["r.obj"]) .assign (names ["obj"]) sieve :: decl.body := by
  obtain ⟨found, hfind, h⟩ := bind_ok_iff.mp h
  cases found with
  | none =>
    cases h
    exact fun _ => .inl rfl
  | some found =>
    obtain ⟨i, decl⟩ := found
    obtain ⟨body, hbody, h⟩ := bind_ok_iff.mp h
    cases h
    exact replaces_setFunc hfind (insertAt_front hbody)

/-- `operationID := …` -/
def beforeRest (mode : String) : Stmt :=
  assignNotify "operationID" ("Notify" ++ mode ++ "BeforeRestCall") (restArgs ++ ["r.obj"])

def afterRest (mode : String) : Stmt :=
  notifyStmt ("Notify" ++ mode ++ "AfterRestCall")
    ("operationID" :: restArgs ++ ["resultObj", "decodingError", "result.Error()"])

theorem requestDo_replaces (h : instrumentRequestDo spare f mode = .ok f') :
    Replaces f f' "Do" fun decl body => ∃ before s after, isRequestCall s = true ∧
      decl.body = before ++ s :: after ∧
        body = beforeRest mode :: (before ++ s :: resultGet :: afterRest mode :: after) := by
  obtain ⟨found, hfind, h⟩ := bind_ok_iff.mp h
  cases found with
  | none => cases h
  | some found =>
    obtain ⟨i, decl⟩ := found
    obtain ⟨body₁, hfirst, h⟩ := bind_ok_iff.mp h
    obtain rfl := insertAt_front hfirst
    split at h
    · cases h
    · next index hindex =>
      obtain ⟨body₂, hget, h⟩ := bind_ok_iff.mp h
      obtain ⟨body₃, hafter, h⟩ := bind_ok_iff.mp h
      cases h
      obtain ⟨hlt, hcall, -⟩ := List.findIdx?_eq_some_iff_getElem.mp hindex
      obtain ⟨front, after, hbody, hlength, rfl⟩ := insertAt_ok hget
      obtain ⟨front', after', hbody', hlength', rfl⟩ := insertAt_ok hafter
      -- the second insertion is right after the first
      have hsplit : front' = front ++ [resultGet] ∧ after' = after := by
        rw [← List.singleton_append, ← List.append_assoc] at hbody'
        have hlengths : (front ++ [resultGet]).length = front'.length := by
          rw [List.length_append, hlength, hlength', List.length_singleton]
        obtain ⟨hfront, hrest⟩ := List.append_inj hbody' hlengths
        exact ⟨hfront.symm, hrest.symm⟩
      obtain ⟨rfl, rfl⟩ := hsplit
      -- the hook before the call is no call of `request`
      cases index with
      | zero => cases hcall
      | succ index =>
        cases front with
        | nil => cases hlength
        | cons first front =>
          obtain ⟨rfl, hrest⟩ := List.cons.inj hbody
          replace hrest : decl.body = front ++ after' := hrest
          obtain rfl | ⟨before, s, rfl⟩ := List.eq_nil_or_concat front
          · cases hlength
          have hat : decl.body[index]? = some s := by
            rw [List.length_cons, List.length_concat] at hlength
            obtain rfl : before.length = index := by omega
            rw [hrest]
            simp
          have hs : isRequestCall s = true := by
            rw [← (List.getElem?_eq_some_iff.mp hat).2]
            exact hcall
          refine replaces_setFunc hfind ⟨before, s, after', hs, ?_, ?_⟩
          · rw [hrest]
            simp
          · simp [beforeRest, afterRest]

/-- The body of `GetByKey`, with its hooks. -/
theorem cacheGet_replaces (h : instrumentCacheGetForAll spare f mode = .ok f') :
    Replaces f f' "GetByKey" fun decl body => ∃ s rest, decl.body = s :: rest ∧ body =
      notifyStmt ("Notify" ++ mode ++ "BeforeCacheGet") ["key", "c.cacheStorage.List()"] :: s ::
        notifyStmt ("Notify" ++ mode ++ "AfterCacheGet") ["key", "item", "exists"] :: rest := by
  obtain ⟨found, hfind, h⟩ := bind_ok_iff.mp h
  cases found with
  | none => cases h
  | some found =>
    obtain ⟨i, decl⟩ := found
    obtain ⟨body₁, hfirst, h⟩ := bind_ok_iff.mp h
    obtain ⟨body₂, hsecond, h⟩ := bind_ok_iff.mp h
    cases h
    obtain rfl := insertAt_front hfirst
    obtain ⟨before, after, hbody, hlength, rfl⟩ := insertAt_ok hsecond
    obtain ⟨first, s, rfl⟩ := List.length_eq_two.mp hlength
    obtain ⟨hfirst, hbody⟩ := List.cons.inj hbody
    exact replaces_setFunc hfind ⟨s, after, hbody, by rw [hfirst]; rfl⟩

/-- A body whose last return has been taken apart, after the hook in front. -/
theorem cacheListing_replaces {vars : List String} {err : String}
    (h : instrumentCacheListing spare f mode funName vars err = .ok f') :
    Replaces f f' funName fun decl body => ∃ before results decs,
      decl.body = before ++ [.returnStmt results decs] ∧ body =
        notifyStmt ("Notify" ++ mode ++ "BeforeCacheList") ["c.cacheStorage.List()"] :: (before ++
          [.assignStmt (names vars) .define results sieve,
            notifyStmt ("Notify" ++ mode ++ "AfterCacheList") ["items", err],
            .returnStmt (names vars) sieve]) := by
  obtain ⟨found, hfind, h⟩ := bind_ok_iff.mp h
  cases found with
  | none => cases h
  | some found =>
    obtain ⟨i, decl⟩ := found
    obtain ⟨body₁, hfirst, h⟩ := bind_ok_iff.mp h
    obtain ⟨results, hlast, h⟩ := bind_ok_iff.mp h
    cases h
    obtain rfl := insertAt_front hfirst
    unfold lastReturn at hlast
    split at hlast
    · cases hlast
    · next decs hget =>
      cases hlast
      -- the last statement is not the hook in front
      obtain hnil | ⟨before, s, hbefore⟩ := List.eq_nil_or_concat decl.body
      · rw [hnil] at hget
        cases hget
      · rw [List.concat_eq_append] at hbefore
        rw [hbefore, ← List.cons_append, List.getLast?_concat, Option.some.injEq] at hget
        subst hget
        refine replaces_setFunc hfind ⟨before, results, decs, hbefore, ?_⟩
        rw [rewriteReturn, hbefore, ← List.cons_append, List.dropLast_concat]
        rfl
    · cases hlast

theorem watchCache_replaces {instrumentBefore instrumentAfter : Bool}
    (h : instrumentWatchCacheGoForAll spare f mode instrumentBefore instrumentAfter = .ok f') :
    Replaces f f' "processEvent" fun decl body => ∃ before after, decl.body = before ++ after ∧
      body = before ++
        (if instrumentAfter then [deferNotify ("Notify" ++ mode ++ "AfterAPIServerRecv") watchArgs] else []) ++
        (if instrumentBefore then [notifyStmt ("Notify" ++ mode ++ "BeforeAPIServerRecv") watchArgs] else []) ++
        after := by
  obtain ⟨found, hfind, h⟩ := bind_ok_iff.mp h
  cases found with
  | none => cases h
  | some found =>
    obtain ⟨i, decl⟩ := found
    cases instrumentBefore with
    | false =>
      cases instrumentAfter with
      | false =>
        cases h
        exact replaces_setFunc hfind ⟨[], decl.body, rfl, rfl⟩
      | true =>
        obtain ⟨body, hbody, h⟩ := bind_ok_iff.mp h
        cases hbody
        obtain ⟨body, hbody, h⟩ := bind_ok_iff.mp h
        cases h
        obtain ⟨before, after, hsplit, -, rfl⟩ := insertAt_ok hbody
        exact replaces_setFunc hfind ⟨before, after, hsplit, by simp⟩
    | true =>
      obtain ⟨body, hbody, h⟩ := bind_ok_iff.mp h
      obtain ⟨before, after, hsplit, hlength, rfl⟩ := insertAt_ok hbody
      cases instrumentAfter with
      | false =>
        cases h
        exact replaces_setFunc hfind ⟨before, after, hsplit, by simp⟩
      | true =>
        obtain ⟨body', hbody', h⟩ := bind_ok_iff.mp h
        cases h
        obtain ⟨before', after', hsplit', hlength', rfl⟩ := insertAt_ok hbody'
        obtain ⟨rfl, rfl⟩ := List.append_inj hsplit' (hlength.trans hlength'.symm)
        exact replaces_setFunc hfind ⟨before, after, hsplit, by simp⟩

end Sieve.Instrumentation
