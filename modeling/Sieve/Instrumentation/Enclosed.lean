import Sieve.Instrumentation.Instrumented

/-!
# Annotated functions

The passes on annotated functions put a hook and a deferred hook in front of a body:

* `Fronted first second body`: the two are in front, after those of later passes at most;
* `runFunc_fronted`: **both hooks are called in every run of the function**, however it ends, and all that it
  logs is between the two;
* `instrument_encloses`: so every annotated call of an instrumented controller is bracketed by its hooks.
-/

namespace Sieve.Instrumentation

open Library

inductive Fronted (first second : Stmt) : List Stmt → Prop
  | here {rest : List Stmt} : Bracketed rest → Fronted first second (first :: second :: rest)
  | under {s s' : Stmt} {before : Added} {function : String} {args : List Expr} {rest : List Stmt} :
      s.added? = some before → s'.added? = some (.deferHook function args) →
      before.AnsweredBy function args → Fronted first second rest → Fronted first second (s :: s' :: rest)

section Runs

variable {F V H S D : Type} [DecidableEq V] {M : Meaning F V H S D}
  {hooks : List (Event V) → String → List V → V}
  {call : F × List V × H → Computation (Observer V) (Exit V × H)} {n : ℕ} {first second : Stmt}
  {body : List Stmt} {before : Added} {function : String} {exprs : List Expr}

/-- The hook is called before the rest of the body, and the other one is left to the way out. -/
theorem runBody_fronted (hcall : ∀ c, Moves Logs (call c)) (hbody : Fronted first second body)
    (hfirst : first.added? = some before) (hsecond : second.added? = some (.deferHook function exprs))
    (hanswer : before.AnsweredBy function exprs) {fr : Frame V S D} {o : Observer V}
    {p : (Flow V × Frame V S D) × Observer V} (h : runBody M hooks call n body fr o = some p) :
    ∃ u b w values defers outer, p.2.log = o.log ++ (u ++ b :: w) ∧
      p.1.2.defers = defers ++ .hook function values :: outer ∧ Closes defers w ∧
      before.called? = some b.function ∧ ∀ answer, Pairs b { function, args := values, answer } := by
  induction hbody generalizing fr o with
  | here hrest =>
    obtain ⟨b, fr₂, o₂, hlog₂, hdefers₂, hrun, hcalled, hpairs⟩ :=
      runBody_deferred hfirst hsecond hanswer h
    obtain ⟨w, defers, hlog, hdefers, hcloses⟩ := runBody_closes hcall hrest hrun
    refine ⟨[], b, w, _, defers, fr.defers, ?_, ?_, hcloses, hcalled, hpairs⟩
    · rw [hlog, hlog₂, List.append_assoc]
      rfl
    · rw [hdefers, hdefers₂]
  | under hs hs' hpair _ ih =>
    obtain ⟨b', fr₂, o₂, hlog₂, hdefers₂, hrun, -, -⟩ := runBody_deferred hs hs' hpair h
    obtain ⟨u, b, w, values, defers, outer, hlog, hdefers, hcloses, hcalled, hpairs⟩ := ih hrun
    refine ⟨b' :: u, b, w, values, defers, outer, ?_, hdefers, hcloses, hcalled, hpairs⟩
    rw [hlog, hlog₂, List.append_assoc]
    rfl

/-- **The hooks in front of a function** enclose what it logs, whichever way it ends. -/
theorem runFunc_fronted (hcall : ∀ c, Moves Logs (call c)) {decl : FuncDecl}
    (hdecl : Fronted first second decl.body) (hfirst : first.added? = some before)
    (hsecond : second.added? = some (.deferHook function exprs))
    (hanswer : before.AnsweredBy function exprs) {f : F} {args : List V} {h : H} {o : Observer V}
    {p : (Exit V × H) × Observer V} (hrun : runFunc M hooks call decl f args h o = some p) :
    ∃ u b w a v, p.2.log = o.log ++ (u ++ b :: (w ++ a :: v)) ∧ before.called? = some b.function ∧
      a.function = function ∧ Pairs b a ∧ NestedLog w := by
  obtain ⟨q, hq, hrun⟩ := bind_eq_some_iff.mp hrun
  obtain ⟨u, b, w, values, defers, outer, hlog, hdefers, hcloses, hcalled, hpairs⟩ :=
    runBody_fronted hcall hdecl hfirst hsecond hanswer hq
  obtain ⟨r, hr, hrun⟩ := bind_eq_some_iff.mp hrun
  obtain ⟨w', hw', hlog'⟩ := runDefers_log hcall hr
  cases hrun
  rw [hdefers] at hw'
  obtain ⟨v, v', rfl, hv, hv'⟩ := hw'.append
  cases hv' with
  | @hook _ _ answer _ rest hrest =>
    refine ⟨u, b, w ++ v, _, rest, ?_, hcalled, rfl, hpairs answer, hcloses [] v .nil hv⟩
    rw [hlog', hlog]
    simp

end Runs

/-! ### The functions of a configuration -/

section Files

variable {F V H S D : Type} {M : Meaning F V H S D} {spare : String → Spare} {config : Config}
  {files files₁ files₂ : Files} {first second : Stmt} {path name recvTypeName mode : String}

/-- The method of the file has the two statements in front. -/
def HasFront (files : Files) (path name recvTypeName : String) (first second : Stmt) : Prop :=
  ∃ i decl, program files (path, i) = some decl ∧ (decl.name = name ∧ decl.HasReceiver recvTypeName) ∧
    Fronted first second decl.body

theorem HasFront.of_puts {f f' : File} (hf : ∀ i decl, f.func i = some decl → Bracketed decl.body)
    (hfiles : files₂ path = some f') (h : Puts f f' name recvTypeName [first, second]) :
    HasFront files₂ path name recvTypeName first second := by
  obtain ⟨i, decl, hfunc, hmethod, hall⟩ := h
  refine ⟨i, decl.setBody ([first, second] ++ decl.body), ?_, hmethod, .here (hf i decl hfunc)⟩
  show (files₂ path).bind _ = _
  rw [hfiles, Option.bind_some, hall, if_pos rfl]

/-- A later pass puts its own statements in front, or is about another function. -/
theorem HasFront.onFile {q name' recvTypeName' : String} {s s' : Stmt} {before : Added} {function : String}
    {args : List Expr} {pass : Spare → File → Except String File}
    (h : HasFront files₁ path name recvTypeName first second)
    (hrun : Instrumentation.onFile spare files₁ q pass = .ok files₂)
    (hpass : ∀ f f', pass (spare q) f = .ok f' → Puts f f' name' recvTypeName' [s, s'])
    (hs : s.added? = some before) (hs' : s'.added? = some (.deferHook function args))
    (hanswer : before.AnsweredBy function args) : HasFront files₂ path name recvTypeName first second := by
  obtain ⟨f, f', hf, hok, rfl⟩ := onFile_ok hrun
  obtain ⟨i, decl, hdecl, hmethod, hfront⟩ := h
  by_cases hpath : path = q
  · subst hpath
    replace hdecl : (files₁ path).bind (·.func i) = some decl := hdecl
    rw [hf, Option.bind_some] at hdecl
    obtain ⟨j, decl', hfunc, -, hall⟩ := hpass f f' hok
    by_cases hij : i = j
    · subst hij
      obtain rfl : decl = decl' := Option.some.inj (hdecl.symm.trans hfunc)
      refine ⟨i, decl.setBody ([s, s'] ++ decl.body), ?_, hmethod, .under hs hs' hanswer hfront⟩
      show ((Function.update files₁ path (some f')) path).bind _ = _
      rw [Function.update_self, Option.bind_some, hall, if_pos rfl]
    · refine ⟨i, decl, ?_, hmethod, hfront⟩
      show ((Function.update files₁ path (some f')) path).bind _ = _
      rw [Function.update_self, Option.bind_some, hall, if_neg hij]
      exact hdecl
  · refine ⟨i, decl, ?_, hmethod, hfront⟩
    show ((Function.update files₁ q (some f')) path).bind _ = _
    rw [Function.update_of_ne hpath]
    exact hdecl

/-- The hooks of an entry of `apis_to_instrument`. -/
def entryHasFront (config : Config) (mode : String) (files : Files) (entry : AnnotatedAPI) : Prop :=
  ∀ first second, annotatedStmts entry.module entry.filePath entry.receiverType entry.funcName mode =
    [first, second] →
      HasFront files (config.apiPath entry) entry.funcName entry.receiverType first second

theorem apis_front (hmode : mode ∈ modes) (h : FilesSound M files files₁)
    (hrun : instrumentAPIs spare config mode files₁ = .ok files₂) :
    ∀ entry ∈ config.apisToInstrument, entryHasFront config mode files₂ entry := by
  have hinv := foldlM_invariant (fun entries files' => FilesSound M files files' ∧
    ∀ entry ∈ entries, entryHasFront config mode files' entry) ⟨h, by simp⟩ ?_ hrun
  · exact hinv.2
  · rintro entries entry before after ⟨hbefore, hentries⟩ hstep
    refine ⟨hbefore.onFile hstep fun f f₁ f₂ _ _ hs hok => api_fileSound hmode hs hok, ?_⟩
    intro entry' hentry'
    rw [List.mem_append, List.mem_singleton] at hentry'
    intro first second hstmts
    obtain hmem | rfl := hentry'
    · exact (hentries entry' hmem first second hstmts).onFile hstep (fun f f' hok => annotatedAPI_puts hok)
        (added?_assignNotify ..) (added?_deferNotify ..)
        ⟨mode, hmode, "AnnotatedAPICall", by decide, rfl, rfl, "invocationIDVar", rfl, rfl⟩
    · obtain ⟨f, f', hf, hok, rfl⟩ := onFile_ok hstep
      have hputs := annotatedAPI_puts hok
      rw [hstmts] at hputs
      refine HasFront.of_puts (fun i decl hdecl => ?_) (Function.update_self ..) hputs
      have hsound := hbefore (config.apiPath entry')
      rw [hf] at hsound
      generalize files (config.apiPath entry') = given at hsound
      cases hsound with
      | some hsound =>
        have hi := hsound i
        rw [hdecl] at hi
        generalize File.func _ i = found at hi
        cases hi with
        | some hi => exact hi.bracketed

/-- The passes on annotated functions come last. -/
theorem instrument_apis (hfiles : Uninstrumented M config files) (hproject : config.project ≠ "kubernetes")
    (hmode : config.mode = "learn" ∧ mode = "Learn" ∨ config.mode = "test" ∧ mode = "Test")
    (h : instrument spare config files = .ok files₂) :
    ∃ files₁, FilesSound M files files₁ ∧ instrumentAPIs spare config mode files₁ = .ok files₂ := by
  unfold instrument at h
  rw [if_neg (by simpa using hproject)] at h
  obtain ⟨hlearn, rfl⟩ | ⟨htest, rfl⟩ := hmode
  · rw [if_pos (by simpa using hlearn)] at h
    exact controllerForLearn_apis hfiles h
  · rw [if_neg (by rw [htest]; decide), if_pos (by simpa using htest)] at h
    exact controllerForTest_apis hfiles h

end Files

section Instrumented

variable {V H S D : Type} [DecidableEq V] {M : Meaning (String × ℕ) V H S D} {spare : String → Spare}
  {config : Config} {files files' : Files} {mode : String}

/-- **Every annotated call is bracketed**: each run of a method of `apis_to_instrument` calls the hook
before and, however it ends, the hook after with the id that the former returned; what the method logs is
between the two. -/
theorem instrument_encloses (hfiles : Uninstrumented M config files)
    (hproject : config.project ≠ "kubernetes")
    (hmode : config.mode = "learn" ∧ mode = "Learn" ∨ config.mode = "test" ∧ mode = "Test")
    (h : instrument spare config files = .ok files') {entry : AnnotatedAPI}
    (hentry : entry ∈ config.apisToInstrument) :
    ∃ i decl, program files' (config.apiPath entry, i) = some decl ∧
      (decl.name = entry.funcName ∧ decl.HasReceiver entry.receiverType) ∧
      ∀ (hooks : List (Event V) → String → List V → V) (k : ℕ) (args : List V) (heap : H) (o : Observer V)
        (p : (Exit V × H) × Observer V),
        run M hooks (program files') k ((config.apiPath entry, i), args, heap) o = some p →
          ∃ u b w a v, p.2.log = o.log ++ (u ++ b :: (w ++ a :: v)) ∧
            b.function = beforeName mode "AnnotatedAPICall" ∧
            a.function = afterName mode "AnnotatedAPICall" ∧ a.args.head? = some b.answer ∧
            Nested Opens Pairs w := by
  have hmodes : mode ∈ modes := by
    obtain ⟨-, rfl⟩ | ⟨-, rfl⟩ := hmode <;> decide
  have hs := instrument_sound hfiles h
  obtain ⟨files₁, hs₁, hapis⟩ := instrument_apis hfiles hproject hmode h
  obtain ⟨i, decl, hdecl, hmethod, hfront⟩ := apis_front hmodes hs₁ hapis entry hentry _ _ rfl
  refine ⟨i, decl, hdecl, hmethod, fun hooks k args heap o p hrun => ?_⟩
  have hbracketed : ∀ f decl, program files' f = some decl → Bracketed decl.body := by
    intro f decl hdecl
    obtain ⟨_, hdecl⟩ := program_some hs hdecl
    exact hdecl.bracketed
  cases k with
  | zero => cases hrun
  | succ k =>
    unfold run at hrun
    rw [hdecl] at hrun
    have hanswer : (Added.bindHook ["invocationIDVar"] (beforeName mode "AnnotatedAPICall")
        (names (annotatedArgs entry.module entry.filePath entry.receiverType entry.funcName))).AnsweredBy
        (afterName mode "AnnotatedAPICall") (names ("invocationIDVar" ::
          annotatedArgs entry.module entry.filePath entry.receiverType entry.funcName)) :=
      ⟨mode, hmodes, "AnnotatedAPICall", by decide, rfl, rfl, "invocationIDVar", rfl, rfl⟩
    obtain ⟨u, b, w, a, v, hlog, hb, ha, hpairs, hw⟩ := runFunc_fronted (run_logs hbracketed k) hfront
      (added?_assignNotify ..) (added?_deferNotify ..) hanswer hrun
    refine ⟨u, b, w, a, v, hlog, (Option.some.inj hb).symm, ha, ?_, hw⟩
    obtain ⟨mode', hmode', kind, hkind, -, ha', hid⟩ := hpairs
    have hkinds : ∀ mode ∈ modes, ∀ mode' ∈ modes, ∀ kind ∈ kinds,
        afterName mode "AnnotatedAPICall" = afterName mode' kind → kind ∈ withId := by decide +kernel
    exact hid (hkinds mode hmodes mode' hmode' kind hkind (ha.symm.trans ha'))

theorem instrument_encloses_sample : ∃ files', instrument sampleSpare sampleConfig sampleFiles = .ok files' ∧
    ∃ i decl, program files' ("app/sieve-dependency/src/m/f.go", i) = some decl ∧
      (decl.name = "Create" ∧ decl.HasReceiver "*Client") ∧
      ∀ (hooks : List (Event ℕ) → String → List ℕ → ℕ) k args heap o p,
        run sampleMeaning hooks (program files') k (("app/sieve-dependency/src/m/f.go", i), args, heap) o =
          some p →
          ∃ u b w a v, p.2.log = o.log ++ (u ++ b :: (w ++ a :: v)) ∧
            b.function = beforeName "Learn" "AnnotatedAPICall" ∧
            a.function = afterName "Learn" "AnnotatedAPICall" ∧ a.args.head? = some b.answer ∧
            Nested Opens Pairs w := by
  obtain ⟨files', h⟩ := sample_instruments
  have hpath : sampleConfig.apiPath ⟨"m", "f.go", "Create", "*Client"⟩ = "app/sieve-dependency/src/m/f.go" := by
    decide +kernel
  have hencloses := instrument_encloses sample_uninstrumented (by decide) (.inl ⟨rfl, rfl⟩) h
    (List.mem_singleton_self (⟨"m", "f.go", "Create", "*Client"⟩ : AnnotatedAPI))
  rw [hpath] at hencloses
  exact ⟨files', h, hencloses⟩

end Instrumented

end Sieve.Instrumentation
