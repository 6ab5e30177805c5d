import Sieve.Instrumentation.Controller
import Sieve.Instrumentation.Sound

/-!
# Instrumented controllers

* `Step`: the functions of a file before and after some of the passes on it;
* `instrument_sound`: whatever the configuration, the instrumented files are the given ones with the
  statements of the passes in their places;
* `instrument_preserves`: **the instrumented program computes what the program computes**, whatever the
  hooks answer;
* `instrument_nested`: **its hooks are called in pairs**: each hook after answers one before, with its id.
-/

namespace Sieve.Instrumentation

open Library
open Sieve.Event (goJoinAll IsSegment suffix_goJoinAll)

variable {F V H S D : Type} {M : Meaning F V H S D} {spare : Spare} {f f₁ f₂ : File}
  {methods : List String}

def File.Unmarked (f : File) : Prop := ∀ i decl, f.func i = some decl → decl.Unmarked reserved

def FileSound (M : Meaning F V H S D) (f f' : File) : Prop :=
  ∀ i, Option.Rel (Sound M) (f.func i) (f'.func i)

/-! ### Passes on one file -/

/-- Only methods with these names are changed, and soundly. -/
def Step (M : Meaning F V H S D) (methods : List String) (f f' : File) : Prop :=
  ∀ i, f'.func i = f.func i ∨ ∃ decl decl', f.func i = some decl ∧ f'.func i = some decl' ∧
    decl.name ∈ methods ∧ Sound M decl decl'

theorem Step.of_func (h : ∀ i, f₁.func i = f.func i) : Step M [] f f₁ := fun i => .inl (h i)

/-- One more pass, on a method that none of the passes before it has changed. -/
theorem Step.replaces {name : String} {R : FuncDecl → List Stmt → Prop} (h : Step M methods f f₁)
    (hpass : Replaces f₁ f₂ name R) (hnew : name ∉ methods)
    (hsound : ∀ i decl body, f.func i = some decl → decl.name = name → R decl body →
      Sound M decl (decl.setBody body)) : Step M (name :: methods) f f₂ := by
  intro i
  rcases hpass i with hsame | ⟨decl, body, hfunc, hname, hfunc', hR⟩
  · rcases h i with hsame' | ⟨decl, decl', hdecl, hdecl', hmem, hs⟩
    · exact .inl (hsame.trans hsame')
    · exact .inr ⟨decl, decl', hdecl, hsame.trans hdecl', List.mem_cons_of_mem _ hmem, hs⟩
  · rcases h i with hsame' | ⟨decl₀, decl', hdecl, hdecl', hmem, hs⟩
    · refine .inr ⟨decl, _, hsame'.symm.trans hfunc, hfunc', ?_, ?_⟩
      · rw [hname]
        exact List.mem_cons_self
      · exact hsound i decl body (hsame'.symm.trans hfunc) hname hR
    · -- a method of that name has not been changed yet
      rw [hfunc, Option.some.injEq] at hdecl'
      rw [← hs.name, ← hdecl', hname] at hmem
      exact absurd hmem hnew

theorem Step.fileSound (h : Step M methods f f₁) (hf : f.Unmarked) : FileSound M f f₁ := by
  intro i
  rcases h i with hsame | ⟨decl, decl', hdecl, hdecl', -, hs⟩
  · rw [hsame]
    cases hdecl : f.func i with
    | none => exact .none
    | some decl => exact .some (sound_of_unmarked (hf i decl hdecl) (List.Subset.refl _))
  · rw [hdecl, hdecl']
    exact .some hs

theorem sharedInformer_sound {mode : String} (hmode : mode ∈ modes) (hf : f.Unmarked)
    (h : instrumentSharedInformerGoForAll spare f mode = .ok f₁) : FileSound M f f₁ := by
  have hstep : Step M [] f f := .of_func fun _ => rfl
  refine (hstep.replaces (sharedInformer_replaces h) (by simp) ?_).fileSound hf
  rintro i decl body hdecl - (rfl | ⟨before, clause, inner, decs, after, hbody, rfl⟩)
  · exact sound_of_unmarked (hf i decl hdecl) (List.Subset.refl _)
  · exact deltas_sound hmode (List.Subset.refl _) (hf i decl hdecl) hbody

theorem request_sound {mode : String} (hmode : mode ∈ modes) (hf : f.Unmarked)
    (hget : M.Pure 2 [.callExpr (.ident "result.Get" "") []])
    (h : instrumentRequestGoForAll spare f mode = .ok f₁) : FileSound M f f₁ := by
  obtain ⟨ft, htype, h⟩ := bind_ok_iff.mp h
  obtain ⟨fb, hbody, hdo⟩ := bind_ok_iff.mp h
  have hstep : Step M ["Body"] f fb := by
    refine (Step.of_func (requestType_func htype)).replaces (requestBody_replaces hbody) (by simp) ?_
    rintro i decl body hdecl - rfl
    exact requestBody_sound (List.Subset.refl _) (hf i decl hdecl)
  refine (hstep.replaces (requestDo_replaces hdo) (by decide) ?_).fileSound hf
  rintro i decl body hdecl - ⟨before, s, after, -, hsplit, rfl⟩
  exact requestDo_sound hmode (List.Subset.refl _) (hf i decl hdecl) hget hsplit

/-- `List` has one result and `ByIndex` two, and neither has a variable that the pass declares there. -/
def ListingResults (f : File) : Prop :=
  ∀ i decl, f.func i = some decl →
    (decl.name = "List" → decl.results = 1 ∧ decl.Unmarked ("items" :: reserved)) ∧
    (decl.name = "ByIndex" → decl.results = 2 ∧ decl.Unmarked ("items" :: "err" :: reserved))

theorem store_sound {mode : String} (hmode : mode ∈ modes) (hf : f.Unmarked) (hresults : ListingResults f)
    (h : instrumentStoreGoForAll spare f mode = .ok f₁) : FileSound M f f₁ := by
  obtain ⟨fg, hget, h⟩ := bind_ok_iff.mp h
  obtain ⟨fl, hlist, hindex⟩ := bind_ok_iff.mp h
  have hstep : Step M ["GetByKey"] f fg := by
    have hinit : Step M [] f f := .of_func fun _ => rfl
    refine hinit.replaces (cacheGet_replaces hget) (by simp) ?_
    rintro i decl body hdecl - ⟨s, rest, hbody, rfl⟩
    exact cacheGet_sound hmode (List.Subset.refl _) (hf i decl hdecl) hbody _
  have hstep' : Step M ["List", "GetByKey"] f fl := by
    refine hstep.replaces (cacheListing_replaces hlist) (by decide) ?_
    rintro i decl body hdecl hname ⟨before, results, decs, hbody, rfl⟩
    obtain ⟨hone, hunmarked⟩ := (hresults i decl hdecl).1 hname
    exact cacheListing_sound hmode (List.subset_cons_self _ _) hunmarked hbody (by simp) hone.symm (by simp)
  refine (hstep'.replaces (cacheListing_replaces hindex) (by decide) ?_).fileSound hf
  rintro i decl body hdecl hname ⟨before, results, decs, hbody, rfl⟩
  obtain ⟨htwo, hunmarked⟩ := (hresults i decl hdecl).2 hname
  have hX : reserved ⊆ "items" :: "err" :: reserved :=
    fun x hx => List.mem_cons_of_mem _ (List.mem_cons_of_mem _ hx)
  exact cacheListing_sound hmode hX hunmarked hbody (by simp) htwo.symm (by decide)

theorem watchCache_fileSound {mode : String} (hmode : mode ∈ modes) (hf : f.Unmarked)
    {instrumentAfter : Bool} (h : instrumentWatchCacheGoForAll spare f mode true instrumentAfter = .ok f₁) :
    FileSound M f f₁ := by
  have hstep : Step M [] f f := .of_func fun _ => rfl
  refine (hstep.replaces (watchCache_replaces h) (by simp) ?_).fileSound hf
  rintro i decl body hdecl - ⟨before, after, hbody, rfl⟩
  exact watchCache_sound hmode (List.Subset.refl _) (hf i decl hdecl) hbody instrumentAfter

/-! ### Passes on annotated functions -/

/-- These may come after any other pass on the file, themselves included. -/
theorem FileSound.replaces {name : String} {R : FuncDecl → List Stmt → Prop} (h : FileSound M f f₁)
    (hpass : Replaces f₁ f₂ name R)
    (hsound : ∀ decl decl' body, Sound M decl decl' → R decl' body → Sound M decl (decl'.setBody body)) :
    FileSound M f f₂ := by
  intro i
  have hi := h i
  rcases hpass i with hsame | ⟨decl', body, hfunc, -, hfunc', hR⟩
  · rw [hsame]
    exact hi
  · rw [hfunc] at hi
    rw [hfunc']
    generalize f.func i = found at hi
    cases hi with
    | some hs => exact .some (hsound _ decl' body hs hR)

theorem reconcile_fileSound {funName recvType stackFrame : String} (h : FileSound M f f₁)
    (hpass : instrumentAnnotatedReconcile spare f₁ funName recvType stackFrame = .ok f₂) :
    FileSound M f f₂ := by
  refine h.replaces (annotatedReconcile_puts hpass).replaces ?_
  rintro decl decl' body hs rfl
  exact hs.enclosed (by decide : "Learn" ∈ modes) (by decide : "Reconcile" ∈ kinds) (by decide) _

theorem api_fileSound {module filePath funName recvType mode : String} (hmode : mode ∈ modes)
    (h : FileSound M f f₁)
    (hpass : instrumentAnnotatedAPI spare f₁ module filePath funName recvType mode true = .ok f₂) :
    FileSound M f f₂ := by
  refine h.replaces (annotatedAPI_puts hpass).replaces ?_
  rintro decl decl' body hs rfl
  exact hs.enclosedWithId hmode (by decide : "AnnotatedAPICall" ∈ kinds) (by decide) _

/-! ### Whole programs -/

section Programs

variable {spare : String → Spare} {config : Config} {files files₁ files₂ files' : Files} {path : String}

/-- What is assumed of the files before they are instrumented: they have no statements of the passes and do
not use their names, the methods that list the cache have the results that they have in `client-go`, and
`result.Get` has two results and no effects. -/
structure Uninstrumented (M : Meaning F V H S D) (config : Config) (files : Files) : Prop where
  scope : M.Scoped
  unmarked : ∀ path f, files path = some f → f.Unmarked
  listing : ∀ f, files (storeGoFile config.clientGoFilepath) = some f → ListingResults f
  get : M.Pure 2 [.callExpr (.ident "result.Get" "") []]

def FilesSound (M : Meaning F V H S D) (files files' : Files) : Prop :=
  ∀ path, Option.Rel (FileSound M) (files path) (files' path)

theorem filesSound_refl (h : Uninstrumented M config files) : FilesSound M files files := by
  intro path
  cases hpath : files path with
  | none => exact .none
  | some f =>
    have hstep : Step M [] f f := .of_func fun _ => rfl
    exact .some (hstep.fileSound (h.unmarked path f hpath))

theorem onFile_ok {pass : Spare → File → Except String File}
    (h : onFile spare files path pass = .ok files₁) : ∃ f f', files path = some f ∧
      pass (spare path) f = .ok f' ∧ files₁ = Function.update files path (some f') := by
  unfold onFile at h
  cases hpath : files path with
  | none =>
    rw [hpath] at h
    cases h
  | some f =>
    rw [hpath] at h
    obtain ⟨f', hf', h⟩ := bind_ok_iff.mp h
    cases h
    exact ⟨f, f', rfl, hf', rfl⟩

/-- A pass on a file. -/
theorem FilesSound.onFile {pass : Spare → File → Except String File} (h : FilesSound M files files₁)
    (hrun : Instrumentation.onFile spare files₁ path pass = .ok files₂)
    (hpass : ∀ f f₁ f₂, files path = some f → files₁ path = some f₁ → FileSound M f f₁ →
      pass (spare path) f₁ = .ok f₂ → FileSound M f f₂) : FilesSound M files files₂ := by
  obtain ⟨f₁, f₂, hpath, hok, rfl⟩ := onFile_ok hrun
  intro q
  have hq := h q
  by_cases heq : q = path
  · subst heq
    rw [Function.update_self]
    rw [hpath] at hq
    cases hfile : files q with
    | none =>
      rw [hfile] at hq
      cases hq
    | some f =>
      rw [hfile] at hq
      cases hq with
      | some hs => exact .some (hpass f f₁ f₂ hfile hpath hs hok)
  · rw [Function.update_of_ne heq]
    exact hq

/-- A pass on a file that no pass has been on. -/
theorem FilesSound.onFresh {pass : Spare → File → Except String File} (h : FilesSound M files files₁)
    (hfresh : files₁ path = files path) (hrun : Instrumentation.onFile spare files₁ path pass = .ok files₂)
    (hpass : ∀ f f', files path = some f → pass (spare path) f = .ok f' → FileSound M f f') :
    FilesSound M files files₂ := by
  refine h.onFile hrun fun f f₁ f₂ hf hf₁ _ hok => ?_
  rw [hfresh, hf, Option.some.injEq] at hf₁
  exact hpass f f₂ hf (hf₁ ▸ hok)

theorem onFile_other {pass : Spare → File → Except String File} (h : onFile spare files path pass = .ok files₁)
    {q : String} (hq : q ≠ path) : files₁ q = files q := by
  obtain ⟨f, f', -, -, rfl⟩ := onFile_ok h
  exact Function.update_of_ne hq ..

/-- The files of `client-go` are different files. -/
theorem paths_ne (root : String) : sharedInformerGoFile root ≠ requestGoFile root ∧
    storeGoFile root ≠ sharedInformerGoFile root ∧ storeGoFile root ≠ requestGoFile root := by
  -- none of the three names is the end of another
  have hfiles : ∀ {elements elements' : List String} {file file' : String}, IsSegment file.toList →
      IsSegment file'.toList → ¬ file.toList <:+ file'.toList → ¬ file'.toList <:+ file.toList →
      goJoinAll (elements ++ [file]) ≠ goJoinAll (elements' ++ [file']) := by
    intro elements elements' file file' hfile hfile' hne hne' heq
    have hend := suffix_goJoinAll elements hfile
    rw [heq] at hend
    exact (List.suffix_or_suffix_of_suffix hend (suffix_goJoinAll elements' hfile')).elim hne hne'
  exact ⟨@hfiles [root, "tools", "cache"] [root, "rest"] "shared_informer.go" "request.go"
      (by decide) (by decide) (by decide) (by decide),
    @hfiles [root, "tools", "cache"] [root, "tools", "cache"] "store.go" "shared_informer.go"
      (by decide) (by decide) (by decide) (by decide),
    @hfiles [root, "tools", "cache"] [root, "rest"] "store.go" "request.go"
      (by decide) (by decide) (by decide) (by decide)⟩

theorem reconcileFunctions_sound (h : FilesSound M files files₁)
    (hrun : instrumentReconcileFunctions spare config files₁ = .ok files₂) : FilesSound M files files₂ := by
  refine foldlM_invariant (fun _ files' => FilesSound M files files') h ?_ hrun
  rintro _ ⟨filePath, stackFrame⟩ before after hbefore hstep
  obtain ⟨⟨funName, recvType⟩, -, hstep⟩ := bind_ok_iff.mp hstep
  exact hbefore.onFile hstep fun f f₁ f₂ _ _ hs hok => reconcile_fileSound hs hok

theorem apis_sound {mode : String} (hmode : mode ∈ modes) (h : FilesSound M files files₁)
    (hrun : instrumentAPIs spare config mode files₁ = .ok files₂) : FilesSound M files files₂ := by
  refine foldlM_invariant (fun _ files' => FilesSound M files files') h ?_ hrun
  intro _ entry before after hbefore hstep
  exact hbefore.onFile hstep fun f f₁ f₂ _ _ hs hok => api_fileSound hmode hs hok

/-- The passes before those on the annotated calls. -/
theorem controllerForLearn_apis (hfiles : Uninstrumented M config files)
    (h : instrumentControllerForLearn spare config files = .ok files') :
    ∃ files₁, FilesSound M files files₁ ∧ instrumentAPIs spare config "Learn" files₁ = .ok files' := by
  have hlearn : "Learn" ∈ modes := by decide
  obtain ⟨files₁, h₁, h⟩ := bind_ok_iff.mp h
  obtain ⟨files₂, h₂, h⟩ := bind_ok_iff.mp h
  obtain ⟨files₃, h₃, h⟩ := bind_ok_iff.mp h
  obtain ⟨files₄, h₄, h⟩ := bind_ok_iff.mp h
  have hs₁ : FilesSound M files files₁ := (filesSound_refl hfiles).onFresh rfl h₁ fun f f' hf hok =>
    sharedInformer_sound hlearn (hfiles.unmarked _ f hf) hok
  obtain ⟨hinformer, hstore, hstore'⟩ := paths_ne config.clientGoFilepath
  have hs₂ : FilesSound M files files₂ := hs₁.onFresh (onFile_other h₁ hinformer.symm) h₂ fun f f' hf hok =>
    request_sound hlearn (hfiles.unmarked _ f hf) hfiles.get hok
  have hfresh₂ := (onFile_other h₂ hstore').trans (onFile_other h₁ hstore)
  have hs₃ : FilesSound M files files₃ := hs₂.onFresh hfresh₂ h₃ fun f f' hf hok =>
    store_sound hlearn (hfiles.unmarked _ f hf) (hfiles.listing f hf) hok
  exact ⟨files₄, reconcileFunctions_sound hs₃ h₄, h⟩

theorem controllerForTest_apis (hfiles : Uninstrumented M config files)
    (h : instrumentControllerForTest spare config files = .ok files') :
    ∃ files₁, FilesSound M files files₁ ∧ instrumentAPIs spare config "Test" files₁ = .ok files' := by
  have htest : "Test" ∈ modes := by decide
  obtain ⟨files₁, h₁, h⟩ := bind_ok_iff.mp h
  obtain ⟨files₂, h₂, h⟩ := bind_ok_iff.mp h
  obtain ⟨files₃, h₃, h⟩ := bind_ok_iff.mp h
  have hs₁ : FilesSound M files files₁ := (filesSound_refl hfiles).onFresh rfl h₁ fun f f' hf hok =>
    request_sound htest (hfiles.unmarked _ f hf) hfiles.get hok
  obtain ⟨hinformer, hstore, hstore'⟩ := paths_ne config.clientGoFilepath
  have hs₂ : FilesSound M files files₂ := hs₁.onFresh (onFile_other h₁ hinformer) h₂ fun f f' hf hok =>
    sharedInformer_sound htest (hfiles.unmarked _ f hf) hok
  have hfresh₂ := (onFile_other h₂ hstore).trans (onFile_other h₁ hstore')
  have hs₃ : FilesSound M files files₃ := hs₂.onFresh hfresh₂ h₃ fun f f' hf hok =>
    store_sound htest (hfiles.unmarked _ f hf) (hfiles.listing f hf) hok
  exact ⟨files₃, hs₃, h⟩

/-- **The instrumented files** are the given ones with the statements of the passes. -/
theorem instrument_sound (hfiles : Uninstrumented M config files)
    (h : instrument spare config files = .ok files') : FilesSound M files files' := by
  have hrefl := filesSound_refl hfiles
  have hlearn : "Learn" ∈ modes := by decide
  have htest : "Test" ∈ modes := by decide
  unfold instrument at h
  split_ifs at h
  · exact hrefl.onFresh rfl h fun f f' hf hok => watchCache_fileSound hlearn (hfiles.unmarked _ f hf) hok
  · exact hrefl.onFresh rfl h fun f f' hf hok => watchCache_fileSound htest (hfiles.unmarked _ f hf) hok
  · cases h
    exact hrefl
  · obtain ⟨files₁, hs, h⟩ := controllerForLearn_apis hfiles h
    exact apis_sound hlearn hs h
  · obtain ⟨files₁, hs, h⟩ := controllerForTest_apis hfiles h
    exact apis_sound htest hs h
  · cases h
    exact hrefl

/-! ### A controller with one reconciler and one annotated call -/

section Sample

def method (recv name : String) (results : ℕ) (body : List Stmt) : Decl :=
  .funcDecl { name, recv := some [{ names := ["x"], type := .starExpr (.ident recv ""), decs := [] }],
              params := ["key"], results, body }

def sampleFiles : Files := fun path =>
  if path = "client-go/tools/cache/shared_informer.go" then
    some ⟨[method "sharedIndexInformer" "HandleDeltas" 1
      [.rangeStmt "_, d := range obj.(Deltas)" [.other "switch d.Type" []] [],
        .returnStmt [.ident "nil" ""] []]]⟩
  else if path = "client-go/rest/request.go" then
    some ⟨[.genDecl true [.typeSpec ⟨"Request", .structType [⟨["c"], .ident "RESTClient" "", []⟩]⟩],
      method "Request" "Body" 1 [.returnStmt [.ident "r" ""] []],
      method "Request" "Do" 1
        [.other "var result Result" [],
          .assignStmt (names ["err"]) .define
            [.callExpr (.selectorExpr (.ident "r" "") "request") [.ident "ctx" ""]] [],
          .returnStmt [.ident "result" ""] []]]⟩
  else if path = "client-go/tools/cache/store.go" then
    some ⟨[method "cache" "GetByKey" 3
        [.other "item, exists = c.cacheStorage.Get(key)" [], .returnStmt (names ["item", "exists", "nil"]) []],
      method "cache" "List" 1 [.returnStmt [.other "c.cacheStorage.List()"] []],
      method "cache" "ByIndex" 2 [.returnStmt [.other "c.cacheStorage.ByIndex(name, value)"] []]]⟩
  else if path = "app/controllers/c.go" then
    some ⟨[method "Reconciler" "Reconcile" 2 [.returnStmt (names ["result", "err"]) []]]⟩
  else if path = "app/sieve-dependency/src/m/f.go" then
    some ⟨[method "Client" "Create" 1 [.returnStmt [.ident "nil" ""] []]]⟩
  else none

/-- No slice has room to spare. -/
def sampleSpare : String → Spare := fun _ _ _ => false

def sampleConfig : Config :=
  { project := "controller", mode := "learn", k8sFilepath := "", appFilePath := "app",
    clientGoFilepath := "client-go",
    annotatedReconcileFunctions := [("controllers/c.go", "example.com/controllers.(*Reconciler).Reconcile")],
    apisToInstrument := [⟨"m", "f.go", "Create", "*Client"⟩] }

/-- The state is a number that every statement of the program counts up, by more if it mentions variables of
the passes. -/
def sampleMeaning : Meaning (String × ℕ) ℕ ℕ ℕ Empty where
  enter _ _ h := h
  leave s := s
  stmt s vars own := .done (.next, own + 1 + s.words.countP fun x => (vars x).isSome, [])
  results n _ _ s := .done (.ok (Vector.replicate n 0), s)
  clause _ _ s := .done (.ok [id], s)
  deferred d := nomatch d
  read _ _ := 0

theorem sampleMeaning_scoped : sampleMeaning.Scoped where
  stmt s vars vars' own h := by
    have hcount : (s.words.countP fun x => (vars x).isSome) = s.words.countP fun x => (vars' x).isSome :=
      List.countP_congr fun x hx => by rw [h x hx]
    simp only [sampleMeaning, hcount]
  results _ _ _ _ _ _ := rfl
  clause _ _ _ _ _ := rfl

instance (X : List String) (s : Stmt) : Decidable (s.Given X) :=
  decidable_of_iff (s.Own ∧ Clear X s.words) ⟨fun h => ⟨h.1, h.2⟩, fun h => ⟨h.own, h.clear⟩⟩

instance (X : List String) (decl : FuncDecl) : Decidable (decl.Unmarked X) :=
  decidable_of_iff ((∀ s ∈ decl.body, s.Given X) ∧ Clear X decl.declared)
    ⟨fun h => ⟨h.1, h.2⟩, fun h => ⟨h.given, h.declared⟩⟩

/-- What is checked of every declaration of a file. -/
def Decl.plain : Decl → Bool
  | .funcDecl decl => decide (decl.Unmarked reserved)
  | .genDecl .. => true

theorem unmarked_of_plain (h : f.decls.all Decl.plain = true) : f.Unmarked := by
  intro i decl hdecl
  have hmem : Decl.funcDecl decl ∈ f.decls := by
    unfold File.func at hdecl
    split at hdecl
    · next decl' hat =>
      cases hdecl
      exact List.mem_of_getElem? hat
    · cases hdecl
  exact of_decide_eq_true (List.all_eq_true.mp h _ hmem)

theorem sample_uninstrumented : Uninstrumented sampleMeaning sampleConfig sampleFiles where
  scope := sampleMeaning_scoped
  unmarked path f hf := by
    unfold sampleFiles at hf
    split_ifs at hf <;> cases hf <;> exact unmarked_of_plain (by decide +kernel)
  listing f hf i decl hdecl := by
    have hpath : storeGoFile sampleConfig.clientGoFilepath = "client-go/tools/cache/store.go" := by
      decide +kernel
    rw [hpath] at hf
    cases hf
    rcases i with _ | _ | _ | i <;> cases hdecl <;> decide +kernel
  get _ _ := ⟨_, rfl⟩

theorem sample_instruments : ∃ files', instrument sampleSpare sampleConfig sampleFiles = .ok files' := by
  have hok : (instrument sampleSpare sampleConfig sampleFiles).isOk = true := by decide +kernel
  cases hfiles : instrument sampleSpare sampleConfig sampleFiles with
  | ok files' => exact ⟨files', rfl⟩
  | error e =>
    rw [hfiles] at hok
    cases hok

end Sample

/-! ### Runs of the instrumented program -/

/-- The functions of all files: each is known by its file and its position. -/
def program (files : Files) : String × ℕ → Option FuncDecl := fun (path, i) => (files path).bind (·.func i)

variable {M : Meaning (String × ℕ) V H S D}

theorem program_sound (h : FilesSound M files files') (c : String × ℕ) :
    Option.Rel (Sound M) (program files c) (program files' c) := by
  obtain ⟨path, i⟩ := c
  have hpath := h path
  show Option.Rel (Sound M) ((files path).bind _) ((files' path).bind _)
  generalize files path = u, files' path = v at hpath
  cases hpath with
  | none => exact .none
  | some hs => exact hs i

theorem program_some (h : FilesSound M files files') {c : String × ℕ} {decl' : FuncDecl}
    (hdecl : program files' c = some decl') : ∃ decl, Sound M decl decl' := by
  have hc := program_sound h c
  rw [hdecl] at hc
  generalize program files c = found at hc
  cases hc with
  | some hs => exact ⟨_, hs⟩

variable [DecidableEq V]

/-- The hooks after something. -/
def IsAfter (e : Event V) : Prop := ∃ mode ∈ modes, ∃ kind ∈ kinds, e.function = afterName mode kind

omit [DecidableEq V] in
theorem not_opens_of_isAfter {e : Event V} (h : IsAfter e) : ¬ Opens e := by
  obtain ⟨mode, hmode, kind, hkind, he⟩ := h
  rintro ⟨mode', hmode', kind', hkind', he'⟩
  have hne : ∀ mode ∈ modes, ∀ kind ∈ kinds, ∀ mode' ∈ modes, ∀ kind' ∈ kinds,
      afterName mode kind ≠ beforeName mode' kind' := by decide +kernel
  exact hne mode hmode kind hkind mode' hmode' kind' hkind' (he.symm.trans he')

/-- **The hooks are called in pairs**: a hook after something answers a hook before it, with its id where
there is one, and what is between the two is in pairs in the same way. -/
theorem instrument_nested (hfiles : Uninstrumented M config files)
    (h : instrument spare config files = .ok files') (hooks : List (Event V) → String → List V → V) (k : ℕ)
    (c : (String × ℕ) × List V × H) (o : Observer V) (p : (Exit V × H) × Observer V)
    (hrun : run M hooks (program files') k c o = some p) :
    ∃ w, p.2.log = o.log ++ w ∧ Nested Opens Pairs w ∧ ∀ u a v, w = u ++ a :: v → IsAfter a →
      ∃ x b m, u = x ++ b :: m ∧ Pairs b a ∧ Nested Opens Pairs m := by
  have hs := instrument_sound hfiles h
  have hbracketed : ∀ f decl, program files' f = some decl → Bracketed decl.body := by
    intro f decl hdecl
    obtain ⟨_, hdecl⟩ := program_some hs hdecl
    exact hdecl.bracketed
  obtain ⟨w, hw, hlog⟩ := run_logs hbracketed k c o p hrun
  refine ⟨w, hlog, hw, fun u a v hsplit hafter => ?_⟩
  obtain ⟨x, b, m, hu, -, hpairs, hm⟩ := hw.closing (not_opens_of_isAfter hafter) hsplit
  exact ⟨x, b, m, hu, hpairs, hm⟩

/-- A run of the annotated call, where a hook answers with the number of the hooks before it. -/
def sampleRun (files' : Files) : Option ((Exit ℕ × ℕ) × Observer ℕ) :=
  run sampleMeaning (fun log _ _ => log.length) (program files') 1
    (("app/sieve-dependency/src/m/f.go", 0), [], 0) { log := [], obj := id }

theorem sample_runs {files' : Files} (h : instrument sampleSpare sampleConfig sampleFiles = .ok files') :
    ∃ p, sampleRun files' = some p := by
  have hrun : ((instrument sampleSpare sampleConfig sampleFiles).toOption.bind sampleRun).isSome = true := by
    decide +kernel
  rw [h] at hrun
  exact Option.isSome_iff_exists.mp hrun

theorem instrument_nested_sample : ∃ files' p, instrument sampleSpare sampleConfig sampleFiles = .ok files' ∧
    sampleRun files' = some p ∧ ∃ w, p.2.log = [] ++ w ∧ Nested Opens Pairs w ∧
      ∀ u a v, w = u ++ a :: v → IsAfter a →
        ∃ x b m, u = x ++ b :: m ∧ Pairs b a ∧ Nested Opens Pairs m := by
  obtain ⟨files', h⟩ := sample_instruments
  obtain ⟨p, hp⟩ := sample_runs h
  exact ⟨files', p, h, hp, instrument_nested sample_uninstrumented h _ _ _ _ p hp⟩

end Programs

end Sieve.Instrumentation
