import Sieve.Instrumentation.Syntax

/-!
# The instrumentation passes

The passes of `instrumentation.go`, each from the file it is given to the file it writes. Reading and
printing a file is left to the syntax tree library. A pass that panics or ends the process has the text
it does so with.
-/

namespace Sieve.Instrumentation

/-! ### Finding and inserting -/

/-- `crash here` ends the process: only methods with a pointer receiver are looked for. -/
def receiverMatches (recvTypeName : String) (field : Field) : Except String Bool :=
  match recvTypeName.toList with
  | '*' :: typeName =>
    match field.type with
    | .starExpr (.ident name _) => pure (name.toList == typeName)
    | _ => pure false
  | _ => throw "crash here"

def findReceiver (recvTypeName : String) : List Field → Except String Bool
  | [] => pure false
  | field :: fields => do
    if ← receiverMatches recvTypeName field then pure true else findReceiver recvTypeName fields

def isMethod (funName recvTypeName : String) : Decl → Except String (Option FuncDecl)
  | .funcDecl decl =>
    match decl.recv with
    | some fields =>
      if decl.name == funName then do
        if ← findReceiver recvTypeName fields then pure (some decl) else pure none
      else pure none
    | none => pure none
  | .genDecl .. => pure none

/-- The first method of that name and receiver, with its position. -/
def findFuncDecl (f : File) (funName recvTypeName : String) : Except String (Option (Nat × FuncDecl)) :=
  go 0 f.decls
where
  go (i : Nat) : List Decl → Except String (Option (Nat × FuncDecl))
    | [] => pure none
    | decl :: decls => do
      match ← isMethod funName recvTypeName decl with
      | some funcDecl => pure (some (i, funcDecl))
      | none => go (i + 1) decls

def findTypeSpec (typeName : String) : List Spec → Option (Nat × TypeSpec)
  | [] => none
  | .typeSpec spec :: specs =>
    if spec.name == typeName then some (0, spec)
    else (findTypeSpec typeName specs).map fun (j, found) => (j + 1, found)
  | .other _ :: specs => (findTypeSpec typeName specs).map fun (j, found) => (j + 1, found)

/-- The positions of the declaration and of the type in it. -/
def findTypeDecl (f : File) (typeName : String) : Option (Nat × Nat × TypeSpec) :=
  go 0 f.decls
where
  go (i : Nat) : List Decl → Option (Nat × Nat × TypeSpec)
    | [] => none
    | .genDecl true specs :: decls =>
      match findTypeSpec typeName specs with
      | some (j, spec) => some (i, j, spec)
      | none => go (i + 1) decls
    | _ :: decls => go (i + 1) decls

/-- `insertStmt` and `insertField`: `(*list)[:index+1]` panics past the capacity of the slice and
`(*list)[index:]` past its length. `spare` tells whether the capacity is larger than the length. -/
def insertAt {α : Type} (spare : List α → Bool) (list : List α) (index : Nat) (instrumentation : α) :
    Except String (List α) :=
  if index < list.length || (index == list.length && spare list) then
    pure (list.take index ++ instrumentation :: list.drop index)
  else throw "slice bounds out of range"

/-- What is known of the slices of statements in a function: the library that reads the file and `append`
decide on their capacities. -/
abbrev Spare := FuncDecl → List Stmt → Bool

def FuncDecl.setBody (decl : FuncDecl) (body : List Stmt) : FuncDecl := { decl with body }

def File.setFunc (f : File) (i : Nat) (decl : FuncDecl) : File :=
  { f with decls := f.decls.set i (.funcDecl decl) }

/-! ### The statements that are inserted -/

def sieve : List String := ["//sieve"]

/-- `fmt.Sprintf("\"%s\"", text)` -/
def quoted (text : String) : String := "\"" ++ text ++ "\""

/-- A call of the client library; the arguments are identifiers whose names are expressions. -/
def notify (function : String) (args : List String) : Expr :=
  .callExpr (.ident function "sieve.client") (args.map fun arg => .ident arg "")

def notifyStmt (function : String) (args : List String) : Stmt := .exprStmt (notify function args) sieve

def deferNotify (function : String) (args : List String) : Stmt := .deferStmt (notify function args) sieve

def assignNotify (name function : String) (args : List String) : Stmt :=
  .assignStmt [.ident name ""] .define [notify function args] sieve

def names (vars : List String) : List Expr := vars.map fun name => .ident name ""

/-! ### Annotated functions -/

def instrumentAnnotatedReconcile (spare : Spare) (f : File) (funName recvType stackFrame : String) :
    Except String File := do
  match ← findFuncDecl f funName recvType with
  | none => throw "cannot find function reconcileHandler"
  | some (i, decl) =>
    let body ← insertAt (spare decl) decl.body 0 (notifyStmt "NotifyLearnBeforeReconcile" [quoted stackFrame])
    let body ← insertAt (spare decl) body 1 (deferNotify "NotifyLearnAfterReconcile" [quoted stackFrame])
    pure (f.setFunc i (decl.setBody body))

/-- `toCallBefore` and `toCallAfter` are given the same arguments, the latter after the id. -/
def annotatedArgs (module filePath recvTypeName funName : String) : List String :=
  [quoted module, quoted filePath, quoted recvTypeName, quoted funName]

def instrumentAnnotatedAPI (spare : Spare) (f : File)
    (module filePath funName recvTypeName mode : String) (instrumentBefore : Bool) : Except String File := do
  match ← findFuncDecl f funName recvTypeName with
  | none => throw "invalid memory address or nil pointer dereference"
  | some (i, decl) =>
    let invocationIDVar := if instrumentBefore then "invocationIDVar" else "-1"
    let args := annotatedArgs module filePath recvTypeName funName
    let body ← insertAt (spare decl) decl.body 0
      (deferNotify ("Notify" ++ mode ++ "AfterAnnotatedAPICall") (invocationIDVar :: args))
    let body ←
      if instrumentBefore then
        insertAt (spare decl) body 0
          (assignNotify invocationIDVar ("Notify" ++ mode ++ "BeforeAnnotatedAPICall") args)
      else pure body
    pure (f.setFunc i (decl.setBody body))

/-! ### The informer -/

/-- What the hooks of one delta are given, the one after it after the id. -/
def deltaArgs : List String := ["string(d.Type)", "d.Object"]

def instrumentRange (spare : List Stmt → Bool) (mode : String) (body : List Stmt) :
    Except String (List Stmt) := do
  let body ← insertAt spare body 0
    (assignNotify "recvID" ("Notify" ++ mode ++ "BeforeControllerRecv") deltaArgs)
  pure (body ++ [notifyStmt ("Notify" ++ mode ++ "AfterControllerRecv") ("recvID" :: deltaArgs)])

/-- The first loop over a range; where there is none, nothing is inserted. -/
def instrumentFirstRange (spare : List Stmt → Bool) (mode : String) : List Stmt → Except String (List Stmt)
  | [] => pure []
  | .rangeStmt clause body decs :: rest => do
    let body ← instrumentRange spare mode body
    pure (.rangeStmt clause body decs :: rest)
  | stmt :: rest => do
    let rest ← instrumentFirstRange spare mode rest
    pure (stmt :: rest)

def instrumentSharedInformerGoForAll (spare : Spare) (f : File) (mode : String) : Except String File := do
  match ← findFuncDecl f "HandleDeltas" "*sharedIndexInformer" with
  | none => throw "cannot find function HandleDeltas"
  | some (i, decl) =>
    let body ← instrumentFirstRange (spare decl) mode decl.body
    pure (f.setFunc i (decl.setBody body))

/-! ### REST requests -/

def objField : Field := { names := ["obj"], type := .ident "interface{}" "", decs := sieve }

/-- The field is inserted before the last one. Without a field the index is -1, which no capacity allows. -/
def instrumentRequestType (f : File) : Except String File :=
  match findTypeDecl f "Request" with
  | none => throw "cannot find type Request"
  | some (i, j, spec) =>
    match spec.type with
    | .other _ => throw "request is not struct"
    | .structType fields => do
      let fields ← insertAt (fun _ => false) fields (fields.length - 1) objField
      match f.decls[i]? with
      | some (.genDecl isType specs) =>
        let specs := specs.set j (.typeSpec { spec with type := .structType fields })
        pure { f with decls := f.decls.set i (.genDecl isType specs) }
      | _ => pure f

def instrumentRequestBody (spare : Spare) (f : File) : Except String File := do
  match ← findFuncDecl f "Body" "*Request" with
  | none => pure f
  | some (i, decl) =>
    let body ← insertAt (spare decl) decl.body 0 (.assignStmt (names ["r.obj"]) .assign (names ["obj"]) sieve)
    pure (f.setFunc i (decl.setBody body))

/-- `… = r.request(…)` -/
def isRequestCall : Stmt → Bool
  | .assignStmt _ _ (.callExpr (.selectorExpr (.ident x _) sel) _ :: _) _ => x == "r" && sel == "request"
  | _ => false

def restArgs : List String :=
  ["r.verb", "r.pathPrefix", "r.subpath", "r.namespace", "r.namespaceSet", "r.resource",
    "r.resourceName", "r.subresource"]

/-- `resultObj, decodingError := result.Get()` -/
def resultGet : Stmt :=
  .assignStmt (names ["resultObj", "decodingError"]) .define [.callExpr (.ident "result.Get" "") []] sieve

def instrumentRequestDo (spare : Spare) (f : File) (mode : String) : Except String File := do
  match ← findFuncDecl f "Do" "*Request" with
  | none => throw "cannot find function Do"
  | some (i, decl) =>
    let body ← insertAt (spare decl) decl.body 0
      (assignNotify "operationID" ("Notify" ++ mode ++ "BeforeRestCall") (restArgs ++ ["r.obj"]))
    match body.findIdx? isRequestCall with
    | none => throw "cannot find definition of result"
    | some index =>
      let body ← insertAt (spare decl) body (index + 1) resultGet
      let body ← insertAt (spare decl) body (index + 2)
        (notifyStmt ("Notify" ++ mode ++ "AfterRestCall")
          ("operationID" :: restArgs ++ ["resultObj", "decodingError", "result.Error()"]))
      pure (f.setFunc i (decl.setBody body))

def instrumentRequestGoForAll (spare : Spare) (f : File) (mode : String) : Except String File := do
  let f ← instrumentRequestType f
  let f ← instrumentRequestBody spare f
  instrumentRequestDo spare f mode

/-! ### Reads of the cache -/

/-- The results of the last statement, if that is a return. -/
def lastReturn (body : List Stmt) (failure : String) : Except String (List Expr) :=
  match body.getLast? with
  | none => throw "index out of range"
  | some (.returnStmt results _) => pure results
  | some _ => throw failure

/-- The last return becomes an assignment of its results to `vars`, the hook and a return of `vars`. -/
def rewriteReturn (body : List Stmt) (vars : List String) (results : List Expr) (hook : Stmt) :
    List Stmt :=
  body.dropLast ++
    [.assignStmt (names vars) .define results sieve, hook, .returnStmt (names vars) sieve]

def instrumentCacheGetForAll (spare : Spare) (f : File) (mode : String) : Except String File := do
  match ← findFuncDecl f "GetByKey" "*cache" with
  | none => throw "instrumentStoreGo error"
  | some (i, decl) =>
    let body ← insertAt (spare decl) decl.body 0
      (notifyStmt ("Notify" ++ mode ++ "BeforeCacheGet") ["key", "c.cacheStorage.List()"])
    let body ← insertAt (spare decl) body 2
      (notifyStmt ("Notify" ++ mode ++ "AfterCacheGet") ["key", "item", "exists"])
    pure (f.setFunc i (decl.setBody body))

/-- `instrumentCacheListForAll` and `instrumentCacheByIndexForAll` differ in the method, in the variables
and in the second argument of the hook after the read. -/
def instrumentCacheListing (spare : Spare) (f : File) (mode funName : String) (vars : List String)
    (err : String) : Except String File := do
  match ← findFuncDecl f funName "*cache" with
  | none => throw "instrumentStoreGo error"
  | some (i, decl) =>
    let body ← insertAt (spare decl) decl.body 0
      (notifyStmt ("Notify" ++ mode ++ "BeforeCacheList") ["c.cacheStorage.List()"])
    let results ← lastReturn body "last stmt is not return"
    pure (f.setFunc i (decl.setBody (rewriteReturn body vars results
      (notifyStmt ("Notify" ++ mode ++ "AfterCacheList") ["items", err]))))

def instrumentCacheListForAll (spare : Spare) (f : File) (mode : String) : Except String File :=
  instrumentCacheListing spare f mode "List" ["items"] "nil"

def instrumentCacheByIndexForAll (spare : Spare) (f : File) (mode : String) : Except String File :=
  instrumentCacheListing spare f mode "ByIndex" ["items", "err"] "err"

def instrumentStoreGoForAll (spare : Spare) (f : File) (mode : String) : Except String File := do
  let f ← instrumentCacheGetForAll spare f mode
  let f ← instrumentCacheListForAll spare f mode
  instrumentCacheByIndexForAll spare f mode

/-- The reads of a delegating client, under either name of its type. -/
def instrumentCacheRead (f : File) (etype mode : String) : Except String File := do
  let found ← findFuncDecl f etype "*delegatingReader"
  let found ← if found.isNone then findFuncDecl f etype "*DelegatingReader" else pure found
  match found with
  | none => throw ("cannot find function " ++ etype)
  | some (i, decl) =>
    let funName := "Notify" ++ mode ++ "AfterController" ++ etype
    let results ← lastReturn decl.body ("last stmt of " ++ etype ++ " is not return")
    let hook ←
      if etype == "Get" then pure (notifyStmt funName ["\"Get\"", "true", "key", "obj", "err"])
      else if etype == "List" then pure (notifyStmt funName ["\"List\"", "true", "list", "err"])
      else throw ("wrong type " ++ etype ++ " for operator read")
    pure (f.setFunc i (decl.setBody (rewriteReturn decl.body ["err"] results hook)))

def instrumentSplitGoForAll (f : File) (mode : String) : Except String File := do
  let f ← instrumentCacheRead f "Get" mode
  instrumentCacheRead f "List" mode

/-! ### The watch cache of the API server -/

def instrumentationIndex : Nat := 5

def watchArgs : List String := ["string(event.Type)", "key", "event.Object"]

def instrumentWatchCacheGoForAll (spare : Spare) (f : File) (mode : String)
    (instrumentBefore instrumentAfter : Bool) : Except String File := do
  match ← findFuncDecl f "processEvent" "*watchCache" with
  | none => throw "instrumentWatchCacheGo error"
  | some (i, decl) =>
    let body ←
      if instrumentBefore then
        insertAt (spare decl) decl.body instrumentationIndex
          (notifyStmt ("Notify" ++ mode ++ "BeforeAPIServerRecv") watchArgs)
      else pure decl.body
    let body ←
      if instrumentAfter then
        insertAt (spare decl) body instrumentationIndex
          (deferNotify ("Notify" ++ mode ++ "AfterAPIServerRecv") watchArgs)
      else pure body
    pure (f.setFunc i (decl.setBody body))

end Sieve.Instrumentation
