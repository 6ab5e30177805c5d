import Sieve.Instrumentation.Passes
import Sieve.Event.Paths
import Mathlib.Data.List.DropRight
import Mathlib.Logic.Function.Basic

/-!
# Instrumenting a controller

`main.go`: which passes run on which files, for a controller and for Kubernetes, in the learning and in the
testing mode. The files are a map from paths, which a failing pass leaves half done.
-/

namespace Sieve.Instrumentation

open Sieve.Event (goJoinAll)

abbrev Files := String → Option File

/-- An entry of `apis_to_instrument`; its package and its import map are for the parser. -/
structure AnnotatedAPI where
  module : String
  filePath : String
  funcName : String
  receiverType : String

/-- `annotatedReconcileFunctions` are the entries of a map, in the order in which they are visited. -/
structure Config where
  project : String
  mode : String
  k8sFilepath : String
  appFilePath : String
  clientGoFilepath : String
  annotatedReconcileFunctions : List (String × String)
  apisToInstrument : List AnnotatedAPI

/-- A pass that reads a file and writes it back. -/
def onFile (spare : String → Spare) (files : Files) (path : String) (pass : Spare → File → Except String File) :
    Except String Files :=
  match files path with
  | none => throw ("open " ++ path ++ ": no such file or directory")
  | some f => do
    let f ← pass (spare path) f
    pure (Function.update files path (some f))

/-- The method and its receiver in a stack frame such as `example.com/pkg.(*Reconciler).Reconcile`. -/
def reconcileMethod (stackFrame : String) : Except String (String × String) :=
  let last := (stackFrame.toList.splitOn '/').getLastD []
  match (last.splitOn '.').reverse with
  | funName :: recvType :: _ :: _ =>
    let parenthesis : Char → Bool := fun c => c == '(' || c == ')'
    pure (String.ofList funName, String.ofList ((recvType.dropWhile parenthesis).rdropWhile parenthesis))
  | _ => throw "index out of range"

def sharedInformerGoFile (clientGoFilepath : String) : String :=
  goJoinAll [clientGoFilepath, "tools", "cache", "shared_informer.go"]

def requestGoFile (clientGoFilepath : String) : String := goJoinAll [clientGoFilepath, "rest", "request.go"]

def storeGoFile (clientGoFilepath : String) : String :=
  goJoinAll [clientGoFilepath, "tools", "cache", "store.go"]

def watchCacheGoFile (k8sFilepath : String) : String :=
  goJoinAll [k8sFilepath, "staging", "src", "k8s.io", "apiserver", "pkg", "storage", "cacher",
    "watch_cache.go"]

def Config.apiPath (config : Config) (entry : AnnotatedAPI) : String :=
  goJoinAll [config.appFilePath, "sieve-dependency", "src", entry.module, entry.filePath]

section Capacities

variable (spare : String → Spare)

def instrumentReconcileFunctions (config : Config) (files : Files) : Except String Files :=
  config.annotatedReconcileFunctions.foldlM (fun files (filePath, stackFrame) => do
    let (funName, recvType) ← reconcileMethod stackFrame
    onFile spare files (goJoinAll [config.appFilePath, filePath])
      (instrumentAnnotatedReconcile · · funName recvType stackFrame)) files

def instrumentAPIs (config : Config) (mode : String) (files : Files) : Except String Files :=
  config.apisToInstrument.foldlM (fun files entry =>
    onFile spare files (config.apiPath entry)
      (instrumentAnnotatedAPI · · entry.module entry.filePath entry.funcName entry.receiverType mode true))
    files

def instrumentControllerForLearn (config : Config) (files : Files) : Except String Files := do
  let files ← onFile spare files (sharedInformerGoFile config.clientGoFilepath)
    (instrumentSharedInformerGoForAll · · "Learn")
  let files ← onFile spare files (requestGoFile config.clientGoFilepath)
    (instrumentRequestGoForAll · · "Learn")
  let files ← onFile spare files (storeGoFile config.clientGoFilepath) (instrumentStoreGoForAll · · "Learn")
  let files ← instrumentReconcileFunctions spare config files
  instrumentAPIs spare config "Learn" files

def instrumentControllerForTest (config : Config) (files : Files) : Except String Files := do
  let files ← onFile spare files (requestGoFile config.clientGoFilepath)
    (instrumentRequestGoForAll · · "Test")
  let files ← onFile spare files (sharedInformerGoFile config.clientGoFilepath)
    (instrumentSharedInformerGoForAll · · "Test")
  let files ← onFile spare files (storeGoFile config.clientGoFilepath) (instrumentStoreGoForAll · · "Test")
  instrumentAPIs spare config "Test" files

def instrumentKubernetesForTest (config : Config) (files : Files) : Except String Files :=
  onFile spare files (watchCacheGoFile config.k8sFilepath) (instrumentWatchCacheGoForAll · · "Test" true true)

def instrumentKubernetesForLearn (config : Config) (files : Files) : Except String Files :=
  onFile spare files (watchCacheGoFile config.k8sFilepath)
    (instrumentWatchCacheGoForAll · · "Learn" true false)

/-- `main`, after the configuration has been read. -/
def instrument (config : Config) (files : Files) : Except String Files :=
  if config.project == "kubernetes" then
    if config.mode == "learn" then instrumentKubernetesForLearn spare config files
    else if config.mode == "test" then instrumentKubernetesForTest spare config files
    else if config.mode == "vanilla" then pure files
    else throw ("Unsupported mode " ++ config.mode)
  else
    if config.mode == "learn" then instrumentControllerForLearn spare config files
    else if config.mode == "test" then instrumentControllerForTest spare config files
    else if config.mode == "vanilla" then pure files
    else throw ("Unsupported mode " ++ config.mode)

end Capacities

end Sieve.Instrumentation
