import PipeExpr.Json.Reader
import PipeExpr.Settings.Basic
import PipeExpr.Text.Classes

/-!
Settings from environment variables and from files. A file is a JSON object, or an array of the
settings in order; what is left out keeps its default, and what is not known is passed over.
-/
namespace PipeExpr.Settings

def natural? (s : List Char) : Option Nat :=
  let digits := match s with
    | '+' :: rest => rest
    | s => s
  if digits.isEmpty || !digits.all Char.isDigit then none
  else
    let n := Decimal.natOfDigits digits
    if n < Nat.pow 2 64 then some n else none

/-- The words that turn the cache off. -/
def isYes (raw : String) : Bool :=
  ["1", "true", "yes"].contains (String.ofList ((Text.trim raw.toList).map Char.toLower))

def depthVariable : String := "JEXL_MAX_DEPTH"

def cacheVariable : String := "JEXL_DISABLE_CACHE"

def ofEnvironment (environment : String → Option String) : Except Error Settings := do
  let maxDepth ← match environment depthVariable with
    | none => pure ({} : Settings).maxDepth
    | some raw =>
      match natural? (Text.trim raw.toList) with
      | some n => pure n
      | none => throw (.setting (.depthNotNumber raw))
  let cache := match environment cacheVariable with
    | none => ({} : Settings).cache
    | some raw => !isYes raw
  checked { maxDepth := maxDepth, cache := cache }

/-- An integer that is not negative and fits 64 bits. -/
def depth? : Json.Raw → Option Nat
  | .number n =>
    match n.resolve with
    | some (.integer (.ofNat m)) => some m
    | _ => none
  | _ => none

def flag? : Json.Raw → Option Bool
  | .boolean b => some b
  | _ => none

/-- The settings in the fields of an object. Each of them may be given once. -/
def ofFields? (maxDepth : Option Nat) (cache : Option Bool) :
    List (List Json.Piece × Json.Raw) → Option Settings
  | [] =>
    some { maxDepth := maxDepth.getD ({} : Settings).maxDepth
           cache := cache.getD ({} : Settings).cache }
  | (key, value) :: rest => do
    let key ← Json.resolveString key
    if key = "max_depth" then
      if maxDepth.isSome then none else ofFields? (some (← depth? value)) cache rest
    else if key = "cache" then
      if cache.isSome then none else ofFields? maxDepth (some (← flag? value)) rest
    else ofFields? maxDepth cache rest

def ofRaw? : Json.Raw → Option Settings
  | .object fields => ofFields? none none fields
  | .array [] => some {}
  | .array [depth] => do
    let maxDepth ← depth? depth
    return { maxDepth := maxDepth }
  | .array [depth, flag] => do
    let maxDepth ← depth? depth
    let cache ← flag? flag
    return { maxDepth := maxDepth, cache := cache }
  | _ => none

/-- The settings in a file; `contents` is none when it cannot be read. -/
def ofFile (path : String) (contents : Option String) : Except Error Settings :=
  match contents with
  | none => .error (.setting (.unreadableFile path))
  | some text =>
    match (Json.Raw.read? text.toList).bind ofRaw? with
    | none => .error (.setting (.invalidFile path))
    | some settings => settings.checked

end PipeExpr.Settings
