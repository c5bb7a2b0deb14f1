import Wfe.Backends.ArtifactPaths
import Wfe.Library.Utf8
import Wfe.Models.OutputLines
import Wfe.Yaml.StepConfig

/-!
# Scripts in the Deno runtime

What a script of a `deno` step can reach: it fetches URLs, reads files and imports modules, and each
of these is checked against the permissions of the step. Modules are resolved to a URL first and
loaded then. The crates that take URLs apart and that send requests are parameters.

## Main definitions

* `Web`: URLs and the HTTP client, `Exchange`: what the servers answer
* `checkNet`, `checkRead`: the permissions
* `opFetch`, `opReadFile`, `resolve`, `load`: what a script can do
-/

namespace Wfe.Deno

open ArtifactPaths (bytes)

/-- The kind of an error and its text. -/
structure JsErrorBox where
  className : String
  message : String
deriving DecidableEq, Repr

def JsErrorBox.generic (message : String) : JsErrorBox := ⟨"Error", message⟩

/-! ## The outside -/

/-- URLs of the crate `url`, and what of the crate `reqwest` does not depend on servers: the headers
that a request can have, the text of its error where no request can be sent, and the texts of
statuses. -/
structure Web (U : Type) where
  parse : String → Except String U
  join : U → String → Except String U
  scheme : U → String
  host : U → Option String
  toFilePath : U → Option UnixPath
  text : U → String
  headerOk : String × String → Bool
  refusal : U → String
  statusText : Nat → String

structure Response where
  status : Nat
  headers : List (String × Option String)
  body : Except String String

/-- What servers answer to a request: the URLs that redirect responses name, one after another, and
the last response or the error. -/
structure Exchange (U : Type) where
  redirects : List U
  response : Except String Response

/-- What a module is resolved for. -/
inductive ResolutionKind
  | mainModule
  | staticImport
  | dynamicImport
deriving DecidableEq, Repr

/-- What a script does to the outside: it sends a request to a host, reads a file, and imports a
module. -/
inductive Effect
  | request (host : String)
  | read (path : UnixPath)
  | imported (kind : ResolutionKind)
deriving DecidableEq, Repr

section Outside

variable {U : Type} (W : Web U)

def Web.isHttp (u : U) : Bool := W.scheme u = "http" || W.scheme u = "https"

/-- The URLs that `reqwest` sends requests to: the first one, and up to ten that it is redirected
to. -/
def Web.sent (u : U) (headers : List (String × String)) (x : Exchange U) : List U :=
  if W.isHttp u && headers.all W.headerOk then u :: (x.redirects.takeWhile W.isHttp).take 10
  else []

/-- Sends a request with the default client. -/
def Web.send (u : U) (headers : List (String × String)) (x : Exchange U) :
    List Effect × Except String Response :=
  (((W.sent u headers x).filterMap W.host).map Effect.request,
    if W.sent u headers x = [] then .error (W.refusal u) else x.response)

end Outside

/-! ## Permissions -/

structure PermissionError where
  kind : String
  resource : String
deriving DecidableEq, Repr

/-- The error's text. -/
def PermissionError.display (e : PermissionError) : String :=
  s!"Permission denied: {e.kind} access to '{e.resource}'"

def checkNet (p : DenoPermissions) (host : String) : Except PermissionError Unit :=
  if host ∈ p.net then .ok () else .error ⟨"net", host⟩

def hasTraversal (path : UnixPath) : Bool := path.components.any (· = .parentDir)

/-- `check_read`. The path is a text, given by its bytes. -/
def checkRead (p : DenoPermissions) (path : UnixPath) : Except PermissionError Unit :=
  if hasTraversal path then .error ⟨"read", String.ofList (Utf8.lossy path)⟩
  else if p.read.any fun allowed => path.startsWith (bytes allowed) then .ok ()
  else .error ⟨"read", String.ofList (Utf8.lossy path)⟩

/-- `Path::to_string_lossy`: a text stays as it is. -/
def toStringLossy (path : UnixPath) : UnixPath :=
  if Utf8.Valid path then path else bytes (String.ofList (Utf8.lossy path))

/-! ## Operations -/

structure FetchOptions where
  method : Option String := none
  headers : Option (List (String × String)) := none
  body : Option String := none

structure FetchResponse where
  status : Nat
  ok : Bool
  headers : List (String × String)
  body : String

/-- `str::to_uppercase`, of one character. Of the characters that are not ASCII, the long s and its
ligatures with t become letters of methods. -/
def toUppercase (c : Char) : List Char :=
  if c.toNat = 0x17F then ['S']
  else if c.toNat = 0xFB05 ∨ c.toNat = 0xFB06 then ['S', 'T']
  else [c.toUpper]

def isSuccess (status : Nat) : Bool := 200 ≤ status && status < 300

section Operations

variable {U : Type} (W : Web U) (p : DenoPermissions)

/-- What `op_fetch` checks before it sends the request. -/
def fetchRequest (url : String) (options : FetchOptions) : Except JsErrorBox U := do
  let parsed ← (W.parse url).mapError fun e => .generic s!"Invalid URL '{url}': {e}"
  match W.host parsed with
  | none => throw (.generic s!"URL '{url}' has no host")
  | some host =>
    (checkNet p host).mapError fun e => .generic e.display
    let method := String.ofList ((options.method.getD "GET").toList.flatMap toUppercase)
    if method ∈ ["GET", "POST", "PUT", "DELETE", "PATCH", "HEAD"] then return parsed
    else throw (.generic s!"Unsupported HTTP method: {method}")

/-- `op_fetch`. -/
def opFetch (url : String) (options : Option FetchOptions) (x : Exchange U) :
    List Effect × Except JsErrorBox FetchResponse :=
  let options := options.getD {}
  match fetchRequest W p url options with
  | .error e => ([], .error e)
  | .ok u =>
    let (effects, result) := W.send u (options.headers.getD []) x
    (effects, do
      let response ← result.mapError fun e => .generic s!"Fetch failed for '{url}': {e}"
      let body ← response.body.mapError fun e => .generic s!"Failed to read response body: {e}"
      return {
        status := response.status
        ok := isSuccess response.status
        headers := response.headers.map fun kv => (kv.1, kv.2.getD "")
        body := body })

/-- `op_read_file`. `content` is what reading the file gives. -/
def opReadFile (path : String) (content : Except String String) :
    List Effect × Except JsErrorBox String :=
  match checkRead p (bytes path) with
  | .error e => ([], .error ⟨"PermissionError", e.display⟩)
  | .ok () =>
    ([.read (bytes path)], content.mapError fun e => .generic s!"Failed to read file '{path}': {e}")

/-! ## Modules -/

/-- The checks of a URL with a path to a file. -/
def checkFile (u : U) : Except JsErrorBox Unit :=
  match W.toFilePath u with
  | none => .error (.generic "Cannot convert URL to file path")
  | some path =>
    if Utf8.Valid path then
      (checkRead p path).mapError fun e => ⟨"PermissionError", e.display⟩
    else .error (.generic "Non-UTF8 path")

/-- The checks of a URL with a host. -/
def checkHost (u : U) : Except JsErrorBox Unit :=
  match W.host u with
  | none => .error (.generic "URL has no host")
  | some host => (checkNet p host).mapError fun e => ⟨"PermissionError", e.display⟩

/-- "Check permissions based on scheme." -/
def checkScheme (u : U) : Except JsErrorBox Unit :=
  if W.scheme u = "file" then checkFile W p u
  else if W.isHttp u then checkHost W p u
  else .ok ()

def startsWith (s start : String) : Bool := start.toList.isPrefixOf s.toList

/-- `resolve_npm_specifier`. -/
def resolveNpmSpecifier (specifier : String) : Option String :=
  (stripPrefix "npm:".toList specifier.toList).map fun rest =>
    "https://esm.sh/" ++ String.ofList rest

/-- `WfeModuleLoader::resolve`. -/
def resolve (specifier referrer : String) (kind : ResolutionKind) : Except JsErrorBox U :=
  if kind = .dynamicImport ∧ !p.dynamicImport then
    .error (.generic "Dynamic import is not allowed by permissions")
  else if startsWith specifier "ext:" then
    (W.parse specifier).mapError fun e => .generic s!"Invalid ext URL: {e}"
  else
    match resolveNpmSpecifier specifier with
    | some esmUrl => (W.parse esmUrl).mapError fun e => .generic s!"Invalid esm.sh URL: {e}"
    | none =>
      if startsWith specifier "wfe:" then
        (W.parse specifier).mapError fun e => .generic s!"Invalid wfe URL: {e}"
      else if startsWith specifier "file://" then do
        let parsed ← (W.parse specifier).mapError fun e => .generic s!"Invalid file URL: {e}"
        checkFile W p parsed
        return parsed
      else if startsWith specifier "https://" || startsWith specifier "http://" then do
        let parsed ← (W.parse specifier).mapError fun e => .generic s!"Invalid URL: {e}"
        checkHost W p parsed
        return parsed
      else if startsWith specifier "./" || startsWith specifier "../" || startsWith specifier "/"
      then do
        let base ← (W.parse referrer).mapError fun e =>
          .generic s!"Invalid referrer '{referrer}': {e}"
        let resolved ← (W.join base specifier).mapError fun e =>
          .generic s!"Failed to resolve '{specifier}': {e}"
        checkScheme W p resolved
        return resolved
      else .error (.generic s!"Unsupported module specifier: '{specifier}'")

/-- What `load` checks before it sends a request for the module, to the URL's text. -/
def moduleRequest (u : U) : Except JsErrorBox U := do
  checkHost W p u
  (W.parse (W.text u)).mapError fun e => .generic s!"Failed to fetch module '{W.text u}': {e}"

/-- `WfeModuleLoader::load`: the source of the module. -/
def load (u : U) (x : Exchange U) (content : Except String String) :
    List Effect × Except JsErrorBox String :=
  if W.scheme u = "ext" then ([], .error (.generic "ext: modules are handled by deno_core"))
  else if W.isHttp u then
    let url := W.text u
    match moduleRequest W p u with
    | .error e => ([], .error e)
    | .ok u =>
      let (effects, result) := W.send u [] x
      (effects, do
        let response ← result.mapError fun e => .generic s!"Failed to fetch module '{url}': {e}"
        if isSuccess response.status then
          response.body.mapError fun e => .generic s!"Failed to read module body '{url}': {e}"
        else
          throw (.generic s!"Failed to fetch module '{url}': HTTP {W.statusText response.status}"))
  else if W.scheme u = "file" then
    match W.toFilePath u with
    | none => ([], .error (.generic "Cannot convert URL to file path"))
    | some path =>
      match checkRead p (toStringLossy path) with
      | .error e => ([], .error ⟨"PermissionError", e.display⟩)
      | .ok () => ([.read path], content.mapError fun e =>
          .generic s!"Failed to read module '{String.ofList (Utf8.lossy path)}': {e}")
  else ([], .error (.generic s!"Unsupported module scheme: '{W.scheme u}'"))

end Operations

end Wfe.Deno
