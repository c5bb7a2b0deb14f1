import Wfe.Yaml.Deno

/-!
# The sandbox of a script

Over a whole script, with any graph of imports and any answers of servers: the files that are read
and the modules that are imported dynamically are always within the permissions, and so are the
hosts that requests are sent to, as long as no redirect that is followed leads elsewhere. Redirects
are not checked.

## Main definitions

* `Script`, `run`: what a script has resolved and done, after a run of events
* `Allowed`, `Sandboxed`: what the permissions allow
* `Web.followed`: the redirects that an event follows

## Main results

* `allowed_step_iff`: what one event does is allowed exactly if its redirects lead to listed hosts
* `sandboxed_iff`: the same for whole runs
-/

namespace Wfe.Deno

open ArtifactPaths (bytes)

/-! ## Scripts -/

/-- The modules that were resolved, and what was done so far. -/
structure Script (U : Type) where
  resolved : List U := []
  effects : List Effect := []

inductive Event (U : Type)
  | fetch (url : String) (options : Option FetchOptions) (x : Exchange U)
  | readFile (path : String) (content : Except String String)
  | resolve (specifier referrer : String) (kind : ResolutionKind)
  | load (n : Nat) (x : Exchange U) (content : Except String String)

section Runs

variable {U : Type} (W : Web U) (p : DenoPermissions)

/-- What an event does. Only modules that were resolved are loaded. -/
def effectsOf (σ : Script U) : Event U → List Effect
  | .fetch url options x => (opFetch W p url options x).1
  | .readFile path content => (opReadFile p path content).1
  | .resolve specifier referrer kind =>
    match resolve W p specifier referrer kind with
    | .ok _ => [.imported kind]
    | .error _ => []
  | .load n x content =>
    match σ.resolved[n]? with
    | some u => (load W p u x content).1
    | none => []

def resolvedBy : Event U → List U
  | .resolve specifier referrer kind =>
    match resolve W p specifier referrer kind with
    | .ok u => [u]
    | .error _ => []
  | _ => []

def Script.step (σ : Script U) (event : Event U) : Script U where
  resolved := σ.resolved ++ resolvedBy W p event
  effects := σ.effects ++ effectsOf W p σ event

def run (events : List (Event U)) : Script U := events.foldl (Script.step W p) {}

/-! ## The sandbox -/

/-- What the permissions allow: listed hosts, files below a listed path, and dynamic imports if they
are permitted. -/
def Allowed : Effect → Prop
  | .request host => host ∈ p.net
  | .read path => .parentDir ∉ path.components ∧
      ∃ entry ∈ p.read, (bytes entry).components <+: path.components
  | .imported kind => kind = .dynamicImport → p.dynamicImport = true

/-- **The sandbox holds.** -/
def Sandboxed (σ : Script U) : Prop := ∀ effect ∈ σ.effects, Allowed p effect

/-- The URLs that an event is redirected to. -/
def followed (σ : Script U) : Event U → List U
  | .fetch url options x =>
    match fetchRequest W p url (options.getD {}) with
    | .ok u => (W.sent u ((options.getD {}).headers.getD []) x).tail
    | .error _ => []
  | .load n x _ =>
    match σ.resolved[n]? with
    | some u =>
      if W.isHttp u then
        match moduleRequest W p u with
        | .ok u => (W.sent u [] x).tail
        | .error _ => []
      else []
    | none => []
  | _ => []

/-- What the URL standard says of the parameters: a URL has the scheme that its text starts with,
and is what its text is parsed to. -/
structure Web.Standard (W : Web U) : Prop where
  scheme_parse : ∀ scheme ∈ ["ext", "wfe", "file", "http", "https"], ∀ text u,
    startsWith text (scheme ++ ":") = true → W.parse text = .ok u → W.scheme u = scheme
  parse_text : ∀ u, W.parse (W.text u) = .ok u

/-! ## What the checks ensure -/

variable {W p}

theorem mem_net_of_checkNet {host : String} (h : checkNet p host = .ok ()) : host ∈ p.net := by
  unfold checkNet at h
  split_ifs at h with hmem
  exact hmem

theorem allowed_of_checkRead {path : UnixPath} (h : checkRead p path = .ok ()) :
    Allowed p (.read path) := by
  unfold checkRead at h
  split_ifs at h with htraversal hentry
  constructor
  · intro hmem
    exact htraversal (List.any_eq_true.mpr ⟨_, hmem, decide_eq_true rfl⟩)
  · obtain ⟨entry, hmem, hstarts⟩ := List.any_eq_true.mp hentry
    exact ⟨entry, hmem, List.isPrefixOf_iff_prefix.mp hstarts⟩

theorem mapError_eq_ok {ε ε' α : Type} {f : ε → ε'} {x : Except ε α} {a : α} :
    x.mapError f = .ok a ↔ x = .ok a := by
  cases x <;> simp [Except.mapError]

theorem bind_eq_ok {ε α β : Type} {x : Except ε α} {f : α → Except ε β} {b : β} :
    (x >>= f) = .ok b ↔ ∃ a, x = .ok a ∧ f a = .ok b := by
  cases x <;> simp [bind, Except.bind]

/-- A URL with a listed host. -/
def Listed (W : Web U) (p : DenoPermissions) (u : U) : Prop := ∀ host ∈ W.host u, host ∈ p.net

theorem listed_of_checkHost {u : U} (h : checkHost W p u = .ok ()) : Listed W p u := by
  intro host hhost
  rw [checkHost, Option.mem_def.mp hhost] at h
  exact mem_net_of_checkNet (mapError_eq_ok.mp h)

theorem listed_of_fetchRequest {url : String} {options : FetchOptions} {u : U}
    (h : fetchRequest W p url options = .ok u) : Listed W p u := by
  intro host hhost
  obtain ⟨parsed, -, h⟩ := bind_eq_ok.mp h
  cases hparsed : W.host parsed with
  | none =>
    simp only [hparsed] at h
    cases h
  | some host' =>
    simp only [hparsed] at h
    obtain ⟨⟨⟩, hnet, h⟩ := bind_eq_ok.mp h
    split_ifs at h
    obtain rfl : parsed = u := Except.ok.inj h
    rw [Option.mem_def.mp hhost] at hparsed
    obtain rfl := Option.some.inj hparsed
    exact mem_net_of_checkNet (mapError_eq_ok.mp hnet)

theorem exists_of_checkFile {u : U} (h : checkFile W p u = .ok ()) :
    ∃ path, W.toFilePath u = some path ∧ Utf8.Valid path ∧ Allowed p (.read path) := by
  unfold checkFile at h
  cases hpath : W.toFilePath u with
  | none =>
    rw [hpath] at h
    cases h
  | some path =>
    simp only [hpath] at h
    split_ifs at h with hvalid
    exact ⟨path, rfl, hvalid, allowed_of_checkRead (mapError_eq_ok.mp h)⟩

/-- Dynamic imports are resolved only if they are permitted. -/
theorem allowed_of_resolve {specifier referrer : String} {kind : ResolutionKind} {u : U}
    (h : resolve W p specifier referrer kind = .ok u) : Allowed p (.imported kind) := by
  intro hkind
  by_contra hdenied
  rw [resolve, if_pos ⟨hkind, by simpa using hdenied⟩] at h
  cases h

theorem startsWith_of_longer {s start long : String} (hlong : start.toList <+: long.toList)
    (h : startsWith s long = true) : startsWith s start = true :=
  List.isPrefixOf_iff_prefix.mpr (hlong.trans (List.isPrefixOf_iff_prefix.mp h))

/-- A module has a URL with the scheme it was written with, or its URL has been checked as one of a
file or by its scheme. -/
theorem resolve_cases {specifier referrer : String} {kind : ResolutionKind} {u : U}
    (h : resolve W p specifier referrer kind = .ok u) :
    (∃ scheme ∈ ["ext", "wfe", "http", "https"], ∃ text,
      startsWith text (scheme ++ ":") = true ∧ W.parse text = .ok u) ∨
    checkFile W p u = .ok () ∨ checkScheme W p u = .ok () := by
  have hesm : ("https" ++ ":").toList <+: "https://esm.sh/".toList := by decide
  unfold resolve at h
  by_cases hdynamic : kind = .dynamicImport ∧ !p.dynamicImport
  · rw [if_pos hdynamic] at h
    cases h
  rw [if_neg hdynamic] at h
  by_cases hext : startsWith specifier "ext:"
  · rw [if_pos hext] at h
    exact .inl ⟨"ext", by decide, specifier, hext, mapError_eq_ok.mp h⟩
  rw [if_neg hext] at h
  cases hnpm : resolveNpmSpecifier specifier with
  | some esmUrl =>
    simp only [hnpm] at h
    obtain ⟨rest, -, rfl⟩ := Option.map_eq_some_iff.mp hnpm
    refine .inl ⟨"https", by decide, _, ?_, mapError_eq_ok.mp h⟩
    rw [startsWith, List.isPrefixOf_iff_prefix]
    exact hesm.trans (by rw [String.toList_append]; exact List.prefix_append _ _)
  | none =>
    simp only [hnpm] at h
    by_cases hwfe : startsWith specifier "wfe:"
    · rw [if_pos hwfe] at h
      exact .inl ⟨"wfe", by decide, specifier, hwfe, mapError_eq_ok.mp h⟩
    rw [if_neg hwfe] at h
    by_cases hfileUrl : startsWith specifier "file://"
    · rw [if_pos hfileUrl] at h
      obtain ⟨parsed, -, h⟩ := bind_eq_ok.mp h
      obtain ⟨⟨⟩, hcheck, h⟩ := bind_eq_ok.mp h
      obtain rfl : parsed = u := Except.ok.inj h
      exact .inr (.inl hcheck)
    rw [if_neg hfileUrl] at h
    by_cases hhttp : startsWith specifier "https://" || startsWith specifier "http://"
    · rw [if_pos hhttp] at h
      obtain ⟨parsed, hparse, h⟩ := bind_eq_ok.mp h
      obtain ⟨⟨⟩, -, h⟩ := bind_eq_ok.mp h
      obtain rfl : parsed = u := Except.ok.inj h
      rcases (Bool.or_eq_true _ _).mp hhttp with hhttp | hhttp
      · exact .inl ⟨"https", by decide, specifier, startsWith_of_longer (by decide) hhttp,
          mapError_eq_ok.mp hparse⟩
      · exact .inl ⟨"http", by decide, specifier, startsWith_of_longer (by decide) hhttp,
          mapError_eq_ok.mp hparse⟩
    rw [if_neg hhttp] at h
    by_cases hrelative :
        startsWith specifier "./" || startsWith specifier "../" || startsWith specifier "/"
    · rw [if_pos hrelative] at h
      obtain ⟨base, -, h⟩ := bind_eq_ok.mp h
      obtain ⟨resolved, -, h⟩ := bind_eq_ok.mp h
      obtain ⟨⟨⟩, hcheck, h⟩ := bind_eq_ok.mp h
      obtain rfl : resolved = u := Except.ok.inj h
      exact .inr (.inr hcheck)
    · rw [if_neg hrelative] at h
      cases h

/-- **A file that was resolved was checked**, whichever way its URL was made. -/
theorem checkFile_of_resolve (hW : W.Standard) {specifier referrer : String}
    {kind : ResolutionKind} {u : U} (h : resolve W p specifier referrer kind = .ok u)
    (hfile : W.scheme u = "file") : checkFile W p u = .ok () := by
  rcases resolve_cases h with ⟨scheme, hmem, text, hstarts, hparse⟩ | hcheck | hcheck
  · -- No other scheme makes the URL of a file.
    have hothers : ["ext", "wfe", "http", "https"] ⊆ ["ext", "wfe", "file", "http", "https"] := by
      decide
    have hscheme := hW.scheme_parse scheme (hothers hmem) text u hstarts hparse
    rw [← hscheme, hfile] at hmem
    exact absurd hmem (by decide)
  · exact hcheck
  · rwa [checkScheme, if_pos hfile] at hcheck

/-! ## One event -/

theorem sent_cases (u : U) (headers : List (String × String)) (x : Exchange U) :
    W.sent u headers x = [] ∨ W.sent u headers x = u :: (W.sent u headers x).tail := by
  unfold Web.sent
  split_ifs
  · exact .inr rfl
  · exact .inl rfl

/-- The requests to a listed host are allowed exactly if they are redirected to listed hosts. -/
theorem allowed_send_iff {u : U} (hu : Listed W p u) (headers : List (String × String))
    (x : Exchange U) : (∀ effect ∈ (W.send u headers x).1, Allowed p effect) ↔
      ∀ v ∈ (W.sent u headers x).tail, Listed W p v := by
  have hall : (∀ effect ∈ (W.send u headers x).1, Allowed p effect) ↔
      ∀ v ∈ W.sent u headers x, Listed W p v := by
    simp only [Web.send, List.forall_mem_map, List.mem_filterMap, forall_exists_index, and_imp]
    constructor
    · intro h v hv host hhost
      exact h host v hv hhost
    · intro h host v hv hhost
      exact h v hv host hhost
  rw [hall]
  rcases sent_cases u headers x with hnil | hcons
  · rw [hnil, List.tail_nil]
  · rw [hcons, List.forall_mem_cons, List.tail_cons, and_iff_right hu]

theorem allowed_fetch_iff (url : String) (options : Option FetchOptions) (x : Exchange U)
    (σ : Script U) :
    (∀ effect ∈ (opFetch W p url options x).1, Allowed p effect) ↔
      ∀ v ∈ followed W p σ (.fetch url options x), Listed W p v := by
  unfold opFetch followed
  dsimp only
  cases hrequest : fetchRequest W p url (options.getD {}) with
  | error e => simp
  | ok u => exact allowed_send_iff (listed_of_fetchRequest hrequest) _ x

/-- Files are read only within the permissions. -/
theorem allowed_readFile (path : String) (content : Except String String) :
    ∀ effect ∈ (opReadFile p path content).1, Allowed p effect := by
  unfold opReadFile
  cases hcheck : checkRead p (bytes path) with
  | error e => simp
  | ok _ =>
    intro effect heffect
    rw [List.mem_singleton.mp heffect]
    exact allowed_of_checkRead hcheck

theorem allowed_load_iff (hW : W.Standard) {σ : Script U} {n : Nat} {u : U}
    (hu : σ.resolved[n]? = some u) (hfile : W.scheme u = "file" → checkFile W p u = .ok ())
    (x : Exchange U) (content : Except String String) :
    (∀ effect ∈ (load W p u x content).1, Allowed p effect) ↔
      ∀ v ∈ followed W p σ (.load n x content), Listed W p v := by
  unfold load followed
  simp only [hu]
  by_cases hext : W.scheme u = "ext"
  · have hhttp : ¬ W.isHttp u := by simp [Web.isHttp, hext]
    rw [if_pos hext, if_neg hhttp]
    simp
  rw [if_neg hext]
  by_cases hhttp : W.isHttp u
  · rw [if_pos hhttp, if_pos hhttp]
    cases hrequest : moduleRequest W p u with
    | error e => simp
    | ok v =>
      obtain ⟨⟨⟩, hcheck, hparse⟩ := bind_eq_ok.mp hrequest
      -- The request goes to the URL that was checked.
      rw [mapError_eq_ok, hW.parse_text] at hparse
      obtain rfl : u = v := Except.ok.inj hparse
      exact allowed_send_iff (listed_of_checkHost hcheck) _ x
  · rw [if_neg hhttp, if_neg hhttp]
    by_cases hscheme : W.scheme u = "file"
    · rw [if_pos hscheme]
      obtain ⟨path, hpath, hvalid, hallowed⟩ := exists_of_checkFile (hfile hscheme)
      simp only [hpath]
      cases checkRead p (toStringLossy path) with
      | error e => simp
      | ok _ => simpa using hallowed
    · simp [hscheme]

/-- What one event does is allowed exactly if the redirects it follows lead to listed hosts. -/
theorem allowed_step_iff (hW : W.Standard) {σ : Script U}
    (hresolved : ∀ u ∈ σ.resolved, W.scheme u = "file" → checkFile W p u = .ok ())
    (event : Event U) : (∀ effect ∈ effectsOf W p σ event, Allowed p effect) ↔
      ∀ v ∈ followed W p σ event, Listed W p v := by
  cases event with
  | fetch url options x => exact allowed_fetch_iff url options x σ
  | readFile path content =>
    exact iff_of_true (allowed_readFile path content) (List.forall_mem_nil _)
  | resolve specifier referrer kind =>
    refine iff_of_true ?_ (List.forall_mem_nil _)
    simp only [effectsOf]
    cases hresolve : resolve W p specifier referrer kind with
    | error e => exact List.forall_mem_nil _
    | ok u => exact List.forall_mem_singleton.mpr (allowed_of_resolve hresolve)
  | load n x content =>
    simp only [effectsOf]
    cases hu : σ.resolved[n]? with
    | none => simp [followed, hu]
    | some u => exact allowed_load_iff hW hu (hresolved u (List.mem_of_getElem? hu)) x content

/-! ## Whole scripts -/

theorem run_concat (events : List (Event U)) (event : Event U) :
    run W p (events ++ [event]) = (run W p events).step W p event := by
  rw [run, List.foldl_append]
  rfl

/-- Every module that was resolved has passed its check. -/
theorem checkFile_of_mem_resolved (hW : W.Standard) (events : List (Event U)) :
    ∀ u ∈ (run W p events).resolved, W.scheme u = "file" → checkFile W p u = .ok () := by
  induction events using List.reverseRecOn with
  | nil => exact List.forall_mem_nil _
  | append_singleton events event ih =>
    rw [run_concat]
    intro u hu
    rcases List.mem_append.mp hu with hu | hu
    · exact ih u hu
    · cases event with
      | resolve specifier referrer kind =>
        cases hresolve : resolve W p specifier referrer kind with
        | error e => simp [resolvedBy, hresolve] at hu
        | ok v =>
          simp only [resolvedBy, hresolve, List.mem_singleton] at hu
          subst hu
          exact checkFile_of_resolve hW hresolve
      | _ => cases hu

/-- **When the sandbox holds.** In every run of a script, whatever it imports and whatever servers
answer, all that it does is within the permissions, exactly if every redirect that it follows leads
to a listed host. -/
theorem sandboxed_iff (hW : W.Standard) (events : List (Event U)) :
    Sandboxed p (run W p events) ↔
      ∀ es event, es ++ [event] <+: events →
        ∀ v ∈ followed W p (run W p es) event, ∀ host ∈ W.host v, host ∈ p.net := by
  induction events using List.reverseRecOn with
  | nil =>
    refine iff_of_true (List.forall_mem_nil _) fun es event hes => ?_
    simp at hes
  | append_singleton events event ih =>
    have hstep := allowed_step_iff hW (checkFile_of_mem_resolved (p := p) hW events) event
    rw [run_concat, Sandboxed, Script.step, List.forall_mem_append, hstep]
    constructor
    · rintro ⟨hbefore, hlisted⟩ es event' hes
      rcases List.prefix_concat_iff.mp hes with heq | hes
      · obtain ⟨rfl, hevent⟩ := List.append_inj' heq rfl
        obtain rfl := (List.cons.inj hevent).1
        exact hlisted
      · exact ih.mp hbefore es event' hes
    · intro h
      exact ⟨ih.mpr fun es event' hes => h es event' (hes.trans (List.prefix_append _ _)),
        h events event (List.prefix_refl _)⟩

end Runs

/-! ## A script that is redirected -/

/-- URLs as their texts, without relative ones. -/
def plainWeb : Web String where
  parse := .ok
  join _ _ := .error "relative URL without a base"
  scheme url := String.ofList (url.toList.takeWhile (· ≠ ':'))
  host url := some (String.ofList (((url.toList.dropWhile (· ≠ ':')).drop 3).takeWhile (· ≠ '/')))
  toFilePath url := some (bytes (String.ofList ((url.toList.dropWhile (· ≠ ':')).drop 3)))
  text := id
  headerOk _ := true
  refusal _ := "builder error"
  statusText := toString

theorem plainWeb_standard : plainWeb.Standard where
  scheme_parse := by
    intro scheme hmem text u hstarts hparse
    obtain rfl : text = u := Except.ok.inj hparse
    obtain ⟨rest, hrest⟩ := List.isPrefixOf_iff_prefix.mp hstarts
    have hschemes : (["ext", "wfe", "file", "http", "https"].all fun scheme =>
        scheme.toList.all fun c => c ≠ ':') = true := by
      decide
    have hcolon := List.all_eq_true.mp (List.all_eq_true.mp hschemes scheme hmem)
    have htake : text.toList.takeWhile (· ≠ ':') = scheme.toList := by
      rw [← hrest, String.toList_append, List.append_assoc, List.takeWhile_append_of_pos hcolon]
      exact List.append_nil _
    show String.ofList (text.toList.takeWhile (· ≠ ':')) = scheme
    rw [htake, String.ofList_toList]
  parse_text _ := rfl

def apiOnly : DenoPermissions := { net := ["api.example.com"] }

/-- One fetch, which is redirected to the URL. -/
def redirectedTo (url : String) : List (Event String) :=
  [.fetch "https://api.example.com/data" none ⟨[url], .ok ⟨200, [], .ok ""⟩⟩]

theorem sandboxed_same_host :
    Sandboxed apiOnly (run plainWeb apiOnly (redirectedTo "https://api.example.com/v2/data")) := by
  refine (sandboxed_iff plainWeb_standard _).mpr fun es event hes => ?_
  obtain ⟨rfl, hevent⟩ : es = [] ∧ [event] = redirectedTo "https://api.example.com/v2/data" := by
    cases es with
    | nil => exact ⟨rfl, List.prefix_iff_eq_take.mp hes⟩
    | cons e es =>
      have hlength := hes.length_le
      simp [redirectedTo] at hlength
  obtain rfl := (List.cons.inj hevent).1
  decide

/-- The fetch is redirected to a host that is not listed. -/
theorem not_sandboxed_redirect :
    plainWeb.Standard ∧
      Effect.request "169.254.169.254" ∈
        (run plainWeb apiOnly (redirectedTo "http://169.254.169.254/latest")).effects ∧
      ¬ Sandboxed apiOnly
        (run plainWeb apiOnly (redirectedTo "http://169.254.169.254/latest")) := by
  have hmem : Effect.request "169.254.169.254" ∈
      (run plainWeb apiOnly (redirectedTo "http://169.254.169.254/latest")).effects := by
    decide
  refine ⟨plainWeb_standard, hmem, fun h => ?_⟩
  have hlisted : "169.254.169.254" ∈ apiOnly.net := h _ hmem
  revert hlisted
  decide

end Wfe.Deno
