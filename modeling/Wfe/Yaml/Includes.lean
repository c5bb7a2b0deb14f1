import Wfe.Library.Walk
import Wfe.Yaml.Compiler
import Wfe.Yaml.Cycles

/-!
# Included files

`load_workflow_with_includes`: a workflow file may include other files, by paths relative to its
own, and these may include others again. One set of visited files is threaded through all branches
of the recursion, and a file that is visited for the second time is reported as a circular include.
A workflow of an included file is added unless its id is there already. What the operating system
does with paths is a `FileSystem`; interpolation and YAML parsing are the parameter `parse`.

## Main definitions

* `loadIncludesRecursive`, `collectSpecs`, `loadWorkflowWithIncludes`: the loader
* `targets`: the graph of includes, on canonical paths
* `Readable`: all files that are reached can be read and hold workflows
* `IncludesExact`: includes fail exactly on cycles, and what is handed to validation

## Main results

* `loadIncludesRecursive_follows`: the recursion is a walk of the graph that meets each file once
* `includes_exact_iff`: this is exact if there is a cycle, or if no file is included twice
-/

namespace Wfe

/-! ## Paths -/

namespace Path

/-- The names of a path, last name first, without trailing ones that name nothing: empty ones, and
`.` other than at the start. -/
def trimNames : List String → List String
  | [] => []
  | name :: names =>
    if name = "" ∨ (name = "." ∧ names ≠ []) then trimNames names else name :: names

/-- `Path::parent`. -/
def parent (path : String) : Option String :=
  match trimNames (Text.split path '/').reverse with
  | [] => none
  | _ :: names =>
    match trimNames names with
    | [] => some (if path.toList.head? = some '/' then "/" else "")
    | names => some (Text.join "/" names.reverse)

/-- `Path::join`. An absolute path replaces the base. -/
def join (base path : String) : String :=
  if path.toList.head? = some '/' ∨ base = "" then path
  else if base.toList.getLast? = some '/' then base ++ path
  else base ++ "/" ++ path

/-- The directory that the includes of a file are relative to. -/
def directory (path : String) : String := (parent path).getD path

end Path

/-! ## The loader -/

/-- `YamlWorkflowFileWithIncludes`. -/
structure WorkflowFile where
  includes : List String := []
  workflow : Option WorkflowSpec := none
  workflows : Option (List WorkflowSpec) := none

/-- `YamlWorkflowError`, as far as loading raises it; `exhausted` is the end of the fuel. -/
inductive LoadError
  | parse (message : String)
  | unresolvedVariable (name : String)
  | io (message : String)
  | invalid (e : YamlWorkflowError)
  | exhausted
deriving DecidableEq, Repr

/-- A finite file system. Canonical paths lead to files of it. -/
structure FileSystem where
  files : List String
  canonicalize : String → Except String String
  readToString : String → Except String String
  mem_files : ∀ path file, canonicalize path = .ok file → file ∈ files

/-- The specs collected so far, and the canonical paths visited. -/
structure LoadState where
  specs : List WorkflowSpec
  visited : List String

/-- An error of validation or compilation, as one of loading. -/
def Compiled.load {α : Type} : Compiled α → Except LoadError α
  | .ok a => .ok a
  | .error e => .error (.invalid e)

/-- `resolve_workflow_specs`. -/
def resolveWorkflowSpecs (file : WorkflowFile) : Compiled (List WorkflowSpec) :=
  match file.workflow, file.workflows with
  | some single, none => .ok [single]
  | none, some multi =>
    if multi = [] then .error (.validation "workflows list is empty") else .ok multi
  | some _, some _ =>
    .error (.validation "Cannot specify both 'workflow' and 'workflows' in the same file")
  | none, none => .error (.validation "Must specify either 'workflow' or 'workflows'")

def circularInclude (path : String) : LoadError :=
  .invalid (.validation s!"Circular include detected: '{path}'")

/-- The ids of a list of workflows. -/
def specIds (specs : List WorkflowSpec) : List String := specs.map WorkflowSpec.id

/-- Included workflows are added unless their ids were there before the file was. -/
def addSpecs (specs included : List WorkflowSpec) : List WorkflowSpec :=
  specs ++ included.filter fun spec => spec.id ∉ specIds specs

section Loader

variable (fs : FileSystem) (parse : String → Except LoadError WorkflowFile)

/-- The file at a canonical path. -/
def readFile (path : String) : Except LoadError WorkflowFile :=
  match fs.readToString path with
  | .error e => .error (.io e)
  | .ok yaml => parse yaml

/-- `load_includes_recursive`. -/
def loadIncludesRecursive : ℕ → LoadState → String → Except LoadError LoadState
  | 0, _, _ => .error .exhausted
  | fuel + 1, st, path =>
    match fs.canonicalize path with
    | .error e => .error (.io s!"Include file not found: {path}: {e}")
    | .ok canonical =>
      if canonical ∈ st.visited then .error (circularInclude path)
      else do
        let file ← readFile fs parse canonical
        let included ← (resolveWorkflowSpecs file).load
        (file.includes.map (Path.join (Path.directory canonical))).foldlM
          (loadIncludesRecursive fuel) ⟨addSpecs st.specs included, st.visited ++ [canonical]⟩

variable (yaml basePath : String)

/-- The canonical path of the main file, or its path where there is no such file. -/
def mainPath : String :=
  match fs.canonicalize basePath with
  | .ok canonical => canonical
  | .error _ => basePath

/-- The part of `load_workflow_with_includes` before the validation. -/
def collectSpecs : Except LoadError (List WorkflowSpec) := do
  let file ← parse yaml
  let specs ← (resolveWorkflowSpecs file).load
  let st ← (file.includes.map (Path.join (Path.directory basePath))).foldlM
    (loadIncludesRecursive fs parse (fs.files.length + 1)) ⟨specs, [mainPath fs basePath]⟩
  return st.specs

/-- `load_workflow_with_includes` on the specs that have been collected. -/
def compileAll (order : HashOrder) (F : Features) (specs : List WorkflowSpec) :
    Option (Except LoadError (List CompiledWorkflow)) :=
  (validateMulti order specs).map fun valid => do
    valid.load
    Compiled.load (specs.mapM (compile F))

/-- `load_workflow_with_includes`; `none` where the source panics. -/
def loadWorkflowWithIncludes (order : HashOrder) (F : Features) :
    Option (Except LoadError (List CompiledWorkflow)) :=
  match collectSpecs fs parse yaml basePath with
  | .error e => some (.error e)
  | .ok specs => compileAll order F specs

/-! ## The graph of includes -/

/-- The file at a node. The text of the main file is passed in, and not read again. -/
def fileAt (node : String) : Except LoadError WorkflowFile :=
  if node = mainPath fs basePath then parse yaml else readFile fs parse node

/-- The directory of a node. That of the main file is taken before its path is canonicalized. -/
def directoryAt (node : String) : String :=
  if node = mainPath fs basePath then Path.directory basePath else Path.directory node

/-- The paths that a file includes. -/
def includesAt (node : String) : List String :=
  match fileAt fs parse yaml basePath node with
  | .ok file => file.includes.map (Path.join (directoryAt fs basePath node))
  | .error _ => []

/-- The workflows of a file. -/
def specsAt (node : String) : List WorkflowSpec :=
  match fileAt fs parse yaml basePath node with
  | .ok file => (resolveWorkflowSpecs file).toOption.getD []
  | .error _ => []

/-- The files that a file includes. -/
def targets (node : String) : List String :=
  (includesAt fs parse yaml basePath node).filterMap fun path => (fs.canonicalize path).toOption

/-- The file `a` includes the file `b`. -/
def Includes : String → String → Prop := Walk.Leads (targets fs parse yaml basePath)

/-- The main file includes the file, at any depth, or is the file. -/
def Reached (node : String) : Prop :=
  Relation.ReflTransGen (Includes fs parse yaml basePath) (mainPath fs basePath) node

/-- The main file reaches a cycle of includes. -/
def ReachesCycle : Prop :=
  ∃ node, Reached fs parse yaml basePath node ∧
    Relation.TransGen (Includes fs parse yaml basePath) node node

/-- A file is included from two places: twice by one file, or by two files. -/
def IncludedTwice (node : String) : Prop :=
  Walk.Twice (targets fs parse yaml basePath) (mainPath fs basePath) node

/-- Every file that is reached can be read and parsed into a list of workflows, and the paths it
includes lead to files. -/
def Readable : Prop :=
  ∀ node, Reached fs parse yaml basePath node →
    (∃ file specs, fileAt fs parse yaml basePath node = .ok file ∧
      resolveWorkflowSpecs file = .ok specs) ∧
    ∀ path ∈ includesAt fs parse yaml basePath node, ∃ file, fs.canonicalize path = .ok file

/-- What is handed to validation: one workflow for each id that occurs in the files that are
reached, from a file such that no file that includes it, directly or not, has the id. -/
structure Handed (specs : List WorkflowSpec) : Prop where
  nodup : (specIds specs).Nodup
  ids : ∀ id, id ∈ specIds specs ↔
    ∃ node, Reached fs parse yaml basePath node ∧ id ∈ specIds (specsAt fs parse yaml basePath node)
  precedence : ∀ spec ∈ specs, ∃ node, Reached fs parse yaml basePath node ∧
    spec ∈ specsAt fs parse yaml basePath node ∧
    ∀ includer, Reached fs parse yaml basePath includer →
      Relation.TransGen (Includes fs parse yaml basePath) includer node →
      spec.id ∉ specIds (specsAt fs parse yaml basePath includer)

/-- Includes fail exactly on cycles. The loader ends, with the error of a circular include if and
only if there is a cycle; without one it validates and compiles a list of workflows as it should
be, if no file has an id twice. -/
structure IncludesExact : Prop where
  terminates : collectSpecs fs parse yaml basePath ≠ .error .exhausted
  circular : (∃ path, collectSpecs fs parse yaml basePath = .error (circularInclude path)) ↔
    ReachesCycle fs parse yaml basePath
  reported : ∀ order F, ReachesCycle fs parse yaml basePath →
    ∃ path, loadWorkflowWithIncludes fs parse yaml basePath order F =
      some (.error (circularInclude path))
  handed : ¬ReachesCycle fs parse yaml basePath →
    (∀ node, Reached fs parse yaml basePath node →
      (specIds (specsAt fs parse yaml basePath node)).Nodup) →
    ∃ specs, Handed fs parse yaml basePath specs ∧
      ∀ order F, loadWorkflowWithIncludes fs parse yaml basePath order F =
        compileAll order F specs

end Loader

/-! ## Merging -/

section Merge

variable {specs included : List WorkflowSpec} {specsOf : String → List WorkflowSpec}

/-- The workflows of files are added one file after another. -/
def mergeFiles (specsOf : String → List WorkflowSpec) (specs : List WorkflowSpec)
    (order : List String) : List WorkflowSpec :=
  order.foldl (fun specs node => addSpecs specs (specsOf node)) specs

theorem addSpecs_nil (included : List WorkflowSpec) : addSpecs [] included = included := by
  simp [addSpecs, specIds]

theorem mem_specIds_addSpecs (id : String) :
    id ∈ specIds (addSpecs specs included) ↔ id ∈ specIds specs ∨ id ∈ specIds included := by
  rw [addSpecs, specIds, List.map_append, List.mem_append]
  constructor
  · rintro (h | h)
    · exact .inl h
    · obtain ⟨spec, hspec, rfl⟩ := List.mem_map.mp h
      exact .inr (List.mem_map_of_mem (List.mem_of_mem_filter hspec))
  · rintro (h | h)
    · exact .inl h
    · by_cases hid : id ∈ specIds specs
      · exact .inl hid
      · obtain ⟨spec, hspec, rfl⟩ := List.mem_map.mp h
        exact .inr (List.mem_map_of_mem (List.mem_filter.mpr ⟨hspec, by simpa using hid⟩))

theorem nodup_specIds_addSpecs (h : (specIds specs).Nodup) (hincluded : (specIds included).Nodup) :
    (specIds (addSpecs specs included)).Nodup := by
  rw [addSpecs, specIds, List.map_append]
  refine h.append (hincluded.sublist (List.filter_sublist.map _)) fun id hid hnew => ?_
  obtain ⟨spec, hspec, rfl⟩ := List.mem_map.mp hnew
  have hnot := (List.mem_filter.mp hspec).2
  simp only [decide_eq_true_eq] at hnot
  exact hnot hid

theorem mem_specIds_mergeFiles (order : List String) (id : String) :
    id ∈ specIds (mergeFiles specsOf [] order) ↔ ∃ node ∈ order, id ∈ specIds (specsOf node) := by
  induction order using List.reverseRecOn with
  | nil => simp [mergeFiles, specIds]
  | append_singleton order node ih =>
    rw [mergeFiles, List.foldl_append, List.foldl_cons, List.foldl_nil, mem_specIds_addSpecs]
    rw [mergeFiles] at ih
    simp only [ih, List.mem_append, List.mem_singleton, or_and_right, exists_or, exists_eq_left]

theorem nodup_specIds_mergeFiles {order : List String}
    (h : ∀ node ∈ order, (specIds (specsOf node)).Nodup) :
    (specIds (mergeFiles specsOf [] order)).Nodup := by
  induction order using List.reverseRecOn with
  | nil => exact List.nodup_nil
  | append_singleton order node ih =>
    rw [mergeFiles, List.foldl_append, List.foldl_cons, List.foldl_nil]
    refine nodup_specIds_addSpecs (ih fun node hnode => ?_) (h node (by simp))
    exact h node (List.mem_append_left _ hnode)

/-- Each workflow is that of the first file that has its id. -/
theorem mem_mergeFiles {order : List String} {spec : WorkflowSpec}
    (h : spec ∈ mergeFiles specsOf [] order) :
    ∃ before node after, order = before ++ node :: after ∧ spec ∈ specsOf node ∧
      ∀ earlier ∈ before, spec.id ∉ specIds (specsOf earlier) := by
  induction order using List.reverseRecOn with
  | nil => cases h
  | append_singleton order node ih =>
    rw [mergeFiles, List.foldl_append, List.foldl_cons, List.foldl_nil, ← mergeFiles] at h
    rcases List.mem_append.mp h with h | h
    · obtain ⟨before, first, after, rfl, hmem, hnot⟩ := ih h
      exact ⟨before, first, after ++ [node], by simp, hmem, hnot⟩
    · obtain ⟨hmem, hnot⟩ := List.mem_filter.mp h
      simp only [decide_eq_true_eq] at hnot
      refine ⟨order, node, [], rfl, hmem, fun earlier hearlier hid => hnot ?_⟩
      exact (mem_specIds_mergeFiles order spec.id).mpr ⟨earlier, hearlier, hid⟩

end Merge

/-! ## The recursion is a walk -/

section Follow

variable {fs : FileSystem} {parse : String → Except LoadError WorkflowFile}
  {yaml basePath : String}

/-- The loader, after some specs and visited files, does what a walk does: it goes through and has
merged the files that the walk meets, or it reports a circular include. -/
def FollowsWalk (specsOf : String → List WorkflowSpec) (st : LoadState) :
    Except (Walk.Halt String) (List String) → Except LoadError LoadState → Prop
  | .ok met, r =>
    ∃ order, met = st.visited ++ order ∧ r = .ok ⟨mergeFiles specsOf st.specs order, met⟩
  | .error (.met _), r => ∃ path, r = .error (circularInclude path)
  | .error .exhausted, r => r = .error .exhausted

/-- What follows the walk after some files have been merged, follows it from the start. -/
theorem FollowsWalk.after {specsOf : String → List WorkflowSpec} {st : LoadState}
    (order : List String) {walked : Except (Walk.Halt String) (List String)}
    {loaded : Except LoadError LoadState}
    (h : FollowsWalk specsOf ⟨mergeFiles specsOf st.specs order, st.visited ++ order⟩ walked
      loaded) :
    FollowsWalk specsOf st walked loaded := by
  rcases walked with (node | _) | met
  · exact h
  · exact h
  · obtain ⟨order', hmet, hloaded⟩ := h
    refine ⟨order ++ order', by rw [hmet, List.append_assoc], ?_⟩
    rw [hloaded]
    simp only [mergeFiles, List.foldl_append]

theorem foldlM_follows {specsOf : String → List WorkflowSpec} {root : String}
    {visit : List String → String → Except (Walk.Halt String) (List String)}
    {load : LoadState → String → Except LoadError LoadState} {paths : List String}
    (hpaths : ∀ path ∈ paths, ∃ node, fs.canonicalize path = .ok node)
    (hload : ∀ path ∈ paths, ∀ node, fs.canonicalize path = .ok node → ∀ st : LoadState,
      root ∈ st.visited → FollowsWalk specsOf st (visit st.visited node) (load st path))
    {st : LoadState} (hroot : root ∈ st.visited) :
    FollowsWalk specsOf st
      ((paths.filterMap fun path => (fs.canonicalize path).toOption).foldlM visit st.visited)
      (paths.foldlM load st) := by
  induction paths generalizing st with
  | nil => exact ⟨[], (List.append_nil _).symm, rfl⟩
  | cons path paths ih =>
    obtain ⟨node, hnode⟩ := hpaths path List.mem_cons_self
    have hfirst := hload path List.mem_cons_self node hnode st hroot
    have hpaths' := fun path hmem => hpaths path (List.mem_cons_of_mem _ hmem)
    have hload' := fun path hmem => hload path (List.mem_cons_of_mem _ hmem)
    rw [List.filterMap_cons_some (by rw [hnode]; rfl), List.foldlM_cons, List.foldlM_cons]
    generalize visit st.visited node = first at hfirst ⊢
    rcases first with (again | _) | met
    · obtain ⟨path, herror⟩ := hfirst
      exact ⟨path, by rw [herror]; rfl⟩
    · rw [FollowsWalk] at hfirst
      rw [hfirst]
      rfl
    · obtain ⟨order, rfl, hok⟩ := hfirst
      rw [hok]
      exact (ih hpaths' hload' (List.mem_append_left order hroot)).after order

/-- What `Readable` says about a node, in the words of the graph. -/
theorem Readable.at (hreadable : Readable fs parse yaml basePath) {node : String}
    (hreached : Reached fs parse yaml basePath node) :
    ∃ file, fileAt fs parse yaml basePath node = .ok file ∧
      resolveWorkflowSpecs file = .ok (specsAt fs parse yaml basePath node) ∧
      includesAt fs parse yaml basePath node =
        file.includes.map (Path.join (directoryAt fs basePath node)) := by
  obtain ⟨⟨file, specs, hfile, hspecs⟩, -⟩ := hreadable node hreached
  refine ⟨file, hfile, ?_, ?_⟩
  · simp only [specsAt, hfile, hspecs]
    rfl
  · rw [includesAt, hfile]

/-- The files that a file includes are reached if it is. -/
theorem Reached.included {node target path : String} (h : Reached fs parse yaml basePath node)
    (hpath : path ∈ includesAt fs parse yaml basePath node)
    (htarget : fs.canonicalize path = .ok target) : Reached fs parse yaml basePath target := by
  refine h.tail ?_
  exact List.mem_filterMap.mpr ⟨path, hpath, by rw [htarget]; rfl⟩

/-- **The recursion is a walk** of the graph of includes. -/
theorem loadIncludesRecursive_follows (hreadable : Readable fs parse yaml basePath) (fuel : ℕ)
    {path node : String} {st : LoadState} (hreached : Reached fs parse yaml basePath node)
    (hcanonical : fs.canonicalize path = .ok node) (hmain : mainPath fs basePath ∈ st.visited) :
    FollowsWalk (specsAt fs parse yaml basePath) st
      (Walk.walk (targets fs parse yaml basePath) fuel node st.visited)
      (loadIncludesRecursive fs parse fuel st path) := by
  induction fuel generalizing path node st with
  | zero => rfl
  | succ fuel ih =>
    rw [Walk.walk, loadIncludesRecursive, hcanonical]
    dsimp only
    split_ifs with hvisited
    · exact ⟨path, rfl⟩
    · -- The main file has been visited, so this is another one, and it is read here.
      have hne : node ≠ mainPath fs basePath := fun h => hvisited (h ▸ hmain)
      obtain ⟨file, hfile, hspecs, hincludes⟩ := hreadable.at hreached
      rw [fileAt, if_neg hne] at hfile
      rw [directoryAt, if_neg hne] at hincludes
      rw [hfile, targets]
      simp only [bind, Except.bind, hspecs, Compiled.load, ← hincludes]
      refine FollowsWalk.after [node] ?_
      refine foldlM_follows (hreadable node hreached).2 (fun path hpath target htarget st hst => ?_)
        (List.mem_append_left _ hmain)
      exact ih (hreached.included hpath htarget) htarget hst

/-- How the specs are collected: all files that are reached are merged, in an order in which each
file is met once, or a file is met again and reported as a circular include. -/
theorem collectSpecs_ends (hreadable : Readable fs parse yaml basePath) :
    (∃ order, Walk.Tree (targets fs parse yaml basePath) [mainPath fs basePath] order ∧
      collectSpecs fs parse yaml basePath =
        .ok (mergeFiles (specsAt fs parse yaml basePath) [] order)) ∨
    ∃ order node path,
      Walk.Clash (targets fs parse yaml basePath) [] [mainPath fs basePath] order node ∧
      collectSpecs fs parse yaml basePath = .error (circularInclude path) := by
  have hmain : Reached fs parse yaml basePath (mainPath fs basePath) := .refl
  obtain ⟨file, hfile, hspecs, hincludes⟩ := hreadable.at hmain
  rw [fileAt, if_pos rfl] at hfile
  rw [directoryAt, if_pos rfl] at hincludes
  have hloop : FollowsWalk (specsAt fs parse yaml basePath)
      ⟨specsAt fs parse yaml basePath (mainPath fs basePath), [mainPath fs basePath]⟩
      ((targets fs parse yaml basePath (mainPath fs basePath)).foldlM
        (fun met node => Walk.walk (targets fs parse yaml basePath) (fs.files.length + 1) node met)
        [mainPath fs basePath])
      ((includesAt fs parse yaml basePath (mainPath fs basePath)).foldlM
        (loadIncludesRecursive fs parse (fs.files.length + 1))
        ⟨specsAt fs parse yaml basePath (mainPath fs basePath), [mainPath fs basePath]⟩) := by
    refine foldlM_follows (hreadable _ hmain).2 (fun path hpath target htarget st hst => ?_)
      List.mem_cons_self
    exact loadIncludesRecursive_follows hreadable _ (hmain.included hpath htarget) htarget hst
  have hcollect : collectSpecs fs parse yaml basePath =
      ((includesAt fs parse yaml basePath (mainPath fs basePath)).foldlM
        (loadIncludesRecursive fs parse (fs.files.length + 1))
        ⟨specsAt fs parse yaml basePath (mainPath fs basePath), [mainPath fs basePath]⟩).map
        LoadState.specs := by
    rw [collectSpecs, hfile, hincludes]
    simp only [bind, Except.bind, hspecs, Compiled.load]
    cases List.foldlM (loadIncludesRecursive fs parse (fs.files.length + 1))
      ⟨specsAt fs parse yaml basePath (mainPath fs basePath), [mainPath fs basePath]⟩
      (file.includes.map (Path.join (Path.directory basePath))) <;> rfl
  have hends : Walk.Ends (targets fs parse yaml basePath) [] [mainPath fs basePath]
      (Walk.walk (targets fs parse yaml basePath) (fs.files.length + 2) (mainPath fs basePath)
        []) := by
    refine Walk.walk_ends (mainPath fs basePath :: fs.files) (fun a _ b hb => ?_)
      List.mem_cons_self ?_
    · obtain ⟨path, -, hpath⟩ := List.mem_filterMap.mp hb
      refine List.mem_cons_of_mem _ (fs.mem_files path b ?_)
      cases hcanonical : fs.canonicalize path with
      | error e => rw [hcanonical] at hpath; cases hpath
      | ok c => rw [hcanonical] at hpath; cases hpath; rfl
    · refine lt_of_le_of_lt List.countP_le_length ?_
      simp
  rw [Walk.walk, if_neg List.not_mem_nil, List.nil_append] at hends
  rcases hends with ⟨order, hok, htree, -⟩ | ⟨order, node, herror, hclash, -⟩
  · rw [hok] at hloop
    obtain ⟨rest, horder, hloaded⟩ := hloop
    refine .inl ⟨order, htree, ?_⟩
    rw [hcollect, hloaded, ← List.nil_append order, horder, mergeFiles, mergeFiles,
      List.singleton_append, List.foldl_cons, addSpecs_nil]
    rfl
  · rw [herror] at hloop
    obtain ⟨path, hloaded⟩ := hloop
    refine .inr ⟨order, node, path, hclash, ?_⟩
    rw [hcollect, hloaded]
    rfl

/-- The specs that are handed over, when each file is met once. -/
theorem handed_of_tree {order : List String}
    (h : Walk.Tree (targets fs parse yaml basePath) [mainPath fs basePath] order)
    (hids : ∀ node, Reached fs parse yaml basePath node →
      (specIds (specsAt fs parse yaml basePath node)).Nodup) :
    Handed fs parse yaml basePath (mergeFiles (specsAt fs parse yaml basePath) [] order) := by
  refine ⟨nodup_specIds_mergeFiles fun node hnode => hids node ((h.reaches node).mp hnode),
    fun id => ?_, fun spec hspec => ?_⟩
  · rw [mem_specIds_mergeFiles]
    exact exists_congr fun node => and_congr_left fun _ => h.reaches node
  · obtain ⟨before, node, after, rfl, hmem, hnot⟩ := mem_mergeFiles hspec
    refine ⟨node, (h.reaches node).mp (by simp), hmem, fun includer hreached hpath => ?_⟩
    -- A file that includes `node` has been met before it.
    rcases List.mem_append.mp ((h.reaches includer).mpr hreached) with hbefore | hafter
    · exact hnot includer hbefore
    · rcases List.mem_cons.mp hafter with rfl | hafter
      · exact absurd hpath (h.acyclic includer (by simp))
      · have hforward := (List.pairwise_append.mp h.forward).2.1
        exact absurd hpath ((List.pairwise_cons.mp hforward).1 includer hafter)

/-- **Includes fail exactly on cycles** if and only if there is a cycle, or no file is included from
two places. -/
theorem includes_exact_iff (fs : FileSystem) (parse : String → Except LoadError WorkflowFile)
    (yaml basePath : String) (hreadable : Readable fs parse yaml basePath) :
    IncludesExact fs parse yaml basePath ↔
      ReachesCycle fs parse yaml basePath ∨ ∀ node, ¬IncludedTwice fs parse yaml basePath node := by
  rcases collectSpecs_ends hreadable with ⟨order, htree, hok⟩ | ⟨order, again, path, hclash, herror⟩
  · have hacyclic : ¬ReachesCycle fs parse yaml basePath := fun ⟨node, hreached, hcycle⟩ =>
      htree.acyclic node ((htree.reaches node).mpr hreached) hcycle
    refine iff_of_true ⟨?_, ?_, fun _ _ h => absurd h hacyclic, fun _ hids => ?_⟩
      (.inr htree.not_twice)
    · simp [hok]
    · exact iff_of_false (by simp [hok]) hacyclic
    · refine ⟨_, handed_of_tree htree hids, fun order F => ?_⟩
      rw [loadWorkflowWithIncludes, hok]
  · have hreport (order : HashOrder) (F : Features) :
        loadWorkflowWithIncludes fs parse yaml basePath order F =
          some (.error (circularInclude path)) := by
      rw [loadWorkflowWithIncludes, herror]
    constructor
    · intro h
      exact .inl (h.circular.mp ⟨path, herror⟩)
    · intro h
      have hcycle : ReachesCycle fs parse yaml basePath := by
        rcases hclash.cycle_or_twice with hcycle | ⟨node, htwice⟩
        · exact hcycle
        · exact h.resolve_right fun hnot => hnot node htwice
      refine ⟨?_, iff_of_true ⟨path, herror⟩ hcycle, fun order F _ => ⟨path, hreport order F⟩,
        fun hnot => absurd hcycle hnot⟩
      simp [herror, circularInclude]

/-! ## Files by their names -/

/-- A list of files that contains the main file and is closed under includes has all files that are
reached. -/
theorem Reached.mem {nodes : List String} {node : String} (h : Reached fs parse yaml basePath node)
    (hmain : mainPath fs basePath ∈ nodes)
    (hclosed : ∀ a ∈ nodes, targets fs parse yaml basePath a ⊆ nodes) : node ∈ nodes := by
  induction h with
  | refl => exact hmain
  | tail _ hstep ih => exact hclosed _ ih hstep

/-- The check that a file can be read and holds workflows, and that its includes lead to files. -/
def loads (fs : FileSystem) (parse : String → Except LoadError WorkflowFile)
    (yaml basePath node : String) : Bool :=
  ((fileAt fs parse yaml basePath node).toOption.bind fun file =>
    (resolveWorkflowSpecs file).toOption).isSome &&
  (includesAt fs parse yaml basePath node).all fun path => (fs.canonicalize path).toOption.isSome

theorem readable_of_loads (nodes : List String) (hmain : mainPath fs basePath ∈ nodes)
    (hclosed : ∀ a ∈ nodes, targets fs parse yaml basePath a ⊆ nodes)
    (hloads : ∀ a ∈ nodes, loads fs parse yaml basePath a = true) :
    Readable fs parse yaml basePath := by
  intro node hreached
  obtain ⟨hfile, hpaths⟩ := (Bool.and_eq_true _ _).mp (hloads node (hreached.mem hmain hclosed))
  refine ⟨?_, fun path hpath => ?_⟩
  · cases hnode : fileAt fs parse yaml basePath node with
    | error e => rw [hnode] at hfile; cases hfile
    | ok file =>
      cases hspecs : resolveWorkflowSpecs file with
      | error e => simp [hnode, hspecs, Except.toOption] at hfile
      | ok specs => exact ⟨file, specs, rfl, hspecs⟩
  · have hpath := List.all_eq_true.mp hpaths path hpath
    cases hcanonical : fs.canonicalize path with
    | error e => rw [hcanonical] at hpath; cases hpath
    | ok file => exact ⟨file, rfl⟩

end Follow

/-- Files by their paths: the id of the workflow of each, and its includes. -/
abbrev FileTable := List (String × String × List String)

/-- The text of a file with one workflow. -/
def fileText (id : String) (includes : List String) : String :=
  let shown := Text.join ", " includes
  s!"include: [{shown}]\nworkflow:\n  id: {id}\n  version: 1\n  steps: []\n"

/-- The files of the table and no others. -/
def FileTable.system (table : FileTable) : FileSystem where
  files := table.map Prod.fst
  canonicalize path := if path ∈ table.map Prod.fst then .ok path else .error "No such file"
  readToString path :=
    match table.lookup path with
    | some (id, includes) => .ok (fileText id includes)
    | none => .error "No such file"
  mem_files path file h := by
    split_ifs at h with hmem
    cases h
    exact hmem

/-- Parsing of the texts of the files of the table. -/
def FileTable.parse (table : FileTable) (text : String) : Except LoadError WorkflowFile :=
  match table.find? fun entry => fileText entry.2.1 entry.2.2 = text with
  | some (_, id, includes) =>
    .ok { includes, workflow := some { id, version := 1, steps := [] } }
  | none => .error (.parse "unknown text")

/-- A file that includes a file that includes another one. -/
def chainFiles : FileTable :=
  [("/flows/main.yaml", "main", ["a.yaml"]), ("/flows/a.yaml", "a", ["lib/c.yaml"]),
    ("/flows/lib/c.yaml", "c", [])]

theorem includes_exact_chain :
    IncludesExact chainFiles.system chainFiles.parse (fileText "main" ["a.yaml"])
      "/flows/main.yaml" := by
  have hreadable : Readable chainFiles.system chainFiles.parse (fileText "main" ["a.yaml"])
      "/flows/main.yaml" :=
    readable_of_loads (chainFiles.map Prod.fst) (by decide) (by decide)
      (by decide)
  refine (includes_exact_iff _ _ _ _ hreadable).mpr (.inr ?_)
  rcases collectSpecs_ends hreadable with ⟨order, htree, -⟩ | ⟨order, node, path, -, herror⟩
  · exact htree.not_twice
  · have hok : (collectSpecs chainFiles.system chainFiles.parse (fileText "main" ["a.yaml"])
        "/flows/main.yaml").toOption.isSome = true := by decide
    rw [herror] at hok
    cases hok

/-- Two files that the main file includes include a third one. -/
def diamondFiles : FileTable :=
  [("/flows/main.yaml", "main", ["a.yaml", "b.yaml"]), ("/flows/a.yaml", "a", ["lib/c.yaml"]),
    ("/flows/b.yaml", "b", ["lib/c.yaml"]), ("/flows/lib/c.yaml", "c", [])]

/-- A file that is included from two places is reported as a circular include, although there is no
cycle. -/
theorem diamond_not_exact :
    Readable diamondFiles.system diamondFiles.parse (fileText "main" ["a.yaml", "b.yaml"])
      "/flows/main.yaml" ∧
    (∃ path, collectSpecs diamondFiles.system diamondFiles.parse
      (fileText "main" ["a.yaml", "b.yaml"]) "/flows/main.yaml" = .error (circularInclude path)) ∧
    ¬ReachesCycle diamondFiles.system diamondFiles.parse (fileText "main" ["a.yaml", "b.yaml"])
      "/flows/main.yaml" ∧
    ¬IncludesExact diamondFiles.system diamondFiles.parse (fileText "main" ["a.yaml", "b.yaml"])
      "/flows/main.yaml" := by
  have hmain : mainPath diamondFiles.system "/flows/main.yaml" ∈ diamondFiles.map Prod.fst := by
    decide
  have hclosed : ∀ a ∈ diamondFiles.map Prod.fst, targets diamondFiles.system diamondFiles.parse
      (fileText "main" ["a.yaml", "b.yaml"]) "/flows/main.yaml" a ⊆ diamondFiles.map Prod.fst := by
    decide
  have hreadable : Readable diamondFiles.system diamondFiles.parse
      (fileText "main" ["a.yaml", "b.yaml"]) "/flows/main.yaml" :=
    readable_of_loads _ hmain hclosed (by decide)
  have hcircular : ∃ path, collectSpecs diamondFiles.system diamondFiles.parse
      (fileText "main" ["a.yaml", "b.yaml"]) "/flows/main.yaml" =
      .error (circularInclude path) := by
    rcases collectSpecs_ends hreadable with ⟨order, -, hok⟩ | ⟨order, node, path, -, herror⟩
    · have hnone : (collectSpecs diamondFiles.system diamondFiles.parse
          (fileText "main" ["a.yaml", "b.yaml"]) "/flows/main.yaml").toOption.isNone = true := by
        decide
      rw [hok] at hnone
      cases hnone
    · exact ⟨path, herror⟩
  -- Files include only files that stand later in the table.
  have hlater : ∀ a ∈ diamondFiles.map Prod.fst, ∀ b ∈ targets diamondFiles.system
      diamondFiles.parse (fileText "main" ["a.yaml", "b.yaml"]) "/flows/main.yaml" a,
      (diamondFiles.map Prod.fst).idxOf a < (diamondFiles.map Prod.fst).idxOf b := by
    decide
  have hacyclic : ¬ReachesCycle diamondFiles.system diamondFiles.parse
      (fileText "main" ["a.yaml", "b.yaml"]) "/flows/main.yaml" := by
    rintro ⟨node, hreached, hcycle⟩
    have hlt {b : String} (h : Relation.TransGen (Includes diamondFiles.system diamondFiles.parse
        (fileText "main" ["a.yaml", "b.yaml"]) "/flows/main.yaml") node b) :
        (diamondFiles.map Prod.fst).idxOf node < (diamondFiles.map Prod.fst).idxOf b := by
      induction h with
      | single hstep => exact hlater node (hreached.mem hmain hclosed) _ hstep
      | tail hpath hstep ih =>
        have hmem := Reached.mem (hreached.trans hpath.to_reflTransGen) hmain hclosed
        exact ih.trans (hlater _ hmem _ hstep)
    exact lt_irrefl _ (hlt hcycle)
  exact ⟨hreadable, hcircular, hacyclic, fun hexact => hacyclic (hexact.circular.mp hcircular)⟩

end Wfe
