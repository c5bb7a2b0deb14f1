import Wfe.Backends.KubernetesNames

/-!
# Jobs on a Kubernetes cluster

Hosts run steps as jobs of one cluster. An execution creates its job, which fails if there is one of
that name in its namespace, and deletes the job of that name at its end. Jobs may also disappear by
themselves, and an execution may end without deleting.

## Main definitions

* `Execution`, `Cluster`: the executions of `KubernetesStep::run`, and what they do to the cluster
* `Isolated`: trees have their own namespaces, and executions in progress their own jobs
* `OwnJobs`: an execution that ends deletes no other one's job
* `Distinct`: what has to be distinct when an execution begins

## Main results

* `isolated_begin_iff`, `Isolated.step`, `OwnJobs.step`: each step keeps them
* `isolated_iff_distinct`: in which runs executions do not collide
-/

namespace Wfe.Kubernetes

/-! ## Executions -/

/-- What the names of an execution are made of: the workflow, the step and the namespace of the
step's configuration. -/
structure Execution where
  workflowId : String
  rootWorkflowId : Option String
  stepName : Option String
  configNamespace : Option String
deriving DecidableEq, Repr

namespace Execution

/-- `isolation_id`: the root of the workflow's tree. -/
def isolationId (e : Execution) : String := e.rootWorkflowId.getD e.workflowId

def step (e : Execution) : String := e.stepName.getD "unknown"

/-- `ns`. -/
def ns (pre : String) (e : Execution) : String :=
  e.configNamespace.getD (namespaceName pre e.isolationId)

/-- `job_name`. -/
def jobName (e : Execution) : String := sanitizeName e.step

/-- The job that the execution creates and deletes. -/
def key (pre : String) (e : Execution) : String × String := (e.ns pre, e.jobName)

end Execution

/-! ## The cluster -/

/-- How far an execution is: before and after the creation of its job, and at its end. -/
inductive Phase
  | preparing
  | created
  | over
deriving DecidableEq, Repr

/-- The executions that have begun, in this order, and the jobs that exist with the execution that
created each. -/
structure Cluster where
  executions : List (Execution × Phase) := []
  jobs : List ((String × String) × Nat) := []

inductive Event
  | begin (e : Execution)
  | create (n : Nat)
  | finish (n : Nat)
  | abandon (n : Nat)
  | vanish (key : String × String)

namespace Cluster

def setPhase (σ : Cluster) (n : Nat) (p : Phase) : Cluster :=
  { σ with executions := σ.executions.modify n fun x => (x.1, p) }

/-- `delete_job`: removes the job of that name, if there is one. -/
def deleteJob (σ : Cluster) (key : String × String) : Cluster :=
  { σ with jobs := σ.jobs.filter (·.1 ≠ key) }

/-- One step of the cluster. Creation is refused where a job exists, and then the execution ends
with an error and deletes nothing. -/
def step (pre : String) (σ : Cluster) : Event → Cluster
  | .begin e => { σ with executions := σ.executions ++ [(e, .preparing)] }
  | .create n =>
    match σ.executions[n]? with
    | some (e, .preparing) =>
      if ∃ job ∈ σ.jobs, job.1 = e.key pre then σ.setPhase n .over
      else { σ.setPhase n .created with jobs := (e.key pre, n) :: σ.jobs }
    | _ => σ
  | .finish n =>
    match σ.executions[n]? with
    | some (e, .created) => (σ.deleteJob (e.key pre)).setPhase n .over
    | _ => σ
  | .abandon n => σ.setPhase n .over
  | .vanish key => σ.deleteJob key

end Cluster

/-- The cluster after a run of events. -/
def run (pre : String) (events : List Event) : Cluster := events.foldl (Cluster.step pre) {}

/-! ## Isolation -/

/-- Two executions of different trees use different namespaces, and two of one tree that are in
progress use different jobs. -/
def Apart (pre : String) (x y : Execution × Phase) : Prop :=
  (x.1.isolationId ≠ y.1.isolationId → x.1.ns pre ≠ y.1.ns pre) ∧
    (x.1.isolationId = y.1.isolationId → x.2 ≠ .over → y.2 ≠ .over → x.1.key pre ≠ y.1.key pre)

/-- **Executions do not collide.** -/
def Isolated (pre : String) (σ : Cluster) : Prop := σ.executions.Pairwise (Apart pre)

/-- The job that an execution in progress has created is the only one that it would delete. -/
def OwnJobs (pre : String) (σ : Cluster) : Prop :=
  ∀ n e, σ.executions[n]? = some (e, .created) → ∀ job ∈ σ.jobs, job.1 = e.key pre → job.2 = n

/-- What is distinct when the execution `e` begins: from the roots of all other trees, its root in
the characters that are left behind the prefix, and from the steps in progress of its tree, its step
in the letters of names. -/
def Distinct (pre : String) (σ : Cluster) (e : Execution) : Prop :=
  ∀ x ∈ σ.executions,
    (x.1.isolationId ≠ e.isolationId →
      x.1.isolationId.toList.take (63 - (letters pre.toList).length) ≠
        e.isolationId.toList.take (63 - (letters pre.toList).length)) ∧
    (x.1.isolationId = e.isolationId → x.2 ≠ .over → ¬ SameLetters x.1.step e.step)

/-! ## What the steps keep -/

section Steps

variable {pre : String} {σ : Cluster} {n : Nat} {p : Phase}

theorem Apart.symm {x y : Execution × Phase} (h : Apart pre x y) : Apart pre y x :=
  ⟨fun hne => (h.1 hne.symm).symm, fun heq hy hx => (h.2 heq.symm hx hy).symm⟩

/-- Executions stay apart as long as none that is over goes on. -/
theorem Apart.of_over {x y : Execution × Phase} (h : Apart pre x y) {p q : Phase}
    (hp : p ≠ .over → x.2 ≠ .over) (hq : q ≠ .over → y.2 ≠ .over) :
    Apart pre (x.1, p) (y.1, q) :=
  ⟨h.1, fun heq hx hy => h.2 heq (hp hx) (hq hy)⟩

theorem getElem?_setPhase (m : Nat) :
    (σ.setPhase n p).executions[m]? =
      if n = m then (σ.executions[m]?).map fun x => (x.1, p) else σ.executions[m]? := by
  rw [Cluster.setPhase, List.getElem?_modify]
  split_ifs <;> simp

theorem isolated_iff_getElem? : Isolated pre σ ↔
    ∀ (i j : Nat) x y, i < j → σ.executions[i]? = some x → σ.executions[j]? = some y →
      Apart pre x y := by
  rw [Isolated, List.pairwise_iff_getElem]
  constructor
  · intro h i j x y hij hx hy
    obtain ⟨hi, rfl⟩ := List.getElem?_eq_some_iff.mp hx
    obtain ⟨hj, rfl⟩ := List.getElem?_eq_some_iff.mp hy
    exact h i j hi hj hij
  · intro h i j hi hj hij
    exact h i j _ _ hij (List.getElem?_eq_getElem hi) (List.getElem?_eq_getElem hj)

theorem Isolated.apart (h : Isolated pre σ) {i j : Nat} {x y : Execution × Phase} (hij : i ≠ j)
    (hx : σ.executions[i]? = some x) (hy : σ.executions[j]? = some y) : Apart pre x y := by
  rw [isolated_iff_getElem?] at h
  rcases Nat.lt_or_gt_of_ne hij with hlt | hgt
  · exact h i j x y hlt hx hy
  · exact (h j i y x hgt hy hx).symm

/-- What an execution was before its phase was set. -/
theorem exists_of_setPhase {m : Nat} {x : Execution × Phase}
    (hphase : ∀ y, σ.executions[n]? = some y → p ≠ .over → y.2 ≠ .over)
    (hx : (σ.setPhase n p).executions[m]? = some x) :
    ∃ y, σ.executions[m]? = some y ∧ y.1 = x.1 ∧ (x.2 ≠ .over → y.2 ≠ .over) := by
  rw [getElem?_setPhase] at hx
  split_ifs at hx with hm
  · subst hm
    obtain ⟨y, hy, rfl⟩ := Option.map_eq_some_iff.mp hx
    exact ⟨y, hy, rfl, hphase y hy⟩
  · exact ⟨x, hx, rfl, id⟩

theorem Isolated.setPhase (h : Isolated pre σ)
    (hphase : ∀ y, σ.executions[n]? = some y → p ≠ .over → y.2 ≠ .over) :
    Isolated pre (σ.setPhase n p) := by
  rw [isolated_iff_getElem?]
  intro i j x y hij hx hy
  obtain ⟨x', hx', hxe, hxp⟩ := exists_of_setPhase hphase hx
  obtain ⟨y', hy', hye, hyp⟩ := exists_of_setPhase hphase hy
  have hapart := (h.apart hij.ne hx' hy').of_over hxp hyp
  rwa [hxe, hye] at hapart

/-- What the creation of a job does. -/
theorem step_create_cases (pre : String) (σ : Cluster) (n : Nat) :
    σ.step pre (.create n) = σ ∨
      ∃ e, σ.executions[n]? = some (e, .preparing) ∧
        (σ.step pre (.create n) = σ.setPhase n .over ∨
          (∀ job ∈ σ.jobs, job.1 ≠ e.key pre) ∧ σ.step pre (.create n) =
            { σ.setPhase n .created with jobs := (e.key pre, n) :: σ.jobs }) := by
  simp only [Cluster.step]
  split
  · rename_i e hlookup
    refine .inr ⟨e, hlookup, ?_⟩
    split_ifs with hjob
    · exact .inl rfl
    · exact .inr ⟨fun job hmem hkey => hjob ⟨job, hmem, hkey⟩, rfl⟩
  · exact .inl rfl

/-- What the end of an execution does. -/
theorem step_finish_cases (pre : String) (σ : Cluster) (n : Nat) :
    σ.step pre (.finish n) = σ ∨
      ∃ e, σ.executions[n]? = some (e, .created) ∧
        σ.step pre (.finish n) = (σ.deleteJob (e.key pre)).setPhase n .over := by
  simp only [Cluster.step]
  split
  · rename_i e hlookup
    exact .inr ⟨e, hlookup, rfl⟩
  · exact .inl rfl

/-- Beginning is the only step that has to be looked at. -/
theorem isolated_begin_iff {e : Execution} : Isolated pre (σ.step pre (.begin e)) ↔
    Isolated pre σ ∧ ∀ x ∈ σ.executions, Apart pre x (e, .preparing) := by
  simp [Isolated, Cluster.step, List.pairwise_append]

theorem Isolated.step (h : Isolated pre σ) {event : Event} (hevent : ∀ e, event ≠ .begin e) :
    Isolated pre (σ.step pre event) := by
  cases event with
  | begin e => exact absurd rfl (hevent e)
  | create n =>
    rcases step_create_cases pre σ n with heq | ⟨e, hlookup, heq⟩
    · rwa [heq]
    · have hphase : ∀ y, σ.executions[n]? = some y → y.2 ≠ .over := by
        rintro y hy
        rw [← Option.some.inj (hlookup.symm.trans hy)]
        exact Phase.noConfusion
      rcases heq with heq | ⟨-, heq⟩ <;> rw [heq]
      · exact h.setPhase fun y hy _ => hphase y hy
      · exact Isolated.setPhase (p := .created) h fun y hy _ => hphase y hy
  | finish n =>
    rcases step_finish_cases pre σ n with heq | ⟨e, -, heq⟩ <;> rw [heq]
    · exact h
    · exact Isolated.setPhase (σ := σ.deleteJob _) h fun _ _ hp => absurd rfl hp
  | abandon n => exact h.setPhase fun _ _ hp => absurd rfl hp
  | vanish key => exact h

/-! ## Deleting -/

theorem OwnJobs.deleteJob (h : OwnJobs pre σ) (key : String × String) :
    OwnJobs pre (σ.deleteJob key) :=
  fun n e hlookup job hmem => h n e hlookup job (List.mem_of_mem_filter hmem)

theorem OwnJobs.setPhase_over (h : OwnJobs pre σ) : OwnJobs pre (σ.setPhase n .over) := by
  intro m e hlookup
  rw [getElem?_setPhase] at hlookup
  split_ifs at hlookup with hm
  · obtain ⟨y, -, hy⟩ := Option.map_eq_some_iff.mp hlookup
    cases hy
  · exact h m e hlookup

/-- A job that is created is nobody else's: no other execution in progress has a job of its name. -/
theorem OwnJobs.create {e : Execution} (h : OwnJobs pre σ) (hisolated : Isolated pre σ)
    (hlookup : σ.executions[n]? = some (e, .preparing))
    (hfree : ∀ job ∈ σ.jobs, job.1 ≠ e.key pre) :
    OwnJobs pre { σ.setPhase n .created with jobs := (e.key pre, n) :: σ.jobs } := by
  intro m e' hlookup' job hmem hkey
  simp only at hlookup'
  rw [getElem?_setPhase] at hlookup'
  split_ifs at hlookup' with hm
  · subst hm
    rw [hlookup] at hlookup'
    obtain rfl : e = e' := by simpa using hlookup'
    rcases List.mem_cons.mp hmem with rfl | hmem
    · rfl
    · exact absurd hkey (hfree job hmem)
  · rcases List.mem_cons.mp hmem with rfl | hmem
    · -- Another execution in progress would have this job.
      have hapart := hisolated.apart hm hlookup hlookup'
      by_cases hroot : e.isolationId = e'.isolationId
      · exact absurd hkey (hapart.2 hroot Phase.noConfusion Phase.noConfusion)
      · exact absurd (congrArg Prod.fst hkey) (hapart.1 hroot)
    · exact h m e' hlookup' job hmem hkey

theorem OwnJobs.step (h : OwnJobs pre σ) (hisolated : Isolated pre σ) (event : Event) :
    OwnJobs pre (σ.step pre event) := by
  cases event with
  | begin e =>
    intro n e' hlookup
    simp only [Cluster.step] at hlookup
    rcases Nat.lt_trichotomy n σ.executions.length with hlt | rfl | hgt
    · rw [List.getElem?_append_left hlt] at hlookup
      exact h n e' hlookup
    · rw [List.getElem?_concat_length] at hlookup
      cases hlookup
    · rw [List.getElem?_eq_none (by simp; omega)] at hlookup
      cases hlookup
  | create n =>
    rcases step_create_cases pre σ n with heq | ⟨e, hlookup, heq | ⟨hfree, heq⟩⟩ <;> rw [heq]
    · exact h
    · exact h.setPhase_over
    · exact h.create hisolated hlookup hfree
  | finish n =>
    rcases step_finish_cases pre σ n with heq | ⟨e, -, heq⟩ <;> rw [heq]
    · exact h
    · exact (h.deleteJob _).setPhase_over
  | abandon n => exact h.setPhase_over
  | vanish key => exact h.deleteJob key

end Steps

/-! ## Runs -/

/-- The executions that are looked at: without a configured namespace, in trees whose ids are
UUIDs. -/
def Execution.Plain (e : Execution) : Prop := e.configNamespace = none ∧ IsUuid e.isolationId

theorem run_concat (pre : String) (events : List Event) (event : Event) :
    run pre (events ++ [event]) = (run pre events).step pre event := by
  rw [run, List.foldl_append]
  rfl

theorem mem_step {pre : String} {σ : Cluster} {event : Event} {x : Execution × Phase}
    (h : x ∈ (σ.step pre event).executions) :
    .begin x.1 = event ∨ ∃ y ∈ σ.executions, y.1 = x.1 := by
  have hphase : ∀ (σ : Cluster) n p, x ∈ (σ.setPhase n p).executions →
      ∃ y ∈ σ.executions, y.1 = x.1 := by
    intro σ n p hx
    obtain ⟨m, hm⟩ := List.mem_iff_getElem?.mp hx
    rw [getElem?_setPhase] at hm
    split_ifs at hm
    · obtain ⟨y, hy, rfl⟩ := Option.map_eq_some_iff.mp hm
      exact ⟨y, List.mem_of_getElem? hy, rfl⟩
    · exact ⟨x, List.mem_of_getElem? hm, rfl⟩
  cases event with
  | begin e =>
    rcases List.mem_append.mp h with h | h
    · exact .inr ⟨x, h, rfl⟩
    · rw [List.mem_singleton.mp h]
      exact .inl rfl
  | create n =>
    rcases step_create_cases pre σ n with heq | ⟨e, -, heq | ⟨-, heq⟩⟩ <;> rw [heq] at h
    · exact .inr ⟨x, h, rfl⟩
    · exact .inr (hphase _ _ _ h)
    · exact .inr (hphase _ _ _ h)
  | finish n =>
    rcases step_finish_cases pre σ n with heq | ⟨e, -, heq⟩ <;> rw [heq] at h
    · exact .inr ⟨x, h, rfl⟩
    · exact .inr (hphase _ _ _ h)
  | abandon n => exact .inr (hphase _ _ _ h)
  | vanish key => exact .inr ⟨x, h, rfl⟩

/-- What is on the cluster has begun. -/
theorem begin_mem_of_run {pre : String} {events : List Event} {x : Execution × Phase}
    (h : x ∈ (run pre events).executions) : .begin x.1 ∈ events := by
  induction events using List.reverseRecOn generalizing x with
  | nil => cases h
  | append_singleton events event ih =>
    rw [run_concat] at h
    rcases mem_step h with heq | ⟨y, hy, hyx⟩
    · rw [heq]
      exact List.mem_append_right _ (List.mem_singleton_self _)
    · rw [← hyx]
      exact List.mem_append_left _ (ih hy)

/-- Executions are apart exactly if their ids and steps are. -/
theorem apart_begin_iff {pre : String} {x : Execution × Phase} {e : Execution} (hx : x.1.Plain)
    (he : e.Plain) : Apart pre x (e, .preparing) ↔
      (x.1.isolationId ≠ e.isolationId →
        x.1.isolationId.toList.take (63 - (letters pre.toList).length) ≠
          e.isolationId.toList.take (63 - (letters pre.toList).length)) ∧
      (x.1.isolationId = e.isolationId → x.2 ≠ .over → ¬ SameLetters x.1.step e.step) := by
  have hns : ∀ {e : Execution}, e.Plain → e.ns pre = namespaceName pre e.isolationId := by
    intro e he
    rw [Execution.ns, he.1, Option.getD_none]
  have hroots : x.1.ns pre ≠ e.ns pre ↔
      x.1.isolationId.toList.take (63 - (letters pre.toList).length) ≠
        e.isolationId.toList.take (63 - (letters pre.toList).length) := by
    rw [hns hx, hns he, Ne, namespaceName_eq_iff hx.2 he.2]
  have hkeys : x.1.isolationId = e.isolationId →
      (x.1.key pre ≠ e.key pre ↔ ¬ SameLetters x.1.step e.step) := by
    intro hroot
    rw [Ne, Execution.key, Execution.key, Prod.mk.injEq, hns hx, hns he, hroot, eq_self_iff_true,
      true_and, Execution.jobName, Execution.jobName, sanitizeName_eq_iff]
  constructor
  · rintro ⟨h, h'⟩
    exact ⟨fun hne => hroots.mp (h hne),
      fun heq hover => (hkeys heq).mp (h' heq hover Phase.noConfusion)⟩
  · rintro ⟨h, h'⟩
    exact ⟨fun hne => hroots.mpr (h hne), fun heq hover _ => (hkeys heq).mpr (h' heq hover)⟩

/-- Isolation after one more step. -/
theorem isolated_concat_iff {pre : String} {events : List Event} {event : Event}
    (hplain : ∀ e, .begin e ∈ events ++ [event] → e.Plain)
    (hisolated : Isolated pre (run pre events)) :
    Isolated pre (run pre (events ++ [event])) ↔
      ∀ e, event = .begin e → Distinct pre (run pre events) e := by
  rw [run_concat]
  by_cases hbegin : ∃ e, event = .begin e
  · obtain ⟨e, rfl⟩ := hbegin
    have he : e.Plain := hplain e (by simp)
    have hiff : (∀ x ∈ (run pre events).executions, Apart pre x (e, .preparing)) ↔
        Distinct pre (run pre events) e :=
      forall₂_congr fun x hx =>
        apart_begin_iff (hplain x.1 (List.mem_append_left _ (begin_mem_of_run hx))) he
    rw [isolated_begin_iff, and_iff_right hisolated, hiff]
    constructor
    · rintro h e' heq
      rwa [← Event.begin.inj heq]
    · intro h
      exact h e rfl
  · have hother : ∀ e, event ≠ .begin e := fun e heq => hbegin ⟨e, heq⟩
    exact ⟨fun _ e heq => absurd heq (hother e), fun _ => hisolated.step hother⟩

theorem isolated_prefixes_iff {pre : String} {events : List Event}
    (hplain : ∀ e, .begin e ∈ events → e.Plain) :
    (∀ es, es <+: events → Isolated pre (run pre es)) ↔
      ∀ es e, es ++ [.begin e] <+: events → Distinct pre (run pre es) e := by
  induction events using List.reverseRecOn with
  | nil =>
    refine ⟨fun _ es e hes => ?_, fun _ es hes => ?_⟩
    · simp at hes
    · rw [List.prefix_nil.mp hes]
      exact List.Pairwise.nil
  | append_singleton events event ih =>
    have ih := ih fun e he => hplain e (List.mem_append_left _ he)
    have hevents : events <+: events ++ [event] := List.prefix_append _ _
    constructor
    · intro h es e hes
      have hbefore : ∀ es, es <+: events → Isolated pre (run pre es) :=
        fun es hes => h es (hes.trans hevents)
      rcases List.prefix_concat_iff.mp hes with heq | hes
      · obtain ⟨rfl, hevent⟩ := List.append_inj' heq rfl
        obtain rfl := (List.cons.inj hevent).1
        exact (isolated_concat_iff hplain (hbefore _ (List.prefix_refl _))).mp
          (h _ (List.prefix_refl _)) e rfl
      · exact ih.mp hbefore es e hes
    · intro h es hes
      have hbefore := ih.mpr fun es e hes => h es e (hes.trans hevents)
      rcases List.prefix_concat_iff.mp hes with rfl | hes
      · refine (isolated_concat_iff hplain (hbefore _ (List.prefix_refl _))).mpr ?_
        rintro e rfl
        exact h _ e (List.prefix_refl _)
      · exact hbefore es hes

theorem ownJobs_of_isolated {pre : String} {events : List Event}
    (h : ∀ es, es <+: events → Isolated pre (run pre es)) : OwnJobs pre (run pre events) := by
  induction events using List.reverseRecOn with
  | nil =>
    intro n e hlookup
    cases hlookup
  | append_singleton events event ih =>
    rw [run_concat]
    have hevents : events <+: events ++ [event] := List.prefix_append _ _
    exact (ih fun es hes => h es (hes.trans hevents)).step (h events hevents) event

/-- **When executions do not collide.** In every run over trees with UUIDs and steps without a
configured namespace, executions are isolated at all times, and delete no job but their own, exactly
if what begins is distinct: the roots in the characters behind the prefix, and the steps of a tree
that are in progress in the letters of names. -/
theorem isolated_iff_distinct (pre : String) (events : List Event)
    (hplain : ∀ e, .begin e ∈ events → e.Plain) :
    (∀ es, es <+: events → Isolated pre (run pre es) ∧ OwnJobs pre (run pre es)) ↔
      ∀ es e, es ++ [.begin e] <+: events → Distinct pre (run pre es) e := by
  rw [← isolated_prefixes_iff hplain]
  constructor
  · intro h es hes
    exact (h es hes).1
  · intro h es hes
    exact ⟨h es hes, ownJobs_of_isolated fun es' hes' => h es' (hes'.trans hes)⟩

/-- A step of a workflow that a user has started. -/
def parentStep : Execution where
  workflowId := "6f1c1f0e-8c55-4a0b-9d6c-0a6d0d8f3b11"
  rootWorkflowId := none
  stepName := some "build"
  configNamespace := none

/-- Another step of it. -/
def testStep : Execution := { parentStep with stepName := some "test" }

/-- Both steps are in progress, and have created their jobs. -/
def bothSteps : List Event := [.begin parentStep, .create 0, .begin testStep, .create 1]

theorem isolated_bothSteps :
    (∀ es e, es ++ [.begin e] <+: bothSteps → Distinct "wfe-" (run "wfe-" es) e) ∧
      ∀ es, es <+: bothSteps → Isolated "wfe-" (run "wfe-" es) ∧ OwnJobs "wfe-" (run "wfe-" es) := by
  have hplain : ∀ e, .begin e ∈ bothSteps → e.Plain := by
    intro e he
    have he' : e = parentStep ∨ e = testStep := by simpa [bothSteps] using he
    rcases he' with rfl | rfl <;> exact ⟨rfl, by decide⟩
  have hdistinct : ∀ es e, es ++ [.begin e] <+: bothSteps →
      Distinct "wfe-" (run "wfe-" es) e := by
    intro es e hes x hx
    -- The second step begins when the first has created its job.
    have hes' : es = [] ∨ es = [.begin parentStep, .create 0] ∧ e = testStep := by
      rcases es with _ | ⟨a, _ | ⟨b, _ | ⟨c, _ | ⟨d, es⟩⟩⟩⟩ <;> simp_all [bothSteps]
    rcases hes' with rfl | ⟨rfl, rfl⟩
    · cases hx
    · obtain rfl : x = (parentStep, .created) := List.mem_singleton.mp hx
      exact ⟨fun hne => absurd rfl hne, fun _ _ hsame => absurd (hsame 0 (by decide)) (by decide)⟩
  exact ⟨hdistinct, (isolated_iff_distinct "wfe-" bothSteps hplain).mpr hdistinct⟩

/-- A step of the same name in a sub-workflow of it. -/
def childStep : Execution where
  workflowId := "0b6f7a52-2a3e-4c39-8f0c-5f6f1f1f2a90"
  rootWorkflowId := some "6f1c1f0e-8c55-4a0b-9d6c-0a6d0d8f3b11"
  stepName := some "build"
  configNamespace := none

/-- Both are in progress, and have one job. -/
theorem not_isolated_build :
    (∀ e, .begin e ∈ [Event.begin parentStep, .begin childStep] → e.Plain) ∧
      (parentStep.key "wfe-" = childStep.key "wfe-") ∧
      ¬ Isolated "wfe-" (run "wfe-" [.begin parentStep, .begin childStep]) := by
  have hkey : parentStep.key "wfe-" = childStep.key "wfe-" := by decide
  refine ⟨?_, hkey, fun h => ?_⟩
  · intro e he
    rcases List.mem_cons.mp he with he | he
    · rw [Event.begin.inj he]
      exact ⟨rfl, by decide⟩
    · rw [Event.begin.inj (List.mem_singleton.mp he)]
      exact ⟨rfl, by decide⟩
  · have hapart := List.rel_of_pairwise_cons h
      (List.mem_singleton_self (childStep, Phase.preparing))
    exact hapart.2 rfl Phase.noConfusion Phase.noConfusion hkey

end Wfe.Kubernetes
