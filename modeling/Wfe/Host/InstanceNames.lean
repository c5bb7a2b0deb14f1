import Wfe.Backends.NamedStores

/-!
# Names of instances

Whether names identify instances, over runs of starts. Automatic names are numbered for each
definition without regard to the names that callers choose, and nothing compares a name with the ids
in use; the in-memory store does not even compare it with other names. A run keeps names apart
exactly if each of its starts finds its name free.

## Main definitions

* `Identified`: names identify instances, and no start without a name of its own fails
* `Store.Start.Clear`: a start finds its name free

## Main results

* `Store.Lawful.identified_iff`: when names identify instances, for all stores
* `Store.Lawful.identified_of_automatic`: they do if all names are automatic
* `names_identify_iff`: when names identify instances in the two stores
-/

namespace Wfe

open Program Provider

variable {S : Store} {h : WorkflowHost} {log : List (Store.Start S)} {σ : S.State}

/-- The name that a start assigns. -/
def Store.Start.name (h : WorkflowHost) (e : S.Start) : Option String :=
  e.request.assigned h (S.sequence e.before)

/-- The start needs no name from its caller, and is of a definition that is registered. -/
def Store.Start.Automatic (h : WorkflowHost) (e : S.Start) : Prop :=
  e.request.nameOverride = none ∧
    (h.registry.getDefinition e.request.definitionId e.request.version).isSome

/-- The name is new, unless the caller chose it and the store looks; it is not the id of an
instance, and the id that is drawn is not the name of one. -/
def Store.Start.Clear (h : WorkflowHost) (e : S.Start) : Prop :=
  ∀ name, e.name h = some name →
    (e.request.nameOverride = none ∨ S.uniqueNames = false →
      name ∉ (S.named e.before).map Prod.snd) ∧
    (name ∉ (S.named e.before).map Prod.snd →
      name ∉ (S.named e.before).map Prod.fst ∧
        e.ambient.uuid 0 ∉ (S.named e.before).map Prod.snd)

/-- Names identify instances: automatic starts have succeeded, names are distinct, none is the id of
another instance, and a lookup by the name an instance was given finds it. -/
structure Identified (h : WorkflowHost) (log : List S.Start) (σ : S.State) : Prop where
  succeeded : ∀ e ∈ log, e.Automatic h → ∃ id, e.result = .ok id
  sound : Directory.Sound (S.named σ)
  finds : ∀ e ∈ log, ∀ id name, e.result = .ok id → e.name h = some name → S.Finds σ name id

/-- The store can read back the instance that a start makes. -/
def Store.Start.Readable (Reads : WorkflowInstance → Prop) (h : WorkflowHost) (e : S.Start) :
    Prop :=
  ∀ definition,
    h.registry.getDefinition e.request.definitionId e.request.version = some definition →
    ∀ name, Reads { e.request.instanceOf e.ambient definition with name := name }

namespace Store

theorem Start.Automatic.name_ne_none {e : S.Start} (he : e.Automatic h) : e.name h ≠ none := by
  intro hnone
  obtain ⟨hoverride, hregistered⟩ := he
  unfold Start.name StartRequest.assigned at hnone
  rw [hoverride] at hnone
  simp [Option.isNone_eq_false_iff.2 hregistered] at hnone

/-- A start whose name is refused should have found it free only if it is automatic. -/
theorem Start.clear_iff_of_refuses {e : S.Start} {name : String} (hname : e.name h = some name)
    (hrefuses : S.Refuses e.before name) : e.Clear h ↔ ¬e.Automatic h := by
  have hregistered :
      (h.registry.getDefinition e.request.definitionId e.request.version).isSome := by
    unfold Start.name StartRequest.assigned at hname
    split_ifs at hname with hnone
    simpa [Option.isSome_iff_ne_none, Option.isNone_iff_eq_none] using hnone
  obtain ⟨hunique, hmem⟩ := hrefuses
  unfold Start.Clear Start.Automatic
  rw [hname]
  simp only [Option.some.injEq, forall_eq', hunique, hmem, hregistered, not_true_eq_false,
    false_imp_iff, and_true, Bool.true_eq_false, or_false]

variable {Reads : WorkflowInstance → Prop} {Valid : S.State → Prop}

/-- What a run keeps: what was stored is there, and names identify it exactly as long as starts find
their names free. -/
structure Run.Kept (h : WorkflowHost) (Valid : S.State → Prop) (log : List S.Start) (σ : S.State) :
    Prop where
  valid : Valid σ
  stored : ∀ e ∈ log, ∀ id name, e.result = .ok id → e.name h = some name →
    (id, name) ∈ S.named σ
  clear_iff : ((∀ e ∈ log, e.Automatic h → ∃ id, e.result = .ok id) ∧
    Directory.Sound (S.named σ)) ↔ ∀ e ∈ log, e.Clear h

/-- A start that fails leaves names as they are; it may fail if the caller chose the name. -/
theorem Run.Kept.failed {σ' : S.State} {e : S.Start} (hkept : Run.Kept h Valid log σ)
    (hvalid : Valid σ') (hnamed : S.named σ' = S.named σ) (hresult : ∃ err, e.result = .error err)
    (hclear : e.Clear h ↔ ¬e.Automatic h) : Run.Kept h Valid (log ++ [e]) σ' := by
  obtain ⟨err, hresult⟩ := hresult
  refine ⟨hvalid, fun e' he' id name hok hname => ?_, ?_⟩
  · rw [hnamed]
    rcases List.mem_append.1 he' with he' | he'
    · exact hkept.stored e' he' id name hok hname
    · rw [List.mem_singleton.1 he', hresult] at hok
      cases hok
  · have hsucceeded : (e.Automatic h → ∃ id, e.result = .ok id) ↔ e.Clear h := by
      rw [hclear]
      refine imp_congr_right fun _ => ⟨fun ⟨id, hok⟩ => ?_, False.elim⟩
      rw [hresult] at hok
      cases hok
    rw [hnamed]
    simp only [List.mem_append, List.mem_singleton, or_imp, forall_and, forall_eq, hsucceeded]
    rw [and_right_comm, hkept.clear_iff]

/-- A start that succeeds adds its instance. -/
theorem Run.Kept.succeeded {σ' : S.State} {e : S.Start} {name : String}
    (hkept : Run.Kept h Valid log σ) (hvalid : Valid σ') (hbefore : e.before = σ)
    (hnew : S.New σ e.ambient) (hname : e.name h = some name) (hfree : ¬S.Refuses σ name)
    (hresult : e.result = .ok (e.ambient.uuid 0))
    (hnamed : S.named σ' = S.named σ ++ [(e.ambient.uuid 0, name)]) :
    Run.Kept h Valid (log ++ [e]) σ' := by
  refine ⟨hvalid, fun e' he' id name' hok hname' => ?_, ?_⟩
  · rw [hnamed]
    rcases List.mem_append.1 he' with he' | he'
    · exact List.mem_append_left _ (hkept.stored e' he' id name' hok hname')
    · cases List.mem_singleton.1 he'
      rw [hresult] at hok
      rw [hname] at hname'
      cases hok
      cases hname'
      exact List.mem_append_right _ (List.mem_singleton_self _)
  · have hclear : e.Clear h ↔ name ∉ (S.named σ).map Prod.snd ∧
        name ∉ (S.named σ).map Prod.fst ∧ e.ambient.uuid 0 ∉ (S.named σ).map Prod.snd := by
      unfold Start.Clear
      rw [hbefore, hname]
      simp only [Option.some.injEq, forall_eq']
      by_cases hunique : S.uniqueNames = true
      · -- The store has looked, so the name is free.
        have hname : name ∉ (S.named σ).map Prod.snd := fun hmem => hfree ⟨hunique, hmem⟩
        simp [hname]
      · simp only [Bool.not_eq_true] at hunique
        simp only [hunique, or_true, forall_const]
        exact and_congr_right fun h => forall_prop_of_true h
    have hsucceeded : (e.Automatic h → ∃ id, e.result = .ok id) ↔ True :=
      iff_true_intro fun _ => ⟨_, hresult⟩
    rw [hnamed, Directory.sound_concat_iff hnew.id]
    simp only [List.mem_append, List.mem_singleton, or_imp, forall_and, forall_eq, hsucceeded,
      and_true, hclear]
    rw [← and_assoc, hkept.clear_iff]

/-- What every run keeps. -/
theorem Run.kept (hS : S.Lawful Reads Valid) (hrun : S.Run h log σ)
    (hreads : ∀ e ∈ log, e.Readable Reads h) : Run.Kept h Valid log σ := by
  induction hrun with
  | nil =>
    refine ⟨hS.valid_empty, List.forall_mem_nil _,
      iff_of_true ⟨List.forall_mem_nil _, ?_⟩ (List.forall_mem_nil _)⟩
    rw [hS.named_empty]
    exact Directory.sound_nil
  | @start log σ σ' request o r hrun ho hnew hexec ih =>
    have hkept := ih fun e he => hreads e (List.mem_append_left _ he)
    let e : S.Start := ⟨request, σ, o.ambient, r⟩
    cases hname : e.name h with
    | none =>
      -- No name is assigned, which does not happen to automatic starts.
      obtain ⟨err, hfail⟩ := hS.start_none hnew hname
      obtain ⟨rfl, rfl⟩ := Prod.mk.inj (Option.some_inj.1 (hexec.symm.trans hfail))
      refine hkept.failed hkept.valid rfl ⟨err, rfl⟩ (iff_of_true ?_ ?_)
      · intro name hsome
        cases hname.symm.trans hsome
      · exact fun hauto => hauto.name_ne_none hname
    | some name =>
      have hread := hreads e (List.mem_append_right _ (List.mem_singleton_self _))
      obtain ⟨r', σ₁, hexec', hvalid, -, hcases⟩ := hS.start ho hkept.valid hnew hname
        fun definition hdefinition => hread definition hdefinition name
      obtain ⟨rfl, rfl⟩ := Prod.mk.inj (Option.some_inj.1 (hexec.symm.trans hexec'))
      rcases hcases with ⟨hrefuses, hfail, hnamed⟩ | ⟨hfree, hok, hnamed⟩
      · exact hkept.failed hvalid hnamed hfail (Start.clear_iff_of_refuses hname hrefuses)
      · exact hkept.succeeded hvalid rfl hnew hname hfree hok hnamed

/-- **When names identify instances** in a store that keeps its laws. -/
theorem Lawful.identified_iff (hS : S.Lawful Reads Valid) (hrun : S.Run h log σ)
    (hreads : ∀ e ∈ log, e.Readable Reads h) :
    Identified h log σ ↔ ∀ e ∈ log, e.Clear h := by
  have hkept := hrun.kept hS hreads
  constructor
  · exact fun hident => hkept.clear_iff.1 ⟨hident.succeeded, hident.sound⟩
  · intro hclear
    obtain ⟨hsucceeded, hsound⟩ := hkept.clear_iff.2 hclear
    exact ⟨hsucceeded, hsound, fun e he id name hok hname =>
      hS.finds hkept.valid hsound (hkept.stored e he id name hok hname)⟩

end Store

/-! ## Automatic names -/

/-- Two lists that end in an entry and others than it have the same parts. -/
theorem append_cons_inj {α : Type} {x : α} {l l' a b : List α} (ha : x ∉ a) (hb : x ∉ b)
    (heq : l ++ x :: a = l' ++ x :: b) : l = l' ∧ a = b := by
  rcases List.append_eq_append_iff.1 heq with ⟨c, rfl, hc⟩ | ⟨c, rfl, hc⟩
  · cases c with
    | nil => exact ⟨(List.append_nil l).symm, (List.cons.inj hc).2⟩
    | cons y c =>
      rw [(List.cons.inj hc).2] at ha
      exact absurd (List.mem_append_right c List.mem_cons_self) ha
  · cases c with
    | nil => exact ⟨List.append_nil l', (List.cons.inj hc).2.symm⟩
    | cons y c =>
      rw [(List.cons.inj hc).2] at hb
      exact absurd (List.mem_append_right c List.mem_cons_self) hb

/-- **An automatic name tells its definition and its number**, whatever the ids of definitions are:
the number has no hyphen. -/
theorem automaticName_inj {d c : String} {n m : Nat} (heq : s!"{d}-{n}" = s!"{c}-{m}") :
    d = c ∧ n = m := by
  have hdigits (k : Nat) : '-' ∉ Nat.toDigits 10 k := fun hmem => by
    simpa using Nat.isDigit_of_mem_toDigits (by decide) (by decide) hmem
  have hlist : d.toList ++ '-' :: Nat.toDigits 10 n = c.toList ++ '-' :: Nat.toDigits 10 m := by
    simpa [toString] using congrArg String.toList heq
  obtain ⟨hd, hn⟩ := append_cons_inj (hdigits n) (hdigits m) hlist
  refine ⟨String.toList_inj.1 hd, ?_⟩
  have hvalue := congrArg (fun cs => Nat.ofDigitChars 10 cs 0) hn
  simpa [Nat.ofDigitChars_toDigits] using hvalue

namespace Store

variable {Reads : WorkflowInstance → Prop} {Valid : S.State → Prop}

/-- The instances are those of automatic starts, and every number in a name has been drawn. -/
def Numbered (h : WorkflowHost) (log : List S.Start) (σ : S.State) : Prop :=
  ∀ x ∈ S.named σ, (∃ e ∈ log, e.ambient.uuid 0 = x.1 ∧ e.name h = some x.2) ∧
    ∃ definitionId n, x.2 = s!"{definitionId}-{n}" ∧ n ≤ S.sequence σ definitionId

theorem Start.name_eq_of_automatic {e : S.Start} {name : String} (hname : e.name h = some name)
    (hauto : e.request.nameOverride = none) :
    name = s!"{e.request.definitionId}-{S.sequence e.before e.request.definitionId + 1}" := by
  unfold Start.name StartRequest.assigned at hname
  split_ifs at hname
  rw [hauto] at hname
  exact (Option.some_inj.1 hname).symm

/-- The next automatic name of a definition is free, if UUIDs are no names. -/
theorem Numbered.clear {e : S.Start} (hnumbered : Numbered h log e.before)
    (hauto : e.request.nameOverride = none)
    (huuid : ∀ e₁ ∈ log ++ [e], ∀ e₂ ∈ log ++ [e], e₂.name h ≠ some (e₁.ambient.uuid 0)) :
    e.Clear h := by
  have hlast : e ∈ log ++ [e] := List.mem_append_right _ (List.mem_singleton_self e)
  intro name hname
  refine ⟨fun _ hmem => ?_, fun _ => ⟨fun hmem => ?_, fun hmem => ?_⟩⟩
  · obtain ⟨x, hx, rfl⟩ := List.mem_map.1 hmem
    obtain ⟨-, definitionId, n, hxname, hle⟩ := hnumbered x hx
    obtain ⟨rfl, rfl⟩ :=
      automaticName_inj (hxname.symm.trans (Start.name_eq_of_automatic hname hauto))
    omega
  · obtain ⟨x, hx, rfl⟩ := List.mem_map.1 hmem
    obtain ⟨⟨e₁, he₁, hid, -⟩, -⟩ := hnumbered x hx
    exact huuid e₁ (List.mem_append_left _ he₁) e hlast (hid ▸ hname)
  · obtain ⟨x, hx, hxname⟩ := List.mem_map.1 hmem
    obtain ⟨⟨e₁, he₁, -, hname₁⟩, -⟩ := hnumbered x hx
    exact huuid e hlast e₁ (List.mem_append_left _ he₁) (hxname ▸ hname₁)

/-- What was numbered before still is, once a start has drawn its number. -/
theorem Numbered.mono {e : S.Start} {σ σ' : S.State} (h' : Numbered h log σ)
    (hsequence : ∀ d, S.sequence σ d ≤ S.sequence σ' d) :
    ∀ x ∈ S.named σ, (∃ e' ∈ log ++ [e], e'.ambient.uuid 0 = x.1 ∧ e'.name h = some x.2) ∧
      ∃ definitionId n, x.2 = s!"{definitionId}-{n}" ∧ n ≤ S.sequence σ' definitionId := by
  intro x hx
  obtain ⟨⟨e₁, he₁, hid, hname⟩, definitionId, n, hxname, hle⟩ := h' x hx
  exact ⟨⟨e₁, List.mem_append_left _ he₁, hid, hname⟩, definitionId, n, hxname,
    Nat.le_trans hle (hsequence definitionId)⟩

/-- An automatic start draws the number of the name it gives. -/
theorem Numbered.start {σ σ' : S.State} {request : StartRequest} {o : Oracle}
    {r : Except WfeError String} (h' : Numbered h log σ) (hS : S.Lawful Reads Valid)
    (hvalid : Valid σ) (ho : o.failure = none) (hnew : S.New σ o.ambient)
    (hexec : execE (S.answer o) (request.program h) σ = some (r, σ'))
    (hread : Start.Readable Reads h ⟨request, σ, o.ambient, r⟩)
    (hauto : request.nameOverride = none) :
    Numbered h (log ++ [⟨request, σ, o.ambient, r⟩]) σ' := by
  let e : S.Start := ⟨request, σ, o.ambient, r⟩
  have hlast : e ∈ log ++ [e] := List.mem_append_right _ (List.mem_singleton_self e)
  cases hname : e.name h with
  | none =>
    obtain ⟨err, hfail⟩ := hS.start_none hnew hname
    obtain ⟨rfl, rfl⟩ := Prod.mk.inj (Option.some_inj.1 (hexec.symm.trans hfail))
    exact h'.mono fun d => Nat.le_refl _
  | some name =>
    obtain ⟨r', σ₁, hexec', -, hsequence, hcases⟩ := hS.start ho hvalid hnew hname
      fun definition hdefinition => hread definition hdefinition name
    obtain ⟨rfl, rfl⟩ := Prod.mk.inj (Option.some_inj.1 (hexec.symm.trans hexec'))
    rw [if_pos hauto] at hsequence
    have hmono (d : String) : S.sequence σ d ≤ S.sequence σ' d := by
      rw [hsequence]
      by_cases hd : d = request.definitionId
      · rw [hd, Function.update_self]
        exact Nat.le_succ _
      · exact Nat.le_of_eq (Function.update_of_ne hd _ _).symm
    rcases hcases with ⟨-, -, hnamed⟩ | ⟨-, -, hnamed⟩
    · -- The name was taken, and nothing is stored.
      unfold Numbered
      rw [hnamed]
      exact h'.mono hmono
    · intro x hx
      rw [hnamed] at hx
      rcases List.mem_append.1 hx with hx | hx
      · exact h'.mono hmono x hx
      · cases List.mem_singleton.1 hx
        refine ⟨⟨e, hlast, rfl, hname⟩, request.definitionId,
          S.sequence σ request.definitionId + 1, Start.name_eq_of_automatic hname hauto, ?_⟩
        have hself := congrFun hsequence request.definitionId
        rw [Function.update_self] at hself
        exact Nat.le_of_eq hself.symm

/-- **Automatic names alone identify instances**, if no UUID is one of them. -/
theorem Lawful.identified_of_automatic (hS : S.Lawful Reads Valid) (hrun : S.Run h log σ)
    (hreads : ∀ e ∈ log, e.Readable Reads h) (hauto : ∀ e ∈ log, e.request.nameOverride = none)
    (huuid : ∀ e₁ ∈ log, ∀ e₂ ∈ log, e₂.name h ≠ some (e₁.ambient.uuid 0)) :
    Identified h log σ := by
  refine (hS.identified_iff hrun hreads).2 ?_
  suffices hall : (∀ e ∈ log, e.Clear h) ∧ Numbered h log σ from hall.1
  induction hrun with
  | nil =>
    refine ⟨List.forall_mem_nil _, fun x hx => ?_⟩
    rw [hS.named_empty] at hx
    cases hx
  | @start log σ σ' request o r hrun ho hnew hexec ih =>
    let e : S.Start := ⟨request, σ, o.ambient, r⟩
    have hlast : e ∈ log ++ [e] := List.mem_append_right _ (List.mem_singleton_self e)
    have hreads₀ : ∀ e ∈ log, e.Readable Reads h := fun e he =>
      hreads e (List.mem_append_left _ he)
    obtain ⟨hclear, hnumbered⟩ := ih hreads₀ (fun e he => hauto e (List.mem_append_left _ he))
      fun e₁ he₁ e₂ he₂ => huuid e₁ (List.mem_append_left _ he₁) e₂ (List.mem_append_left _ he₂)
    have hvalid := (hrun.kept hS hreads₀).valid
    -- The names so far are numbered, so the next one is free, and numbered again.
    refine ⟨List.forall_mem_append.2 ⟨hclear, List.forall_mem_singleton.2
      (Numbered.clear (e := e) hnumbered (hauto e hlast) huuid)⟩, ?_⟩
    exact hnumbered.start hS hvalid ho hnew hexec (hreads e hlast) (hauto e hlast)

end Store

/-! ## The two stores -/

/-- The persistence providers. -/
inductive Backend
  | inMemory
  | sqlite (T : Sqlite.Texts)

def Backend.store : Backend → Store
  | inMemory => Wfe.inMemory
  | sqlite T => Wfe.sqlite T

/-- The instances a provider can read back: in SQLite, their data and times have texts that can be
parsed. -/
def Backend.Reads : Backend → WorkflowInstance → Prop
  | inMemory, _ => True
  | sqlite T, w => Sqlite.Fits w ∧ Sqlite.Readable T w

theorem Backend.lawful (backend : Backend) : ∃ Valid, backend.store.Lawful backend.Reads Valid := by
  cases backend with
  | inMemory => exact ⟨_, inMemory_lawful⟩
  | sqlite T => exact ⟨_, sqlite_lawful T⟩

/-- **Names identify instances, in memory and in SQLite, exactly in the runs in which every start
finds its name free.** -/
theorem names_identify_iff (backend : Backend) (h : WorkflowHost) (log : List backend.store.Start)
    (σ : backend.store.State) (hrun : backend.store.Run h log σ)
    (hreads : ∀ e ∈ log, e.Readable backend.Reads h) :
    Identified h log σ ↔ ∀ e ∈ log, e.Clear h := by
  obtain ⟨Valid, hlawful⟩ := backend.lawful
  exact hlawful.identified_iff hrun hreads

/-! ## A name that is chosen too early -/

/-- A host with one definition. -/
def ciHost : WorkflowHost := ⟨[WorkflowDefinition.new "ci" 1], [], none⟩

/-- The UUID `id` is drawn. -/
def drawing (id : String) : Oracle := { ambient := ⟨0, fun _ => id⟩ }

/-- A caller chooses the name that the first automatic start will get. -/
def chosenThenAutomatic : List StartRequest :=
  [.startWithName "ci" 1 (.object []) (some "ci-1"), .start "ci" 1 (.object [])]

theorem run_chosenThenAutomatic : ∃ (log : List inMemory.Start) (σ : inMemory.State),
    inMemory.Run ciHost log σ ∧ log.map Store.Start.request = chosenThenAutomatic ∧
      inMemory.named σ = [("a", "ci-1"), ("b", "ci-1")] := by
  have hfirst : inMemory.New inMemory.empty (drawing "a").ambient :=
    ⟨by decide, by decide, nofun⟩
  refine ⟨_, _, .start (o := drawing "b") (.start (o := drawing "a") .nil rfl hfirst rfl) rfl
    ⟨by decide, ?_, nofun⟩ rfl, rfl, ?_⟩
  · decide
  · decide

theorem names_identify_iff_chosenThenAutomatic :
    ∃ (log : List Backend.inMemory.store.Start) (σ : Backend.inMemory.store.State),
      log.map Store.Start.request = chosenThenAutomatic ∧
        (Identified ciHost log σ ↔ ∀ e ∈ log, e.Clear ciHost) := by
  obtain ⟨log, σ, hrun, hrequests, -⟩ := run_chosenThenAutomatic
  exact ⟨log, σ, hrequests, names_identify_iff .inMemory ciHost log σ hrun
    fun _ _ _ _ _ => trivial⟩

/-- Two instances have one name. -/
theorem chosenThenAutomatic_not_identified :
    ∃ (log : List inMemory.Start) (σ : inMemory.State), inMemory.Run ciHost log σ ∧
      log.map Store.Start.request = chosenThenAutomatic ∧ ¬Identified ciHost log σ := by
  obtain ⟨log, σ, hrun, hrequests, hnamed⟩ := run_chosenThenAutomatic
  refine ⟨log, σ, hrun, hrequests, fun hident => ?_⟩
  have hnames := hident.sound.names
  rw [hnamed] at hnames
  exact absurd hnames (by decide)

end Wfe
