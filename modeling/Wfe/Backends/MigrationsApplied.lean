import Wfe.Backends.MigrationNodes

/-!
# Migrations are applied once and in order

However nodes interleave, whatever fails and whichever connections go down, a schema holds the first
migrations, each applied once, in order and with the same prefix. A node that reports success has
its own migrations in the schema, applied with its own prefix.

## Main definitions

* `Linked`: what a node knows is true of the server
* `Sound`: the invariant of all nodes

## Main results

* `Linked.answer`: the effects of one statement
* `Sound.step`: what one statement keeps
* `migrations_applied`: the state of the schemas in every run
-/

namespace Wfe.Migrations

open Program

variable {S : Type} (digest : String → List UInt8) (migrations : List Migration)

/-! ## What the server does -/

/-- The rows of a schema, as the code reads them. -/
def Schema.pairs (σ : Schema S) : List (Int × List UInt8) := σ.listed.map Row.pair

namespace World

variable {exec : String → S → Option S} {w w' : World S} {t : ℕ} {s : Session} {c : Statement}
  {r : Except String c.Answer}

/-- The schemas hold what they held. -/
def Same (w w' : World S) : Prop :=
  ∀ p, (w'.schemas p).listed = (w.schemas p).listed ∧ (w'.schemas p).store = (w.schemas p).store

theorem Same.refl (w : World S) : Same w w := fun _ => ⟨rfl, rfl⟩

theorem Same.of_eq (h : w'.schemas = w.schemas) : Same w w' := by
  intro p
  rw [h]
  exact ⟨rfl, rfl⟩

/-- The connections of the other nodes are as they were, and so is a lock that they hold. -/
structure Frame (t : ℕ) (w w' : World S) : Prop where
  sessions : ∀ u, u ≠ t → w'.sessions u = w.sessions u
  holder : ∀ u, u ≠ t → w.holder = some u → w'.holder = some u

theorem Frame.trans {w'' : World S} (h : Frame t w w') (h' : Frame t w' w'') : Frame t w w'' where
  sessions u hu := (h'.sessions u hu).trans (h.sessions u hu)
  holder u hu hw := h'.holder u hu (h.holder u hu hw)

theorem frame_of_eq (hsessions : ∀ u, u ≠ t → w'.sessions u = w.sessions u)
    (hholder : w'.holder = w.holder) : Frame t w w' :=
  ⟨hsessions, fun _ _ h => hholder.trans h⟩

theorem frame_setSession (o : Option Session) : Frame t w (w.setSession t o) :=
  frame_of_eq (fun _ hu => Function.update_of_ne hu ..) rfl

theorem frame_free :
    Frame t w { w with holder := if w.holder = some t then none else w.holder } where
  sessions _ _ := rfl
  holder u hu h := by
    have hne : w.holder ≠ some t := by
      rw [h, Ne, Option.some_inj]
      exact hu
    exact (if_neg hne).trans h

theorem frame_drop : Frame t w (w.drop t) :=
  (frame_setSession none).trans frame_free

theorem frame_abort : Frame t w (w.abort t s) := by
  unfold abort
  split
  · exact frame_of_eq (fun _ _ => rfl) rfl
  · exact frame_setSession _

theorem frame_connect : Frame t w (w.connect t c) := by
  unfold connect
  split_ifs
  · exact frame_setSession _
  · exact frame_of_eq (fun _ _ => rfl) rfl

theorem frame_runWrite {write : Write} : Frame t w (w.runWrite exec t s write).2 := by
  unfold runWrite
  split
  · split
    · exact frame_of_eq (fun _ _ => rfl) rfl
    · exact frame_of_eq (fun _ _ => rfl) rfl
  · exact frame_of_eq (fun _ _ => rfl) rfl
  · split
    · exact frame_abort
    · exact frame_setSession _

theorem frame_commit : Frame t w (w.commit exec t s).2 := by
  unfold commit
  dsimp only
  split
  · exact frame_setSession _
  · exact frame_setSession _
  · split
    · exact frame_setSession _
    · exact frame_of_eq (fun _ hu => Function.update_of_ne hu ..) rfl

theorem frame_execute (h : w.execute exec t s c = some (r, w')) : Frame t w w' := by
  cases c with
  | createSchema schema =>
    cases h
    exact frame_of_eq (fun _ _ => rfl) rfl
  | acquire =>
    cases h
    exact frame_of_eq (fun _ _ => rfl) rfl
  | showSearchPath =>
    cases h
    exact frame_of_eq (fun _ _ => rfl) rfl
  | setSearchPath path =>
    cases h
    exact frame_setSession _
  | sqlxMigrate =>
    cases h
    exact frame_of_eq (fun _ _ => rfl) rfl
  | advisoryLock =>
    simp only [execute] at h
    split_ifs at h with hfree
    cases h
    refine ⟨fun _ _ => rfl, fun u hu hw => ?_⟩
    -- A lock that another node holds is waited for.
    rcases hfree with hnone | hown
    · rw [hnone] at hw
      cases hw
    · rw [hown, Option.some_inj] at hw
      exact absurd hw.symm hu
  | advisoryUnlock =>
    cases h
    exact frame_free
  | createTrackingTable =>
    cases h
    exact frame_of_eq (fun _ _ => rfl) rfl
  | selectDirty =>
    cases h
    exact frame_of_eq (fun _ _ => rfl) rfl
  | selectApplied =>
    cases h
    exact frame_of_eq (fun _ _ => rfl) rfl
  | begin =>
    simp only [execute] at h
    split at h
    · cases h
      exact frame_setSession _
    · cases h
      exact frame_of_eq (fun _ _ => rfl) rfl
  | execute sql =>
    obtain ⟨rfl, rfl⟩ := Prod.mk.inj (Option.some_inj.1 h)
    exact frame_runWrite
  | insertRow row =>
    obtain ⟨rfl, rfl⟩ := Prod.mk.inj (Option.some_inj.1 h)
    exact frame_runWrite
  | commit =>
    obtain ⟨rfl, rfl⟩ := Prod.mk.inj (Option.some_inj.1 h)
    exact frame_commit
  | rollback =>
    cases h
    exact frame_setSession _

theorem frame_executeIn (h : w.executeIn exec t s c = some (r, w')) : Frame t w w' := by
  unfold executeIn at h
  split_ifs at h
  · cases h
    exact frame_of_eq (fun _ _ => rfl) rfl
  · exact frame_execute h

theorem frame_attempt {fault : Fault} (h : w.attempt exec t fault c = some (r, w')) :
    Frame t w w' := by
  unfold attempt at h
  split at h
  · cases h
    exact frame_of_eq (fun _ _ => rfl) rfl
  · split at h
    · exact frame_executeIn h
    · split_ifs at h
      cases h
      exact frame_abort
    · cases h
      exact frame_drop
    · obtain ⟨⟨r', w''⟩, h', heq⟩ := Option.map_eq_some_iff.1 h
      cases heq
      exact (frame_executeIn h').trans frame_drop

/-! ### What is written -/

theorem pairs_write {σ σ' : Schema S} {write : Write} (h : σ.write exec write = some σ') :
    σ'.pairs = σ.pairs ++ (write.row?.toList).map Row.pair := by
  cases write with
  | script sql =>
    obtain ⟨store, -, rfl⟩ := Option.map_eq_some_iff.1 h
    exact (List.append_nil _).symm
  | insert row =>
    simp only [Schema.write] at h
    split at h
    · cases h
    · next rows htracking =>
      split_ifs at h
      cases h
      simp [Schema.pairs, Schema.listed, htracking, Write.row?]

theorem pairs_writeAll {σ σ' : Schema S} {ws : List Write} (h : σ.writeAll exec ws = some σ') :
    σ'.pairs = σ.pairs ++ (ws.filterMap Write.row?).map Row.pair := by
  induction ws generalizing σ with
  | nil =>
    cases h
    simp
  | cons write ws ih =>
    simp only [Schema.writeAll, List.foldlM_cons] at h
    obtain ⟨σ₁, hwrite, hrest⟩ := Option.bind_eq_some_iff.1 h
    rw [ih hrest, pairs_write hwrite, List.append_assoc, ← List.map_append]
    congr 2
    cases hrow : write.row? <;> simp [hrow]

/-- A transaction has been committed: its writes have been made. -/
def Committed (exec : String → S → Option S) (w w' : World S) (t : ℕ) (ws : List Write) : Prop :=
  ∃ s σ, w.sessions t = some s ∧ s.transaction = some (some ws) ∧
    (w.schemas s.path).writeAll exec ws = some σ ∧
    w'.schemas = Function.update w.schemas s.path σ

theorem same_abort : Same w (w.abort t s) := by
  unfold abort
  split <;> exact .of_eq rfl

theorem same_runWrite {write : Write} (hs : s.transaction ≠ none) :
    Same w (w.runWrite exec t s write).2 := by
  unfold runWrite
  split
  · next hnone => exact absurd hnone hs
  · exact .refl w
  · split
    · exact same_abort
    · exact .of_eq rfl

theorem same_createTrackingTable : Same w { w with
    schemas := Function.update w.schemas s.path
      ⟨some ((w.schemas s.path).tracking.getD []), (w.schemas s.path).store⟩ } := by
  intro p
  by_cases hp : p = s.path
  · subst hp
    simp [Schema.listed]
  · simp [Function.update_of_ne hp]

end World

/-! ## What a node knows is true -/

/-- The transaction of a node is that of its connection. -/
def Transaction.Of : Transaction → Option (Option (List Write)) → Prop
  | closed, o => o = none
  | opened ws, o => o = some (some ws)
  | failed, o => ∀ ws, o ≠ some (some ws)

/-- As long as its connection lives, a node that has the lock holds it, its search path and its
transaction are as it knows, and its schema lists what it knows; and what it has known of a schema
stays listed. -/
structure Linked (w : World S) (t : ℕ) (g : Progress) : Prop where
  holder : ∀ s, w.sessions t = some s → g.locked = true → w.holder = some t
  path : ∀ s, w.sessions t = some s → ∀ p, g.path = some p → s.path = p
  transaction : ∀ s, w.sessions t = some s → g.transaction.Of s.transaction
  listed : ∀ p pairs, g.table = some (p, pairs) → pairs <+: (w.schemas p).pairs
  current : ∀ s, w.sessions t = some s → g.locked = true → ∀ p pairs,
    g.table = some (p, pairs) → (w.schemas p).pairs = pairs

section Linked

open World

variable {digest : String → List UInt8} {migrations : List Migration} {prefixes : Set String}
  {exec : String → S → Option S} {w w' : World S} {t u : ℕ} {s : Session} {c : Statement}
  {r : Except String c.Answer} {g : Progress}

/-- Rows are only added. -/
def Grows (w w' : World S) : Prop := ∀ p, (w.schemas p).pairs <+: (w'.schemas p).pairs

theorem World.Same.pairs (h : Same w w') (p : String) :
    (w'.schemas p).pairs = (w.schemas p).pairs := by
  rw [Schema.pairs, (h p).1, Schema.pairs]

theorem World.Same.grows (h : Same w w') : Grows w w' := by
  intro p
  simp only [h.pairs p, List.prefix_rfl]

theorem World.Committed.grows {ws : List Write} (h : Committed exec w w' t ws) : Grows w w' := by
  obtain ⟨s, σ, -, -, hσ, hschemas⟩ := h
  intro p
  rw [hschemas]
  by_cases hp : p = s.path
  · subst hp
    rw [Function.update_self, pairs_writeAll hσ]
    exact List.prefix_append _ _
  · simp only [Function.update_of_ne hp, List.prefix_rfl]

/-- A node that another one's statement does not concern. -/
theorem Linked.frame (h : Linked w u g) (hframe : Frame t w w') (hut : u ≠ t)
    (hgrows : Grows w w') (hcurrent : w.holder = some u → Same w w') : Linked w' u g where
  holder s hs hlocked := by
    rw [hframe.sessions u hut] at hs
    exact hframe.holder u hut (h.holder s hs hlocked)
  path s hs := by
    rw [hframe.sessions u hut] at hs
    exact h.path s hs
  transaction s hs := by
    rw [hframe.sessions u hut] at hs
    exact h.transaction s hs
  listed p pairs htable := (h.listed p pairs htable).trans (hgrows p)
  current s hs hlocked p pairs htable := by
    rw [hframe.sessions u hut] at hs
    rw [(hcurrent (h.holder s hs hlocked)).pairs p]
    exact h.current s hs hlocked p pairs htable

/-- A node learns nothing about its schema from an error. -/
theorem table_next_error (e : String) :
    ((monitor digest migrations prefixes).next g c (.error e)).table = g.table := by
  cases c <;> rfl

/-- A node whose connection has gone down. -/
theorem Linked.gone (h : Linked w t g) (e : String) (hgone : w'.sessions t = none)
    (hgrows : Grows w w') :
    Linked w' t ((monitor digest migrations prefixes).next g c (.error e)) where
  holder s hs := by
    rw [hgone] at hs
    cases hs
  path s hs := by
    rw [hgone] at hs
    cases hs
  transaction s hs := by
    rw [hgone] at hs
    cases hs
  listed p pairs htable := by
    rw [table_next_error] at htable
    exact (h.listed p pairs htable).trans (hgrows p)
  current s hs := by
    rw [hgone] at hs
    cases hs

/-- Statements that end a transaction, or are part of one. -/
def Statement.inTransaction : Statement → Bool
  | execute _ | insertRow _ | commit | rollback => true
  | _ => false

theorem closed_of_accept (haccept : (monitor digest migrations prefixes).accept g c)
    (hc : c.inTransaction = false) : g.transaction = .closed := by
  cases c with
  | execute sql => cases hc
  | insertRow row => cases hc
  | commit => cases hc
  | rollback => cases hc
  | acquire => exact haccept.1
  | selectApplied => exact haccept.1
  | _ => exact haccept

theorem opened_of_accept (haccept : (monitor digest migrations prefixes).accept g c)
    (hc : c.inTransaction = true) (hrollback : c ≠ .rollback) :
    ∃ ws, g.transaction = .opened ws := by
  cases c with
  | execute sql =>
    obtain ⟨ws, rest, h, -⟩ := haccept
    exact ⟨ws, h⟩
  | insertRow row =>
    obtain ⟨ws, rest, h, -⟩ := haccept
    exact ⟨ws, h⟩
  | commit =>
    obtain ⟨ws, h, -⟩ := haccept
    exact ⟨ws, h⟩
  | rollback => exact absurd rfl hrollback
  | _ => cases hc

/-- Only the transaction and what follows from the statement itself change in what a node knows. -/
theorem next_error_cases (digest : String → List UInt8) (migrations : List Migration)
    (g : Progress) (c : Statement) (e : String) :
    let g' := (monitor digest migrations prefixes).next g c (.error e)
    (g'.locked = true → g.locked = true) ∧ (∀ p, g'.path = some p → g.path = some p) ∧
      (c.inTransaction = false → g'.transaction = g.transaction) ∧
      (c.inTransaction = true → c ≠ .rollback → g'.transaction = .failed) := by
  cases c with
  | advisoryUnlock => exact ⟨nofun, fun _ => id, fun _ => rfl, nofun⟩
  | setSearchPath path => exact ⟨id, nofun, fun _ => rfl, nofun⟩
  | rollback => exact ⟨id, fun _ => id, nofun, fun _ h => absurd rfl h⟩
  | execute sql => exact ⟨id, fun _ => id, nofun, fun _ _ => rfl⟩
  | insertRow row => exact ⟨id, fun _ => id, nofun, fun _ _ => rfl⟩
  | commit => exact ⟨id, fun _ => id, nofun, fun _ _ => rfl⟩
  | _ => exact ⟨id, fun _ => id, fun _ => rfl, nofun⟩

/-- A node that has got an error, with its connection as it was but for the transaction. -/
theorem Linked.failed (h : Linked w t g) (e : String) (hs : w.sessions t = some s)
    {o : Option (Option (List Write))} (hsession : w'.sessions t = some ⟨s.path, o⟩)
    (hholder : w'.holder = w.holder) (hsame : Same w w')
    (ho : ((monitor digest migrations prefixes).next g c (.error e)).transaction.Of o) :
    Linked w' t ((monitor digest migrations prefixes).next g c (.error e)) := by
  obtain ⟨hlocked, hpath, -⟩ := next_error_cases digest migrations g c e
  constructor
  · intro s' _ hl
    rw [hholder]
    exact h.holder s hs (hlocked hl)
  · intro s' hs' p hp
    rw [hsession, Option.some_inj] at hs'
    rw [← hs']
    exact h.path s hs p (hpath p hp)
  · intro s' hs'
    rw [hsession, Option.some_inj] at hs'
    rw [← hs']
    exact ho
  · intro p pairs htable
    rw [table_next_error] at htable
    rw [hsame.pairs p]
    exact h.listed p pairs htable
  · intro s' _ hl p pairs htable
    rw [table_next_error] at htable
    rw [hsame.pairs p]
    exact h.current s hs (hlocked hl) p pairs htable

/-- An error of the server aborts the transaction. -/
theorem Linked.abort (h : Linked w t g) (e : String) (hs : w.sessions t = some s)
    (haccept : (monitor digest migrations prefixes).accept g c) (hrollback : c ≠ .rollback) :
    Linked (w.abort t s) t ((monitor digest migrations prefixes).next g c (.error e)) := by
  obtain ⟨-, -, hsame, hfailed⟩ := next_error_cases digest migrations g c e
  have hof := h.transaction s hs
  cases hc : c.inTransaction with
  | false =>
    have hclosed := closed_of_accept haccept hc
    rw [hclosed] at hof
    have hw : w.abort t s = w := by
      rw [World.abort, (hof : s.transaction = none)]
    rw [hw]
    refine h.failed e hs (o := s.transaction) hs rfl (.refl w) ?_
    rw [hsame hc, hclosed]
    exact hof
  | true =>
    obtain ⟨ws, hopened⟩ := opened_of_accept haccept hc hrollback
    rw [hopened] at hof
    have hw : w.abort t s = w.setSession t (some ⟨s.path, some none⟩) := by
      rw [World.abort, (hof : s.transaction = some (some ws))]
    rw [hw]
    refine h.failed e hs (o := some none) (Function.update_self ..) rfl (.of_eq rfl) ?_
    rw [hfailed hc hrollback]
    exact fun _ => nofun

/-- A node whose statement leaves its path, its transaction and its schema alone. -/
theorem Linked.keep (h : Linked w t g) (hsessions : w'.sessions = w.sessions)
    (hholder : g.locked = true → w'.holder = w.holder) (hsame : Same w w') : Linked w' t g where
  holder s hs hlocked := by
    rw [hsessions] at hs
    exact (hholder hlocked).trans (h.holder s hs hlocked)
  path s hs := by
    rw [hsessions] at hs
    exact h.path s hs
  transaction s hs := by
    rw [hsessions] at hs
    exact h.transaction s hs
  listed p pairs htable := by
    rw [hsame.pairs p]
    exact h.listed p pairs htable
  current s hs hlocked p pairs htable := by
    rw [hsessions] at hs
    rw [hsame.pairs p]
    exact h.current s hs hlocked p pairs htable

/-- A node whose statement changes its connection. -/
theorem Linked.session {g' : Progress} (h : Linked w t g) (hs : w.sessions t = some s)
    {s' : Session} (hsession : w'.sessions t = some s') (hholder : w'.holder = w.holder)
    (hsame : Same w w') (hlocked : g'.locked = g.locked) (htable : g'.table = g.table)
    (hpath : ∀ p, g'.path = some p → s'.path = p)
    (htransaction : g'.transaction.Of s'.transaction) :
    Linked w' t g' where
  holder _ _ hl := by
    rw [hholder]
    exact h.holder s hs (hlocked ▸ hl)
  path s'' hs'' := by
    rw [hsession, Option.some_inj] at hs''
    exact hs'' ▸ hpath
  transaction s'' hs'' := by
    rw [hsession, Option.some_inj] at hs''
    exact hs'' ▸ htransaction
  listed p pairs ht := by
    rw [hsame.pairs p]
    exact h.listed p pairs (htable ▸ ht)
  current _ _ hl p pairs ht := by
    rw [hsame.pairs p]
    exact h.current s hs (hlocked ▸ hl) p pairs (htable ▸ ht)

/-- A write in a transaction. -/
theorem Linked.runWrite (exec : String → S → Option S) (write : Write) {ws : List Write}
    (h : Linked w t g) (hs : w.sessions t = some s) (hopened : g.transaction = .opened ws) :
    (∃ e, w.runWrite exec t s write =
        (.error e, w.setSession t (some ⟨s.path, some none⟩))) ∨
      (w.runWrite exec t s write).1 = .ok () ∧
        Linked (w.runWrite exec t s write).2 t
          { g with transaction := .opened (ws ++ [write]) } := by
  have hof := h.transaction s hs
  rw [hopened] at hof
  have hs' : s.transaction = some (some ws) := hof
  have hsame : Same w (w.runWrite exec t s write).2 := same_runWrite (by rw [hs']; nofun)
  unfold World.runWrite at hsame ⊢
  rw [hs'] at hsame ⊢
  dsimp only at hsame ⊢
  cases hwrites : (w.schemas s.path).writeAll exec (ws ++ [write]) with
  | none =>
    refine .inl ⟨"statement failed", ?_⟩
    rw [World.abort, hs']
  | some σ =>
    rw [hwrites] at hsame
    exact .inr ⟨rfl, h.session hs (Function.update_self ..) rfl hsame rfl rfl
      (h.path s hs) rfl⟩

/-- A commit that goes through adds the rows to what is known. -/
theorem Linked.commit {ws : List Write} {r : Except String Unit} (h : Linked w t g)
    (hs : w.sessions t = some s) (hopened : g.transaction = .opened ws)
    (hnext : g.Next digest migrations prefixes ws) (hexec : w.commit exec t s = (r, w')) :
    Linked w' t ((monitor digest migrations prefixes).next g .commit r) ∧
      (Same w w' ∨ Committed exec w w' t ws) := by
  have hof := h.transaction s hs
  rw [hopened] at hof
  have hs' : s.transaction = some (some ws) := hof
  obtain ⟨hlocked, path, pre, -, k, m, -, hpath, htable, -⟩ := hnext
  have hspath := h.path s hs path hpath
  unfold World.commit at hexec
  rw [hs'] at hexec
  dsimp only at hexec
  cases hwrites : (w.schemas s.path).writeAll exec ws with
  | none =>
    rw [hwrites] at hexec
    obtain ⟨rfl, rfl⟩ := Prod.mk.inj hexec
    exact ⟨h.failed _ hs (o := none) (Function.update_self ..) rfl (.of_eq rfl) (fun _ => nofun),
      .inl (.of_eq rfl)⟩
  | some σ =>
    rw [hwrites] at hexec
    obtain ⟨rfl, rfl⟩ := Prod.mk.inj hexec
    refine ⟨?_, .inr ⟨s, σ, hs, hs', hwrites, rfl⟩⟩
    have hpairs : (Function.update w.schemas s.path σ path).pairs =
        ((ups migrations).take k).map (Migration.pair digest pre) ++
          (ws.filterMap Write.row?).map Row.pair := by
      rw [← hspath, Function.update_self, pairs_writeAll hwrites, hspath,
        h.current s hs hlocked path _ htable]
    simp only [monitor, hopened, htable, Option.map_some]
    constructor
    · intro s' _ _
      exact h.holder s hs hlocked
    · intro s' hs'' p hp
      change Function.update w.sessions t (some ⟨s.path, none⟩) t = some s' at hs''
      rw [Function.update_self, Option.some_inj] at hs''
      exact hs'' ▸ h.path s hs p hp
    · intro s' hs''
      change Function.update w.sessions t (some ⟨s.path, none⟩) t = some s' at hs''
      rw [Function.update_self, Option.some_inj] at hs''
      exact hs'' ▸ rfl
    · intro p pairs ht
      obtain ⟨rfl, rfl⟩ := Prod.mk.inj (Option.some_inj.1 ht)
      simp only [hpairs, List.prefix_rfl]
    · intro s' _ _ p pairs ht
      obtain ⟨rfl, rfl⟩ := Prod.mk.inj (Option.some_inj.1 ht)
      exact hpairs

/-- What has become of the schemas after a statement that `g` admits. -/
def Effect (digest : String → List UInt8) (migrations : List Migration) (prefixes : Set String)
    (exec : String → S → Option S) (w w' : World S) (t : ℕ) (g : Progress) : Prop :=
  Same w w' ∨ ∃ ws, g.Next digest migrations prefixes ws ∧ Committed exec w w' t ws

theorem Effect.grows (h : Effect digest migrations prefixes exec w w' t g) : Grows w w' := by
  rcases h with h | ⟨ws, -, h⟩
  · exact h.grows
  · exact h.grows

/-- A write that has been done, or has failed. -/
theorem Linked.write {write : Write} {ws : List Write} {r : Except String Unit}
    (next : Except String Unit → Progress) (h : Linked w t g) (hs : w.sessions t = some s)
    (hopened : g.transaction = .opened ws) (hexec : w.runWrite exec t s write = (r, w'))
    (herror : ∀ e, next (.error e) = { g with transaction := .failed })
    (hok : next (.ok ()) = { g with transaction := .opened (ws ++ [write]) }) :
    Linked w' t (next r) ∧ Effect digest migrations prefixes exec w w' t g := by
  have hof := h.transaction s hs
  rw [hopened] at hof
  have hsame : Same w (w.runWrite exec t s write).2 :=
    same_runWrite (by rw [(hof : s.transaction = some (some ws))]; nofun)
  rw [hexec] at hsame
  refine ⟨?_, .inl hsame⟩
  rcases h.runWrite exec write hs hopened with ⟨e, heq⟩ | ⟨hr, hlinked⟩
  · rw [hexec] at heq
    obtain ⟨rfl, rfl⟩ := Prod.mk.inj heq
    rw [herror]
    exact h.session hs (Function.update_self ..) rfl hsame rfl rfl (h.path s hs) fun _ => nofun
  · rw [hexec] at hr hlinked
    obtain rfl : r = .ok () := hr
    rw [hok]
    exact hlinked

/-- The rows of a tracking table are listed by version. -/
def Ordered (w : World S) : Prop :=
  ∀ p, (w.schemas p).listed.Pairwise fun a b => a.version ≤ b.version

theorem Ordered.rows_eq (h : Ordered w) {rows : List Row} (hrows : w.rows s = .ok rows) :
    rows = (w.schemas s.path).listed := by
  have hordered := h s.path
  unfold World.rows at hrows
  cases htracking : (w.schemas s.path).tracking with
  | none =>
    rw [htracking] at hrows
    cases hrows
  | some listed =>
    rw [htracking] at hrows
    rw [Schema.listed, htracking] at hordered ⊢
    obtain rfl := Except.ok.inj hrows
    exact List.Pairwise.insertionSort_eq hordered

/-- A statement that the server executes. -/
theorem Linked.execute (hordered : Ordered w) (h : Linked w t g) (hs : w.sessions t = some s)
    (haccept : (monitor digest migrations prefixes).accept g c)
    (hexec : w.execute exec t s c = some (r, w')) :
    Linked w' t ((monitor digest migrations prefixes).next g c r) ∧
      Effect digest migrations prefixes exec w w' t g := by
  have hof := h.transaction s hs
  cases c with
  | createSchema schema =>
    cases hexec
    exact ⟨h, .inl (.refl w)⟩
  | acquire =>
    cases hexec
    exact ⟨h, .inl (.refl w)⟩
  | showSearchPath =>
    cases hexec
    exact ⟨h, .inl (.refl w)⟩
  | setSearchPath path =>
    cases hexec
    refine ⟨h.session hs (Function.update_self ..) rfl (.of_eq rfl) rfl rfl ?_ hof,
      .inl (.of_eq rfl)⟩
    exact fun p hp => Option.some_inj.1 hp
  | sqlxMigrate =>
    cases hexec
    exact ⟨h, .inl (.refl w)⟩
  | advisoryLock =>
    simp only [World.execute] at hexec
    split_ifs at hexec
    cases hexec
    exact ⟨⟨fun _ _ _ => rfl, h.path, h.transaction, nofun, nofun⟩, .inl (.of_eq rfl)⟩
  | advisoryUnlock =>
    cases hexec
    exact ⟨⟨nofun, h.path, h.transaction, h.listed, nofun⟩, .inl (.of_eq rfl)⟩
  | createTrackingTable =>
    cases hexec
    exact ⟨h.keep rfl (fun _ => rfl) same_createTrackingTable, .inl same_createTrackingTable⟩
  | selectDirty =>
    cases hexec
    refine ⟨?_, .inl (.refl w)⟩
    cases w.rows s <;> exact h
  | selectApplied =>
    cases hexec
    refine ⟨?_, .inl (.refl w)⟩
    cases hrows : w.rows s with
    | error e => exact h
    | ok rows =>
      -- What is read is what the schema lists.
      have hpairs : (rows.map fun r => (r.version, r.checksum)) = (w.schemas s.path).pairs := by
        rw [hordered.rows_eq hrows]
        rfl
      have htable {p : String} {pairs : List (Int × List UInt8)}
          (ht : (g.path.map fun path => (path, rows.map fun r => (r.version, r.checksum))) =
            some (p, pairs)) : (w.schemas p).pairs = pairs := by
        obtain ⟨path, hpath, heq⟩ := Option.map_eq_some_iff.1 ht
        obtain ⟨rfl, rfl⟩ := Prod.mk.inj heq
        rw [hpairs, h.path s hs path hpath]
      refine ⟨h.holder, h.path, h.transaction, fun p pairs ht => ?_, fun _ _ _ p pairs ht => ?_⟩
      · simp only [htable ht, List.prefix_rfl]
      · exact htable ht
  | begin =>
    have hclosed : s.transaction = none := by
      rw [(haccept : g.transaction = .closed)] at hof
      exact hof
    simp only [World.execute, hclosed] at hexec
    cases hexec
    exact ⟨h.session hs (Function.update_self ..) rfl (.of_eq rfl) rfl rfl (h.path s hs) rfl,
      .inl (.of_eq rfl)⟩
  | execute sql =>
    obtain ⟨ws, rest, hopened, -⟩ := haccept
    exact Linked.write ((monitor digest migrations prefixes).next g (.execute sql)) h hs hopened
      (Option.some_inj.1 hexec) (fun _ => rfl) (by simp [monitor, hopened])
  | insertRow row =>
    obtain ⟨ws, rest, hopened, -⟩ := haccept
    exact Linked.write ((monitor digest migrations prefixes).next g (.insertRow row)) h hs hopened
      (Option.some_inj.1 hexec) (fun _ => rfl) (by simp [monitor, hopened])
  | commit =>
    obtain ⟨ws, hopened, hnext⟩ := haccept
    obtain ⟨hlinked, heffect⟩ := h.commit hs hopened hnext (Option.some_inj.1 hexec)
    exact ⟨hlinked, heffect.imp_right fun hc => ⟨ws, hnext, hc⟩⟩
  | rollback =>
    cases hexec
    exact ⟨h.session hs (Function.update_self ..) rfl (.of_eq rfl) rfl rfl (h.path s hs) rfl,
      .inl (.of_eq rfl)⟩

theorem World.same_drop (w : World S) (t : ℕ) : Same w (w.drop t) := .of_eq rfl

theorem Effect.drop (h : Effect digest migrations prefixes exec w w' t g) :
    Effect digest migrations prefixes exec w (w'.drop t) t g := by
  rcases h with h | ⟨ws, hnext, h⟩
  · exact .inl h
  · exact .inr ⟨ws, hnext, h⟩

/-- A transaction that the server has aborted is not used any more. -/
theorem executeIn_eq (h : Linked w t g) (hs : w.sessions t = some s)
    (haccept : (monitor digest migrations prefixes).accept g c) :
    w.executeIn exec t s c = w.execute exec t s c := by
  refine if_neg ?_
  rintro ⟨haborted, hcommit, hrollback⟩
  have hof := h.transaction s hs
  cases hc : c.inTransaction with
  | false =>
    rw [closed_of_accept haccept hc, haborted] at hof
    cases hof
  | true =>
    obtain ⟨ws, hopened⟩ := opened_of_accept haccept hc hrollback
    rw [hopened, haborted] at hof
    cases hof

/-- A statement on a connection, whatever becomes of it. -/
theorem Linked.attempt {fault : Fault} (hordered : Ordered w) (h : Linked w t g)
    (haccept : (monitor digest migrations prefixes).accept g c)
    (hexec : w.attempt exec t fault c = some (r, w')) :
    Linked w' t ((monitor digest migrations prefixes).next g c r) ∧
      Effect digest migrations prefixes exec w w' t g := by
  unfold World.attempt at hexec
  split at hexec
  · next hnone =>
    cases hexec
    exact ⟨h.gone _ hnone (Same.refl w).grows, .inl (.refl w)⟩
  · next s hs =>
    rw [executeIn_eq h hs haccept] at hexec
    split at hexec
    · exact h.execute hordered hs haccept hexec
    · split_ifs at hexec with hrollback
      cases hexec
      exact ⟨h.abort _ hs haccept hrollback, .inl same_abort⟩
    · cases hexec
      exact ⟨h.gone _ (Function.update_self ..) (w.same_drop t).grows, .inl (w.same_drop t)⟩
    · obtain ⟨⟨r', w''⟩, hdone, heq⟩ := Option.map_eq_some_iff.1 hexec
      cases heq
      obtain ⟨-, heffect⟩ := h.execute hordered hs haccept hdone
      exact ⟨h.gone _ (Function.update_self ..) heffect.grows, heffect.drop⟩

/-- A node that asks for a connection does not know anything of it. -/
theorem Linked.connect (h : Linked w t g)
    (haccept : (monitor digest migrations prefixes).accept g c) :
    Linked (w.connect t c) t g := by
  unfold World.connect
  split_ifs with hnew
  · obtain ⟨rfl, -⟩ := hnew
    obtain ⟨hclosed, hlocked, hpath⟩ := haccept
    constructor
    · intro s _ hl
      rw [hlocked] at hl
      cases hl
    · intro s _ p hp
      rw [hpath] at hp
      cases hp
    · intro s hs
      change Function.update w.sessions t (some ⟨"public", none⟩) t = some s at hs
      rw [Function.update_self, Option.some_inj] at hs
      rw [hclosed, ← hs]
      rfl
    · exact h.listed
    · intro s _ hl
      rw [hlocked] at hl
      cases hl
  · exact h

theorem World.same_connect (w : World S) (t : ℕ) (c : Statement) : Same w (w.connect t c) := by
  unfold World.connect
  split_ifs
  · exact .of_eq rfl
  · exact .refl w

/-- The effects of a statement on the server, and on what its node knows. -/
theorem Linked.answer {fault : Fault} (hordered : Ordered w) (h : Linked w t g)
    (haccept : (monitor digest migrations prefixes).accept g c)
    (hanswer : w.answer exec t fault c = some (r, w')) :
    Frame t w w' ∧ Linked w' t ((monitor digest migrations prefixes).next g c r) ∧
      ∃ w₁, Linked w₁ t g ∧ Same w w₁ ∧ w₁.holder = w.holder ∧
        Effect digest migrations prefixes exec w₁ w' t g := by
  by_cases hcreate : ∃ schema, c = .createSchema schema
  · obtain ⟨schema, rfl⟩ := hcreate
    have hw : w' = w := by
      cases fault <;> exact (Prod.mk.inj (Option.some_inj.1 hanswer)).2.symm
    subst hw
    exact ⟨frame_of_eq (fun _ _ => rfl) rfl, h, w', h, .refl w', rfl, .inl (.refl w')⟩
  · have hattempt : (w.connect t c).attempt exec t fault c = some (r, w') := by
      cases c with
      | createSchema schema => exact absurd ⟨schema, rfl⟩ hcreate
      | _ => exact hanswer
    have hsame := w.same_connect t c
    have hordered' : Ordered (w.connect t c) := by
      intro p
      rw [(hsame p).1]
      exact hordered p
    have hlinked := h.connect haccept
    obtain ⟨hnext, heffect⟩ := hlinked.attempt hordered' haccept hattempt
    refine ⟨frame_connect.trans (frame_attempt hattempt), hnext, _, hlinked, hsame, ?_, heffect⟩
    unfold World.connect
    split_ifs <;> rfl

end Linked

/-! ## What a schema holds -/

section Migrated

variable {digest : String → List UInt8} {migrations : List Migration} {prefixes : Set String}
  {exec : String → S → Option S} {store : S} {σ σ' : Schema S}

theorem runScripts_congr {pre pre' : String} {ms : List Migration}
    (h : ∀ m ∈ ms, m.script pre' = m.script pre) (s : S) :
    runScripts exec pre' s ms = runScripts exec pre s ms := by
  induction ms generalizing s with
  | nil => rfl
  | cons m ms ih =>
    have hm := h m List.mem_cons_self
    simp only [runScripts, List.foldlM_cons, hm] at ih ⊢
    refine congrArg _ (funext fun s => ?_)
    exact ih (fun m' hm' => h m' (List.mem_cons_of_mem m hm')) s

/-- The first migrations are listed and applied, with one of `prefixes`. -/
def Schema.MigratedBy (digest : String → List UInt8) (exec : String → S → Option S)
    (migrations : List Migration) (prefixes : Set String) (store : S) (σ : Schema S) : Prop :=
  ∃ pre k, (0 < k → pre ∈ prefixes) ∧
    σ.listed = ((ups migrations).take k).map (Migration.row digest pre) ∧
    runScripts exec pre store ((ups migrations).take k) = some σ.store

theorem Schema.MigratedBy.migrated (h : σ.MigratedBy digest exec migrations prefixes store) :
    σ.Migrated digest exec migrations store := by
  obtain ⟨pre, k, -, h⟩ := h
  exact ⟨pre, k, h⟩

theorem migratedBy_fresh :
    Schema.MigratedBy digest exec migrations prefixes store ⟨none, store⟩ :=
  ⟨"", 0, fun h => absurd h (Nat.lt_irrefl 0), rfl, rfl⟩

theorem Schema.MigratedBy.congr (h : σ.MigratedBy digest exec migrations prefixes store)
    (hlisted : σ'.listed = σ.listed) (hstore : σ'.store = σ.store) :
    σ'.MigratedBy digest exec migrations prefixes store := by
  unfold MigratedBy
  rw [hlisted, hstore]
  exact h

/-- The next migration, with a prefix that gives the rows that are listed. -/
theorem Schema.MigratedBy.next {pre : String} {k : ℕ} {m : Migration} (hpre : pre ∈ prefixes)
    (hdigest : Distinguishes digest migrations prefixes)
    (h : σ.MigratedBy digest exec migrations prefixes store)
    (hpairs : σ.pairs = ((ups migrations).take k).map (Migration.pair digest pre))
    (hm : (ups migrations)[k]? = some m)
    (hwrites : σ.writeAll exec [.script (m.script pre), .insert (m.row digest pre)] = some σ') :
    σ'.MigratedBy digest exec migrations prefixes store := by
  obtain ⟨pre', k', hpre', hlisted, hstore⟩ := h
  obtain ⟨hlt, -⟩ := List.getElem?_eq_some_iff.1 hm
  have heq : ((ups migrations).take k').map (Migration.pair digest pre') =
      ((ups migrations).take k).map (Migration.pair digest pre) := by
    rw [← hpairs, Schema.pairs, hlisted, List.map_map]
    rfl
  -- As many are listed with the one prefix as with the other, and their scripts are the same.
  have hk : k' = k := by
    have hlength := congrArg List.length heq
    rw [List.length_map, List.length_map, List.length_take, List.length_take] at hlength
    omega
  subst hk
  have hscript : ∀ a ∈ (ups migrations).take k', a.script pre' = a.script pre := by
    intro a ha
    have hpos : 0 < k' := Nat.pos_of_ne_zero fun hzero => by simp [hzero] at ha
    exact hdigest a (List.mem_of_mem_take ha) (Set.mem_image_of_mem _ (hpre' hpos))
      (Set.mem_image_of_mem _ hpre) (Prod.mk.inj (List.map_inj_left.1 heq a ha)).2
  have hlisted' : σ.listed = ((ups migrations).take k').map (Migration.row digest pre) := by
    rw [hlisted]
    refine List.map_inj_left.2 fun a ha => ?_
    rw [Migration.row, hscript a ha]
    rfl
  have htake : (ups migrations).take (k' + 1) = (ups migrations).take k' ++ [m] := by
    rw [List.take_add_one, hm]
    rfl
  simp only [Schema.writeAll, List.foldlM_cons, List.foldlM_nil, Option.bind_eq_bind] at hwrites
  obtain ⟨σ₁, hscripted, hrest⟩ := Option.bind_eq_some_iff.1 hwrites
  obtain ⟨σ₂, hinserted, hlast⟩ := Option.bind_eq_some_iff.1 hrest
  obtain rfl : σ₂ = σ' := Option.some_inj.1 hlast
  obtain ⟨s₁, hs₁, rfl⟩ := Option.map_eq_some_iff.1 hscripted
  simp only [Schema.write] at hinserted
  split at hinserted
  · cases hinserted
  · next rows htracking =>
    split_ifs at hinserted
    obtain rfl := Option.some_inj.1 hinserted
    refine ⟨pre, k' + 1, fun _ => hpre, ?_, ?_⟩
    · rw [htake, List.map_append, ← hlisted', Schema.listed, Schema.listed, htracking]
      rfl
    · rw [htake, runScripts, List.foldlM_append, ← runScripts, ← runScripts_congr hscript, hstore]
      simpa using hs₁

theorem Schema.MigratedBy.ordered
    (hversions : (ups migrations).Pairwise fun a b => a.version < b.version)
    (h : σ.MigratedBy digest exec migrations prefixes store) :
    σ.listed.Pairwise fun a b => a.version ≤ b.version := by
  obtain ⟨pre, k, -, hlisted, -⟩ := h
  rw [hlisted, List.pairwise_map]
  exact (hversions.sublist (List.take_sublist k _)).imp fun hlt => Int.le_of_lt hlt

end Migrated

/-! ## All nodes -/

section Nodes

variable {digest : String → List UInt8} {migrations : List Migration} {prefixes : Set String}
  {exec : String → S → Option S} {store : S} {P P' : Pool (nodes digest exec migrations prefixes)}

/-- What a node has found out when it returns. -/
def Returned (digest : String → List UInt8) (migrations : List Migration) (g : Progress)
    (outcome : Option ((PostgresOptions × ℕ) × Except WfeError Unit)) : Prop :=
  g.transaction = .closed ∧ ∀ options n, outcome = some ((options, n), .ok ()) →
    Succeeded digest migrations options n g

/-- What the node on thread `t` knows. -/
abbrev progress (P : Pool (nodes digest exec migrations prefixes)) (t : ℕ) : Progress :=
  P.ghost (monitor digest migrations prefixes) {} t

/-- The nodes write what comes next, what they know is true, and the schemas hold what they
should. -/
structure Sound (store : S) (P : Pool (nodes digest exec migrations prefixes)) : Prop where
  conforms : Pool.Conforms (monitor digest migrations prefixes) {} (Returned digest migrations) P
  linked : ∀ t, Linked P.shared t (progress P t)
  migrated : ∀ path, (P.shared.schemas path).MigratedBy digest exec migrations prefixes store

theorem sound_start :
    Sound store (Pool.start (nodes digest exec migrations prefixes) (.fresh store)) where
  conforms := Pool.conforms_start _ ⟨rfl, nofun⟩
  linked _ := ⟨nofun, nofun, nofun, nofun, nofun⟩
  migrated _ := migratedBy_fresh

/-- A node takes up its work without knowing anything. -/
theorem linked_initial {w : World S} {t : ℕ} {g : Progress} (h : Linked w t g)
    (hclosed : g.transaction = .closed) : Linked w t {} where
  holder _ _ := nofun
  path _ _ _ := nofun
  transaction s hs := by
    have hof := h.transaction s hs
    rw [hclosed] at hof
    exact hof
  listed _ _ := nofun
  current _ _ := nofun

theorem Sound.spawn {t : ℕ} {op : (nodes digest exec migrations prefixes).Op}
    {a : Option ((PostgresOptions × ℕ) × Except WfeError Unit)}
    (hversions : ((ups migrations).map (·.version)).Nodup) (h : Sound store P)
    (ha : (P.threads t).rest = .ret a) : Sound store (P.spawn t op) where
  conforms := by
    refine h.conforms.spawn ?_
    refine meets_bind.mpr (Meets.mono (meets_ensureStoreExists op.2 hversions) ?_)
    intro g r hr
    cases r with
    | ok b =>
      have hsucceeded : Succeeded digest migrations op.1.1 op.1.2 g := hr
      refine ⟨hr.1, fun options n heq => ?_⟩
      rw [(Prod.mk.inj (Option.some_inj.1 heq)).1] at hsucceeded
      exact hsucceeded
    | error e =>
      refine ⟨hr, fun options n heq => ?_⟩
      cases (Prod.mk.inj (Option.some_inj.1 heq)).2
  linked u := by
    by_cases hut : u = t
    · subst hut
      rw [progress, Pool.ghost_spawn_self]
      exact linked_initial (h.linked u) (h.conforms.returned ha).1
    · rw [progress, Pool.ghost_spawn_of_ne (S := nodes digest exec migrations prefixes) op hut]
      exact h.linked u
  migrated := h.migrated

variable {t : ℕ} {c : Statement} {r : Except String c.Answer}
  {p : Program Postgres (Option ((PostgresOptions × ℕ) × Except WfeError Unit))}
  {fault : Fault} {w : World S}

/-- What is read from a tracking table. -/
theorem Sound.allow
    (hversions : (ups migrations).Pairwise fun a b => a.version < b.version) (h : Sound store P)
    (hanswer : P.shared.answer exec t fault c = some (r, w)) :
    (monitor digest migrations prefixes).allow (progress P t) c r := by
  cases c with
  | selectApplied =>
    cases r with
    | error e => trivial
    | ok pairs =>
      change P.shared.attempt exec t fault .selectApplied = some (.ok pairs, w) at hanswer
      unfold World.attempt at hanswer
      split at hanswer
      · cases hanswer
      · next s hs =>
        split at hanswer
        · unfold World.executeIn at hanswer
          split_ifs at hanswer
          · cases hanswer
          · have hread := (Prod.mk.inj (Option.some_inj.1 hanswer)).1
            cases hrows : P.shared.rows s with
            | error e =>
              rw [hrows] at hread
              cases hread
            | ok rows =>
              have hordered : Ordered P.shared := fun path => (h.migrated path).ordered hversions
              obtain ⟨pre, k, -, hlisted, -⟩ := h.migrated s.path
              rw [hrows] at hread
              refine ⟨pre, k, ?_⟩
              rw [← Except.ok.inj hread, hordered.rows_eq hrows, hlisted]
              exact List.map_map
        · split_ifs at hanswer
          all_goals cases hanswer
        · cases hanswer
        · obtain ⟨answered, -, heq⟩ := Option.map_eq_some_iff.1 hanswer
          cases heq
  | _ => trivial

theorem Sound.proceed (hdigest : Distinguishes digest migrations prefixes)
    (hversions : (ups migrations).Pairwise fun a b => a.version < b.version) (h : Sound store P)
    {k : Except String c.Answer → Program Postgres _} (hk : (P.threads t).rest = .call c k)
    (hanswer : P.shared.answer exec t fault c = some (r, w)) :
    Sound store (P.proceed t ⟨c, r⟩ (k r) w) := by
  have hordered : Ordered P.shared := fun path => (h.migrated path).ordered hversions
  have haccept := h.conforms.accept hk
  obtain ⟨hframe, hnext, w₁, hlinked, hsame, hholder, heffect⟩ :=
    (h.linked t).answer hordered haccept hanswer
  have hmigrated (path : String) :
      (w₁.schemas path).MigratedBy digest exec migrations prefixes store :=
    (h.migrated path).congr (hsame path).1 (hsame path).2
  have hgrows : Grows P.shared w := fun path => (hsame.grows path).trans (heffect.grows path)
  refine ⟨h.conforms.proceed hk (h.allow hversions hanswer) w, fun u => ?_, fun path => ?_⟩
  · by_cases hut : u = t
    · subst hut
      rw [progress, Pool.ghost_proceed_self]
      exact hnext
    · rw [progress, Pool.ghost_proceed_of_ne _ _ _ hut]
      refine (h.linked u).frame hframe hut hgrows fun hu => ?_
      rcases heffect with heffect | ⟨ws, ⟨hlocked, -⟩, s, -, hs, -⟩
      · exact fun path => ⟨((heffect path).1).trans (hsame path).1,
          ((heffect path).2).trans (hsame path).2⟩
      · -- Whoever commits holds the lock.
        have ht := hlinked.holder s hs hlocked
        rw [hholder, hu, Option.some_inj] at ht
        exact absurd ht hut
  · rcases heffect with heffect |
      ⟨ws, ⟨hlocked, path', pre, hpre, i, m, hm, hpath, htable, rfl⟩, hcommitted⟩
    · exact (hmigrated path).congr (heffect path).1 (heffect path).2
    · obtain ⟨s, σ, hs, -, hwrites, hschemas⟩ := hcommitted
      change (w.schemas path).MigratedBy digest exec migrations prefixes store
      rw [hschemas]
      by_cases heq : path = s.path
      · subst heq
        have hspath := hlinked.path s hs path' hpath
        rw [Function.update_self]
        refine (hmigrated s.path).next hpre hdigest ?_ hm hwrites
        rw [hspath]
        exact hlinked.current s hs hlocked path' _ htable
      · rw [Function.update_of_ne heq]
        exact hmigrated path

theorem Sound.step (hdigest : Distinguishes digest migrations prefixes)
    (hversions : (ups migrations).Pairwise fun a b => a.version < b.version) (h : Sound store P)
    (hstep : Pool.Step (fun _ _ _ => True) P P') : Sound store P' := by
  cases hstep with
  | spawn t op a ha =>
    refine h.spawn ?_ ha
    rw [List.Nodup, List.pairwise_map]
    exact hversions.imp fun hlt => Int.ne_of_lt hlt
  | call t c k fault r w hk hanswer _ => exact h.proceed hdigest hversions hk hanswer

/-- **Migrations are applied once and in order.** Assuming that checksums tell the scripts of a
migration apart which it is rewritten to with the nodes' prefixes, and that the versions of the
migrations ascend, in every run of any number of nodes, with any schemas, prefixes and releases,
with statements that fail and connections that go down at any point, each schema lists the first
migrations, all with one prefix, and holds what their scripts make of it when each is run once and
in order; and a node with a prefix that reports success has all its migrations listed, with its own
prefix. -/
theorem migrations_applied (hdigest : Distinguishes digest migrations prefixes)
    (hversions : (ups migrations).Pairwise fun a b => a.version < b.version)
    (hrun : Pool.Run (fun _ _ _ => True)
      (Pool.start (nodes digest exec migrations prefixes) (.fresh store)) P) :
    (∀ path, (P.shared.schemas path).Migrated digest exec migrations store) ∧
      ∀ t options n, (P.threads t).rest = .ret (some ((options, n), .ok ())) →
        options.tablePrefix ≠ "" →
        (ups (migrations.take n)).map (Migration.pair digest options.tablePrefix) <+:
          (P.shared.schemas (quoted options.schema)).pairs := by
  have hsound : Sound store P :=
    hrun.invariant (fun _ _ hP hstep => hP.step hdigest hversions hstep) sound_start
  refine ⟨fun path => (hsound.migrated path).migrated, fun t options n ht hprefix => ?_⟩
  obtain ⟨-, hreturned⟩ := hsound.conforms.returned ht
  obtain ⟨-, later, htable⟩ := (hreturned options n rfl).2 hprefix
  exact (List.prefix_append _ later).trans ((hsound.linked t).listed _ _ htable)

end Nodes

/-- A checksum without collisions. -/
def utf8 (sql : String) : List UInt8 := sql.toByteArray.data.toList

theorem utf8_injective : Function.Injective utf8 := by
  intro a b h
  exact String.toByteArray_inj.1 (ByteArray.ext (Array.toList_inj.1 h))

/-- A schema that remembers the scripts. -/
def remember (sql : String) (scripts : List String) : Option (List String) :=
  some (scripts ++ [sql])

def initial : Migration := ⟨1, "initial", "CREATE TABLE workflows (id TEXT)", false⟩

/-- The prefixes of two nodes. -/
def twoPrefixes : Set String := {"wfe_", "app_"}

/-- The connection of one node goes down before its commit, and another node migrates the schema
with its own prefix. -/
def crash : List (Pool.Move (nodes utf8 remember [initial] twoPrefixes)) :=
  [.spawn 0 ⟨(⟨"wfc", "wfe_"⟩, 1), .inl rfl⟩] ++ List.replicate 11 (.call 0 .none) ++
    [.call 0 (.lostBefore "down"), .spawn 1 ⟨(⟨"wfc", "app_"⟩, 1), .inr rfl⟩] ++
    List.replicate 14 (.call 1 .none)

theorem migrations_applied_crash : ∃ P : Pool (nodes utf8 remember [initial] twoPrefixes),
    Pool.Run (fun _ _ _ => True)
        (Pool.start (nodes utf8 remember [initial] twoPrefixes) (.fresh [])) P ∧
      (∀ path, (P.shared.schemas path).Migrated utf8 remember [initial] []) ∧
        ∀ t options n, (P.threads t).rest = .ret (some ((options, n), .ok ())) →
          options.tablePrefix ≠ "" →
          (ups ([initial].take n)).map (Migration.pair utf8 options.tablePrefix) <+:
            (P.shared.schemas (quoted options.schema)).pairs := by
  have hsome : (Pool.schedule (fun _ _ _ => true) crash
      (Pool.start (nodes utf8 remember [initial] twoPrefixes) (.fresh []))).isSome = true := by rfl
  obtain ⟨P, hP⟩ := Option.isSome_iff_exists.1 hsome
  have hrun : Pool.Run (fun _ _ _ => True)
      (Pool.start (nodes utf8 remember [initial] twoPrefixes) (.fresh [])) P :=
    Pool.run_of_schedule_unused (n := 2) (fun _ _ _ _ _ => trivial) (fun _ _ => rfl) (by rfl) hP
  exact ⟨P, hrun, migrations_applied (fun _ _ => utf8_injective.injOn)
    (List.pairwise_singleton _ _) hrun⟩

end Wfe.Migrations
