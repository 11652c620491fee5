import Audible.TransactionCalls
import Mathlib.Logic.Relation

set_option autoImplicit false

/- What a call of `trans_abort` does to the transactions. -/
namespace Audible.Xacto

variable {τ : Type} {s s' s'' : Server τ} {tp : τ}

/-- Pending transactions may have been aborted. -/
structure Aborts (s s' : Server τ) : Prop where
  statuses : ∀ x, (s'.trans x).status = (s.trans x).status ∨
    (s.trans x).status = .pending ∧ (s'.trans x).status = .aborted
  depends : ∀ x, (s'.trans x).depends = (s.trans x).depends
  sems : ∀ x, (s'.trans x).sem = (s.trans x).sem
  waitcnts : ∀ x, (s'.trans x).waitcnt = (s.trans x).waitcnt

theorem Aborts.refl (s : Server τ) : Aborts s s := by
  constructor
  · exact fun _ => .inl rfl
  · exact fun _ => rfl
  · exact fun _ => rfl
  · exact fun _ => rfl

theorem Aborts.keeps (aborts : Aborts s s') {x : τ} (aborted : (s.trans x).status = .aborted) :
    (s'.trans x).status = .aborted := by
  rcases aborts.statuses x with same | ⟨pending, -⟩
  · rw [same, aborted]
  · rw [aborted] at pending
    cases pending

theorem Aborts.trans (first : Aborts s s') (second : Aborts s' s'') : Aborts s s'' := by
  constructor
  · intro x
    rcases first.statuses x with same | ⟨pending, aborted⟩
    · rw [← same]
      exact second.statuses x
    · exact .inr ⟨pending, second.keeps aborted⟩
  · intro x
    rw [second.depends, first.depends]
  · intro x
    rw [second.sems, first.sems]
  · intro x
    rw [second.waitcnts, first.waitcnts]

/-- Nobody waits, and the semaphores of pending transactions are free. -/
structure Ready (s : Server τ) : Prop where
  waitcnts : ∀ x, (s.trans x).waitcnt = 0
  free : ∀ x, (s.trans x).status = .pending → 0 < (s.trans x).sem

theorem Aborts.ready (aborts : Aborts s s') (ready : Ready s) : Ready s' := by
  constructor
  · intro x
    rw [aborts.waitcnts, ready.waitcnts]
  · intro x pending
    rw [aborts.sems]
    apply ready.free
    rcases aborts.statuses x with same | ⟨-, aborted⟩
    · rw [← same, pending]
    · rw [aborted] at pending
      cases pending

/-- What a call on the transactions of a list in turn comes to: it never waits. -/
def Outcome (s : Server τ) (tps : List τ) : Except Stop (Server τ) → Prop
  | .ok s' => Aborts s s' ∧ ∀ tp ∈ tps, (s'.trans tp).status = .aborted
  | .error stop => stop ≠ .waits

theorem abortAll_outcome {abort : τ → Server τ → Except Stop (Server τ)}
    (each : ∀ tp s, Ready s → Outcome s [tp] (abort tp s)) (tps : List τ) (ready : Ready s) :
    Outcome s tps (tps.foldlM (fun s tp => abort tp s) s) := by
  apply Runs.foldlM_comes
    (fun left s' => Aborts s s' ∧ ∀ x ∈ tps, x ∈ left ∨ (s'.trans x).status = .aborted)
    (Outcome s tps)
  · rintro tp left s' ⟨aborts, done⟩
    have turn := each tp s' (aborts.ready ready)
    cases aborted : abort tp s' with
    | error stop =>
        rw [aborted] at turn
        exact .inr ⟨stop, rfl, turn⟩
    | ok s'' =>
        rw [aborted] at turn
        refine .inl ⟨s'', rfl, aborts.trans turn.1, fun x member => ?_⟩
        rcases done x member with ahead | before
        · rcases List.mem_cons.mp ahead with rfl | later
          · exact .inr (turn.2 x (List.mem_singleton_self x))
          · exact .inl later
        · exact .inr (turn.1.keeps before)
  · rintro s' ⟨aborts, done⟩
    exact ⟨aborts, fun x member => (done x member).resolve_left List.not_mem_nil⟩
  · exact ⟨.refl s, fun x member => .inl member⟩

def pendingCount (tps : List τ) (s : Server τ) : Nat :=
  tps.countP fun tp => (s.trans tp).status = .pending

/-- The dependencies of the transactions of the list are in the list. -/
def Closed (tps : List τ) (s : Server τ) : Prop :=
  ∀ tp ∈ tps, ∀ dtp ∈ (s.trans tp).depends, dtp ∈ tps

theorem Aborts.pendingCount_le (aborts : Aborts s s') (tps : List τ) :
    pendingCount tps s' ≤ pendingCount tps s := by
  apply List.countP_mono_left
  intro x _ pending
  rcases aborts.statuses x with same | ⟨before, -⟩
  · rw [← same]
    exact pending
  · simpa using before

theorem Aborts.closed (aborts : Aborts s s') {tps : List τ} (closed : Closed tps s) :
    Closed tps s' := by
  intro x member dtp
  rw [aborts.depends]
  exact closed x member dtp

theorem countP_lt {p q : τ → Bool} {tps : List τ} (le : ∀ x ∈ tps, p x = true → q x = true)
    {x : τ} (member : x ∈ tps) (holds : q x = true) (fails : p x = false) :
    tps.countP p < tps.countP q := by
  obtain ⟨front, back, rfl⟩ := List.append_of_mem member
  have before : front.countP p ≤ front.countP q :=
    List.countP_mono_left fun x member => le x (by simp [member])
  have after : back.countP p ≤ back.countP q :=
    List.countP_mono_left fun x member => le x (by simp [member])
  rw [List.countP_append, List.countP_append, List.countP_cons_of_pos holds,
    List.countP_cons_of_neg (by simp [fails])]
  omega

/-- What a call leaves that keeps the semaphores, with the reference counts and dependencies it
changes. -/
structure Leaves (s s' : Server τ) (refcnt : τ → BitVec 32) (depends : τ → List τ) : Prop where
  refcnts : ∀ x, (s'.trans x).refcnt = refcnt x
  depends : ∀ x, (s'.trans x).depends = depends x
  sems : ∀ x, (s'.trans x).sem = (s.trans x).sem
  waitcnts : ∀ x, (s'.trans x).waitcnt = (s.trans x).waitcnt

/-- Between calls nobody waits and all semaphores are free, and transactions depend on others that
have been created. -/
structure Manager.Sound (m : Manager τ) : Prop where
  alone : ∀ x, (m.server.trans x).waitcnt = 0
  free : ∀ x, (m.server.trans x).sem = 1
  closed : Closed m.created m.server
  nodup : m.created.Nodup

variable {m m' : Manager τ}

theorem Manager.Sound.ready (sound : m.Sound) : Ready m.server := by
  constructor
  · exact sound.alone
  · intro x _
    rw [sound.free]
    decide

theorem Manager.sound_start : (Manager.start : Manager τ).Sound := by
  constructor
  · exact fun _ => rfl
  · exact fun _ => rfl
  · exact fun _ member => by cases member
  · exact List.nodup_nil

theorem Manager.Sound.left (sound : m.Sound) {server : Server τ} {refcnt : τ → BitVec 32}
    {depends : τ → List τ} (leaves : Leaves m.server server refcnt depends)
    (closed : ∀ x ∈ m.created, ∀ dtp ∈ depends x, dtp ∈ m.created) (held versions : τ → Nat) :
    Manager.Sound { server, created := m.created, held, versions } := by
  constructor
  · intro x
    rw [leaves.waitcnts, sound.alone]
  · intro x
    rw [leaves.sems, sound.free]
  · intro x member dtp linked
    rw [leaves.depends] at linked
    exact closed x member dtp linked
  · exact sound.nodup

variable [DecidableEq τ]

@[simp] theorem setTrans_self (s : Server τ) (tp : τ) (trans : Transaction τ) :
    (s.setTrans tp trans).trans tp = trans := by
  simp [Server.setTrans]

theorem setTrans_of_ne (s : Server τ) (trans : Transaction τ) {x : τ} (different : x ≠ tp) :
    (s.setTrans tp trans).trans x = s.trans x := by
  simp [Server.setTrans, different]

/-- The transaction, when its semaphore has been taken and its status written. -/
def enterAbort (tp : τ) (s : Server τ) : Server τ :=
  setStatus tp .aborted (s.setTrans tp { s.trans tp with sem := (s.trans tp).sem - 1 })

/-- The end of `trans_abort`. -/
def leaveAbort (tp : τ) (s : Server τ) : Server τ := V tp (releaseDependents tp (transUnref tp s))

theorem waitFor_of_free (free : 0 < (s.trans tp).sem) :
    waitFor tp s = .ok (s.setTrans tp { s.trans tp with sem := (s.trans tp).sem - 1 }) := by
  unfold waitFor P
  cases sem : (s.trans tp).sem with
  | zero =>
      rw [sem] at free
      cases free
  | succ sem => rfl

theorem releaseDependents_none (alone : (s.trans tp).waitcnt = 0) : releaseDependents tp s = s := by
  rw [releaseDependents, alone, wake]

theorem transAbort_pending (bound : Nat) (pending : (s.trans tp).status = .pending)
    (free : 0 < (s.trans tp).sem) :
    transAbort (bound + 1) tp s =
      ((s.trans tp).depends.foldlM (fun s dtp => transAbort bound dtp s) (enterAbort tp s)).map
        (leaveAbort tp) := by
  rw [transAbort, pending, waitFor_of_free free]
  have depends : (enterAbort tp s).trans tp =
      { s.trans tp with sem := (s.trans tp).sem - 1, status := .aborted } := by
    simp [enterAbort, setStatus]
  change (((enterAbort tp s).trans tp).depends.foldlM (fun s dtp => transAbort bound dtp s)
    (enterAbort tp s) >>= fun s => (.ok (leaveAbort tp s) : Except Stop (Server τ))) = _
  rw [depends]
  cases (s.trans tp).depends.foldlM (fun s dtp => transAbort bound dtp s) (enterAbort tp s) <;> rfl

theorem enterAbort_trans (x : τ) :
    (enterAbort tp s).trans x =
      if x = tp then { s.trans tp with sem := (s.trans tp).sem - 1, status := .aborted }
      else s.trans x := by
  unfold enterAbort setStatus
  by_cases same : x = tp
  · rw [if_pos same, same, setTrans_self, setTrans_self]
  · rw [if_neg same, setTrans_of_ne _ _ same, setTrans_of_ne _ _ same]

theorem leaveAbort_trans (alone : (s.trans tp).waitcnt = 0) (x : τ) :
    (leaveAbort tp s).trans x =
      if x = tp then
        { s.trans tp with refcnt := (s.trans tp).refcnt - 1, sem := (s.trans tp).sem + 1 }
      else s.trans x := by
  have released : releaseDependents tp (transUnref tp s) = transUnref tp s := by
    apply releaseDependents_none
    simpa [transUnref, dropReference] using alone
  unfold leaveAbort
  rw [released]
  unfold V transUnref dropReference
  by_cases same : x = tp
  · rw [if_pos same, same, setTrans_self, setTrans_self]
  · rw [if_neg same, setTrans_of_ne _ _ same, setTrans_of_ne _ _ same]

theorem enterAbort_ready (tp : τ) (ready : Ready s) : Ready (enterAbort tp s) := by
  constructor
  · intro x
    rw [enterAbort_trans]
    split
    · exact ready.waitcnts tp
    · exact ready.waitcnts x
  · intro x pending
    rw [enterAbort_trans] at pending ⊢
    split at pending
    · cases pending
    · rw [if_neg (by assumption)]
      exact ready.free x pending

/-- The whole call, from what its loop does. -/
theorem Aborts.around (ready : Ready s) (pending : (s.trans tp).status = .pending)
    (inside : Aborts (enterAbort tp s) s') :
    Aborts s (leaveAbort tp s') ∧ ((leaveAbort tp s').trans tp).status = .aborted := by
  have entered := @enterAbort_trans _ s tp _
  have alone : (s'.trans tp).waitcnt = 0 := by
    rw [inside.waitcnts, entered, if_pos rfl]
    exact ready.waitcnts tp
  have left := leaveAbort_trans alone
  have aborted : (s'.trans tp).status = .aborted := by
    apply inside.keeps
    rw [entered, if_pos rfl]
  have free := ready.free tp pending
  constructor
  · constructor
    · intro x
      by_cases same : x = tp
      · right
        rw [same, left, if_pos rfl]
        exact ⟨pending, aborted⟩
      · have before := inside.statuses x
        rw [entered, if_neg same] at before
        rw [left, if_neg same]
        exact before
    · intro x
      have before := inside.depends x
      rw [entered] at before
      rw [left]
      split
      · rename_i same
        rw [same] at before ⊢
        simpa using before
      · rename_i different
        simpa [different] using before
    · intro x
      have before := inside.sems x
      rw [entered] at before
      rw [left]
      split
      · rename_i same
        rw [same, if_pos rfl] at before
        rw [same]
        simp only at before ⊢
        omega
      · rename_i different
        simpa [different] using before
    · intro x
      have before := inside.waitcnts x
      rw [entered] at before
      rw [left]
      split
      · rename_i same
        rw [same] at before ⊢
        simpa using before
      · rename_i different
        simpa [different] using before
  · rw [left, if_pos rfl]
    exact aborted

theorem transAbort_outcome (bound : Nat) (tp : τ) (ready : Ready s) :
    Outcome s [tp] (transAbort bound tp s) := by
  induction bound generalizing s tp with
  | zero => exact fun same => by cases same
  | succ bound ih =>
      cases status : (s.trans tp).status with
      | committed =>
          rw [transAbort, status]
          exact fun same => by cases same
      | aborted =>
          rw [transAbort, status]
          exact ⟨.refl s, by simpa using status⟩
      | pending =>
          rw [transAbort_pending bound status (ready.free tp status)]
          have loop := abortAll_outcome (fun tp s ready => ih tp ready) (s.trans tp).depends
            (enterAbort_ready tp ready)
          cases ended : (s.trans tp).depends.foldlM (fun s dtp => transAbort bound dtp s)
              (enterAbort tp s) with
          | error stop =>
              rw [ended] at loop
              exact loop
          | ok s' =>
              rw [ended] at loop
              obtain ⟨aborts, aborted⟩ := loop.1.around ready status
              exact ⟨aborts, by simpa using aborted⟩

theorem enterAbort_pendingCount {tps : List τ} (member : tp ∈ tps)
    (pending : (s.trans tp).status = .pending) :
    pendingCount tps (enterAbort tp s) < pendingCount tps s := by
  apply countP_lt _ member
  · simpa using pending
  · simp [enterAbort_trans]
  · intro x _ pending
    rw [enterAbort_trans] at pending
    split at pending
    · cases pending
    · exact pending

theorem enterAbort_closed {tps : List τ} (closed : Closed tps s) :
    Closed tps (enterAbort tp s) := by
  intro x member dtp depends
  rw [enterAbort_trans] at depends
  split at depends
  · rename_i same
    exact closed x member dtp (same ▸ depends)
  · exact closed x member dtp depends

/-- Every call inside another has one transaction less to abort. -/
theorem transAbort_not_deep {tps : List τ} (bound : Nat) (member : tp ∈ tps) (ready : Ready s)
    (closed : Closed tps s) (enough : pendingCount tps s < bound) :
    transAbort bound tp s ≠ .error .deep := by
  induction bound generalizing s tp with
  | zero => omega
  | succ bound ih =>
      cases status : (s.trans tp).status with
      | committed =>
          rw [transAbort, status]
          exact fun same => by cases same
      | aborted =>
          rw [transAbort, status]
          exact fun same => by cases same
      | pending =>
          have loop : ∀ (dtps : List τ) (s : Server τ), (∀ dtp ∈ dtps, dtp ∈ tps) → Ready s →
              Closed tps s → pendingCount tps s < bound →
              dtps.foldlM (fun s dtp => transAbort bound dtp s) s ≠ .error .deep := by
            intro dtps s members ready closed enough
            apply Runs.foldlM_comes
              (fun left s => (∀ dtp ∈ left, dtp ∈ tps) ∧ Ready s ∧ Closed tps s ∧
                pendingCount tps s < bound)
              (fun ended : Except Stop (Server τ) => ended ≠ .error .deep)
            · rintro dtp left s ⟨members, ready, closed, enough⟩
              have turn := ih (members dtp (by simp)) ready closed enough
              have outcome := transAbort_outcome bound dtp ready
              cases aborted : transAbort bound dtp s with
              | error stop =>
                  rw [aborted] at turn
                  exact .inr ⟨stop, rfl, turn⟩
              | ok s' =>
                  rw [aborted] at outcome
                  have fewer := outcome.1.pendingCount_le tps
                  refine .inl ⟨s', rfl, fun dtp member => members dtp (by simp [member]), ?_⟩
                  exact ⟨outcome.1.ready ready, outcome.1.closed closed, by omega⟩
            · exact fun s _ same => by cases same
            · exact ⟨members, ready, closed, enough⟩
          rw [transAbort_pending bound status (ready.free tp status)]
          have fewer := enterAbort_pendingCount member status
          have inside := loop (s.trans tp).depends (enterAbort tp s) (closed tp member)
            (enterAbort_ready tp ready) (enterAbort_closed closed) (by omega)
          intro deep
          apply inside
          cases ended : (s.trans tp).depends.foldlM (fun s dtp => transAbort bound dtp s)
              (enterAbort tp s) with
          | error stop =>
              rw [ended] at deep
              cases deep
              rfl
          | ok s' =>
              rw [ended] at deep
              cases deep

theorem waitFor_ok (waited : waitFor tp s = .ok s') :
    0 < (s.trans tp).sem ∧
      s' = s.setTrans tp { s.trans tp with sem := (s.trans tp).sem - 1 } := by
  unfold waitFor P at waited
  cases sem : (s.trans tp).sem with
  | zero =>
      rw [sem] at waited
      cases waited
  | succ sem' =>
      rw [sem] at waited
      cases waited
      exact ⟨by omega, rfl⟩

theorem setTrans_trans (s : Server τ) (tp : τ) (trans : Transaction τ) (x : τ) :
    (s.setTrans tp trans).trans x = if x = tp then trans else s.trans x := by
  by_cases same : x = tp
  · rw [if_pos same, same, setTrans_self]
  · rw [if_neg same, setTrans_of_ne _ _ same]

theorem transAddDependency_leaves {dtp : τ} (added : transAddDependency tp dtp s = .ok s') :
    Leaves s s'
      (fun x => if x = dtp then (s.trans x).refcnt + 1 else (s.trans x).refcnt)
      (fun x => if x = tp then dtp :: (s.trans x).depends else (s.trans x).depends) := by
  unfold transAddDependency at added
  cases waited : waitFor tp s with
  | error stop =>
      rw [waited] at added
      cases added
  | ok s₁ =>
      rw [waited] at added
      obtain ⟨free, rfl⟩ := waitFor_ok waited
      cases added
      constructor
      all_goals
        intro x
        simp only [V, transRef, addReference, addDependency, setTrans_trans]
        grind

theorem transCommit_leaves (alone : (s.trans tp).waitcnt = 0) (ended : transCommit tp s = .ok s') :
    Leaves s s' (fun x => if x = tp then (s.trans x).refcnt - 1 else (s.trans x).refcnt)
      (fun x => (s.trans x).depends) := by
  unfold transCommit at ended
  cases waited : waitFor tp s with
  | error stop =>
      rw [waited] at ended
      cases ended
  | ok s₁ =>
      rw [waited] at ended
      obtain ⟨free, rfl⟩ := waitFor_ok waited
      cases checked : checkDepends (s.setTrans tp { s.trans tp with sem := (s.trans tp).sem - 1 })
          ((s.setTrans tp { s.trans tp with sem := (s.trans tp).sem - 1 }).trans tp).depends with
      | error stop =>
          change (checkDepends _ _ >>= _) = _ at ended
          rw [checked] at ended
          cases ended
      | ok status =>
          change (checkDepends _ _ >>= _) = _ at ended
          rw [checked] at ended
          cases ended
          have released : ∀ s : Server τ, (s.trans tp).waitcnt = 0 →
              releaseDependents tp (setStatus tp status s) = setStatus tp status s := by
            intro s alone
            apply releaseDependents_none
            simpa [setStatus] using alone
          rw [released _ (by simpa using alone)]
          constructor
          all_goals
            intro x
            simp only [V, transUnref, dropReference, setStatus, setTrans_trans]
            grind

theorem transRef_leaves (tp : τ) (s : Server τ) :
    Leaves s (transRef tp s)
      (fun x => if x = tp then (s.trans x).refcnt + 1 else (s.trans x).refcnt)
      (fun x => (s.trans x).depends) := by
  constructor
  all_goals
    intro x
    simp only [transRef, addReference, setTrans_trans]
    grind

theorem transUnref_leaves (tp : τ) (s : Server τ) :
    Leaves s (transUnref tp s)
      (fun x => if x = tp then (s.trans x).refcnt - 1 else (s.trans x).refcnt)
      (fun x => (s.trans x).depends) := by
  constructor
  all_goals
    intro x
    simp only [transUnref, dropReference, setTrans_trans]
    grind

theorem Manager.returned_of_call {c : Call τ} (called : m.call c = some m') :
    m.valid c = true ∧ m.returned c = .ok m' := by
  unfold Manager.call at called
  split at called
  · rename_i valid
    cases ended : m.returned c with
    | error stop =>
        rw [ended] at called
        cases called
    | ok next =>
        rw [ended] at called
        cases called
        exact ⟨valid, rfl⟩
  · cases called

theorem map_ok {α β : Type} {result : Except Stop α} {f : α → β} {b : β}
    (mapped : result.map f = .ok b) : ∃ a, result = .ok a ∧ b = f a := by
  cases result with
  | error stop => cases mapped
  | ok a =>
      cases mapped
      exact ⟨a, rfl, rfl⟩

theorem Manager.Sound.call (sound : m.Sound) {c : Call τ} (called : m.call c = some m') :
    m'.Sound := by
  obtain ⟨valid, ended⟩ := Manager.returned_of_call called
  cases c with
  | create tp =>
      cases ended
      constructor
      · intro x
        rw [setTrans_trans]
        split
        · rfl
        · exact sound.alone x
      · intro x
        rw [setTrans_trans]
        split
        · rfl
        · exact sound.free x
      · intro x member dtp linked
        rw [setTrans_trans] at linked
        split at linked
        · cases linked
        · rename_i old
          have before : x ∈ m.created := by simpa [old] using member
          exact List.mem_append_left _ (sound.closed x before dtp linked)
      · have fresh : tp ∉ m.created := by simpa [Manager.valid] using valid
        rw [List.nodup_append]
        simpa [sound.nodup] using fun x (member : x ∈ m.created) (same : x = tp) => fresh (same ▸ member)
  | ref tp =>
      cases ended
      exact sound.left (transRef_leaves tp m.server) sound.closed _ _
  | unref tp =>
      cases ended
      exact sound.left (transUnref_leaves tp m.server) sound.closed _ _
  | add tp dtp =>
      obtain ⟨server, added, rfl⟩ := map_ok ended
      apply sound.left (transAddDependency_leaves added)
      intro x member d linked
      have both : tp ∈ m.created ∧ dtp ∈ m.created := by simpa [Manager.valid] using valid
      split at linked
      · rcases List.mem_cons.mp linked with rfl | before
        · exact both.2
        · exact sound.closed x member d before
      · exact sound.closed x member d linked
  | versionCreate tp =>
      cases ended
      exact sound.left (transRef_leaves tp m.server) sound.closed _ _
  | versionDispose tp =>
      cases ended
      exact sound.left (transUnref_leaves tp m.server) sound.closed _ _
  | commit tp =>
      obtain ⟨server, committed, rfl⟩ := map_ok ended
      exact sound.left (transCommit_leaves (sound.alone tp) committed) sound.closed _ _
  | abort tp =>
      obtain ⟨server, aborted, rfl⟩ := map_ok ended
      have outcome := transAbort_outcome (m.created.length + 1) tp sound.ready
      unfold Manager.abort at aborted
      rw [aborted] at outcome
      have leaves : Leaves m.server server (fun x => (server.trans x).refcnt)
          (fun x => (m.server.trans x).depends) :=
        ⟨fun _ => rfl, outcome.1.depends, outcome.1.sems, outcome.1.waitcnts⟩
      exact sound.left leaves sound.closed _ _

theorem Manager.sound_of_reachable {allowed : Manager τ → Call τ → Prop}
    (reached : Runs.Reachable Manager.call allowed .start m) : m.Sound := by
  apply Runs.Reachable.invariant Manager.Sound Manager.sound_start _ reached
  intro m c m' sound _ called
  exact sound.call called

/-- `trans_abort` returns, or it ends the program with the fatal error. -/
theorem Manager.abort_returns {allowed : Manager τ → Call τ → Prop}
    (reached : Runs.Reachable Manager.call allowed .start m) (member : tp ∈ m.created) :
    m.abort tp = .error .fatal ∨
      ∃ s', m.abort tp = .ok s' ∧ Aborts m.server s' ∧ (s'.trans tp).status = .aborted := by
  have sound := Manager.sound_of_reachable reached
  have outcome := transAbort_outcome (m.created.length + 1) tp sound.ready
  have bounded : pendingCount m.created m.server < m.created.length + 1 :=
    Nat.lt_succ_of_le List.countP_le_length
  have shallow := transAbort_not_deep _ member sound.ready sound.closed bounded
  unfold Manager.abort
  cases ended : transAbort (m.created.length + 1) tp m.server with
  | error stop =>
      rw [ended] at outcome shallow
      cases stop with
      | waits => exact absurd rfl outcome
      | fatal => exact .inl rfl
      | deep => exact absurd rfl shallow
  | ok s' =>
      rw [ended] at outcome
      exact .inr ⟨s', rfl, outcome.1, outcome.2 tp (by simp)⟩

/-- One transaction depends on another, directly or through others. -/
def Manager.DependsOn (m : Manager τ) : τ → τ → Prop :=
  Relation.TransGen fun x dtp => dtp ∈ (m.server.trans x).depends

def Manager.Acyclic (m : Manager τ) : Prop := ∀ x, ¬ m.DependsOn x x

/-- The transaction is aborted, and no other changes unless it depends on this one. -/
def Manager.AbortsOnlyDependents (m : Manager τ) (tp : τ) : Prop :=
  ∃ s', m.abort tp = .ok s' ∧ (s'.trans tp).status = .aborted ∧
    ∀ x, x ≠ tp → ¬ m.DependsOn x tp → (s'.trans x).status = (m.server.trans x).status

theorem abortAll_aborted (bound : Nat) (dtps : List τ)
    (aborted : ∀ dtp ∈ dtps, (s.trans dtp).status = .aborted) :
    dtps.foldlM (fun s dtp => transAbort (bound + 1) dtp s) s = .ok s := by
  induction dtps with
  | nil => rfl
  | cons dtp dtps ih =>
      have first : transAbort (bound + 1) dtp s = .ok s := by
        rw [transAbort, aborted dtp (by simp)]
      rw [List.foldlM_cons, first]
      exact ih fun dtp member => aborted dtp (by simp [member])

/-- Dependencies that have been aborted already are left alone. -/
theorem Manager.abort_of_aborted (sound : m.Sound) (member : tp ∈ m.created)
    (pending : (m.server.trans tp).status = .pending)
    (aborted : ∀ dtp ∈ (m.server.trans tp).depends, (m.server.trans dtp).status = .aborted) :
    m.abort tp = .ok (leaveAbort tp (enterAbort tp m.server)) := by
  obtain ⟨bound, length⟩ : ∃ bound, m.created.length = bound + 1 :=
    Nat.exists_eq_succ_of_ne_zero (Nat.ne_of_gt (List.length_pos_of_mem member))
  have loop : (m.server.trans tp).depends.foldlM (fun s dtp => transAbort (bound + 1) dtp s)
      (enterAbort tp m.server) = .ok (enterAbort tp m.server) := by
    apply abortAll_aborted
    intro dtp linked
    rw [enterAbort_trans]
    split
    · rfl
    · exact aborted dtp linked
  rw [Manager.abort, length, transAbort_pending _ pending (sound.ready.free tp pending), loop]
  rfl

/-- `trans_abort` keeps to the transaction and its dependents exactly if every transaction that
this one depends on has been aborted before. -/
theorem abortsOnlyDependents_iff (reached : Runs.Reachable Manager.call Runs.Any .start m)
    (acyclic : m.Acyclic) (member : tp ∈ m.created)
    (pending : (m.server.trans tp).status = .pending) :
    m.AbortsOnlyDependents tp ↔
      ∀ dtp ∈ (m.server.trans tp).depends, (m.server.trans dtp).status = .aborted := by
  have sound := Manager.sound_of_reachable reached
  have ready := sound.ready
  have free := ready.free tp pending
  constructor
  · rintro ⟨s', returned, -, same⟩ dtp linked
    have other : dtp ≠ tp := by
      rintro rfl
      exact acyclic dtp (.single linked)
    have independent : ¬ m.DependsOn dtp tp := fun back => acyclic tp (.head linked back)
    rw [← same dtp other independent]
    unfold Manager.abort at returned
    rw [transAbort_pending _ pending free] at returned
    obtain ⟨s₁, loop, rfl⟩ := map_ok returned
    have outcome := abortAll_outcome (fun tp s ready => transAbort_outcome m.created.length tp ready)
      (m.server.trans tp).depends (enterAbort_ready tp ready)
    rw [loop] at outcome
    have alone : (s₁.trans tp).waitcnt = 0 := (outcome.1.ready (enterAbort_ready tp ready)).waitcnts tp
    rw [leaveAbort_trans alone, if_neg other]
    exact outcome.2 dtp linked
  · intro aborted
    refine ⟨_, Manager.abort_of_aborted sound member pending aborted, ?_⟩
    have alone : ((enterAbort tp m.server).trans tp).waitcnt = 0 := (enterAbort_ready tp ready).waitcnts tp
    constructor
    · rw [leaveAbort_trans alone, if_pos rfl, enterAbort_trans, if_pos rfl]
    · intro x other _
      rw [leaveAbort_trans alone, if_neg other, enterAbort_trans, if_neg other]

def afterCalls (calls : List (Call Nat)) : Manager Nat :=
  (Runs.run Manager.call .start calls).getD .start

/-- The second of two transactions depends on the first. -/
theorem acyclic_of_pair {m : Manager Nat}
    (pair : ∀ x, (m.server.trans x).depends = if x = 1 then [0] else []) : m.Acyclic := by
  have older : ∀ x y, y ∈ (m.server.trans x).depends → y < x := by
    intro x y linked
    rw [pair] at linked
    grind
  have below : ∀ x y, m.DependsOn x y → y < x := by
    intro x y depends
    induction depends with
    | single linked => exact older x _ linked
    | tail _ linked ih => exact Nat.lt_trans (older _ _ linked) ih
  exact fun x depends => Nat.lt_irrefl x (below x x depends)

def dependentPair : List (Call Nat) := [.create 0, .create 1, .add 1 0]

theorem abortsOnlyDependents_example :
    (afterCalls (dependentPair ++ [.abort 0])).AbortsOnlyDependents 1 ↔
      ∀ dtp ∈ ((afterCalls (dependentPair ++ [.abort 0])).server.trans 1).depends,
        ((afterCalls (dependentPair ++ [.abort 0])).server.trans dtp).status = .aborted := by
  apply abortsOnlyDependents_iff
  · exact Runs.reachable_run (dependentPair ++ [.abort 0]) .refl (Runs.follows_any _) rfl
  · apply acyclic_of_pair
    intro x
    rcases x with _ | _ | x <;> rfl
  · decide
  · rfl

/-- Aborting a transaction aborts the pending one that it depends on. -/
theorem aborts_a_dependency :
    ¬ ∀ (m : Manager Nat) (tp : Nat), Runs.Reachable Manager.call Runs.Any .start m → m.Acyclic →
      tp ∈ m.created → (m.server.trans tp).status = .pending → m.AbortsOnlyDependents tp := by
  intro always
  have acyclic : (afterCalls dependentPair).Acyclic := by
    apply acyclic_of_pair
    intro x
    rcases x with _ | _ | x <;> rfl
  obtain ⟨s', returned, -, same⟩ := always (afterCalls dependentPair) 1
    (Runs.reachable_run dependentPair .refl (Runs.follows_any _) rfl) acyclic (by decide) rfl
  have other := same 0 (by decide) fun depends => by
    have first : ∃ x, x ∈ ((afterCalls dependentPair).server.trans 0).depends := by
      cases Relation.TransGen.head'_iff.mp depends with
      | intro x both => exact ⟨x, both.1⟩
    obtain ⟨x, linked⟩ := first
    cases linked
  cases returned
  cases other

end Audible.Xacto
