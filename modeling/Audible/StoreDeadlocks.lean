import Audible.StoreComparisons
import Audible.Waiting

set_option autoImplicit false

/- Which threads are blocked for ever by the mutexes of blobs. Only `blob_compare` holds a mutex while
it waits for another. -/
namespace Audible.Store

variable {β ι : Type} {strcmp : Strcmp} {s s' : Sharing β ι} {t h : ι} {bp x y : β}

/-- The blob whose mutex a thread has to lock next. -/
def BlobActivity.waitsFor : BlobActivity β → Option β
  | .refLock bp | .unrefLock bp | .hashLock bp | .compareFirst bp _ | .compareSecond _ bp => some bp
  | _ => none

/-- The blob that a thread has locked while it waits for another. -/
def BlobActivity.between : BlobActivity β → Option β
  | .compareSecond bp _ => some bp
  | _ => none

/-- Somebody has locked `x` and has to lock `y`. -/
def Sharing.Waits (s : Sharing β ι) (x y : β) : Prop :=
  ∃ t, s.activity t = .compareSecond x y

theorem comparing_of_inside (inside : (s.activity t).Inside x)
    (waits : (s.activity t).waitsFor = some y) : s.activity t = .compareSecond x y := by
  cases now : s.activity t with
  | compareSecond bp1 bp2 =>
      rw [now] at inside waits
      cases inside
      cases waits
      rfl
  | idle => rw [now] at waits; cases waits
  | refLock bp => rw [now] at inside; cases inside
  | refUnlock bp => rw [now] at waits; cases waits
  | unrefLock bp => rw [now] at inside; cases inside
  | unrefUnlock bp => rw [now] at waits; cases waits
  | compareFirst bp1 bp2 => rw [now] at inside; cases inside
  | compareLeave bp1 bp2 cmp => rw [now] at waits; cases waits
  | compareLast bp1 bp2 cmp => rw [now] at waits; cases waits
  | hashLock bp => rw [now] at inside; cases inside
  | hashUnlock bp hash => rw [now] at waits; cases waits

variable [DecidableEq β] [DecidableEq ι]

omit [DecidableEq β] [DecidableEq ι] in
theorem lock_eq_none {inside : SharedBlob → Sharing β ι} :
    s.lock bp inside = none ↔ s.Locked bp := by
  unfold Sharing.lock Sharing.Locked
  split
  · rename_i missing
    simp [missing]
  · rename_i blob found
    simp [found]

theorem unlock_ne_none {activity : BlobActivity β} : s.unlock bp t activity ≠ none := by
  unfold Sharing.unlock
  split <;> simp

theorem advance_eq_none (busy : s.activity t ≠ .idle) :
    advance strcmp t s = none ↔ ∃ y, (s.activity t).waitsFor = some y ∧ s.Locked y := by
  unfold advance
  cases now : s.activity t with
  | idle => exact absurd now busy
  | refLock bp => simp [lock_eq_none, BlobActivity.waitsFor]
  | refUnlock bp => simp [unlock_ne_none, BlobActivity.waitsFor]
  | unrefLock bp => simp [lock_eq_none, BlobActivity.waitsFor]
  | unrefUnlock bp => simp [unlock_ne_none, BlobActivity.waitsFor]
  | compareFirst bp1 bp2 => simp [lock_eq_none, BlobActivity.waitsFor]
  | compareSecond bp1 bp2 => simp [lock_eq_none, BlobActivity.waitsFor]
  | compareLeave bp1 bp2 cmp => simp [unlock_ne_none, BlobActivity.waitsFor]
  | compareLast bp1 bp2 cmp => simp [unlock_ne_none, BlobActivity.waitsFor]
  | hashLock bp => simp [lock_eq_none, BlobActivity.waitsFor]
  | hashUnlock bp hash => simp [unlock_ne_none, BlobActivity.waitsFor]

theorem unlock_goes (sound : s.Sound strcmp) {activity : BlobActivity β}
    (inside : (s.activity h).Inside x) (next : advance strcmp h s = s.unlock x h activity) :
    ∃ s', blobStep strcmp s (.go h) = some s' ∧ ¬ s'.Locked x ∧
      s'.activity = Function.update s.activity h activity := by
  obtain ⟨blob, found, -⟩ := sound.locked inside
  refine ⟨s.turn h x (some { blob with mutex := false }) (s.holders x) activity, ?_, ?_, rfl⟩
  · refine next.trans ?_
    unfold Sharing.unlock
    rw [found]
    exact congrArg some (goto_turn ..)
  · rw [locked_turn]
    simp

/-- A comparison goes on once it can lock the second blob. -/
theorem compareSecond_goes (sound : s.Sound strcmp) (now : s.activity h = .compareSecond x y)
    (free : ¬ s.Locked y) : ∃ s' cmp, blobStep strcmp s (.go h) = some s' ∧
      s'.activity = Function.update s.activity h (.compareLeave x y cmp) := by
  have right := sound.right h
  rw [now] at right
  obtain ⟨content1, first⟩ := Option.ne_none_iff_exists'.mp right.1
  obtain ⟨content2, second⟩ := Option.ne_none_iff_exists'.mp right.2
  obtain ⟨blob, found, content⟩ := Option.bind_eq_some_iff.mp second
  have unlocked : blob.mutex = false := by
    refine eq_false_of_ne_true fun locked => free ⟨blob, found, locked⟩
  refine ⟨(s.setBlob y (some { blob with mutex := true })).goto h
    (.compareLeave x y (strcmp.cmp content1 content2)), strcmp.cmp content1 content2, ?_, rfl⟩
  show advance strcmp h s = _
  unfold advance
  rw [now]
  show s.lock y (compareInside strcmp h x y s) = _
  unfold Sharing.lock
  rw [found]
  simp [unlocked, compareInside, first, content]

omit [DecidableEq β] [DecidableEq ι] in
theorem promised_of_inside (inside : (s.activity h).Inside x) : Promised s (.go h) := by
  show (s.activity h).Few s
  cases now : s.activity h with
  | refLock bp => rw [now] at inside; cases inside
  | _ => trivial

/-- A thread that does not wait unlocks what it has locked. -/
theorem unlocks_soon {s₀ : Sharing β ι} (before : Runs.Reachable (blobStep strcmp) Promised s₀ s)
    (sound : s.Sound strcmp) (inside : (s.activity h).Inside x)
    (goes : (s.activity h).waitsFor = none) :
    ∃ s', Runs.Reachable (blobStep strcmp) Promised s₀ s' ∧ s'.Sound strcmp ∧ ¬ s'.Locked x ∧
      ∀ u, u ≠ h → s'.activity u = s.activity u := by
  have few := promised_of_inside inside
  have one : ∀ activity, advance strcmp h s = s.unlock x h activity →
      ∃ s', Runs.Reachable (blobStep strcmp) Promised s₀ s' ∧ s'.Sound strcmp ∧ ¬ s'.Locked x ∧
        ∀ u, u ≠ h → s'.activity u = s.activity u := by
    intro activity next
    obtain ⟨s', ran, unlocked, moved⟩ := unlock_goes sound inside next
    refine ⟨s', before.tail (.go h) few ran, blobStep_sound sound few ran, unlocked, ?_⟩
    intro u other
    rw [moved, Function.update_of_ne other]
  cases now : s.activity h with
  | refUnlock bp =>
      rw [now] at inside
      cases inside
      exact one .idle (by simp [advance, now])
  | unrefUnlock bp =>
      rw [now] at inside
      cases inside
      exact one .idle (by simp [advance, now])
  | hashUnlock bp hash =>
      rw [now] at inside
      cases inside
      exact one .idle (by simp [advance, now])
  | compareLast bp1 bp2 cmp =>
      rw [now] at inside
      cases inside
      exact one .idle (by simp [advance, now])
  | compareLeave bp1 bp2 cmp =>
      have outer : (s.activity h).Inside bp1 := by
        rw [now]
        exact .inl rfl
      have next : advance strcmp h s = s.unlock bp1 h (.compareLast bp1 bp2 cmp) := by
        simp [advance, now]
      rw [now] at inside
      rcases inside with rfl | rfl
      · exact one _ next
      · -- The other blob is unlocked first.
        obtain ⟨s₁, ran, -, moved⟩ := unlock_goes sound outer next
        have now₁ : s₁.activity h = .compareLast bp1 x cmp := by
          rw [moved, Function.update_self]
        have sound₁ := blobStep_sound sound few ran
        have inner : (s₁.activity h).Inside x := by
          rw [now₁]
          rfl
        have few₁ := promised_of_inside inner
        obtain ⟨s₂, ran₂, unlocked, moved₂⟩ := @unlock_goes _ _ strcmp _ _ _ _ _ sound₁ .idle inner
          (by simp [advance, now₁])
        refine ⟨s₂, (before.tail (.go h) few ran).tail (.go h) few₁ ran₂,
          blobStep_sound sound₁ few₁ ran₂, unlocked, fun u other => ?_⟩
        rw [moved₂, Function.update_of_ne other, moved, Function.update_of_ne other]
  | compareSecond bp1 bp2 => rw [now] at goes; cases goes
  | idle => rw [now] at inside; cases inside
  | refLock bp => rw [now] at inside; cases inside
  | unrefLock bp => rw [now] at inside; cases inside
  | compareFirst bp1 bp2 => rw [now] at inside; cases inside
  | hashLock bp => rw [now] at inside; cases inside

/-- If no cycle can be reached from a locked blob, then the threads that are in the way can all be
run until it is unlocked. -/
theorem releases {s₀ : Sharing β ι} (before : Runs.Reachable (blobStep strcmp) Promised s₀ s)
    (sound : s.Sound strcmp) (ends : Acc (fun y x => s.Waits x y) x)
    (none : ∀ z, Relation.ReflTransGen s.Waits x z → ¬ Relation.TransGen s.Waits z z)
    (locked : s.Locked x) :
    ∃ s', Runs.Reachable (blobStep strcmp) Promised s₀ s' ∧ s'.Sound strcmp ∧ ¬ s'.Locked x ∧
      ∀ u, (∀ z, Relation.ReflTransGen s.Waits x z → ¬ (s.activity u).Inside z) →
        s'.activity u = s.activity u := by
  induction ends with
  | intro x _ ih =>
      obtain ⟨h, inside⟩ := (sound.mutexes.flagged x).mp locked
      have apart : ∀ u, (∀ z, Relation.ReflTransGen s.Waits x z → ¬ (s.activity u).Inside z) →
          u ≠ h := by
        rintro u outside rfl
        exact outside x .refl inside
      by_cases goes : (s.activity h).waitsFor = .none
      · obtain ⟨s', reached, sound', unlocked, same⟩ := unlocks_soon before sound inside goes
        exact ⟨s', reached, sound', unlocked, fun u outside => same u (apart u outside)⟩
      · obtain ⟨y, waits⟩ := Option.ne_none_iff_exists'.mp goes
        have now := comparing_of_inside inside waits
        have edge : s.Waits x y := ⟨h, now⟩
        have cleared : ∃ s₁, Runs.Reachable (blobStep strcmp) Promised s₀ s₁ ∧ s₁.Sound strcmp ∧
            ¬ s₁.Locked y ∧ s₁.activity h = s.activity h ∧
              ∀ u, (∀ z, Relation.ReflTransGen s.Waits x z → ¬ (s.activity u).Inside z) →
                s₁.activity u = s.activity u := by
          by_cases blocked : s.Locked y
          · obtain ⟨s₁, reached, sound₁, unlocked, same⟩ :=
              ih y edge (fun z path => none z (path.head edge)) blocked
            refine ⟨s₁, reached, sound₁, unlocked, same h fun z path holding => ?_, fun u outside =>
              same u fun z path => outside z (path.head edge)⟩
            rw [now] at holding
            cases holding
            exact none x .refl (Relation.TransGen.head' edge path)
          · exact ⟨s, before, sound, blocked, rfl, fun _ _ => rfl⟩
        obtain ⟨s₁, reached, sound₁, unlocked, still, same⟩ := cleared
        obtain ⟨s₂, cmp, ran, moved⟩ := compareSecond_goes sound₁ (still.trans now) unlocked
        have few₁ : Promised s₁ (.go h) := @promised_of_inside _ _ _ _ x (still ▸ inside)
        have now₂ : s₂.activity h = .compareLeave x y cmp := by
          rw [moved, Function.update_self]
        have inside₂ : (s₂.activity h).Inside x := by
          rw [now₂]
          exact .inl rfl
        obtain ⟨s₃, reached₃, sound₃, unlocked₃, same₃⟩ := unlocks_soon (reached.tail (.go h) few₁ ran)
          (blobStep_sound sound₁ few₁ ran) inside₂ (by rw [now₂]; rfl)
        refine ⟨s₃, reached₃, sound₃, unlocked₃, fun u outside => ?_⟩
        rw [same₃ u (apart u outside), moved, Function.update_of_ne (apart u outside), same u outside]

/-- Only so many threads are in a call. -/
def Sharing.Tracked (s : Sharing β ι) : Prop :=
  ∃ threads : List ι, ∀ t, s.activity t ≠ .idle → t ∈ threads

omit [DecidableEq β] in
theorem Sharing.Tracked.moves {activity : BlobActivity β} (tracked : s.Tracked)
    (moved : s'.activity = Function.update s.activity t activity) : s'.Tracked := by
  obtain ⟨threads, all⟩ := tracked
  refine ⟨t :: threads, fun u busy => ?_⟩
  by_cases own : u = t
  · exact List.mem_cons.mpr (.inl own)
  · rw [moved, Function.update_of_ne own] at busy
    exact List.mem_cons_of_mem _ (all u busy)

theorem blobStep_tracked {action : BlobAction β ι} (tracked : s.Tracked)
    (ran : blobStep strcmp s action = some s') : s'.Tracked := by
  have same : s'.activity = s.activity → s'.Tracked := by
    intro same
    unfold Sharing.Tracked
    rw [same]
    exact tracked
  cases action with
  | create t bp content size =>
      unfold blobStep at ran
      dsimp only at ran
      split at ran
      · cases ran
        exact same rfl
      · cases ran
  | call t call =>
      unfold blobStep at ran
      dsimp only at ran
      split at ran
      · cases ran
        refine @Sharing.Tracked.moves _ _ s _ t _ ((begin t s call).activity t) tracked ?_
        funext u
        by_cases own : u = t
        · rw [own, Function.update_self]
        · rw [Function.update_of_ne own, begin_others call own]
      · cases ran
  | go t =>
      obtain ⟨activity', moved, -⟩ := advance_goes ran
      exact tracked.moves moved
  | give t t' bp =>
      unfold blobStep at ran
      dsimp only at ran
      split at ran
      · cases ran
        exact same rfl
      · cases ran

theorem tracked_of_shared
    (reached : Runs.Reachable (blobStep strcmp) Promised (Sharing.init : Sharing β ι) s) : s.Tracked :=
  reached.invariant Sharing.Tracked ⟨[], fun _ busy => absurd rfl busy⟩
    fun _ _ _ tracked _ ran => blobStep_tracked tracked ran

omit [DecidableEq β] [DecidableEq ι] in
/-- Only finitely many blobs are locked by threads that wait for another. -/
theorem Sharing.Tracked.within (tracked : s.Tracked) :
    ∃ nodes : List β, ∀ x y, s.Waits x y → x ∈ nodes := by
  obtain ⟨threads, all⟩ := tracked
  refine ⟨threads.filterMap fun t => (s.activity t).between, ?_⟩
  rintro x y ⟨t, now⟩
  refine List.mem_filterMap.mpr ⟨t, all t ?_, by rw [now]; rfl⟩
  rw [now]
  exact fun same => by cases same

/-- From `x` the threads that wait lead into a cycle. -/
def Sharing.Circular (s : Sharing β ι) (x : β) : Prop :=
  ∃ z, Relation.ReflTransGen s.Waits x z ∧ Relation.TransGen s.Waits z z

omit [DecidableEq β] [DecidableEq ι] in
theorem Sharing.Circular.next (circular : s.Circular x) : ∃ y, s.Waits x y ∧ s.Circular y := by
  obtain ⟨z, path, cycle⟩ := circular
  rcases Relation.ReflTransGen.cases_head path with rfl | ⟨y, first, rest⟩
  · obtain ⟨y, first, rest⟩ := Relation.TransGen.head'_iff.mp cycle
    exact ⟨y, first, x, rest, cycle⟩
  · exact ⟨y, first, z, rest, cycle⟩

/-- Threads that wait for what leads into a cycle stay where they are. -/
theorem circular_stays {s₀ : Sharing β ι} (sound : s₀.Sound strcmp)
    (reached : Runs.Reachable (blobStep strcmp) Promised s₀ s) :
    s.Sound strcmp ∧ ∀ t x, (s₀.activity t).waitsFor = some x → s₀.Circular x →
      s.activity t = s₀.activity t ∧ s.Locked x := by
  have locks : ∀ s : Sharing β ι, s.Sound strcmp →
      (∀ t x, (s₀.activity t).waitsFor = some x → s₀.Circular x → s.activity t = s₀.activity t) →
        ∀ x, s₀.Circular x → s.Locked x := by
    intro s sound still x circular
    obtain ⟨y, ⟨u, now⟩, more⟩ := circular.next
    have same := still u y (by rw [now]; rfl) more
    refine (sound.mutexes.flagged x).mpr ⟨u, ?_⟩
    rw [same, now]
    rfl
  have stays : s.Sound strcmp ∧ ∀ t x, (s₀.activity t).waitsFor = some x → s₀.Circular x →
      s.activity t = s₀.activity t := by
    refine reached.invariant (fun s => s.Sound strcmp ∧ ∀ t x, (s₀.activity t).waitsFor = some x →
      s₀.Circular x → s.activity t = s₀.activity t) ⟨sound, fun _ _ _ _ => rfl⟩ ?_
    rintro s action s' ⟨sound, still⟩ promised ran
    refine ⟨blobStep_sound sound promised ran, fun t x waits circular => ?_⟩
    have same := still t x waits circular
    have busy : s.activity t ≠ .idle := by
      intro idle
      rw [← same, idle] at waits
      cases waits
    have other : action ≠ .go t := by
      rintro rfl
      have stuck : advance strcmp t s = none :=
        (advance_eq_none busy).mpr ⟨x, same ▸ waits, locks s sound still x circular⟩
      rw [show advance strcmp t s = some s' from ran] at stuck
      cases stuck
    rw [blobStep_others busy other ran, same]
  exact ⟨stays.1, fun t x waits circular =>
    ⟨stays.2 t x waits circular, locks s stays.1 stays.2 x circular⟩⟩

/-- A thread that is in a call can never go on exactly if it waits for a mutex from which the threads
that hold one and wait for the next lead into a cycle. -/
theorem blocked_forever_iff
    (reached : Runs.Reachable (blobStep strcmp) Promised (Sharing.init : Sharing β ι) s)
    (busy : s.activity t ≠ .idle) :
    (∀ s', Runs.Reachable (blobStep strcmp) Promised s s' → blobStep strcmp s' (.go t) = none) ↔
      ∃ x, (s.activity t).waitsFor = some x ∧ s.Circular x := by
  have sound := sharing_of_reachable reached
  constructor
  · intro stuck
    obtain ⟨x, waits, locked⟩ := (advance_eq_none busy).mp (stuck s .refl)
    refine ⟨x, waits, ?_⟩
    by_contra straight
    have none : ∀ z, Relation.ReflTransGen s.Waits x z → ¬ Relation.TransGen s.Waits z z :=
      fun z path cycle => straight ⟨z, path, cycle⟩
    obtain ⟨nodes, within⟩ := (tracked_of_shared reached).within
    obtain ⟨s', later, -, unlocked, same⟩ := releases .refl sound
      (Waiting.acc_of_no_cycle within none) none locked
    have still : s'.activity t = s.activity t := by
      refine same t fun z path inside => ?_
      have edge : s.Waits z x := ⟨t, comparing_of_inside inside waits⟩
      exact none z path (Relation.TransGen.head' edge path)
    obtain ⟨y, waits', locked'⟩ := (advance_eq_none (still ▸ busy)).mp (stuck s' later)
    rw [still, waits] at waits'
    cases waits'
    exact unlocked locked'
  · rintro ⟨x, waits, circular⟩ s' later
    obtain ⟨-, stays⟩ := circular_stays sound later
    obtain ⟨same, locked⟩ := stays t x waits circular
    exact (advance_eq_none (same ▸ busy)).mpr ⟨x, same ▸ waits, locked⟩

/-- A blob that is compared with itself blocks its thread. -/
theorem blocked_forever_self : ∃ s : Sharing Nat Nat, s.activity 0 = .compareSecond 7 7 ∧
    ∀ s', Runs.Reachable (blobStep glibcStrcmp) Promised s s' →
      blobStep glibcStrcmp s' (.go 0) = none := by
  obtain ⟨s, -, reached, passed⟩ := @Runs.exists_reachable _ _ (blobStep glibcStrcmp) Promised
    (Sharing.init : Sharing Nat Nat)
    [.create 0 7 (some [0x61#8]) 1, .call 0 (.compare (some 7) (some 7)), .go 0]
    (fun s action => decide (Promised s action)) (fun _ _ => of_decide_eq_true) (by decide)
    (fun s => s.activity 0 = .compareSecond 7 7) (by decide)
  have now := of_decide_eq_true passed
  have busy : s.activity 0 ≠ .idle := by
    rw [now]
    exact fun same => by cases same
  exact ⟨s, now, (blocked_forever_iff reached busy).mpr
    ⟨7, by rw [now]; rfl, 7, .refl, .single ⟨0, now⟩⟩⟩

end Audible.Store
