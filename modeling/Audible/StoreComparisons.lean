import Audible.StoreReferences

set_option autoImplicit false

/- What `blob_compare` and `blob_hash` return, whatever other threads do with the blobs meanwhile. -/
namespace Audible.Store

variable {β ι : Type} {strcmp : Strcmp} {s s' : Sharing β ι} {t : ι} {bp : β} {blob : SharedBlob}

def BlobActivity.call : BlobActivity β → Option (BlobCall β)
  | .idle => none
  | .refLock bp | .refUnlock bp => some (.ref (some bp))
  | .unrefLock bp | .unrefUnlock bp => some (.unref (some bp))
  | .compareFirst bp1 bp2 | .compareSecond bp1 bp2 | .compareLeave bp1 bp2 _
  | .compareLast bp1 bp2 _ => some (.compare (some bp1) (some bp2))
  | .hashLock bp | .hashUnlock bp _ => some (.hash (some bp))

/-- What the call returns after its last operation. -/
def BlobActivity.result : BlobActivity β → Option CInt
  | .compareLast _ _ cmp => some cmp
  | .hashUnlock _ hash => some hash
  | _ => none

/-- What the function computes from the blobs as they are. -/
def BlobCall.value (strcmp : Strcmp) (s : Sharing β ι) : BlobCall β → Option CInt
  | .compare bp1 bp2 => blobCompare strcmp ((bp1.bind s.blob).map SharedBlob.toBlob)
      ((bp2.bind s.blob).map SharedBlob.toBlob)
  | .hash bp => blobHash ((bp.bind s.blob).map SharedBlob.toBlob)
  | .ref _ | .unref _ => none

/-- A thread goes on with its call, or returns from it. -/
def BlobActivity.Continues (activity activity' : BlobActivity β) : Prop :=
  activity' = .idle ∨
    activity'.call = activity.call ∧ ∀ q, activity'.Uses q → activity.Uses q

/-- A blob that is still there has the content that it had. -/
def Sharing.Keeps (s s' : Sharing β ι) : Prop :=
  ∀ bp blob blob', s.blob bp = some blob → s'.blob bp = some blob' → blob'.content = blob.content

theorem keeps_of_same (same : s'.blob = s.blob) : s.Keeps s' := by
  intro bp blob blob' before after
  rw [same, before] at after
  cases after
  rfl

variable [DecidableEq β]

theorem keeps_update {after : Option SharedBlob} (found : s.blob bp = some blob)
    (same : s'.blob = Function.update s.blob bp after)
    (content : ∀ blob', after = some blob' → blob'.content = blob.content) : s.Keeps s' := by
  intro q blob₁ blob₂ before later
  rw [same] at later
  by_cases own : q = bp
  · subst own
    rw [Function.update_self] at later
    rw [found] at before
    cases before
    exact content blob₂ later
  · rw [Function.update_of_ne own, before] at later
    cases later
    rfl

omit [DecidableEq β] in
theorem keeps_lock {inside : SharedBlob → Sharing β ι} (ran : s.lock bp inside = some s')
    (kept : ∀ blob, s.blob bp = some blob → s.Keeps (inside { blob with mutex := true })) :
    s.Keeps s' := by
  unfold Sharing.lock at ran
  split at ran
  · cases ran
    exact keeps_of_same rfl
  · rename_i blob found
    split at ran
    · cases ran
    · cases ran
      exact kept blob found

variable [DecidableEq ι]

theorem keeps_unlock {activity : BlobActivity β} (ran : s.unlock bp t activity = some s') :
    s.Keeps s' := by
  unfold Sharing.unlock at ran
  split at ran
  · cases ran
    exact keeps_of_same rfl
  · rename_i blob found
    cases ran
    refine keeps_update found rfl ?_
    rintro _ ⟨⟩
    rfl

theorem advance_keeps (ran : advance strcmp t s = some s') : s.Keeps s' := by
  unfold advance at ran
  split at ran
  · cases ran
  · refine keeps_lock ran fun blob found => keeps_update found rfl ?_
    rintro _ ⟨⟩
    rfl
  · exact keeps_unlock ran
  · refine keeps_lock ran fun blob found => ?_
    unfold unrefInside
    dsimp only
    split
    · exact keeps_update found rfl fun _ none => by cases none
    · refine keeps_update found rfl ?_
      rintro _ ⟨⟩
      rfl
  · exact keeps_unlock ran
  · refine keeps_lock ran fun blob found => keeps_update found rfl ?_
    rintro _ ⟨⟩
    rfl
  · refine keeps_lock ran fun blob found => ?_
    unfold compareInside
    split
    · refine keeps_update found rfl ?_
      rintro _ ⟨⟩
      rfl
    · exact keeps_of_same rfl
  · exact keeps_unlock ran
  · exact keeps_unlock ran
  · refine keeps_lock ran fun blob found => ?_
    unfold hashInside
    split
    · refine keeps_update found rfl ?_
      rintro _ ⟨⟩
      rfl
    · exact keeps_of_same rfl
  · exact keeps_unlock ran

omit [DecidableEq β] in
theorem begin_blob (call : BlobCall β) : (begin t s call).blob = s.blob := by
  cases call with
  | ref bp => cases bp <;> rfl
  | unref bp => cases bp <;> rfl
  | compare bp1 bp2 => cases bp1 <;> cases bp2 <;> rfl
  | hash bp => cases bp <;> rfl

theorem blobStep_keeps {action : BlobAction β ι} (ran : blobStep strcmp s action = some s') :
    s.Keeps s' := by
  cases action with
  | create t bp content size =>
      unfold blobStep at ran
      dsimp only at ran
      split at ran
      · rename_i free _
        cases ran
        intro q blob₁ blob₂ before later
        have other : q ≠ bp := by
          rintro rfl
          rw [free] at before
          cases before
        simp only [Sharing.setHolders, Sharing.setBlob, Function.update_of_ne other, before] at later
        cases later
        rfl
      · cases ran
  | call t call =>
      unfold blobStep at ran
      dsimp only at ran
      split at ran
      · cases ran
        exact keeps_of_same (begin_blob call)
      · cases ran
  | go t => exact advance_keeps ran
  | give t t' bp =>
      unfold blobStep at ran
      dsimp only at ran
      split at ran
      · cases ran
        exact keeps_of_same rfl
      · cases ran

def Sharing.Goes (s s' : Sharing β ι) (t : ι) : Prop :=
  ∃ activity', s'.activity = Function.update s.activity t activity' ∧
    (s.activity t).Continues activity'

omit [DecidableEq β] in
theorem goes_fault (s : Sharing β ι) (t : ι) : s.Goes s.fault t :=
  ⟨s.activity t, (Function.update_eq_self ..).symm, .inr ⟨rfl, fun _ uses => uses⟩⟩

omit [DecidableEq β] in
theorem goes_to {activity activity' : BlobActivity β} (now : s.activity t = activity)
    (same : s'.activity = Function.update s.activity t activity')
    (continues : activity.Continues activity') : s.Goes s' t :=
  ⟨activity', same, now ▸ continues⟩

omit [DecidableEq β] in
theorem goes_lock {inside : SharedBlob → Sharing β ι} (ran : s.lock bp inside = some s')
    (goes : ∀ blob, s.Goes (inside blob) t) : s.Goes s' t := by
  unfold Sharing.lock at ran
  split at ran
  · cases ran
    exact goes_fault s t
  · split at ran
    · cases ran
    · cases ran
      exact goes _

theorem goes_unlock {activity activity' : BlobActivity β} (now : s.activity t = activity)
    (ran : s.unlock bp t activity' = some s') (continues : activity.Continues activity') :
    s.Goes s' t := by
  unfold Sharing.unlock at ran
  split at ran
  · cases ran
    exact goes_fault s t
  · cases ran
    exact goes_to now rfl continues

theorem advance_goes (ran : advance strcmp t s = some s') : s.Goes s' t := by
  unfold advance at ran
  split at ran
  · cases ran
  · rename_i bp now
    exact goes_lock ran fun blob => goes_to now rfl (.inr ⟨rfl, fun _ uses => uses⟩)
  · rename_i bp now
    exact goes_unlock now ran (.inl rfl)
  · rename_i bp now
    refine goes_lock ran fun blob => ?_
    unfold unrefInside
    dsimp only
    split
    · exact goes_to now rfl (.inl rfl)
    · exact goes_to now rfl (.inr ⟨rfl, fun _ none => absurd none id⟩)
  · rename_i bp now
    exact goes_unlock now ran (.inl rfl)
  · rename_i bp1 bp2 now
    exact goes_lock ran fun blob => goes_to now rfl (.inr ⟨rfl, fun _ uses => uses⟩)
  · rename_i bp1 bp2 now
    refine goes_lock ran fun blob => ?_
    unfold compareInside
    split
    · exact goes_to now rfl (.inr ⟨rfl, fun _ uses => uses⟩)
    · exact goes_fault s t
  · rename_i bp1 bp2 cmp now
    exact goes_unlock now ran (.inr ⟨rfl, fun _ uses => uses⟩)
  · rename_i bp1 bp2 cmp now
    exact goes_unlock now ran (.inl rfl)
  · rename_i bp now
    refine goes_lock ran fun blob => ?_
    unfold hashInside
    split
    · exact goes_to now rfl (.inr ⟨rfl, fun _ uses => uses⟩)
    · exact goes_fault s t
  · rename_i bp hash now
    exact goes_unlock now ran (.inl rfl)

omit [DecidableEq β] in
theorem begin_others (call : BlobCall β) {u : ι} (other : u ≠ t) :
    (begin t s call).activity u = s.activity u := by
  have moves : ∀ activity, (s.goto t activity).activity u = s.activity u := fun activity =>
    Function.update_of_ne other ..
  cases call with
  | ref bp => cases bp <;> first | rfl | exact moves _
  | unref bp => cases bp <;> first | rfl | exact moves _
  | compare bp1 bp2 => cases bp1 <;> cases bp2 <;> first | rfl | exact moves _
  | hash bp => cases bp <;> first | rfl | exact moves _

/-- A thread that is in a call is not disturbed by others. -/
theorem blobStep_others {action : BlobAction β ι} (busy : s.activity t ≠ .idle)
    (other : action ≠ .go t) (ran : blobStep strcmp s action = some s') :
    s'.activity t = s.activity t := by
  cases action with
  | create u bp content size =>
      unfold blobStep at ran
      dsimp only at ran
      split at ran
      · cases ran
        rfl
      · cases ran
  | call u call =>
      unfold blobStep at ran
      dsimp only at ran
      split at ran
      · rename_i idle
        cases ran
        refine begin_others call ?_
        rintro rfl
        exact busy idle
      · cases ran
  | go u =>
      obtain ⟨activity', same, -⟩ := advance_goes ran
      rw [same, Function.update_of_ne]
      rintro rfl
      exact other rfl
  | give u u' bp =>
      unfold blobStep at ran
      dsimp only at ran
      split at ran
      · cases ran
        rfl
      · cases ran

theorem blobStep_continues {action : BlobAction β ι} (busy : s.activity t ≠ .idle)
    (ran : blobStep strcmp s action = some s') : (s.activity t).Continues (s'.activity t) := by
  by_cases own : action = .go t
  · subst own
    obtain ⟨activity', same, continues⟩ := advance_goes ran
    rw [same, Function.update_self]
    exact continues
  · rw [blobStep_others busy own ran]
    exact .inr ⟨rfl, fun _ uses => uses⟩

omit [DecidableEq β] [DecidableEq ι] in
theorem compare_value {bp1 bp2 : β} {blob1 blob2 : SharedBlob} (found1 : s.blob bp1 = some blob1)
    (found2 : s.blob bp2 = some blob2) :
    (BlobCall.compare (some bp1) (some bp2)).value strcmp s =
      (s.content bp1).bind fun x => (s.content bp2).bind fun y => some (strcmp.cmp x y) := by
  rw [content_eq found1, content_eq found2]
  simp only [BlobCall.value, Option.bind_some, found1, found2, Option.map_some]
  rfl

omit [DecidableEq β] [DecidableEq ι] in
theorem hash_value (found : s.blob bp = some blob) :
    (BlobCall.hash (some bp)).value strcmp s =
      (s.content bp).bind fun x => some (hashString x) := by
  rw [content_eq found]
  simp only [BlobCall.value, Option.bind_some, found, Option.map_some]
  rfl

omit [DecidableEq β] [DecidableEq ι] in
/-- The value to be returned is the one for the blobs as they were when they had the same contents. -/
theorem Sharing.Sound.returns {s₀ : Sharing β ι} (sound : s.Sound strcmp) {call : BlobCall β}
    {value : CInt} (calls : (s.activity t).call = some call)
    (returned : (s.activity t).result = some value)
    (before : ∀ q, (s.activity t).Uses q →
      (∃ blob, s₀.blob q = some blob) ∧ s.content q = s₀.content q) :
    call.value strcmp s₀ = some value := by
  have right := sound.right t
  cases now : s.activity t with
  | compareLast bp1 bp2 cmp =>
      rw [now] at right calls returned before
      cases calls
      cases returned
      obtain ⟨x, y, first, second, compared⟩ := right
      obtain ⟨⟨blob1, found1⟩, same1⟩ := before bp1 (.inl rfl)
      obtain ⟨⟨blob2, found2⟩, same2⟩ := before bp2 (.inr rfl)
      rw [compare_value found1 found2, ← same1, ← same2, first, second, ← compared]
      rfl
  | hashUnlock bp hash =>
      rw [now] at right calls returned before
      cases calls
      cases returned
      obtain ⟨x, first, hashed⟩ := right
      obtain ⟨⟨blob, found⟩, same⟩ := before bp rfl
      rw [hash_value found, ← same, first, ← hashed]
      rfl
  | idle => rw [now] at returned; cases returned
  | refLock bp => rw [now] at returned; cases returned
  | refUnlock bp => rw [now] at returned; cases returned
  | unrefLock bp => rw [now] at returned; cases returned
  | unrefUnlock bp => rw [now] at returned; cases returned
  | compareFirst bp1 bp2 => rw [now] at returned; cases returned
  | compareSecond bp1 bp2 => rw [now] at returned; cases returned
  | compareLeave bp1 bp2 cmp => rw [now] at returned; cases returned
  | hashLock bp => rw [now] at returned; cases returned

omit [DecidableEq β] [DecidableEq ι] in
theorem Sharing.Sound.keeps_content (sound : s.Sound strcmp) (sound' : s'.Sound strcmp)
    (keeps : s.Keeps s') (uses : (s.activity t).Uses bp) (uses' : (s'.activity t).Uses bp) :
    s'.content bp = s.content bp := by
  obtain ⟨blob, found⟩ := sound.live uses
  obtain ⟨blob', found'⟩ := sound'.live uses'
  rw [content_eq found, content_eq found']
  exact keeps bp blob blob' found found'

/-- A comparison or a hash that is begun returns what the function computes from the blobs as they
are then, whatever other threads do until it returns. -/
theorem calls_return_exactly {s₀ : Sharing β ι} {call : BlobCall β} {value : CInt}
    (reached : Runs.Reachable (blobStep strcmp) Promised Sharing.init s₀)
    (calls : (s₀.activity t).call = some call)
    (during : Runs.Reachable (blobStep strcmp)
      (fun s action => Promised s action ∧ s.activity t ≠ .idle) s₀ s)
    (returned : (s.activity t).result = some value) : call.value strcmp s₀ = some value := by
  have sound := sharing_of_reachable reached
  have kept : s.Sound strcmp ∧ (s.activity t = .idle ∨ (s.activity t).call = some call ∧
      ∀ q, (s.activity t).Uses q → (∃ blob, s₀.blob q = some blob) ∧ s.content q = s₀.content q) := by
    refine during.invariant (fun s => s.Sound strcmp ∧ (s.activity t = .idle ∨
      (s.activity t).call = some call ∧ ∀ q, (s.activity t).Uses q →
        (∃ blob, s₀.blob q = some blob) ∧ s.content q = s₀.content q))
      ⟨sound, .inr ⟨calls, fun q uses => ⟨sound.live uses, rfl⟩⟩⟩ ?_
    rintro s action s' ⟨sound, before⟩ ⟨promised, busy⟩ ran
    have sound' := blobStep_sound sound promised ran
    refine ⟨sound', (blobStep_continues busy ran).imp id ?_⟩
    rintro ⟨same, uses⟩
    obtain ⟨calls, contents⟩ := before.resolve_left busy
    refine ⟨same.trans calls, fun q uses' => ⟨(contents q (uses q uses')).1, ?_⟩⟩
    rw [sound.keeps_content sound' (blobStep_keeps ran) (uses q uses') uses']
    exact (contents q (uses q uses')).2
  obtain ⟨sound, idle | ⟨calls, contents⟩⟩ := kept
  · rw [idle] at returned
    cases returned
  · exact sound.returns calls returned contents

-- The blobs 7 and 8 hold `"a"` and `"b"`, and two threads have references to 7.

def sharedBlobs : List (BlobAction Nat Nat) :=
  [.create 0 7 (some [0x61#8]) 1, .create 0 8 (some [0x62#8]) 1, .call 0 (.ref (some 7)), .go 0,
    .go 0, .give 0 1 7, .call 0 (.compare (some 7) (some 8))]

def comparing : Sharing Nat Nat :=
  (Runs.run (blobStep glibcStrcmp) Sharing.init sharedBlobs).getD Sharing.init

/-- The other thread hashes the first blob and lets it go in the middle of the comparison. -/
theorem calls_return_exactly_example : ∃ s : Sharing Nat Nat, s.holders 7 = [0] ∧
    (s.activity 0).result = some (-1) ∧
      (BlobCall.compare (some 7) (some 8)).value glibcStrcmp comparing = some (-1) := by
  have reached : Runs.Reachable (blobStep glibcStrcmp) Promised Sharing.init comparing :=
    Runs.reachable_run sharedBlobs .refl
      (@Runs.follows_of_check _ _ _ _ _ (fun s action => decide (Promised s action))
        (fun _ _ => of_decide_eq_true) sharedBlobs (by decide)) rfl
  obtain ⟨s, -, during, passed⟩ := @Runs.exists_reachable _ _ (blobStep glibcStrcmp)
    (fun s action => Promised s action ∧ s.activity 0 ≠ .idle) comparing
    [.call 1 (.hash (some 7)), .go 1, .go 1, .go 0, .call 1 (.unref (some 7)), .go 0, .go 0, .go 1,
      .go 1]
    (fun s action => decide (Promised s action ∧ s.activity 0 ≠ .idle))
    (fun _ _ => of_decide_eq_true) (by decide)
    (fun s => s.holders 7 = [0] && (s.activity 0).result = some (-1)) (by decide)
  simp only [Bool.and_eq_true, decide_eq_true_eq] at passed
  exact ⟨s, passed.1, passed.2, calls_return_exactly reached rfl during passed.2⟩

end Audible.Store
