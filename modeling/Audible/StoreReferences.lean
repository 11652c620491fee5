import Audible.StoreThreads

set_option autoImplicit false

/- References to blobs, over every interleaving of the threads: a blob is in memory as long as
somebody has a reference to it, and no longer. -/
namespace Audible.Store

variable {β ι : Type}

def BlobActivity.Inside : BlobActivity β → β → Prop
  | .refUnlock bp, q | .unrefUnlock bp, q | .hashUnlock bp _, q | .compareSecond bp _, q
  | .compareLast _ bp _, q => q = bp
  | .compareLeave bp1 bp2 _, q => q = bp1 ∨ q = bp2
  | _, _ => False

/-- A thread relies on a reference that it has to a blob. -/
def BlobActivity.Uses : BlobActivity β → β → Prop
  | .refLock bp, q | .refUnlock bp, q | .unrefLock bp, q | .hashLock bp, q | .hashUnlock bp _, q =>
      q = bp
  | .compareFirst bp1 bp2, q | .compareSecond bp1 bp2, q | .compareLeave bp1 bp2 _, q
  | .compareLast bp1 bp2 _, q => q = bp1 ∨ q = bp2
  | _, _ => False

/-- What a thread is about to return is right, for blobs with these contents. -/
def BlobActivity.Right (strcmp : Strcmp) (content : β → Option (List Byte)) : BlobActivity β → Prop
  | .compareFirst bp1 bp2 | .compareSecond bp1 bp2 => content bp1 ≠ none ∧ content bp2 ≠ none
  | .compareLeave bp1 bp2 cmp => bp1 ≠ bp2 ∧
      ∃ x y, content bp1 = some x ∧ content bp2 = some y ∧ strcmp.cmp x y = cmp
  | .compareLast bp1 bp2 cmp =>
      ∃ x y, content bp1 = some x ∧ content bp2 = some y ∧ strcmp.cmp x y = cmp
  | .hashLock bp => content bp ≠ none
  | .hashUnlock bp hash => ∃ x, content bp = some x ∧ hashString x = hash
  | _ => True

theorem BlobActivity.Right.congr {strcmp : Strcmp} {content content' : β → Option (List Byte)}
    {activity : BlobActivity β} (right : activity.Right strcmp content)
    (same : ∀ bp, activity.Uses bp → content' bp = content bp) : activity.Right strcmp content' := by
  cases activity with
  | idle => trivial
  | refLock bp => trivial
  | refUnlock bp => trivial
  | unrefLock bp => trivial
  | unrefUnlock bp => trivial
  | compareFirst bp1 bp2 =>
      exact ⟨same bp1 (.inl rfl) ▸ right.1, same bp2 (.inr rfl) ▸ right.2⟩
  | compareSecond bp1 bp2 =>
      exact ⟨same bp1 (.inl rfl) ▸ right.1, same bp2 (.inr rfl) ▸ right.2⟩
  | compareLeave bp1 bp2 cmp =>
      obtain ⟨apart, x, y, first, second, compared⟩ := right
      exact ⟨apart, x, y, (same bp1 (.inl rfl)).trans first, (same bp2 (.inr rfl)).trans second,
        compared⟩
  | compareLast bp1 bp2 cmp =>
      obtain ⟨x, y, first, second, compared⟩ := right
      exact ⟨x, y, (same bp1 (.inl rfl)).trans first, (same bp2 (.inr rfl)).trans second, compared⟩
  | hashLock bp =>
      intro missing
      exact right ((same bp rfl).symm.trans missing)
  | hashUnlock bp hash =>
      obtain ⟨x, found, hashed⟩ := right
      exact ⟨x, (same bp rfl).trans found, hashed⟩

/-- A blob and the threads that are responsible for a reference to it. -/
def Counted (blob : Option SharedBlob) (holders : List ι) : Prop :=
  match blob with
  | none => holders = []
  | some blob => holders ≠ [] ∧ blob.refcnt.toInt = holders.length

def Sharing.Locked (s : Sharing β ι) (bp : β) : Prop :=
  ∃ blob, s.blob bp = some blob ∧ blob.mutex = true

structure Sharing.Sound (strcmp : Strcmp) (s : Sharing β ι) : Prop where
  unfaulted : s.faulted = false
  mutexes : Holding.Agrees s.Locked fun t bp => (s.activity t).Inside bp
  counted : ∀ bp, Counted (s.blob bp) (s.holders bp)
  used : ∀ t bp, (s.activity t).Uses bp → t ∈ s.holders bp
  right : ∀ t, (s.activity t).Right strcmp s.content

theorem sharing_init (strcmp : Strcmp) : (Sharing.init : Sharing β ι).Sound strcmp := by
  refine ⟨rfl, ⟨fun bp => ?_, fun t t' bp inside => ?_⟩, fun bp => rfl, fun t bp uses => ?_,
    fun t => trivial⟩
  · refine iff_of_false (fun locked => ?_) fun held => ?_
    · obtain ⟨blob, found, -⟩ := locked
      cases found
    · obtain ⟨t, inside⟩ := held
      exact inside
  · exact absurd inside (fun none => none)
  · exact absurd uses (fun none => none)

variable {strcmp : Strcmp} {s s' : Sharing β ι} {t : ι} {bp : β} {blob : SharedBlob}

/-- A blob that a thread relies on, or whose mutex it has locked, is in memory. -/
theorem Sharing.Sound.live (sound : s.Sound strcmp) (uses : (s.activity t).Uses bp) :
    ∃ blob, s.blob bp = some blob := by
  have held := sound.used t bp uses
  have counted := sound.counted bp
  cases found : s.blob bp with
  | none =>
      rw [found] at counted
      rw [show s.holders bp = [] from counted] at held
      cases held
  | some blob => exact ⟨blob, rfl⟩

theorem Sharing.Sound.locked (sound : s.Sound strcmp) (inside : (s.activity t).Inside bp) :
    ∃ blob, s.blob bp = some blob ∧ blob.mutex = true :=
  (sound.mutexes.flagged bp).mpr ⟨t, inside⟩

variable [DecidableEq β] [DecidableEq ι]

/-- A thread goes on, and one blob with its references changes. -/
def Sharing.turn (s : Sharing β ι) (t : ι) (bp : β) (blob : Option SharedBlob) (holders : List ι)
    (activity : BlobActivity β) : Sharing β ι :=
  { s with
    blob := Function.update s.blob bp blob
    holders := Function.update s.holders bp holders
    activity := Function.update s.activity t activity }

variable {blob' : Option SharedBlob} {holders : List ι} {activity : BlobActivity β}

theorem goto_turn (s : Sharing β ι) (t : ι) (bp : β) (blob : Option SharedBlob)
    (activity : BlobActivity β) :
    (s.setBlob bp blob).goto t activity = s.turn t bp blob (s.holders bp) activity := by
  unfold Sharing.turn
  rw [Function.update_eq_self]
  rfl

theorem locked_turn (q : β) : (s.turn t bp blob' holders activity).Locked q ↔
    q = bp ∧ (∃ blob, blob' = some blob ∧ blob.mutex = true) ∨ q ≠ bp ∧ s.Locked q := by
  unfold Sharing.Locked Sharing.turn
  by_cases same : q = bp
  · subst same
    simp
  · simp [same]

/-- What the threads have locked, before and after a turn. -/
theorem inside_turn (blob' : Option SharedBlob) (holders : List ι) (activity : BlobActivity β) :
    Holding.Turn (fun t bp => (s.activity t).Inside bp)
      (fun u q => ((s.turn t bp blob' holders activity).activity u).Inside q) t
      (s.activity t).Inside activity.Inside := by
  refine ⟨fun q => Iff.rfl, fun q => ?_, fun u other q => ?_⟩
  · simp [Sharing.turn]
  · simp [Sharing.turn, other]

/-- A thread locks the mutex of the blob. -/
theorem agrees_locks (sound : s.Sound strcmp) (found : s.blob bp = some blob)
    (free : blob.mutex = false) {after : SharedBlob} (locks : after.mutex = true)
    (enters : ∀ q, activity.Inside q ↔ q = bp ∨ (s.activity t).Inside q) :
    Holding.Agrees (s.turn t bp (some after) holders activity).Locked
      fun u q => ((s.turn t bp (some after) holders activity).activity u).Inside q := by
  have unlocked : ¬ s.Locked bp := by
    rintro ⟨other, same, locked⟩
    rw [found] at same
    cases same
    rw [free] at locked
    cases locked
  refine sound.mutexes.acquire t bp unlocked (fun q => ?_) fun a q =>
    (inside_turn (some after) holders activity).gets (enters q) a
  rw [locked_turn]
  by_cases same : q = bp <;> simp [same, locks]

theorem agrees_unlocks (sound : s.Sound strcmp) (inside : (s.activity t).Inside bp)
    {after : SharedBlob} (unlocks : after.mutex = false)
    (leaves : ∀ q, activity.Inside q ↔ q ≠ bp ∧ (s.activity t).Inside q) :
    Holding.Agrees (s.turn t bp (some after) holders activity).Locked
      fun u q => ((s.turn t bp (some after) holders activity).activity u).Inside q := by
  refine sound.mutexes.drop inside (fun q => ?_) fun a q =>
    (inside_turn (some after) holders activity).loses (leaves q) a
  rw [locked_turn]
  by_cases same : q = bp <;> simp [same, unlocks]

/-- The blob is not locked, neither before nor after. -/
theorem agrees_unlocked (sound : s.Sound strcmp) (free : ¬ s.Locked bp)
    (still : ¬ ∃ blob, blob' = some blob ∧ blob.mutex = true)
    (same : ∀ q, activity.Inside q ↔ (s.activity t).Inside q) :
    Holding.Agrees (s.turn t bp blob' holders activity).Locked
      fun u q => ((s.turn t bp blob' holders activity).activity u).Inside q := by
  refine sound.mutexes.congr (fun q => ?_) fun a q =>
    (inside_turn blob' holders activity).keeps (same q) a
  rw [locked_turn]
  by_cases own : q = bp
  · subst own
    simp [still, free]
  · simp [own]

/-- Everything else follows from what the turn does to the one blob. -/
theorem Sharing.Sound.turn (sound : s.Sound strcmp)
    (mutexes : Holding.Agrees (s.turn t bp blob' holders activity).Locked
      fun u q => ((s.turn t bp blob' holders activity).activity u).Inside q)
    (counted : Counted blob' holders)
    (others : ∀ u, u ≠ t → u ∈ s.holders bp → u ∈ holders)
    (content : holders ≠ [] → s.holders bp ≠ [] →
      (blob'.bind fun blob => blob.content) = s.content bp)
    (used : ∀ q, activity.Uses q → q = bp ∧ t ∈ holders ∨ q ≠ bp ∧ t ∈ s.holders q)
    (right : activity.Right strcmp (s.turn t bp blob' holders activity).content) :
    (s.turn t bp blob' holders activity).Sound strcmp := by
  have holders_turn : ∀ q, (s.turn t bp blob' holders activity).holders q =
      if q = bp then holders else s.holders q := by
    intro q
    by_cases same : q = bp <;> simp [Sharing.turn, same]
  have kept : ∀ u, u ≠ t → ∀ q, u ∈ s.holders q →
      u ∈ (s.turn t bp blob' holders activity).holders q := by
    intro u other q held
    rw [holders_turn]
    split
    · rename_i same
      exact others u other (same ▸ held)
    · exact held
  refine ⟨sound.unfaulted, mutexes, fun q => ?_, fun u q uses => ?_, fun u => ?_⟩
  · by_cases same : q = bp
    · subst same
      simpa [Sharing.turn] using counted
    · simpa [Sharing.turn, same] using sound.counted q
  · by_cases own : u = t
    · subst own
      rw [holders_turn]
      have now : (s.turn u bp blob' holders activity).activity u = activity := Function.update_self ..
      rw [now] at uses
      rcases used q uses with ⟨rfl, held⟩ | ⟨other, held⟩
      · simpa using held
      · simpa [other] using held
    · have now : (s.turn t bp blob' holders activity).activity u = s.activity u :=
        Function.update_of_ne own ..
      rw [now] at uses
      exact kept u own q (sound.used u q uses)
  · by_cases own : u = t
    · subst own
      have now : (s.turn u bp blob' holders activity).activity u = activity := Function.update_self ..
      rw [now]
      exact right
    · have now : (s.turn t bp blob' holders activity).activity u = s.activity u :=
        Function.update_of_ne own ..
      rw [now]
      refine (sound.right u).congr fun q uses => ?_
      have held := sound.used u q uses
      by_cases same : q = bp
      · subst same
        have some := content (List.ne_nil_of_mem (others u own held)) (List.ne_nil_of_mem held)
        simpa [Sharing.content, Sharing.turn] using some
      · simp [Sharing.content, Sharing.turn, same]

omit [DecidableEq β] [DecidableEq ι] in
theorem lock_cases {inside : SharedBlob → Sharing β ι} (found : s.blob bp = some blob)
    (ran : s.lock bp inside = some s') :
    blob.mutex = false ∧ s' = inside { blob with mutex := true } := by
  unfold Sharing.lock at ran
  rw [found] at ran
  dsimp only at ran
  split at ran
  · cases ran
  · rename_i free
    cases ran
    exact ⟨eq_false_of_ne_true free, rfl⟩

theorem unlock_cases (found : s.blob bp = some blob) (ran : s.unlock bp t activity = some s') :
    s' = s.turn t bp (some { blob with mutex := false }) (s.holders bp) activity := by
  unfold Sharing.unlock at ran
  rw [found] at ran
  cases ran
  exact goto_turn ..

omit [DecidableEq β] [DecidableEq ι] in
theorem content_eq (found : s.blob bp = some blob) : s.content bp = blob.content := by
  unfold Sharing.content
  rw [found]
  rfl

omit [DecidableEq β] [DecidableEq ι] in
theorem Sharing.Sound.count (sound : s.Sound strcmp) (found : s.blob bp = some blob) :
    s.holders bp ≠ [] ∧ blob.refcnt.toInt = (s.holders bp).length := by
  have counted := sound.counted bp
  rw [found] at counted
  exact counted

/-- A turn that leaves the blob as it is, its mutex apart. -/
theorem Sharing.Sound.passes (sound : s.Sound strcmp) (found : s.blob bp = some blob)
    {after : SharedBlob} (same : after.toBlob = blob.toBlob)
    (mutexes : Holding.Agrees (s.turn t bp (some after) (s.holders bp) activity).Locked
      fun u q => ((s.turn t bp (some after) (s.holders bp) activity).activity u).Inside q)
    (used : ∀ q, activity.Uses q → (s.activity t).Uses q) (right : activity.Right strcmp s.content) :
    (s.turn t bp (some after) (s.holders bp) activity).Sound strcmp := by
  have content : after.content = s.content bp := by
    rw [content_eq found, same]
  have counted : Counted (some after) (s.holders bp) := by
    unfold Counted
    dsimp only
    rw [same]
    exact sound.count found
  refine sound.turn mutexes counted (fun _ _ held => held) (fun _ _ => content) (fun q uses => ?_)
    (right.congr fun q _ => ?_)
  · have held := sound.used t q (used q uses)
    by_cases own : q = bp
    · subst own
      exact .inl ⟨rfl, held⟩
    · exact .inr ⟨own, held⟩
  · by_cases own : q = bp
    · subst own
      simpa [Sharing.content, Sharing.turn] using content
    · simp [Sharing.content, Sharing.turn, own]

theorem Sharing.Sound.locks (sound : s.Sound strcmp) (found : s.blob bp = some blob)
    (free : blob.mutex = false) (enters : ∀ q, activity.Inside q ↔ q = bp ∨ (s.activity t).Inside q)
    (used : ∀ q, activity.Uses q → (s.activity t).Uses q) (right : activity.Right strcmp s.content) :
    ((s.setBlob bp (some { blob with mutex := true })).goto t activity).Sound strcmp := by
  rw [goto_turn]
  exact sound.passes found rfl (agrees_locks sound found free rfl enters) used right

theorem Sharing.Sound.unlocks (sound : s.Sound strcmp) (inside : (s.activity t).Inside bp)
    (ran : s.unlock bp t activity = some s')
    (leaves : ∀ q, activity.Inside q ↔ q ≠ bp ∧ (s.activity t).Inside q)
    (used : ∀ q, activity.Uses q → (s.activity t).Uses q) (right : activity.Right strcmp s.content) :
    s'.Sound strcmp := by
  obtain ⟨blob, found, -⟩ := sound.locked inside
  rw [unlock_cases found ran]
  exact sound.passes found rfl (agrees_unlocks sound inside rfl leaves) used right

/-- The last unlock of a call. -/
theorem Sharing.Sound.finishes (sound : s.Sound strcmp)
    (inside : ∀ q, (s.activity t).Inside q ↔ q = bp) (ran : s.unlock bp t .idle = some s') :
    s'.Sound strcmp := by
  refine sound.unlocks ((inside bp).mpr rfl) ran (fun q => ?_) (fun q none => absurd none id) trivial
  rw [inside]
  exact iff_of_false id fun both => both.1 both.2

theorem toInt_add_one {refcnt : CInt} {n : Nat} (counts : refcnt.toInt = n) (few : n < 2 ^ 31 - 1) :
    (refcnt + 1).toInt = (n + 1 : Nat) := by
  rw [BitVec.toInt_add, counts]
  exact Int.bmod_eq_of_le (by simp; omega) (by simp; omega)

theorem toInt_sub_one {refcnt : CInt} {n : Nat} (counts : refcnt.toInt = n) (positive : 0 < n) :
    (refcnt - 1).toInt = (n - 1 : Nat) := by
  have least := BitVec.toInt_lt (x := refcnt)
  rw [BitVec.toInt_sub, counts]
  rw [counts] at least
  exact (Int.bmod_eq_of_le (by simp; omega) (by simp; omega)).trans (by simp; omega)

theorem refLock_sound (sound : s.Sound strcmp) (now : s.activity t = .refLock bp)
    (few : (s.holders bp).length < 2 ^ 31 - 1) (ran : s.lock bp (refInside t bp s) = some s') :
    s'.Sound strcmp := by
  have uses : (s.activity t).Uses bp := by
    rw [now]
    rfl
  obtain ⟨blob, found⟩ := sound.live uses
  obtain ⟨free, rfl⟩ := lock_cases found ran
  obtain ⟨_, counts⟩ := sound.count found
  refine sound.turn (agrees_locks sound found free rfl (by simp [BlobActivity.Inside, now]))
    ⟨by simp, toInt_add_one counts few⟩ (fun _ _ held => List.mem_cons_of_mem _ held)
    (fun _ _ => (content_eq found).symm) (fun q own => ?_) trivial
  exact .inl ⟨own, List.mem_cons_self ..⟩

/-- The last reference takes the blob with it. -/
theorem unrefLock_sound (sound : s.Sound strcmp) (now : s.activity t = .unrefLock bp)
    (ran : s.lock bp (unrefInside t bp s) = some s') : s'.Sound strcmp := by
  have uses : (s.activity t).Uses bp := by
    rw [now]
    rfl
  have held := sound.used t bp uses
  obtain ⟨blob, found⟩ := sound.live uses
  obtain ⟨free, rfl⟩ := lock_cases found ran
  obtain ⟨_, counts⟩ := sound.count found
  have positive := List.length_pos_of_mem held
  have fewer := List.length_erase_of_mem held
  have counts' := toInt_sub_one counts positive
  have others : ∀ u, u ≠ t → u ∈ s.holders bp → u ∈ (s.holders bp).erase t := fun u other mine =>
    (List.mem_erase_of_ne other).mpr mine
  have unlocked : ¬ s.Locked bp := by
    rintro ⟨other, same, locked⟩
    rw [found] at same
    cases same
    rw [free] at locked
    cases locked
  unfold unrefInside
  dsimp only
  split
  · rename_i zero
    rw [zero] at counts'
    have none : (s.holders bp).erase t = [] := by
      refine List.eq_nil_of_length_eq_zero ?_
      simp at counts'
      omega
    exact sound.turn (agrees_unlocked sound unlocked (by simp) (by simp [BlobActivity.Inside, now]))
      none others (fun some => absurd none some) (fun q none => absurd none id) trivial
  · rename_i more
    have some : (s.holders bp).erase t ≠ [] := by
      intro none
      rw [none, List.length_nil] at fewer
      rw [← fewer] at counts'
      exact more (BitVec.eq_of_toInt_eq counts')
    rw [← fewer] at counts'
    exact sound.turn (agrees_locks sound found free rfl (by simp [BlobActivity.Inside, now]))
      ⟨some, counts'⟩ others (fun _ _ => (content_eq found).symm) (fun q none => absurd none id)
      trivial

theorem compareSecond_sound {bp1 bp2 : β} (sound : s.Sound strcmp)
    (now : s.activity t = .compareSecond bp1 bp2)
    (ran : s.lock bp2 (compareInside strcmp t bp1 bp2 s) = some s') : s'.Sound strcmp := by
  have uses : (s.activity t).Uses bp2 := by
    rw [now]
    exact .inr rfl
  have inside : (s.activity t).Inside bp1 := by
    rw [now]
    rfl
  obtain ⟨blob, found⟩ := sound.live uses
  obtain ⟨free, rfl⟩ := lock_cases found ran
  have apart : bp1 ≠ bp2 := by
    rintro rfl
    obtain ⟨other, same, locked⟩ := sound.locked inside
    rw [found] at same
    cases same
    rw [free] at locked
    cases locked
  have right := sound.right t
  rw [now] at right
  obtain ⟨x, first⟩ := Option.ne_none_iff_exists'.mp right.1
  obtain ⟨y, second⟩ := Option.ne_none_iff_exists'.mp right.2
  have content : blob.content = some y := (content_eq found).symm.trans second
  unfold compareInside
  dsimp only
  rw [first, content]
  refine sound.locks found free ?_ ?_ ⟨apart, x, y, first, second, rfl⟩
  · intro q
    rw [now]
    exact or_comm
  · intro q own
    rw [now]
    exact own

theorem hashLock_sound (sound : s.Sound strcmp) (now : s.activity t = .hashLock bp)
    (ran : s.lock bp (hashInside t bp s) = some s') : s'.Sound strcmp := by
  have uses : (s.activity t).Uses bp := by
    rw [now]
    rfl
  obtain ⟨blob, found⟩ := sound.live uses
  obtain ⟨free, rfl⟩ := lock_cases found ran
  have right := sound.right t
  rw [now] at right
  obtain ⟨x, first⟩ := Option.ne_none_iff_exists'.mp right
  have content : blob.content = some x := (content_eq found).symm.trans first
  unfold hashInside
  dsimp only
  rw [content]
  refine sound.locks found free ?_ ?_ ⟨x, first, rfl⟩
  · intro q
    rw [now]
    simp [BlobActivity.Inside]
  · intro q own
    rw [now]
    exact own

theorem advance_sound (sound : s.Sound strcmp)
    (few : (s.activity t).Few s)
    (ran : advance strcmp t s = some s') : s'.Sound strcmp := by
  have right := sound.right t
  unfold advance at ran
  split at ran
  · cases ran
  · rename_i bp now
    rw [now] at few
    exact refLock_sound sound now few ran
  · rename_i bp now
    exact sound.finishes (by simp [now, BlobActivity.Inside]) ran
  · rename_i bp now
    exact unrefLock_sound sound now ran
  · rename_i bp now
    exact sound.finishes (by simp [now, BlobActivity.Inside]) ran
  · rename_i bp1 bp2 now
    rw [now] at right
    have uses : (s.activity t).Uses bp1 := by
      rw [now]
      exact .inl rfl
    obtain ⟨blob, found⟩ := sound.live uses
    obtain ⟨free, rfl⟩ := lock_cases found ran
    exact sound.locks found free (by simp [now, BlobActivity.Inside])
      (by simp [now, BlobActivity.Uses]) right
  · rename_i bp1 bp2 now
    exact compareSecond_sound sound now ran
  · rename_i bp1 bp2 cmp now
    rw [now] at right
    refine sound.unlocks (by simp [now, BlobActivity.Inside]) ran (fun q => ?_)
      (by simp [now, BlobActivity.Uses]) right.2
    rw [now]
    constructor
    · rintro rfl
      exact ⟨fun same => right.1 same.symm, .inr rfl⟩
    · rintro ⟨other, first | second⟩
      · exact absurd first other
      · exact second
  · rename_i bp1 bp2 cmp now
    exact sound.finishes (by simp [now, BlobActivity.Inside]) ran
  · rename_i bp now
    exact hashLock_sound sound now ran
  · rename_i bp hash now
    exact sound.finishes (by simp [now, BlobActivity.Inside]) ran

omit [DecidableEq β] in
theorem Sharing.Sound.starts (sound : s.Sound strcmp) (idle : s.activity t = .idle)
    (outside : ∀ q, ¬ activity.Inside q) (used : ∀ q, activity.Uses q → t ∈ s.holders q)
    (right : activity.Right strcmp s.content) : (s.goto t activity).Sound strcmp := by
  have now : (s.goto t activity).activity t = activity := Function.update_self ..
  have others : ∀ u, u ≠ t → (s.goto t activity).activity u = s.activity u := fun u other =>
    Function.update_of_ne other ..
  refine ⟨sound.unfaulted, sound.mutexes.congr (fun q => Iff.rfl) fun u q => ?_, sound.counted,
    fun u q uses => ?_, fun u => ?_⟩
  · by_cases own : u = t
    · rw [own, now, idle]
      exact iff_of_false (outside q) id
    · rw [others u own]
  · by_cases own : u = t
    · rw [own, now] at uses
      exact own ▸ used q uses
    · rw [others u own] at uses
      exact sound.used u q uses
  · by_cases own : u = t
    · rw [own, now]
      exact right
    · rw [others u own]
      exact sound.right u

omit [DecidableEq β] in
theorem begin_sound {call : BlobCall β} (sound : s.Sound strcmp) (idle : s.activity t = .idle)
    (held : ∀ bp ∈ call.blobs, t ∈ s.holders bp) (filled : call.Filled s) :
    (begin t s call).Sound strcmp := by
  cases call with
  | ref bp =>
      cases bp with
      | none => exact sound
      | some bp =>
          refine sound.starts idle (fun q => id) (fun q own => ?_) trivial
          exact held q (by simp [BlobCall.blobs, show q = bp from own])
  | unref bp =>
      cases bp with
      | none => exact sound
      | some bp =>
          refine sound.starts idle (fun q => id) (fun q own => ?_) trivial
          exact held q (by simp [BlobCall.blobs, show q = bp from own])
  | compare bp1 bp2 =>
      cases bp1 with
      | none => exact sound
      | some bp1 =>
          cases bp2 with
          | none => exact sound
          | some bp2 =>
              refine sound.starts idle (fun q => id) (fun q own => ?_)
                ⟨filled bp1 (by simp), filled bp2 (by simp)⟩
              exact held q (by simpa [BlobCall.blobs, BlobActivity.Uses] using own)
  | hash bp =>
      cases bp with
      | none => exact absurd filled id
      | some bp =>
          refine sound.starts idle (fun q => id) (fun q own => ?_) filled
          exact held q (by simp [BlobCall.blobs, show q = bp from own])

theorem create_sound {content : Option (List Byte)} {size : Nat} (sound : s.Sound strcmp)
    (idle : s.activity t = .idle) (free : s.blob bp = none) {made : Blob}
    (creates : blobCreate content size = some made) :
    ((s.setBlob bp (some { made with mutex := false })).setHolders bp
      (t :: s.holders bp)).Sound strcmp := by
  have none : s.holders bp = [] := by
    have counted := sound.counted bp
    rw [free] at counted
    exact counted
  have same : (s.setBlob bp (some { made with mutex := false })).setHolders bp (t :: s.holders bp) =
      s.turn t bp (some { made with mutex := false }) [t] (s.activity t) := by
    unfold Sharing.turn
    rw [Function.update_eq_self, none]
    rfl
  have unlocked : ¬ s.Locked bp := by
    rintro ⟨blob, found, -⟩
    rw [free] at found
    cases found
  have one : made.refcnt = 1 := by
    cases creates
    rfl
  rw [same]
  refine sound.turn (agrees_unlocked sound unlocked (by simp) fun q => Iff.rfl)
    ⟨by simp, by rw [one]; rfl⟩ (fun u _ held => ?_) (fun _ some => absurd none some) (fun q uses => ?_)
    ?_
  · rw [none] at held
    cases held
  · rw [idle] at uses
    exact absurd uses id
  · rw [idle]
    trivial

theorem give_sound {t' : ι} (sound : s.Sound strcmp) (idle : s.activity t = .idle)
    (held : t ∈ s.holders bp) :
    (s.setHolders bp (t' :: (s.holders bp).erase t)).Sound strcmp := by
  have same : s.setHolders bp (t' :: (s.holders bp).erase t) =
      s.turn t bp (s.blob bp) (t' :: (s.holders bp).erase t) (s.activity t) := by
    unfold Sharing.turn
    rw [Function.update_eq_self, Function.update_eq_self]
    rfl
  have length : (t' :: (s.holders bp).erase t).length = (s.holders bp).length := by
    have fewer := List.length_erase_of_mem held
    have positive := List.length_pos_of_mem held
    rw [List.length_cons]
    omega
  have counted := sound.counted bp
  rw [same]
  refine sound.turn ?_ ?_ (fun u other mine => ?_) (fun _ _ => rfl) (fun q uses => ?_) ?_
  · refine sound.mutexes.congr (fun q => ?_) fun u q => ?_
    · unfold Sharing.Locked Sharing.turn
      rw [Function.update_eq_self]
    · simp [Sharing.turn]
  · cases found : s.blob bp with
    | none =>
        rw [found] at counted
        rw [show s.holders bp = [] from counted] at held
        cases held
    | some blob =>
        refine ⟨by simp, ?_⟩
        rw [length]
        exact (sound.count found).2
  · exact List.mem_cons_of_mem _ ((List.mem_erase_of_ne other).mpr mine)
  · rw [idle] at uses
    exact absurd uses id
  · rw [idle]
    trivial

theorem blobStep_sound {action : BlobAction β ι} (sound : s.Sound strcmp)
    (promised : Promised s action) (ran : blobStep strcmp s action = some s') : s'.Sound strcmp := by
  cases action with
  | create t bp content size =>
      unfold blobStep at ran
      dsimp only at ran
      split at ran
      · rename_i blob idle free creates
        cases ran
        exact create_sound sound idle free creates
      · cases ran
  | call t call =>
      unfold blobStep at ran
      dsimp only at ran
      split at ran
      · rename_i idle
        cases ran
        exact begin_sound sound idle promised.1 promised.2
      · cases ran
  | go t => exact advance_sound sound promised ran
  | give t t' bp =>
      unfold blobStep at ran
      dsimp only at ran
      split at ran
      · rename_i idle
        cases ran
        exact give_sound sound idle promised
      · cases ran

theorem sharing_of_reachable (reached : Runs.Reachable (blobStep strcmp) Promised Sharing.init s) :
    s.Sound strcmp :=
  reached.invariant (fun s => s.Sound strcmp) (sharing_init strcmp)
    fun _ _ _ sound promised ran => blobStep_sound sound promised ran

/-- Nothing that has been freed is touched, a blob is in memory exactly as long as somebody has a
reference to it, and it counts them. -/
theorem blob_while_referenced
    (reached : Runs.Reachable (blobStep strcmp) Promised (Sharing.init : Sharing β ι) s) :
    s.faulted = false ∧ (∀ bp, s.blob bp ≠ none ↔ s.holders bp ≠ []) ∧
      ∀ bp blob, s.blob bp = some blob → blob.refcnt.toInt = (s.holders bp).length := by
  have sound := sharing_of_reachable reached
  refine ⟨sound.unfaulted, fun bp => ?_, fun bp blob found => (sound.count found).2⟩
  have counted := sound.counted bp
  cases found : s.blob bp with
  | none =>
      rw [found] at counted
      exact iff_of_false (fun some => some rfl) fun some => some counted
  | some blob => exact iff_of_true (by simp) (sound.count found).1

/-- Two threads share a blob, and the one that let go of it last frees it. -/
theorem blob_while_referenced_example : ∃ s : Sharing Nat Nat,
    Runs.Reachable (blobStep glibcStrcmp) Promised Sharing.init s ∧ s.holders 7 = [1] ∧
      s.faulted = false ∧ (∀ bp, s.blob bp ≠ none ↔ s.holders bp ≠ []) ∧
        ∀ bp blob, s.blob bp = some blob → blob.refcnt.toInt = (s.holders bp).length := by
  obtain ⟨s, -, reached, passed⟩ := @Runs.exists_reachable _ _ (blobStep glibcStrcmp) Promised
    (Sharing.init : Sharing Nat Nat)
    [.create 0 7 (some [0x61#8]) 1, .call 0 (.ref (some 7)), .go 0, .go 0, .give 0 1 7,
      .call 0 (.unref (some 7)), .go 0, .go 0]
    (fun s action => decide (Promised s action)) (fun _ _ => of_decide_eq_true) (by decide)
    (fun s => s.holders 7 = [1]) (by decide)
  exact ⟨s, reached, of_decide_eq_true passed, blob_while_referenced reached⟩

end Audible.Store
