import Audible.Holding
import Audible.Runs
import Audible.StoreData

set_option autoImplicit false

/- Blobs that threads share (`data.c`): `blob_create`, `blob_ref`, `blob_unref`, `blob_compare` and
`blob_hash`. A step is one operation on a mutex and the code up to the next one; `none` is a thread
that has to wait. `malloc` succeeds. -/
namespace Audible.Store

/-- `BLOB` with its mutex, without its debugging copy of the content. -/
structure SharedBlob extends Blob where
  mutex : Bool

/-- A call, with the pointers it is given. -/
inductive BlobCall (β : Type)
  | ref (bp : Option β)
  | unref (bp : Option β)
  | compare (bp1 bp2 : Option β)
  | hash (bp : Option β)

/-- The next operation of a thread. `cmp` and `hash` are what the call will return. -/
inductive BlobActivity (β : Type)
  | idle
  | refLock (bp : β)
  | refUnlock (bp : β)
  | unrefLock (bp : β)
  | unrefUnlock (bp : β)
  | compareFirst (bp1 bp2 : β)
  | compareSecond (bp1 bp2 : β)
  | compareLeave (bp1 bp2 : β) (cmp : CInt)
  | compareLast (bp1 bp2 : β) (cmp : CInt)
  | hashLock (bp : β)
  | hashUnlock (bp : β) (hash : CInt)
  deriving DecidableEq

/-- The blobs in memory by their addresses, and the threads. A blob that has been freed is `none`.
Memory that is freed or NULL is `faulted` once it is touched. For every pointer to a blob that has
been handed out, `holders` has the thread that is responsible for it; the code does not keep them. -/
structure Sharing (β ι : Type) where
  blob : β → Option SharedBlob
  activity : ι → BlobActivity β
  holders : β → List ι
  faulted : Bool

variable {β ι : Type}

def Sharing.init : Sharing β ι where
  blob := fun _ => none
  activity := fun _ => .idle
  holders := fun _ => []
  faulted := false

def Sharing.fault (s : Sharing β ι) : Sharing β ι := { s with faulted := true }

variable [DecidableEq β] [DecidableEq ι]

def Sharing.setBlob (s : Sharing β ι) (bp : β) (blob : Option SharedBlob) : Sharing β ι :=
  { s with blob := Function.update s.blob bp blob }

def Sharing.setHolders (s : Sharing β ι) (bp : β) (holders : List ι) : Sharing β ι :=
  { s with holders := Function.update s.holders bp holders }

def Sharing.goto (s : Sharing β ι) (t : ι) (activity : BlobActivity β) : Sharing β ι :=
  { s with activity := Function.update s.activity t activity }

/-- `pthread_mutex_lock`, and what is done with the blob then. -/
def Sharing.lock (s : Sharing β ι) (bp : β) (inside : SharedBlob → Sharing β ι) :
    Option (Sharing β ι) :=
  match s.blob bp with
  | none => some s.fault
  | some blob => if blob.mutex then none else some (inside { blob with mutex := true })

/-- `pthread_mutex_unlock`, on the way to `activity`. -/
def Sharing.unlock (s : Sharing β ι) (bp : β) (t : ι) (activity : BlobActivity β) :
    Option (Sharing β ι) :=
  match s.blob bp with
  | none => some s.fault
  | some blob => some ((s.setBlob bp (some { blob with mutex := false })).goto t activity)

/-- The content that is found behind a pointer to a blob. -/
def Sharing.content (s : Sharing β ι) (bp : β) : Option (List Byte) :=
  (s.blob bp).bind fun blob => blob.content

/-- blob_ref, once the mutex is locked. -/
def refInside (t : ι) (bp : β) (s : Sharing β ι) (blob : SharedBlob) : Sharing β ι :=
  ((s.setBlob bp (some { blob with refcnt := blob.refcnt + 1 })).setHolders bp
    (t :: s.holders bp)).goto t (.refUnlock bp)

/-- blob_unref, once the mutex is locked. -/
def unrefInside (t : ι) (bp : β) (s : Sharing β ι) (blob : SharedBlob) : Sharing β ι :=
  let dropped := s.setHolders bp ((s.holders bp).erase t)
  if blob.refcnt - 1 = 0 then (dropped.setBlob bp none).goto t .idle
  else (dropped.setBlob bp (some { blob with refcnt := blob.refcnt - 1 })).goto t (.unrefUnlock bp)

/-- blob_compare, once both mutexes are locked. -/
def compareInside (strcmp : Strcmp) (t : ι) (bp1 bp2 : β) (s : Sharing β ι) (blob : SharedBlob) :
    Sharing β ι :=
  match s.content bp1, blob.content with
  | some content1, some content2 =>
      (s.setBlob bp2 (some blob)).goto t (.compareLeave bp1 bp2 (strcmp.cmp content1 content2))
  | _, _ => s.fault

/-- blob_hash, once the mutex is locked. -/
def hashInside (t : ι) (bp : β) (s : Sharing β ι) (blob : SharedBlob) : Sharing β ι :=
  match blob.content with
  | some content => (s.setBlob bp (some blob)).goto t (.hashUnlock bp (hashString content))
  | none => s.fault

def advance (strcmp : Strcmp) (t : ι) (s : Sharing β ι) : Option (Sharing β ι) :=
  match s.activity t with
  | .idle => none
  | .refLock bp => s.lock bp (refInside t bp s)
  | .refUnlock bp => s.unlock bp t .idle
  | .unrefLock bp => s.lock bp (unrefInside t bp s)
  | .unrefUnlock bp => s.unlock bp t .idle
  | .compareFirst bp1 bp2 =>
      s.lock bp1 fun blob => (s.setBlob bp1 (some blob)).goto t (.compareSecond bp1 bp2)
  | .compareSecond bp1 bp2 => s.lock bp2 (compareInside strcmp t bp1 bp2 s)
  | .compareLeave bp1 bp2 cmp => s.unlock bp1 t (.compareLast bp1 bp2 cmp)
  | .compareLast _ bp2 _ => s.unlock bp2 t .idle
  | .hashLock bp => s.lock bp (hashInside t bp s)
  | .hashUnlock bp _ => s.unlock bp t .idle

/-- Up to the first operation on a mutex. -/
def begin (t : ι) (s : Sharing β ι) : BlobCall β → Sharing β ι
  | .ref (some bp) => s.goto t (.refLock bp)
  | .ref none => s
  | .unref (some bp) => s.goto t (.unrefLock bp)
  | .unref none => s
  | .compare (some bp1) (some bp2) => s.goto t (.compareFirst bp1 bp2)
  | .compare _ _ => s
  | .hash (some bp) => s.goto t (.hashLock bp)
  | .hash none => s.fault

inductive BlobAction (β ι : Type)
  | create (t : ι) (bp : β) (content : Option (List Byte)) (size : Nat)
  | call (t : ι) (call : BlobCall β)
  | go (t : ι)
  | give (t t' : ι) (bp : β)

/-- A blob that is created gets memory that is not in use, and nobody else has its address. A
reference may be handed over to another thread between two calls. -/
def blobStep (strcmp : Strcmp) (s : Sharing β ι) : BlobAction β ι → Option (Sharing β ι)
  | .create t bp content size =>
      match s.activity t, s.blob bp, blobCreate content size with
      | .idle, none, some blob =>
          some ((s.setBlob bp (some { blob with mutex := false })).setHolders bp (t :: s.holders bp))
      | _, _, _ => none
  | .call t call =>
      match s.activity t with
      | .idle => some (begin t s call)
      | _ => none
  | .go t => advance strcmp t s
  | .give t t' bp =>
      match s.activity t with
      | .idle => some (s.setHolders bp (t' :: (s.holders bp).erase t))
      | _ => none

def BlobCall.blobs : BlobCall β → List β
  | .ref bp | .unref bp | .hash bp => bp.toList
  | .compare bp1 bp2 => bp1.toList ++ bp2.toList

/-- Only blobs with a content are compared and hashed. -/
def BlobCall.Filled (s : Sharing β ι) : BlobCall β → Prop
  | .ref _ | .unref _ => True
  | .compare bp1 bp2 => ∀ bp ∈ bp1.toList ++ bp2.toList, s.content bp ≠ none
  | .hash none => False
  | .hash (some bp) => s.content bp ≠ none

/-- There are not so many references to a blob that an `int` could not count another one. -/
def BlobActivity.Few (s : Sharing β ι) : BlobActivity β → Prop
  | .refLock bp => (s.holders bp).length < 2 ^ 31 - 1
  | _ => True

/-- A call is about blobs that the thread has references to. -/
def Promised (s : Sharing β ι) : BlobAction β ι → Prop
  | .create .. => True
  | .call t call => (∀ bp ∈ call.blobs, t ∈ s.holders bp) ∧ call.Filled s
  | .go t => (s.activity t).Few s
  | .give t _ bp => t ∈ s.holders bp

instance (s : Sharing β ι) (call : BlobCall β) : Decidable (call.Filled s) :=
  match call with
  | .ref _ | .unref _ => inferInstanceAs (Decidable True)
  | .compare _ _ => inferInstanceAs (Decidable (∀ _ ∈ _, _))
  | .hash none => inferInstanceAs (Decidable False)
  | .hash (some _) => inferInstanceAs (Decidable (_ ≠ _))

instance (s : Sharing β ι) (activity : BlobActivity β) : Decidable (activity.Few s) :=
  match activity with
  | .refLock _ => inferInstanceAs (Decidable (_ < _))
  | .idle | .refUnlock _ | .unrefLock _ | .unrefUnlock _ | .compareFirst _ _ | .compareSecond _ _
  | .compareLeave _ _ _ | .compareLast _ _ _ | .hashLock _ | .hashUnlock _ _ =>
      inferInstanceAs (Decidable True)

instance (s : Sharing β ι) (action : BlobAction β ι) : Decidable (Promised s action) :=
  match action with
  | .create .. => inferInstanceAs (Decidable True)
  | .call _ _ => inferInstanceAs (Decidable (_ ∧ _))
  | .go t => inferInstanceAs (Decidable ((s.activity t).Few s))
  | .give _ _ _ => inferInstanceAs (Decidable (_ ∈ _))

end Audible.Store
