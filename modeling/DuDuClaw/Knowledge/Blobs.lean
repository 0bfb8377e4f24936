/-
# Knowledge.Blobs -- the files of the sources

A blob is the original file of the sources with its hash.  An upload puts the file in place
before it adds the row, and takes no lock for that; a remover counts the rows and reads the
age of the file inside a transaction, and then unlinks it.

* `safe_place`: a file that an upload touches or renames into place keeps `Safe`.
* `safe_step`: a step that is undisturbed keeps it.
* `neverLost_of_undisturbed`: every state of an undisturbed run has the file of each row.
-/
import DuDuClaw.Knowledge.Jobs
import DuDuClaw.Lib.Runs

namespace DuDuClaw.Knowledge.Blobs

open DuDuClaw.Lib

/-- 600 seconds, in nanoseconds. -/
def GC_GRACE : Nat := 600 * 10 ^ 9

def isSha256Hex (s : Text) : Bool := s.length == 64 && s.all fun c => c.isDigit || 'a' ≤ c && c ≤ 'f'

structure File where
  inode : Nat
  mtime : Nat

/-- An upload between the file system steps of `commit_staged`. -/
inductive Upload where
  | idle
  | staged (sha : Text) (mtime : Nat)
  /-- The blob exists; the staged file is to be removed. -/
  | present (sha : Text)
  /-- The blob is to be opened. -/
  | dropped (sha : Text)
  /-- The time of the open file is to be set. -/
  | opened (sha : Text) (inode : Nat)
  /-- There is no blob; the staged file is to be renamed. -/
  | absent (sha : Text) (mtime : Nat)
  /-- `commit_staged` has returned; the file was touched or written at `stamp`. -/
  | committed (sha : Text) (stamp : Nat)
  deriving DecidableEq

/-- A call of `remove_if_unreferenced`. -/
inductive Remover where
  | idle
  | called (sha : Text)
  | begun (sha : Text)
  | counted (sha : Text) (free : Bool)
  /-- The age has been read. -/
  | judged (sha : Text) (removes : Bool)
  | done
  deriving DecidableEq

structure World where
  now : Nat
  /-- The directory of blobs. -/
  files : Text → Option File
  nextInode : Nat
  db : Jobs.Store
  /-- The remover whose transaction is open. -/
  lock : Option Nat
  uploads : Nat → Upload
  removers : Nat → Remover

/-- `gc` calls `remove` for one name after another, and so does a client after `deleteSource`. -/
inductive Event where
  | tick (d : Nat)
  | stage (upload : Nat) (sha : Text)
  | commitStaged (upload : Nat)
  | addSource (upload : Nat) (collectionId : Text) (bytes : Nat) (cfg : Jobs.KnowledgeConfig) (uuid : Text)
  | deleteSource (id : Text)
  | remove (remover : Nat) (sha : Text)
  | work (remover : Nat)

namespace World

def setUpload (w : World) (u : Nat) (upload : Upload) : World :=
  { w with uploads := Function.update w.uploads u upload }

def setRemover (w : World) (k : Nat) (remover : Remover) : World :=
  { w with removers := Function.update w.removers k remover }

def setFile (w : World) (sha : Text) (file : Option File) : World :=
  { w with files := Function.update w.files sha file }

def millis (w : World) : Millis := Int.ofNat (w.now / 10 ^ 6)

/-- `set_modified` on an open file, which may be in place no more. -/
def touch (w : World) (sha : Text) (inode : Nat) : World :=
  w.setFile sha ((w.files sha).map fun f => if f.inode = inode then { f with mtime := w.now } else f)

/-- The staged file keeps its time. -/
def rename (w : World) (sha : Text) (mtime : Nat) : World :=
  { w.setFile sha (some ⟨w.nextInode, mtime⟩) with nextInode := w.nextInode + 1 }

def commitStaged (w : World) (u : Nat) : World :=
  match w.uploads u with
  | .staged sha mtime =>
    if !isSha256Hex sha then w.setUpload u .idle
    else if (w.files sha).isSome then w.setUpload u (.present sha)
    else w.setUpload u (.absent sha mtime)
  | .present sha => w.setUpload u (.dropped sha)
  | .dropped sha =>
    match w.files sha with
    | some f => w.setUpload u (.opened sha f.inode)
    | none => w.setUpload u .idle
  | .opened sha inode => (w.touch sha inode).setUpload u (.committed sha w.now)
  | .absent sha mtime => (w.rename sha mtime).setUpload u (.committed sha mtime)
  | .idle | .committed _ _ => w

def addSource (w : World) (u : Nat) (collectionId : Text) (bytes : Nat) (cfg : Jobs.KnowledgeConfig)
    (uuid : Text) : World :=
  match w.uploads u, w.lock with
  | .committed sha _, none =>
    { w with db := after (Jobs.addSource ⟨collectionId, sha, bytes⟩ cfg uuid w.millis) w.db }.setUpload u
      .idle
  | _, _ => w

def deleteSource (w : World) (id : Text) : World :=
  match w.lock with
  | none => { w with db := after (Jobs.deleteSource id w.millis) w.db }
  | some _ => w

def refs (w : World) (sha : Text) : Nat := (w.db.sources.rows.filter (·.blobSha256 == sha)).length

def oldEnough (w : World) (sha : Text) : Bool :=
  (w.files sha).any fun f => f.mtime ≤ w.now && GC_GRACE ≤ w.now - f.mtime

def remove (w : World) (k : Nat) (sha : Text) : World :=
  if w.removers k = .idle ∧ isSha256Hex sha then w.setRemover k (.called sha) else w

def work (w : World) (k : Nat) : World :=
  match w.removers k with
  | .idle => w
  | .called sha =>
    if w.lock = none then { w with lock := some k }.setRemover k (.begun sha) else w
  | .begun sha => w.setRemover k (.counted sha (w.refs sha == 0))
  | .counted sha free => w.setRemover k (.judged sha (free && w.oldEnough sha))
  | .judged sha removes => (if removes then w.setFile sha none else w).setRemover k .done
  | .done => { w with lock := none }.setRemover k .idle

def step (w : World) : Event → World
  | .tick d => { w with now := w.now + d }
  | .stage u sha => if w.uploads u = .idle then w.setUpload u (.staged sha w.now) else w
  | .commitStaged u => w.commitStaged u
  | .addSource u collectionId bytes cfg uuid => w.addSource u collectionId bytes cfg uuid
  | .deleteSource id => w.deleteSource id
  | .remove k sha => w.remove k sha
  | .work k => w.work k

def NeverLost (w : World) : Prop := ∀ r ∈ w.db.sources.rows, (w.files r.blobSha256).isSome

/-- A row is added within the grace of the touch or write of its file. -/
def InTime (w : World) : Event → Prop
  | .addSource u _ _ _ _ =>
    match w.uploads u with
    | .committed _ stamp => w.now < stamp + GC_GRACE
    | _ => True
  | _ => True

instance (w : World) (e : Event) : Decidable (w.InTime e) := by
  unfold InTime
  split
  · split <;> infer_instance
  · infer_instance

/-- The remover whose transaction is open is not past its reading of the age, on its way to
unlink the file. -/
def Spared (w : World) (sha : Text) : Prop := w.lock.all fun k => w.removers k ≠ .judged sha true

/-- An upload touches the file that is in place and that no remover is about to unlink, and
puts no file in place of one with a later time that another upload relies on. -/
def Undisturbed (w : World) : Event → Prop
  | .commitStaged u =>
    match w.uploads u with
    | .opened sha inode => (∃ f, w.files sha = some f ∧ f.inode = inode) ∧ w.Spared sha
    | .absent sha mtime =>
      w.Spared sha ∧ ∀ v stamp, w.uploads v = .committed sha stamp →
        w.now < stamp + GC_GRACE → stamp ≤ mtime
    | _ => True
  | _ => True

end World

open World

/-! ## Safety -/

/-- Nobody is at work, and each row has its file. -/
structure Start (w : World) : Prop where
  lock : w.lock = none
  uploads : ∀ u, w.uploads u = .idle
  removers : ∀ k, w.removers k = .idle
  kept : w.NeverLost

def UploadSafe (w : World) : Upload → Prop
  | .staged _ mtime | .absent _ mtime => mtime ≤ w.now
  | .committed sha stamp =>
    stamp ≤ w.now ∧ (w.now < stamp + GC_GRACE → ∃ f, w.files sha = some f ∧ stamp ≤ f.mtime)
  | .idle | .present _ | .dropped _ | .opened _ _ => True

def Unreferenced (w : World) (sha : Text) : Prop := ∀ r ∈ w.db.sources.rows, r.blobSha256 ≠ sha

/-- No upload relies on the file any more. -/
def Expired (w : World) (sha : Text) : Prop :=
  ∀ u stamp, w.uploads u = .committed sha stamp → stamp + GC_GRACE ≤ w.now

def RemoverSafe (w : World) (k : Nat) : Remover → Prop
  | .idle | .called _ => True
  | .begun _ | .counted _ false | .judged _ false | .done => w.lock = some k
  | .counted sha true => w.lock = some k ∧ Unreferenced w sha
  | .judged sha true => w.lock = some k ∧ Unreferenced w sha ∧ Expired w sha

structure Safe (w : World) : Prop where
  kept : w.NeverLost
  uploads : ∀ u, UploadSafe w (w.uploads u)
  removers : ∀ k, RemoverSafe w k (w.removers k)

section Steps

variable {w w' : World} {e : Event} {sha : Text} {u k : Nat}

variable {upload : Upload} {remover : Remover} {cfg : Jobs.KnowledgeConfig} {uuid : Text} {now : Millis}
  {s : Jobs.Store} {r : Jobs.Source}

theorem Start.safe (start : Start w) : Safe w := by
  refine ⟨start.kept, fun u => ?_, fun k => ?_⟩
  · rw [start.uploads u]
    trivial
  · rw [start.removers k]
    trivial

theorem UploadSafe.mono (safe : UploadSafe w upload) (later : w.now ≤ w'.now)
    (files : ∀ sha stamp f, upload = .committed sha stamp → w'.now < stamp + GC_GRACE →
      w.files sha = some f → stamp ≤ f.mtime → ∃ f', w'.files sha = some f' ∧ stamp ≤ f'.mtime) :
    UploadSafe w' upload := by
  cases upload with
  | staged sha mtime | absent sha mtime => exact Nat.le_trans safe later
  | committed sha stamp =>
    refine ⟨Nat.le_trans safe.1 later, fun fresh => ?_⟩
    obtain ⟨f, there, young⟩ := safe.2 (by omega)
    exact files sha stamp f rfl fresh there young
  | idle | present sha | dropped sha | opened sha inode => trivial

theorem RemoverSafe.mono (safe : RemoverSafe w k remover) (lock : w'.lock = w.lock)
    (refs : ∀ sha, Unreferenced w sha → Unreferenced w' sha)
    (expired : ∀ sha, remover = .judged sha true → Expired w sha → Expired w' sha) :
    RemoverSafe w' k remover := by
  cases remover with
  | idle | called sha => trivial
  | begun sha | done => exact lock.trans safe
  | counted sha free =>
    cases free with
    | false => exact lock.trans safe
    | true => exact ⟨lock.trans safe.1, refs sha safe.2⟩
  | judged sha removes =>
    cases removes with
    | false => exact lock.trans safe
    | true => exact ⟨lock.trans safe.1, refs sha safe.2.1, expired sha rfl safe.2.2⟩

/-- While no transaction is open, a remover is before its own. -/
theorem RemoverSafe.free (safe : RemoverSafe w k remover) (other : w.lock ≠ some k)
    (w' : World) : RemoverSafe w' k remover := by
  cases remover with
  | idle | called sha => trivial
  | begun sha | done => exact absurd safe other
  | counted sha free =>
    cases free with
    | false => exact absurd safe other
    | true => exact absurd safe.1 other
  | judged sha removes =>
    cases removes with
    | false => exact absurd safe other
    | true => exact absurd safe.1 other

/-! ## Uploads -/

theorem Safe.not_judged (safe : Safe w) (spared : w.Spared sha) : w.removers k ≠ .judged sha true := by
  intro at_
  have own := safe.removers k
  rw [at_] at own
  unfold World.Spared at spared
  rw [own.1] at spared
  exact of_decide_eq_true spared at_

theorem safe_setUpload (safe : Safe w) (own : UploadSafe w upload)
    (under : ∀ sha stamp, upload ≠ .committed sha stamp) : Safe (w.setUpload u upload) := by
  refine ⟨safe.kept, fun v => ?_, fun k => ?_⟩
  · by_cases same : v = u
    · subst same
      simp only [setUpload, Function.update_self]
      exact own
    · simp only [setUpload, Function.update_of_ne same]
      exact safe.uploads v
  · refine (safe.removers k).mono rfl (fun _ => id) fun sha _ expired v stamp at_ => ?_
    by_cases same : v = u
    · subst same
      exact absurd (by simpa [setUpload] using at_) (under sha stamp)
    · exact expired v stamp (by simpa [setUpload, same] using at_)

theorem safe_place (safe : Safe w) {f : File} {stamp n : Nat} (past : stamp ≤ w.now)
    (young : stamp ≤ f.mtime) (spared : w.Spared sha)
    (others : ∀ v s, w.uploads v = .committed sha s → w.now < s + GC_GRACE → s ≤ f.mtime) :
    Safe ({ w.setFile sha (some f) with nextInode := n }.setUpload u (.committed sha stamp)) := by
  refine ⟨fun r listed => ?_, fun v => ?_, fun k => ?_⟩
  · by_cases same : r.blobSha256 = sha
    · simp [setUpload, setFile, same]
    · simpa [setUpload, setFile, same] using safe.kept r listed
  · by_cases same : v = u
    · subst same
      simp only [setUpload, Function.update_self]
      exact ⟨past, fun _ => ⟨f, by simp [setFile], young⟩⟩
    simp only [setUpload, Function.update_of_ne same]
    refine (safe.uploads v).mono (Nat.le_refl _) fun sha' s f' at_ fresh there le => ?_
    by_cases own : sha' = sha
    · subst own
      exact ⟨f, by simp [setFile], others v s at_ fresh⟩
    · exact ⟨f', by simpa [setFile, own] using there, le⟩
  · refine (safe.removers k).mono rfl (fun _ => id) fun sha' at_ expired v s committed => ?_
    have other : sha' ≠ sha := by
      rintro rfl
      exact safe.not_judged spared at_
    by_cases same : v = u
    · subst same
      simp only [setUpload, Function.update_self, Upload.committed.injEq] at committed
      exact absurd committed.1.symm other
    · simp only [setUpload, Function.update_of_ne same] at committed
      exact expired v s committed

theorem safe_commitStaged (safe : Safe w) (ok : w.Undisturbed (.commitStaged u)) : Safe (w.commitStaged u) := by
  have own := safe.uploads u
  unfold Undisturbed at ok
  unfold World.commitStaged
  cases at_ : w.uploads u with
  | idle | committed sha stamp => exact safe
  | staged sha mtime =>
    rw [at_] at own
    dsimp only
    split
    · exact safe_setUpload safe trivial (by simp)
    · split
      · exact safe_setUpload safe trivial (by simp)
      · exact safe_setUpload safe own (by simp)
  | present sha => exact safe_setUpload safe trivial (by simp)
  | dropped sha =>
    dsimp only
    split
    · exact safe_setUpload safe trivial (by simp)
    · exact safe_setUpload safe trivial (by simp)
  | opened sha inode =>
    simp only [at_] at ok
    obtain ⟨⟨f, there, rfl⟩, spared⟩ := ok
    have touched : w.touch sha f.inode = w.setFile sha (some { f with mtime := w.now }) := by
      simp [touch, there]
    simp only [touched]
    refine safe_place (n := w.nextInode) safe (Nat.le_refl _) (Nat.le_refl _) spared fun v s committed _ => ?_
    have theirs := safe.uploads v
    rw [committed] at theirs
    exact theirs.1
  | absent sha mtime =>
    simp only [at_] at ok
    rw [at_] at own
    exact safe_place safe own (Nat.le_refl _) ok.1 ok.2

/-! ## Rows -/

theorem rows_addSource {new : Jobs.NewSource}
    (listed : r ∈ (after (Jobs.addSource new cfg uuid now) s).sources.rows) :
    r ∈ s.sources.rows ∨ r.blobSha256 = new.blobSha256 := by
  obtain same | ⟨row, mid, sha, inserted, queued⟩ := Jobs.addSource_cases new cfg uuid now s
  · rw [same] at listed
    exact .inl listed
  obtain ⟨sources, -, rows, rfl⟩ := Jobs.insertSource_cases inserted
  rw [(Jobs.enqueueTx_cases queued).2.1, rows, List.mem_append, List.mem_singleton] at listed
  obtain old | rfl := listed
  · exact .inl old
  · exact .inr sha

theorem rows_deleteSource {id : Text} (listed : r ∈ (after (Jobs.deleteSource id now) s).sources.rows) :
    ∃ old ∈ s.sources.rows, old.blobSha256 = r.blobSha256 := by
  obtain same | ⟨marked, stopped, rfl, rfl, gone⟩ := Jobs.deleteSource_cases id now s
  · rw [same] at listed
    exact ⟨r, listed, rfl⟩
  rw [gone] at listed
  obtain ⟨left, -⟩ := Table.mem_deleteWhere.mp listed
  unfold Jobs.Store.editJobs Jobs.Store.editSources at left
  rw [Table.mem_update] at left
  obtain ⟨old, before, rfl⟩ := left
  refine ⟨old, before, ?_⟩
  split <;> rfl

theorem safe_addSource (safe : Safe w) {collectionId : Text} {bytes : Nat}
    (inTime : w.InTime (.addSource u collectionId bytes cfg uuid)) :
    Safe (w.addSource u collectionId bytes cfg uuid) := by
  unfold World.InTime at inTime
  unfold World.addSource
  split
  · rename_i sha stamp at_ free
    simp only [at_] at inTime
    have own := safe.uploads u
    rw [at_] at own
    obtain ⟨f, there, -⟩ := own.2 inTime
    refine safe_setUpload ⟨fun r listed => ?_, fun v => ?_, fun k => ?_⟩ trivial (by simp)
    · obtain old | new := rows_addSource listed
      · exact safe.kept r old
      · rw [new]
        exact Option.isSome_iff_exists.mpr ⟨f, there⟩
    · exact (safe.uploads v).mono (Nat.le_refl _) fun _ _ f _ _ there le => ⟨f, there, le⟩
    · exact (safe.removers k).free (by simp [free]) _
  · exact safe

theorem safe_deleteSource (safe : Safe w) (id : Text) : Safe (w.deleteSource id) := by
  unfold World.deleteSource
  split
  · rename_i free
    refine ⟨fun r listed => ?_, fun v => ?_, fun k => ?_⟩
    · obtain ⟨old, before, same⟩ := rows_deleteSource listed
      rw [← same]
      exact safe.kept old before
    · exact (safe.uploads v).mono (Nat.le_refl _) fun _ _ f _ _ there le => ⟨f, there, le⟩
    · exact (safe.removers k).free (by simp [free]) _
  · exact safe

/-! ## Removers -/

theorem safe_setRemover (safe : Safe w) (own : RemoverSafe w k remover) : Safe (w.setRemover k remover) := by
  refine ⟨safe.kept, fun u => ?_, fun j => ?_⟩
  · exact (safe.uploads u).mono (Nat.le_refl _) fun _ _ f _ _ there le => ⟨f, there, le⟩
  · by_cases same : j = k
    · subst same
      simp only [setRemover, Function.update_self]
      exact own.mono rfl (fun _ => id) fun _ _ => id
    · simp only [setRemover, Function.update_of_ne same]
      exact (safe.removers j).mono rfl (fun _ => id) fun _ _ => id

theorem unreferenced_of_refs (none_ : w.refs sha = 0) : Unreferenced w sha := by
  unfold World.refs at none_
  rw [List.length_eq_zero_iff, List.filter_eq_nil_iff] at none_
  exact fun r listed => by simpa using none_ r listed

/-- The age of a file is no more than that of what an upload did to it. -/
theorem expired_of_oldEnough (safe : Safe w) (old : w.oldEnough sha) : Expired w sha := by
  intro u stamp committed
  have own := safe.uploads u
  rw [committed] at own
  refine Nat.le_of_not_lt fun fresh => ?_
  obtain ⟨f, there, young⟩ := own.2 fresh
  simp only [oldEnough, there, Option.any_some, Bool.and_eq_true, decide_eq_true_eq] at old
  omega

theorem safe_lock (safe : Safe w) (lock : Option Nat)
    (others : ∀ j, RemoverSafe { w with lock } j (w.removers j)) : Safe { w with lock } :=
  ⟨safe.kept, fun u => (safe.uploads u).mono (Nat.le_refl _) fun _ _ f _ _ there le => ⟨f, there, le⟩, others⟩

/-- The file goes that no row and no upload relies on. -/
theorem safe_unlink (safe : Safe w) (unreferenced : Unreferenced w sha) (expired : Expired w sha) :
    Safe (w.setFile sha none) := by
  refine ⟨fun r listed => ?_, fun u => ?_, fun j => ?_⟩
  · simpa [setFile, unreferenced r listed] using safe.kept r listed
  · refine (safe.uploads u).mono (Nat.le_refl _) fun sha' stamp f at_ fresh there le => ?_
    have other : sha' ≠ sha := by
      rintro rfl
      exact absurd (expired u stamp at_) (Nat.not_le_of_lt fresh)
    exact ⟨f, by simpa [setFile, other] using there, le⟩
  · exact (safe.removers j).mono rfl (fun _ => id) fun _ _ => id

theorem safe_work (safe : Safe w) (k : Nat) : Safe (w.work k) := by
  have own := safe.removers k
  unfold World.work
  cases at_ : w.removers k with
  | idle => exact safe
  | called sha =>
    dsimp only
    split
    · rename_i free
      refine safe_setRemover (safe_lock safe (some k) fun j => ?_) rfl
      exact (safe.removers j).free (by simp [free]) _
    · exact safe
  | begun sha =>
    rw [at_] at own
    refine safe_setRemover safe ?_
    cases free : w.refs sha == 0 with
    | false => exact own
    | true => exact ⟨own, unreferenced_of_refs (beq_iff_eq.mp free)⟩
  | counted sha free =>
    rw [at_] at own
    refine safe_setRemover safe ?_
    cases free with
    | false => exact own
    | true =>
      rw [Bool.true_and]
      cases old : w.oldEnough sha with
      | false => exact own.1
      | true => exact ⟨own.1, own.2, expired_of_oldEnough safe old⟩
  | judged sha removes =>
    rw [at_] at own
    cases removes with
    | false => exact safe_setRemover safe own
    | true => exact safe_setRemover (safe_unlink safe own.2.1 own.2.2) own.1
  | done =>
    rw [at_] at own
    have idle : Safe (w.setRemover k .idle) := safe_setRemover safe trivial
    refine safe_lock idle none fun j => ?_
    by_cases same : j = k
    · subst same
      simp only [setRemover, Function.update_self]
      trivial
    · -- The others are before their transactions.
      refine (idle.removers j).free (fun held => same ?_) _
      exact (Option.some.inj (own.symm.trans held)).symm

theorem safe_step (safe : Safe w) (inTime : w.InTime e) (ok : w.Undisturbed e) : Safe (w.step e) := by
  cases e with
  | tick d =>
    refine ⟨safe.kept, fun u => ?_, fun k => ?_⟩
    · exact (safe.uploads u).mono (Nat.le_add_right _ _) fun _ _ f _ _ there le => ⟨f, there, le⟩
    · refine (safe.removers k).mono rfl (fun _ => id) fun sha _ expired u stamp committed => ?_
      exact Nat.le_trans (expired u stamp committed) (Nat.le_add_right _ _)
  | stage u sha =>
    change Safe (if _ then _ else _)
    split
    · exact safe_setUpload safe (Nat.le_refl _) (by simp)
    · exact safe
  | commitStaged u => exact safe_commitStaged safe ok
  | addSource u collectionId bytes cfg uuid => exact safe_addSource safe inTime
  | deleteSource id => exact safe_deleteSource safe id
  | remove k sha =>
    change Safe (w.remove k sha)
    unfold World.remove
    split
    · exact safe_setRemover safe trivial
    · exact safe
  | work k => exact safe_work safe k

end Steps

/-- In every state of a run whose steps are undisturbed, each row has its file. -/
theorem neverLost_of_undisturbed {w : World} (start : Start w) {events : List Event}
    (inTime : Obeys World.step World.InTime w events)
    (undisturbed : Obeys World.step World.Undisturbed w events) (front back : List Event)
    (split : events = front ++ back) : (run World.step w front).NeverLost := by
  subst split
  have kept : Safe (run World.step w front) :=
    run_invariant Safe (fun _ _ safe ok => safe_step safe ok.1 ok.2) start.safe
      ((obeys_append.mp inTime).1.and (obeys_append.mp undisturbed).1)
  exact kept.kept

/-! ### A file that is reused -/

def sha : Text := List.replicate 64 'a'

def cfg : Jobs.KnowledgeConfig := ⟨100, 100, 100, 100, 100⟩

/-- A blob that lost its last row ten minutes ago. -/
def leftover : World where
  now := GC_GRACE
  files := Function.update (fun _ => none) sha (some ⟨0, 0⟩)
  nextInode := 1
  db := .start ["c".toList]
  lock := none
  uploads _ := .idle
  removers _ := .idle

theorem start_leftover : Start leftover := by
  refine ⟨rfl, fun _ => rfl, fun _ => rfl, ?_⟩
  intro r listed
  cases listed

/-- An upload reuses the file, between the steps `before` and `after` of a remover. -/
def reuse (before after : Nat) : List Event :=
  [.stage 0 sha, .commitStaged 0, .remove 1 sha] ++ List.replicate before (.work 1) ++
    [.commitStaged 0, .commitStaged 0, .commitStaged 0] ++ List.replicate after (.work 1) ++
    [.addSource 0 "c".toList 5 cfg "1".toList]

theorem undisturbed_reuse : Obeys World.step World.Undisturbed leftover (reuse 2 3) := by
  refine ⟨trivial, trivial, trivial, trivial, trivial, trivial, trivial, ⟨⟨⟨0, 0⟩, ?_, rfl⟩, ?_⟩,
    trivial, trivial, trivial, trivial, trivial⟩
  · rfl
  · rfl

/-- Touched before its age is read, the file stays. -/
theorem neverLost_reuse : (run World.step leftover (reuse 2 3)).NeverLost :=
  neverLost_of_undisturbed start_leftover (by decide) undisturbed_reuse (reuse 2 3) [] (by simp)

/-- Touched after its age is read and before it is unlinked, the file is gone when the row is
added in time. -/
theorem reuse_lost : Start leftover ∧ Obeys World.step World.InTime leftover (reuse 3 2) ∧
    ¬(run World.step leftover (reuse 3 2)).NeverLost := by
  refine ⟨start_leftover, by decide, fun kept => ?_⟩
  have there := kept ⟨"src_1".toList, "c".toList, sha, 5, 0, .queued, none, none, 600000, 600000⟩ (by decide)
  revert there
  decide

end DuDuClaw.Knowledge.Blobs
