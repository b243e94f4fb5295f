import NetworkFileSystem.FileHistory

/-!
# The operations on a file take place one after the other

What a handler has read or written so far fits the disk on which its operation began, since nobody
else acts on the path but readers. So each operation may be taken to happen at its last system
call, and the operations in this order are a sequential run.
-/

namespace NetworkFileSystem

open Locks Interleaving

namespace FileSystem

variable {fs fs' : FileSystem} {path path' : Path} {os : Os} {op : FileOperation}
  {v : Option FileObject} {st st' : OpState}

/-- What happens at other paths does not matter. -/
theorem Fits.apart (h : fs.Fits path op v st) (hapart : Apart fs fs' path') (hne : path ≠ path') :
    fs'.Fits path op v st := by
  obtain ⟨hnames, hobjects⟩ := hapart path hne
  have hdisk : fs'.disk path = fs.disk path := hapart.disk hne
  cases st with
  | begun => exact hdisk.trans h
  | done result => exact hdisk.trans h
  | reading i got =>
      obtain ⟨hop, hi, hv, hgot⟩ := h
      rw [← hobjects i hi] at hv hgot
      exact ⟨hop, hnames.trans hi, hv, hgot⟩
  | writing i data written =>
      obtain ⟨hop, hi, hle, htruncated⟩ := h
      rw [← hobjects i hi] at htruncated
      exact ⟨hop, hnames.trans hi, hle, htruncated⟩
  | creating i =>
      obtain ⟨hop, hi, htruncated⟩ := h
      rw [← hobjects i hi] at htruncated
      exact ⟨hop, hnames.trans hi, htruncated⟩
  | removing object => exact ⟨h.1, hdisk.trans h.2.1, h.2.2⟩

/-- Reading leaves the disk as it was. -/
theorem Fits.disk_of_read (h : fs.Fits path op v st) (hop : op.mode = .read) :
    fs.disk path = v := by
  cases st with
  | begun => exact h
  | done result => exact h
  | reading i got => exact (disk_of_names h.2.1).trans h.2.2.1.symm
  | writing i data written =>
      rw [h.1] at hop
      cases hop
  | creating i =>
      rw [h.1] at hop
      cases hop
  | removing object => exact h.2.1

theorem Fits.eq_of_read (h : fs.Fits path op v st) (hop : op.mode = .read)
    (hstep : fs.opStep path os op st = some (fs', st') ∨
      fs.transferStep os st = some (fs', st')) : fs' = fs := by
  have hbegin : (fs.beginStep path os op).1 = fs := by
    cases op with
    | read =>
        rw [beginStep]
        split <;> rfl
    | getInfo => rfl
    | _ => cases hop
  cases st with
  | begun =>
      rcases hstep with hstep | hstep
      · rw [← Prod.mk.eta (p := fs.beginStep path os op)] at hbegin
        have heq := Option.some.inj hstep
        rw [← hbegin, heq]
      · cases hstep
  | reading i got =>
      rcases hstep with hstep | hstep
      · simp only [opStep, Option.ite_none_left_eq_some, Option.some.injEq, Prod.mk.injEq] at hstep
        exact hstep.2.1.symm
      · simp only [transferStep, Option.ite_none_left_eq_some, Option.some.injEq,
          Prod.mk.injEq] at hstep
        exact hstep.2.1.symm
  | writing i data written =>
      rw [h.1] at hop
      cases hop
  | creating i =>
      rw [h.1] at hop
      cases hop
  | removing object =>
      rw [h.1] at hop
      cases hop
  | done result => rcases hstep with hstep | hstep <;> cases hstep

end FileSystem

/-! ### The sequential object -/

def FileEvent.toCall : FileEvent → Option (Linearizability.Event FileCall FileReturn)
  | .call e => some e
  | _ => none

/-- The disks of the servers, with the operations in one step. A call that does not fail gets all
that the system calls give when they work. -/
def fileObject : Linearizability.Object (ℕ → Disk) FileCall FileReturn :=
  fun disks call result disks' =>
    ∃ os d, (result.failed = false → os.Works) ∧
      call.op.apply (disks call.server) os call.path = (result.toFileResult, d) ∧
      disks' = Function.update disks call.server d

/-- A read that does not fail returns the content, as far as the buffer goes. -/
theorem fileObject_read {disks disks' : ℕ → Disk} {s : ℕ} {path : Path} {result : FileReturn}
    (h : fileObject disks ⟨s, path, .read⟩ result disks') (hworks : result.failed = false) :
    disks' = disks ∧ match disks s path with
      | none => result.code = .fileNotFound
      | some (.file content) =>
        result.code = .success ∧ result.data = content.take (maxDataSize - 1)
      | some _ => result.code = .success := by
  obtain ⟨os, d, hos, happly, rfl⟩ := h
  obtain ⟨-, hopened, -, -, -, hreadable, -⟩ := hos hworks
  have hmin : min (maxDataSize - 1) os.readable = maxDataSize - 1 :=
    min_eq_left ((Nat.sub_le _ _).trans hreadable)
  obtain ⟨hresult, rfl⟩ := Prod.mk.inj happly
  refine ⟨Function.update_eq_self _ _, ?_⟩
  rw [← hresult]
  rcases hdisk : disks s path with _ | _ | _ | _ <;>
    simp only [Disk.ssRead, hdisk, hopened, hmin, Disk.contents, and_self]

/-- A write that does not fail stores all its bytes, unless there is a directory or a device. -/
theorem fileObject_write {disks disks' : ℕ → Disk} {s : ℕ} {path : Path} {data : List UInt8}
    {result : FileReturn} (h : fileObject disks ⟨s, path, .write data⟩ result disks')
    (hworks : result.failed = false) (hlen : data.length ≤ maxDataSize)
    (hdir : disks s path ≠ some .dir) (hspecial : disks s path ≠ some .special) :
    result.code = .success ∧
      disks' = Function.update disks s
        (Function.update (disks s) path (some (.file data))) := by
  obtain ⟨os, d, hos, happly, rfl⟩ := h
  obtain ⟨-, hopened, -, -, -, -, hwritable, hflushed⟩ := hos hworks
  have hmin : data.take (min os.writable os.flushed) = data :=
    List.take_of_length_le (hlen.trans (le_min hwritable hflushed))
  have hopen : (disks s).openWrite os path =
      some (Function.update (disks s) path (some (.file []))) := by
    rcases hdisk : disks s path with _ | _ | _ | _
    case some.dir => exact absurd hdisk hdir
    case some.special => exact absurd hdisk hspecial
    all_goals simp [Disk.openWrite, hdisk, hopened]
  have hwrite : (disks s).ssWrite os path data =
      (.success, Function.update (disks s) path (some (.file data))) := by
    rw [Disk.ssWrite, hopen]
    simp [Disk.store, hmin, hlen.trans hwritable]
  obtain ⟨hresult, rfl⟩ := Prod.mk.inj happly
  rw [← hresult]
  exact ⟨congrArg Prod.fst hwrite, congrArg (fun x => Function.update disks s x.2) hwrite⟩

namespace FileThread

def phase : FileThread → Linearizability.Phase FileCall FileReturn
  | .operating job _ => .pending job.toFileCall
  | .releasing job result | .unlocking job result => .finished job.toFileCall result
  | _ => .idle

/-- The operation has got as far as it says, on the sequential disk. -/
def Fits (files : ℕ → FileSystem) (disks : ℕ → Disk) : FileThread → Prop
  | .operating job st =>
    (files job.server).Fits job.path job.op (disks job.server job.path) st
  | .releasing job _ | .unlocking job _ =>
    (files job.server).Fits job.path job.op (disks job.server job.path) .begun
  | _ => True

variable {t : FileThread} {files files' : ℕ → FileSystem} {disks disks' : ℕ → Disk}

/-- Only the files of which the handler holds the lock matter. -/
theorem Fits.kept (h : t.Fits files disks) (hkept : ∀ s path m, t.HoldsFile s path m →
    disks' s path = disks s path ∧
      ∀ op v st, (files s).Fits path op v st → (files' s).Fits path op v st) :
    t.Fits files' disks' := by
  cases t with
  | operating job _ | releasing job _ | unlocking job _ =>
      obtain ⟨hdisk, hfits⟩ := hkept job.server job.path job.op.mode ⟨rfl, rfl, rfl⟩
      rw [Fits, hdisk]
      exact hfits _ _ _ h
  | _ => trivial

end FileThread

/-- The disks are those that the operations leave one after the other, except where a writer has
got halfway. -/
structure SerialInvariant (w : FileWorld) (disks : ℕ → Disk) : Prop where
  locks : FileLockInvariant w
  wellFormed : ∀ s, (w.shared.files s).WellFormed
  fits : ∀ r, (w.locals r).Fits w.shared.files disks
  settled : ∀ s path, (∀ r, ¬(w.locals r).HoldsFile s path .write) →
    (w.shared.files s).disk path = disks s path

variable {route : CString → Int32 → Option ℕ} {w : FileWorld} {r : ℕ} {a : FileAction}
  {x : FileShared × FileThread × List FileEvent} {disks disks' : ℕ → Disk}

/-- A step that leaves the files alone. -/
theorem SerialInvariant.silent (hw : SerialInvariant w disks)
    (hx : fileProcess route r w.shared (w.locals r) a = some x)
    (hfiles : x.1.files = w.shared.files) (hfits : x.2.1.Fits w.shared.files disks)
    (hholds : ∀ s path, (w.locals r).HoldsFile s path .write →
      ¬x.2.1.HoldsFile s path .write → (w.shared.files s).disk path = disks s path) :
    SerialInvariant (w.after r x) disks := by
  refine ⟨hw.locks.after hx, fun s => ?_, fun q => ?_, fun s path hnone => ?_⟩
  · rw [World.shared_after, hfiles]
    exact hw.wellFormed s
  · rw [World.shared_after, hfiles]
    by_cases hq : q = r
    · subst hq
      rw [World.locals_after_self]
      exact hfits
    · rw [World.locals_after_ne hq]
      exact hw.fits q
  · rw [World.shared_after, hfiles]
    have hmine := hnone r
    rw [World.locals_after_self] at hmine
    by_cases hr : (w.locals r).HoldsFile s path .write
    · exact hholds s path hr hmine
    · refine hw.settled s path fun q => ?_
      by_cases hq : q = r
      · subst hq
        exact hr
      · have hother := hnone q
        rwa [World.locals_after_ne hq] at hother

/-- A step on the file of which the handler holds the lock. -/
theorem SerialInvariant.operated (hw : SerialInvariant w disks)
    (hx : fileProcess route r w.shared (w.locals r) a = some x) {job : FileJob}
    (hmine : (w.locals r).HoldsFile job.server job.path job.op.mode) {fs : FileSystem}
    (hfiles : x.1.files = Function.update w.shared.files job.server fs) (hfs : fs.WellFormed)
    (hapart : FileSystem.Apart (w.shared.files job.server) fs job.path)
    (hdisks : ∀ s path, s ≠ job.server ∨ path ≠ job.path → disks' s path = disks s path)
    (hread : job.op.mode = .read → fs = w.shared.files job.server ∧
      disks' job.server job.path = disks job.server job.path)
    (hfits : x.2.1.Fits x.1.files disks')
    (hholds : ∀ s path m, x.2.1.HoldsFile s path m ↔ (w.locals r).HoldsFile s path m) :
    SerialInvariant (w.after r x) disks' := by
  refine ⟨hw.locks.after hx, fun s => ?_, fun q => ?_, fun s path hnone => ?_⟩
  · rw [World.shared_after, hfiles]
    by_cases hs : s = job.server
    · subst hs
      rw [Function.update_self]
      exact hfs
    · rw [Function.update_of_ne hs]
      exact hw.wellFormed s
  · rw [World.shared_after]
    by_cases hq : q = r
    · subst hq
      rw [World.locals_after_self]
      exact hfits
    · rw [World.locals_after_ne hq, hfiles]
      refine (hw.fits q).kept fun s path m hholds' => ?_
      by_cases hs : s = job.server
      · subst hs
        rw [Function.update_self]
        by_cases hpath : path = job.path
        · subst hpath
          -- nobody else holds the lock unless both read
          have hmode : job.op.mode = .read := by
            cases hop : job.op.mode with
            | read => rfl
            | write => exact absurd (hw.locks.exclusive (hop ▸ hmine) hholds') hq
          obtain ⟨hfs, hdisk⟩ := hread hmode
          exact ⟨hdisk, fun op v st h => hfs ▸ h⟩
        · exact ⟨hdisks _ _ (Or.inr hpath), fun op v st h => h.apart hapart hpath⟩
      · rw [Function.update_of_ne hs]
        exact ⟨hdisks _ _ (Or.inl hs), fun op v st => id⟩
  · rw [World.shared_after, hfiles]
    have hbefore : ∀ q, ¬(w.locals q).HoldsFile s path .write := by
      intro q
      have hafter := hnone q
      by_cases hq : q = r
      · subst hq
        rwa [World.locals_after_self, hholds] at hafter
      · rwa [World.locals_after_ne hq] at hafter
    have hold := hw.settled s path hbefore
    by_cases hs : s = job.server
    · subst hs
      rw [Function.update_self]
      by_cases hpath : path = job.path
      · subst hpath
        have hmode : job.op.mode = .read := by
          cases hop : job.op.mode with
          | read => rfl
          | write => exact absurd (hop ▸ hmine) (hbefore r)
        obtain ⟨hfs, hdisk⟩ := hread hmode
        rw [hfs, hdisk]
        exact hold
      · rw [hapart.disk hpath, hdisks _ _ (Or.inr hpath)]
        exact hold
    · rw [Function.update_of_ne hs, hdisks _ _ (Or.inl hs)]
      exact hold

/-- Between the first and the last system call nothing happens to the sequential disks. -/
theorem SerialInvariant.goesOn (hw : SerialInvariant w disks) {job : FileJob}
    {st st' : OpState} {fs : FileSystem} {os : Os} {es : List FileEvent}
    (ht : w.locals r = .operating job st)
    (hx : fileProcess route r w.shared (w.locals r) a =
      some (w.shared.setFs job.server fs, .operating job st', es))
    (hdone : ∀ result, st' ≠ .done result)
    (h : (w.shared.files job.server).opStep job.path os job.op st = some (fs, st') ∨
      (w.shared.files job.server).transferStep os st = some (fs, st')) :
    SerialInvariant (w.after r (w.shared.setFs job.server fs, .operating job st', es)) disks := by
  have hfits := hw.fits r
  rw [ht] at hfits
  have hmoved : FileSystem.Moved (w.shared.files job.server) job.path os job.op
      (disks job.server job.path) fs st' :=
    h.elim ((hw.wellFormed job.server).opStep hfits) ((hw.wellFormed job.server).transferStep hfits)
  have hholds : (w.locals r).HoldsFile job.server job.path job.op.mode := ht ▸ ⟨rfl, rfl, rfl⟩
  refine hw.operated hx hholds (w.shared.files_setFs _ _)
    hmoved.wellFormed hmoved.apart (fun _ _ _ => rfl)
    (fun hmode => ⟨hfits.eq_of_read hmode h, rfl⟩) ?_ (fun s path m => by rw [ht]; rfl)
  rw [w.shared.files_setFs, FileThread.Fits, Function.update_self]
  exact hmoved.further hdone

/-- At the last system call the operation takes place on the sequential disks. -/
theorem SerialInvariant.acts (hw : SerialInvariant w disks) {job : FileJob} {st : OpState}
    {fs : FileSystem} {os : Os} {result : FileReturn} {es : List FileEvent}
    (ht : w.locals r = .operating job st)
    (hx : fileProcess route r w.shared (w.locals r) a =
      some (w.shared.setFs job.server fs, .releasing job result, es))
    (hworks : result.failed = false → os.Works)
    (h : (w.shared.files job.server).opStep job.path os job.op st =
      some (fs, .done result.toFileResult)) :
    ∃ disks', SerialInvariant
        (w.after r (w.shared.setFs job.server fs, .releasing job result, es)) disks' ∧
      fileObject disks job.toFileCall result disks' := by
  have hfits := hw.fits r
  rw [ht] at hfits
  have hmoved : FileSystem.Moved (w.shared.files job.server) job.path os job.op
      (disks job.server job.path) fs (.done result.toFileResult) :=
    (hw.wellFormed job.server).opStep hfits h
  obtain ⟨os', hos', happly⟩ := hmoved.done _ rfl
  have hself : Function.update disks job.server (Function.update (disks job.server) job.path
      (fs.disk job.path)) job.server job.path = fs.disk job.path := by
    rw [Function.update_self, Function.update_self]
  refine ⟨Function.update disks job.server (Function.update (disks job.server) job.path
    (fs.disk job.path)), ?_, os', _, fun hfailed => hos' (hworks hfailed), happly _ rfl, rfl⟩
  have hholds : (w.locals r).HoldsFile job.server job.path job.op.mode := ht ▸ ⟨rfl, rfl, rfl⟩
  refine hw.operated hx hholds (w.shared.files_setFs _ _)
    hmoved.wellFormed hmoved.apart (fun s path hne => ?_) (fun hmode => ?_) ?_
    (fun s path m => by rw [ht]; rfl)
  · by_cases hs : s = job.server
    · subst hs
      rw [Function.update_self, Function.update_of_ne (hne.resolve_left (fun h => h rfl))]
    · rw [Function.update_of_ne hs]
  · have hfs := hfits.eq_of_read hmode (Or.inl h)
    refine ⟨hfs, ?_⟩
    rw [hself, hfs]
    exact hfits.disk_of_read hmode
  · rw [w.shared.files_setFs, FileThread.Fits, Function.update_self, hself]
    rfl

/-- Each step of a handler moves it in its operation, and the sequential disks accordingly. -/
theorem SerialInvariant.after (hw : SerialInvariant w disks)
    (hx : fileProcess route r w.shared (w.locals r) a = some x) :
    ∃ disks', SerialInvariant (w.after r x) disks' ∧
      Linearizability.Moves fileObject disks (w.locals r).phase (x.2.2.filterMap FileEvent.toCall)
        disks' x.2.1.phase := by
  have hcases := fileProcess_cases hx
  have hfits := hw.fits r
  have hlocated := (hw.locks.owns r).located
  have hsilent := hw.silent hx
  obtain ⟨sh', t', es⟩ := x
  generalize ht : w.locals r = t at hcases hfits hlocated hsilent ⊢
  have hquiet : sh'.files = w.shared.files → t'.Fits w.shared.files disks →
      (∀ s path, ¬t.HoldsFile s path .write) → SerialInvariant (w.after r (sh', t', es)) disks :=
    fun hfiles hfits hout => hsilent hfiles hfits fun s path hheld _ => (hout s path hheld).elim
  rcases hcases with ⟨rfl, hstart⟩ | hstep
  · cases hstart <;> exact ⟨disks, hquiet rfl trivial fun _ _ => id, .silent _ _⟩
  · cases hstep with
    | acquire =>
        exact ⟨disks, hquiet (w.shared.files_setMutex _ _) trivial fun _ _ => id, .silent _ _⟩
    | find =>
        exact ⟨disks, hquiet (w.shared.files_setTable _ _) trivial fun _ _ => id, .silent _ _⟩
    | leave =>
        exact ⟨disks, hquiet (w.shared.files_setMutex _ _) trivial fun _ _ => id, .silent _ _⟩
    | leaveFailed =>
        exact ⟨disks, hquiet (w.shared.files_setMutex _ _) trivial fun _ _ => id, .silent _ _⟩
    | lockFailed => exact ⟨disks, hquiet rfl trivial fun _ _ => id, .silent _ _⟩
    | @lock job n hgrant =>
        refine ⟨disks, hquiet (w.shared.files_lockFile _ _ _ _) ?_ fun _ _ => id, .invoke _ _⟩
        exact hw.settled _ _ (hw.locks.not_holdsFile hlocated hgrant (Or.inr rfl))
    | @operate job st fs st' os hdone hop =>
        exact ⟨disks, hw.goesOn ht hx hdone hop, .silent _ _⟩
    | @act job st fs result os hfails hworks hop =>
        obtain ⟨disks', hw', hobject⟩ := hw.acts ht hx hworks hop
        exact ⟨disks', hw', .act hobject⟩
    | acquireAgain =>
        refine ⟨disks, hsilent (w.shared.files_setMutex _ _) hfits ?_, .silent _ _⟩
        exact fun s path hheld hleft => absurd hheld hleft
    | @unlock job result n hfind =>
        refine ⟨disks, hsilent (w.shared.files_unlockFile _ _ _ _) trivial ?_, .ret _ _ _⟩
        rintro s path ⟨rfl, rfl, -⟩ -
        exact hfits
    | @unlockNothing job result hfind =>
        obtain ⟨n, hn⟩ := hlocated
        cases hn.symm.trans hfind
    | leaveAgain =>
        exact ⟨disks, hquiet (w.shared.files_setMutex _ _) trivial fun _ _ => id, .silent _ _⟩
    | answer => exact ⟨disks, hquiet rfl trivial fun _ _ => id, .silent _ _⟩
    | answerCopy hmail hes =>
        rcases hes with rfl | rfl <;>
          exact ⟨disks, hquiet rfl trivial fun _ _ => id, .silent _ _⟩
    | copyFailed => exact ⟨disks, hquiet rfl trivial fun _ _ => id, .silent _ _⟩
    | copy => exact ⟨disks, hquiet rfl trivial fun _ _ => id, .silent _ _⟩
    | send => exact ⟨disks, hquiet rfl trivial fun _ _ => id, .silent _ _⟩
    | sendFailed => exact ⟨disks, hquiet rfl trivial fun _ _ => id, .silent _ _⟩
    | receive => exact ⟨disks, hquiet rfl trivial fun _ _ => id, .silent _ _⟩

theorem serialInvariant_start {files : ℕ → FileSystem} (hnames : ∀ s, (files s).WellFormed) :
    SerialInvariant (fileStart files) fun s => (files s).disk where
  locks := fileLockInvariant_start files
  wellFormed := hnames
  fits _ := trivial
  settled _ _ _ := rfl

/-- A request to write has a size within the array. -/
def FileAction.Sized : FileAction → Prop
  | .start _ _ msg => msg.Sized
  | _ => True

instance : DecidablePred FileAction.Sized
  | .start _ _ msg => inferInstanceAs (Decidable msg.Sized)
  | .accept _ | .step _ | .transfer _ | .fail _ => isTrue trivial

/-- A WRITE_FILE that comes during a READ_FILE, up to the middle of its bytes. No call fails. -/
def writeDuringRead : List (ℕ × FileAction) :=
  let msg : Message := { Message.zero with
    path := .ofBytes _ [47, 97], data := .ofBytes _ [120, 121, 122], dataSize := 3 }
  [(0, .start .client 0 { msg with operation := .readFile }),
    (1, .start .client 0 { msg with operation := .writeFile })] ++
    List.replicate 5 (0, .step .ok) ++ List.replicate 3 (1, .step .ok) ++
    [(0, .transfer { Os.ok with readable := 1 }), (0, .transfer .ok)] ++
    List.replicate 5 (0, .step .ok) ++ List.replicate 2 (1, .step .ok) ++
    [(1, .transfer { Os.ok with flushed := 1 })]

def FileEvent.response : FileEvent → Option Message
  | .replied msg => some msg
  | _ => none

end NetworkFileSystem
