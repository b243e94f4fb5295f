import NetworkFileSystem.OneDisk

/-!
# Lost replies

If the reply to a DELETE_FILE is lost after the storage server removed the file, the naming server
keeps the path. From then on the path can be neither deleted nor created, until a WRITE_FILE, a
COPY_FILE to it or a registration brings the file back.
-/

namespace NetworkFileSystem

namespace Cluster

open Machine

section

variable {F : Type} [DecidableEq F] (net : Network) (resolve : Server → Path → F)

/-- The trie leads to a server that does not have the file. -/
structure Orphaned (cl : Cluster F) (p : Path) : Prop where
  fresh : cl.nm.Fresh
  home : ∃ slot s, cl.nm.search p = some slot ∧ Listens net (cl.nm.registeredSs slot) s ∧
    cl.files (resolve s p) = none

/-- The request may bring the file back. -/
def Restores (p : Path) (msg : Message) : Prop :=
  msg.operation = .writeFile ∧ msg.path.str = p ∨
    msg.operation = .copyFile ∧ msg.path2.str = p ∨
    msg.operation = .registerSs ∧ p ∈ msg.listedPaths

instance (p : Path) (msg : Message) : Decidable (Restores p msg) :=
  inferInstanceAs (Decidable (_ ∨ _))

/-- A creation is refused since the file exists, and everything else fails since it does not. -/
def Fails (p : Path) (req : ClientRequest) (x : Exchange) : Prop :=
  req.msg.path.str = p →
    (req.msg.operation = .createFile → x = .replied (.nack .fileExists)) ∧
    (req.msg.operation = .deleteFile ∨ req.msg.operation = .readFile ∨
      req.msg.operation = .getFileInfo ∨ req.msg.operation = .copyFile → ¬ x.Succeeded)

variable {net resolve} {files₀ : Files F} {cl cl' : Cluster F} {req : ClientRequest} {p : Path}

omit [DecidableEq F] in
theorem Orphaned.frame (h : Orphaned net resolve cl p) (hfresh : cl'.nm.Fresh)
    (hsearch : cl'.nm.search p = cl.nm.search p)
    (haddress : ∀ j : Slot, j.val < cl.nm.numRegisteredSs.val →
      cl'.nm.address j = cl.nm.address j)
    (hfiles : ∀ s, cl.files (resolve s p) = none → cl'.files (resolve s p) = none) :
    Orphaned net resolve cl' p := by
  obtain ⟨slot, s, hslot, hs, hnone⟩ := h.home
  have hlt := h.fresh.registered p slot hslot
  exact ⟨hfresh, slot, s, hsearch.trans hslot, hs.congr (haddress slot hlt), hfiles s hnone⟩

/-- A server without the file neither deletes nor reads it. -/
theorem serve_missing (disk : Disk) (os : Os) {msg : Message} (h : disk msg.path.str = none)
    (hop : msg.operation = .deleteFile ∨ msg.operation = .readFile ∨
      msg.operation = .getFileInfo) :
    ¬ (serve disk os msg).1.Succeeded ∧ (serve disk os msg).2 = disk := by
  have hmissing : ErrorCode.fileNotFound ≠ .success := by decide
  have hbusy : ErrorCode.fileInUse ≠ .success := by decide
  rcases hop with hop | hop | hop
  · refine (serve_delete_outcome disk os hop).resolve_left fun hdeleted => ?_
    rw [serve_delete hop] at hdeleted
    rcases disk.deleteFile_cases os msg with ⟨code, hcode, heq⟩ | ⟨hsome, -⟩
    · rw [heq] at hdeleted
      exact hcode ((Message.result_succeeded_iff code).mp hdeleted.1)
    · rw [h] at hsome
      cases hsome
  · refine ⟨fun hread => ?_, serve_disk_of_other (by simp [hop]) (by simp [hop]) (by simp [hop])⟩
    rw [serve_read hop] at hread
    have hcode : (disk.readFile os msg).1 = .success := hread.2
    rw [Disk.readFile, Disk.ssRead, h] at hcode
    split_ifs at hcode
    · exact hmissing (by simpa using hcode)
    · exact hbusy hcode
  · refine ⟨fun hinfo => ?_, serve_disk_of_other (by simp [hop]) (by simp [hop]) (by simp [hop])⟩
    have hserve : (serve disk os msg).1 = .infoResult (disk.getFileInfo os msg).1
        (disk.getFileInfo os msg).2.1 (disk.getFileInfo os msg).2.2 := by
      simp only [serve, hop]
    rw [hserve] at hinfo
    have hcode : (disk.getFileInfo os msg).1 = .success := hinfo.2
    rw [Disk.getFileInfo, Disk.ssGetInfo, h] at hcode
    split_ifs at hcode
    · exact hmissing (by simpa using hcode)
    · exact hbusy hcode

theorem copyReply_not_succeeded {e : Exchange} (h : ¬ e.Succeeded) : ¬ e.copyReply.Succeeded := by
  cases e with
  | replied response =>
      have hresponse : ¬ response.Succeeded := fun hs => h ⟨response, rfl, hs⟩
      simp [Exchange.copyReply, Exchange.result, hresponse, Message.nack_not_succeeded]
  | _ => exact Message.nack_not_succeeded _

omit [DecidableEq F] in
theorem exchange_not_succeeded (link : Link) (files : Files F) {served : Message × Files F}
    (h : ¬ served.1.Succeeded) : ¬ (link.exchange files served).1.Succeeded := by
  rintro ⟨response, heq, hs⟩
  cases link with
  | works =>
      obtain rfl : served.1 = response := Exchange.replied.inj heq
      exact h hs
  | fails f => cases f <;> cases heq
  | lost => cases heq

/-- What is passed on to a server without the file fails, and changes nothing there. -/
theorem serveAt_missing {s : Server} {os : Os} {msg : Message}
    (h : cl.files (resolve s msg.path.str) = none)
    (hop : msg.operation = .deleteFile ∨ msg.operation = .readFile ∨
      msg.operation = .getFileInfo) (link : Link) :
    ¬ (link.exchange cl.files (serveAt resolve cl.files s os msg)).1.Succeeded ∧
      (link.exchange cl.files (serveAt resolve cl.files s os msg)).2 = cl.files := by
  obtain ⟨hreply, hdisk⟩ := serve_missing (fun path => cl.files (resolve s path)) os h hop
  refine ⟨exchange_not_succeeded link _ hreply, ?_⟩
  have hsame : (serveAt resolve cl.files s os msg).2 = cl.files := by
    change Function.update cl.files _ ((serve _ os msg).2 msg.path.str) = cl.files
    rw [hdisk, Function.update_eq_self]
  cases link with
  | fails f => rfl
  | works | lost => exact hsame

theorem copyAt_missing {s : Server} {dest : StorageServerInfo}
    (h : cl.files (resolve s req.msg.path.str) = none) (link : Link) :
    ¬ (link.exchange cl.files
      (copyAt net resolve cl.files s req (req.msg.copyRequest dest))).1.Succeeded := by
  have hpath : (req.msg.copyRequest dest).path.str = req.msg.path.str :=
    CharArray.str_ofBytes req.msg.path.zero_notMem_str req.sendable.1
  have hcode : (Disk.readFile (fun path => cl.files (resolve s path)) req.os
      (req.msg.copyRequest dest)).1 ≠ .success := by
    rw [Disk.readFile, Disk.ssRead, hpath, h]
    split_ifs
    · simp [ErrorCode.fileNotFound, ErrorCode.success]
    · simp [ErrorCode.fileInUse, ErrorCode.success]
  refine exchange_not_succeeded link _ ?_
  rw [copyAt]
  dsimp only
  rw [if_neg hcode]
  exact Message.nack_not_succeeded _

/-- A request for another path leaves the orphan alone. -/
theorem Orphaned.of_other (h : Orphaned net resolve cl p) (hresolve : Function.Injective2 resolve)
    {x : Exchange} (hhandle : cl.handle net resolve req = some (cl', x))
    (hregister : req.msg.operation ≠ .registerSs) (hfresh : cl'.nm.Fresh)
    (htarget : p ≠ req.msg.target) : Orphaned net resolve cl' p := by
  obtain ⟨hsearch, haddress⟩ := agreeExcept_of_handle hregister hhandle
  refine h.frame hfresh (hsearch p htarget) (fun j _ => haddress j) fun s hnone => ?_
  rw [handle_of_ne hhandle fun s' heq => htarget (hresolve heq).2]
  exact hnone

theorem orphaned_registerSs (h : Orphaned net resolve cl p)
    (hkeeps : cl.KeepsCacheFresh net resolve req) (hop : req.msg.operation = .registerSs)
    (hlisted : p ∉ req.msg.listedPaths) :
    ∃ cl' x, cl.handle net resolve req = some (cl', x) ∧ Orphaned net resolve cl' p := by
  have hlookup : ¬ req.msg.IsLookup := by simp [Message.IsLookup, hop]
  have hfits : NamingServer.FitsArrays req.msg := fun _ => req.sendable.2.2.2.2
  obtain ⟨nm', reply, hnm, hfresh⟩ := h.fresh.handleConnection hfits hkeeps
  have hforward : cl.forward net resolve req = (.receiveFailed, cl.files) := by
    simp only [forward, NamingServer.forwards, hop]
  have hfinish : finish net resolve cl.files req reply = (.replied reply, cl.files) :=
    if_neg fun hf => hlookup hf.2
  have hhandle := handle_eq hnm
  rw [hforward, hfinish] at hhandle
  replace hnm : cl.nm.registerSs req.msg = some (nm', reply) := by
    simpa only [NamingServer.handleConnection, hop] using hnm
  refine ⟨_, _, hhandle, ?_⟩
  cases hslot : cl.nm.nextSlot with
  | none =>
      rw [NamingServer.registerSs, hslot] at hnm
      obtain ⟨rfl, rfl⟩ := Prod.mk.inj (Option.some.inj hnm)
      exact h
  | some slot =>
      obtain ⟨-, -, -, hold, hsearch⟩ := registered_eq hslot hnm
      have hcount := NamingServer.nextSlot_eq_some hslot
      refine h.frame hfresh ((hsearch p).trans (if_neg hlisted)) (fun j hj => ?_) fun _ hs => hs
      refine hold j fun heq => ?_
      rw [heq, hcount] at hj
      exact hj.ne rfl

theorem orphaned_lookup (h : Orphaned net resolve cl p) (hresolve : Function.Injective2 resolve)
    (hkeeps : cl.KeepsCacheFresh net resolve req) (hlookup : req.msg.IsLookup)
    (hwrite : req.msg.operation = .writeFile → req.msg.path.str ≠ p) :
    ∃ cl' x, cl.handle net resolve req = some (cl', x) ∧ Orphaned net resolve cl' p ∧
      Fails p req x := by
  obtain ⟨nm', cache, hframe, hfresh, hhandle⟩ := handle_lookup h.fresh hkeeps hlookup
  have hregister : req.msg.operation ≠ .registerSs := by
    rcases hlookup with hop | hop | hop <;> simp [hop]
  have htarget := target_of_isLookup hlookup
  refine ⟨_, _, hhandle, ?_⟩
  by_cases hpath : req.msg.path.str = p
  swap
  · exact ⟨h.of_other hresolve hhandle hregister hfresh (htarget.symm ▸ Ne.symm hpath),
      fun heq => absurd heq hpath⟩
  subst hpath
  have hop : req.msg.operation = .deleteFile ∨ req.msg.operation = .readFile ∨
      req.msg.operation = .getFileInfo := by
    rcases hlookup with hop | hop | hop
    · exact Or.inr (Or.inl hop)
    · exact absurd rfl (hwrite hop)
    · exact Or.inr (Or.inr hop)
  have hcreate : req.msg.operation ≠ .createFile := by
    rcases hlookup with hop | hop | hop <;> simp [hop]
  obtain ⟨slot, s, hslot, hs, hnone⟩ := h.home
  rw [hslot, Option.map_some, Message.answerLookup, finish_located hs hlookup]
  obtain ⟨hfailed, hfiles⟩ := serveAt_missing hnone hop req.link
  refine ⟨h.frame hfresh (by rw [hframe]; rfl) (fun j _ => by rw [hframe]; rfl) fun s' hs' => ?_,
    fun _ => ⟨fun hop => absurd hop hcreate, fun _ => hfailed⟩⟩
  rw [hfiles]
  exact hs'

/-- A request for the orphan that is answered without a storage server, or whose storage server
fails without changing anything. -/
theorem Orphaned.of_kept (h : Orphaned net resolve cl p)
    (hkeeps : cl.KeepsCacheFresh net resolve req) (hregister : req.msg.operation ≠ .registerSs)
    (hlookup : ¬ req.msg.IsLookup)
    (hkept : (cl.nm.directory.course req.msg).directory (cl.forward net resolve req).1 =
      cl.nm.directory)
    (hfiles : (cl.forward net resolve req).2 = cl.files) :
    ∃ cl' reply, cl.handle net resolve req = some (cl', .replied reply) ∧
      Orphaned net resolve cl' p ∧
      ∀ r ∈ (cl.nm.directory.course req.msg).reply (cl.forward net resolve req).1, reply = r := by
  obtain ⟨nm', reply, hhandle, -, hfresh, hdirectory, hreply, haddress⟩ :=
    handle_of_course h.fresh hkeeps hregister hlookup
  rw [hkept] at hdirectory
  refine ⟨_, reply, hhandle, ?_, hreply⟩
  rw [hfiles]
  exact h.frame hfresh (congrFun (congrArg Directory.map hdirectory) p) (fun j _ => haddress j)
    fun _ hs => hs

theorem orphaned_deleteFile (h : Orphaned net resolve cl p)
    (hkeeps : cl.KeepsCacheFresh net resolve req) (hop : req.msg.operation = .deleteFile)
    (hpath : req.msg.path.str = p) :
    ∃ cl' x, cl.handle net resolve req = some (cl', x) ∧ Orphaned net resolve cl' p ∧
      ¬ x.Succeeded := by
  subst hpath
  obtain ⟨slot, s, hslot, hs, hnone⟩ := h.home
  have hcourse : cl.nm.directory.course req.msg = .asked slot slot cl.nm.directory
      (cl.nm.directory.forget req.msg.path.str slot) := by
    simp only [Directory.course, hop, NamingServer.map_directory, hslot]
  have hforward : cl.forward net resolve req = _ := forward_of_asked hcourse hs
  rw [if_neg (by simp [hop])] at hforward
  obtain ⟨hfailed, hfiles⟩ := serveAt_missing hnone (Or.inl hop) req.link
  rw [← hforward] at hfailed hfiles
  have hkept : (cl.nm.directory.course req.msg).directory (cl.forward net resolve req).1 =
      cl.nm.directory := by
    rw [hcourse]
    exact if_neg hfailed
  obtain ⟨cl', reply, hhandle, horphaned, hreply⟩ :=
    h.of_kept hkeeps (by simp [hop]) (by simp [Message.IsLookup, hop]) hkept hfiles
  refine ⟨cl', _, hhandle, horphaned, ?_⟩
  rw [hcourse] at hreply
  rw [hreply (cl.forward net resolve req).1.copyReply rfl]
  rintro ⟨response, heq, hresponse⟩
  obtain rfl := Exchange.replied.inj heq
  exact copyReply_not_succeeded hfailed hresponse

/-- The source of a copy is missing at its server. -/
theorem copy_of_orphan (h : Orphaned net resolve cl req.msg.path.str)
    (hkeeps : cl.KeepsCacheFresh net resolve req) (hop : req.msg.operation = .copyFile)
    {x : Exchange} (hhandle : cl.handle net resolve req = some (cl', x)) : ¬ x.Succeeded := by
  obtain ⟨slot, s, hslot, hs, hnone⟩ := h.home
  obtain ⟨nm', reply, hhandle', -, -, -, hreply, -⟩ :=
    handle_of_course h.fresh hkeeps (by simp [hop]) (by simp [Message.IsLookup, hop])
  obtain ⟨-, rfl⟩ := Prod.mk.inj (Option.some.inj (hhandle.symm.trans hhandle'))
  have hasked : ∀ target failed succeeded,
      cl.nm.directory.course req.msg = .asked slot target failed succeeded →
      ¬ reply.Succeeded := fun target failed succeeded hcourse => by
    have hforward : cl.forward net resolve req = _ := forward_of_asked hcourse hs
    rw [if_pos hop] at hforward
    have hfailed : ¬ (cl.forward net resolve req).1.Succeeded := by
      rw [hforward]
      exact copyAt_missing hnone req.link
    rw [hcourse] at hreply
    rw [hreply (cl.forward net resolve req).1.copyReply rfl]
    exact copyReply_not_succeeded hfailed
  have hanswer : ¬ reply.Succeeded := by
    cases htarget : cl.nm.search req.msg.path2.str with
    | some target =>
        refine hasked target cl.nm.directory cl.nm.directory ?_
        simp only [Directory.course, hop, NamingServer.map_directory, hslot, htarget]
    | none =>
        cases hpick : cl.nm.directory.pick with
        | some found =>
            refine hasked found.1 found.2 (found.2.record req.msg.path2.str found.1) ?_
            simp only [Directory.course, hop, NamingServer.map_directory, hslot, htarget, hpick]
        | none =>
            have hcourse : cl.nm.directory.course req.msg =
                .answered cl.nm.directory (some (.nack .ssUnavailable)) := by
              simp only [Directory.course, hop, NamingServer.map_directory, hslot, htarget, hpick]
            rw [hcourse] at hreply
            rw [hreply _ rfl]
            exact Message.nack_not_succeeded _
  rintro ⟨response, heq, hresponse⟩
  obtain rfl := Exchange.replied.inj heq
  exact hanswer hresponse

theorem orphaned_copyFile (h : Orphaned net resolve cl p) (hresolve : Function.Injective2 resolve)
    (hkeeps : cl.KeepsCacheFresh net resolve req) (hop : req.msg.operation = .copyFile)
    (hpath2 : req.msg.path2.str ≠ p) :
    ∃ cl' x, cl.handle net resolve req = some (cl', x) ∧ Orphaned net resolve cl' p ∧
      Fails p req x := by
  obtain ⟨cl', x, hhandle, hfresh⟩ := Fresh.step h.fresh hkeeps
  have htarget : p ≠ req.msg.target := by
    rw [Message.target, if_pos hop]
    exact Ne.symm hpath2
  refine ⟨cl', x, hhandle, h.of_other hresolve hhandle (by simp [hop]) hfresh htarget, ?_⟩
  rintro rfl
  exact ⟨fun hcreate => by simp [hop] at hcreate, fun _ => copy_of_orphan h hkeeps hop hhandle⟩

/-- Requests that are neither lookups nor copies and that no storage server is asked about. -/
theorem orphaned_answered (h : Orphaned net resolve cl p)
    (hkeeps : cl.KeepsCacheFresh net resolve req) (hregister : req.msg.operation ≠ .registerSs)
    (hlookup : ¬ req.msg.IsLookup) {r : Option Message}
    (hcourse : cl.nm.directory.course req.msg = .answered cl.nm.directory r) :
    ∃ cl' reply, cl.handle net resolve req = some (cl', .replied reply) ∧
      Orphaned net resolve cl' p ∧ ∀ m ∈ r, reply = m := by
  have hforward : cl.forward net resolve req = _ := forward_of_answered hcourse
  have hkept : (cl.nm.directory.course req.msg).directory (cl.forward net resolve req).1 =
      cl.nm.directory := by
    rw [hcourse]
    rfl
  have hfiles : (cl.forward net resolve req).2 = cl.files := by rw [hforward]
  obtain ⟨cl', reply, hhandle, horphaned, hreply⟩ :=
    h.of_kept hkeeps hregister hlookup hkept hfiles
  rw [hcourse] at hreply
  exact ⟨cl', reply, hhandle, horphaned, hreply⟩

theorem orphaned_createFile (h : Orphaned net resolve cl p)
    (hkeeps : cl.KeepsCacheFresh net resolve req) (hop : req.msg.operation = .createFile)
    (hpath : req.msg.path.str = p) :
    ∃ cl', cl.handle net resolve req = some (cl', .replied (.nack .fileExists)) ∧
      Orphaned net resolve cl' p := by
  obtain ⟨slot, s, hslot, -, -⟩ := h.home
  have hcourse : cl.nm.directory.course req.msg =
      .answered cl.nm.directory (some (.nack .fileExists)) := by
    simp only [Directory.course, hop, NamingServer.map_directory, hpath, hslot]
  obtain ⟨cl', reply, hhandle, horphaned, hreply⟩ :=
    orphaned_answered h hkeeps (by simp [hop]) (by simp [Message.IsLookup, hop]) hcourse
  rw [hreply _ rfl] at hhandle
  exact ⟨cl', hhandle, horphaned⟩

/-- The orphan survives every request that does not bring its file back. -/
theorem Orphaned.step (h : Orphaned net resolve cl p) (hresolve : Function.Injective2 resolve)
    (hkeeps : cl.KeepsCacheFresh net resolve req) (hrestores : ¬ Restores p req.msg) :
    ∃ cl' x, cl.handle net resolve req = some (cl', x) ∧ Orphaned net resolve cl' p ∧
      Fails p req x := by
  simp only [Restores, not_or, not_and] at hrestores
  obtain ⟨hwrite, hcopy, hlisted⟩ := hrestores
  by_cases hlookup : req.msg.IsLookup
  · exact orphaned_lookup h hresolve hkeeps hlookup hwrite
  have hother : req.msg.operation ≠ .createFile → req.msg.operation ≠ .deleteFile →
      req.msg.operation ≠ .copyFile → ∀ x, Fails p req x := fun h₁ h₂ h₃ x _ =>
    ⟨fun hop => absurd hop h₁, fun hop => by
      rcases hop with hop | hop | hop | hop
      · exact absurd hop h₂
      · exact absurd (Or.inl hop) hlookup
      · exact absurd (Or.inr (Or.inr hop)) hlookup
      · exact absurd hop h₃⟩
  have haway : req.msg.operation ≠ .registerSs → req.msg.operation ≠ .copyFile →
      req.msg.path.str ≠ p → ∃ cl' x, cl.handle net resolve req = some (cl', x) ∧
        Orphaned net resolve cl' p ∧ Fails p req x := fun hregister hnocopy hpath => by
    obtain ⟨cl', x, hhandle, hfresh⟩ := Fresh.step h.fresh hkeeps
    have htarget : p ≠ req.msg.target := by
      rw [Message.target, if_neg hnocopy]
      exact Ne.symm hpath
    exact ⟨cl', x, hhandle, h.of_other hresolve hhandle hregister hfresh htarget,
      fun heq => absurd heq hpath⟩
  cases hop : req.msg.operation with
  | readFile | writeFile | getFileInfo => simp [Message.IsLookup, hop] at hlookup
  | copyFile => exact orphaned_copyFile h hresolve hkeeps hop (hcopy hop)
  | registerSs =>
      obtain ⟨cl', x, hhandle, horphaned⟩ := orphaned_registerSs h hkeeps hop (hlisted hop)
      exact ⟨cl', x, hhandle, horphaned,
        hother (by simp [hop]) (by simp [hop]) (by simp [hop]) x⟩
  | createFile =>
      by_cases hpath : req.msg.path.str = p
      · obtain ⟨cl', hhandle, horphaned⟩ := orphaned_createFile h hkeeps hop hpath
        exact ⟨cl', _, hhandle, horphaned, fun _ => ⟨fun _ => rfl, fun hno => by simp [hop] at hno⟩⟩
      · exact haway (by simp [hop]) (by simp [hop]) hpath
  | deleteFile =>
      by_cases hpath : req.msg.path.str = p
      · obtain ⟨cl', x, hhandle, horphaned, hfailed⟩ := orphaned_deleteFile h hkeeps hop hpath
        exact ⟨cl', x, hhandle, horphaned,
          fun _ => ⟨fun hcreate => by simp [hop] at hcreate, fun _ => hfailed⟩⟩
      · exact haway (by simp [hop]) (by simp [hop]) hpath
  | _ =>
      have hcourse : ∃ r, cl.nm.directory.course req.msg = .answered cl.nm.directory r := by
        simp only [Directory.course, hop]
        exact ⟨_, rfl⟩
      obtain ⟨r, hcourse⟩ := hcourse
      obtain ⟨cl', reply, hhandle, horphaned, -⟩ :=
        orphaned_answered h hkeeps (by simp [hop]) hlookup hcourse
      exact ⟨cl', _, hhandle, horphaned,
        hother (by simp [hop]) (by simp [hop]) (by simp [hop]) _⟩

/-- The file is removed, and the naming server does not learn of it. -/
theorem orphaned_of_lost (hfresh : cl.nm.Fresh) (hkeeps : cl.KeepsCacheFresh net resolve req)
    {slot : Slot} {s : Server} (hslot : cl.nm.search req.msg.path.str = some slot)
    (hs : Listens net (cl.nm.registeredSs slot) s) (hop : req.msg.operation = .deleteFile)
    (hlost : req.link = .lost)
    (hserved : (serveAt resolve cl.files s req.os req.msg).1.Succeeded) :
    ∃ cl' x, cl.handle net resolve req = some (cl', x) ∧
      Orphaned net resolve cl' req.msg.path.str := by
  have hcourse : cl.nm.directory.course req.msg = .asked slot slot cl.nm.directory
      (cl.nm.directory.forget req.msg.path.str slot) := by
    simp only [Directory.course, hop, NamingServer.map_directory, hslot]
  have hforward : cl.forward net resolve req = _ := forward_of_asked hcourse hs
  rw [if_neg (by simp [hop]), hlost] at hforward
  obtain ⟨nm', reply, hhandle, -, hfresh', hdirectory, -, haddress⟩ :=
    handle_of_course hfresh hkeeps (by simp [hop]) (by simp [Message.IsLookup, hop])
  have hfailed : ¬ (cl.forward net resolve req).1.Succeeded := by
    rw [hforward]
    rintro ⟨response, heq, -⟩
    cases heq
  rw [hcourse] at hdirectory
  replace hdirectory : nm'.directory = cl.nm.directory := hdirectory.trans (if_neg hfailed)
  refine ⟨_, _, hhandle, hfresh', slot, s,
    (congrFun (congrArg Directory.map hdirectory) _).trans hslot, hs.congr (haddress slot), ?_⟩
  rw [hforward]
  have hgone := (serve_delete_outcome (fun path => cl.files (resolve s path)) req.os
    hop).resolve_right fun hno => hno.1 hserved
  exact (Function.update_self _ _ _).trans hgone.2

/-- A lost reply to a DELETE_FILE makes an orphan of the path: whatever is requested afterwards,
the path can be neither created nor deleted nor read, until a WRITE_FILE, a COPY_FILE to it or a
registration brings the file back. -/
theorem orphan_until_restored (net : Network) (resolve : Server → Path → F) (files₀ : Files F)
    (pre post : List ClientRequest) (del : ClientRequest) {slot : Slot} {s : Server}
    (hresolve : Function.Injective2 resolve)
    (hkeeps : EachStep (step net resolve) (KeepsCacheFresh net resolve) (start files₀)
      (pre ++ del :: post))
    (hrun : run (step net resolve) (start files₀) pre = some cl)
    (hslot : cl.nm.search del.msg.path.str = some slot)
    (hs : Listens net (cl.nm.registeredSs slot) s) (hop : del.msg.operation = .deleteFile)
    (hlost : del.link = .lost)
    (hserved : (serveAt resolve cl.files s del.os del.msg).1.Succeeded)
    (hpost : ∀ req ∈ post, ¬ Restores del.msg.path.str req.msg) :
    ∃ cl', run (step net resolve) (start files₀) (pre ++ [del]) = some cl' ∧
      (outputs (step net resolve) (answered net resolve) cl' post).map Prod.fst = post ∧
      ∀ e ∈ outputs (step net resolve) (answered net resolve) cl' post,
        Fails del.msg.path.str e.1 e.2 := by
  have hsplit : pre ++ del :: post = (pre ++ [del]) ++ post := by simp
  rw [hsplit] at hkeeps
  have hfresh : cl.nm.Fresh := hkeeps.of_append.of_append.invariant
    (I := fun cl => cl.nm.Fresh) NamingServer.fresh_init (fun t req u h hk hu => by
      obtain ⟨u', x, hu', h'⟩ := Fresh.step h hk
      have hstep : Cluster.step net resolve t req = some u' := congrArg (Option.map Prod.fst) hu'
      rw [← Option.some.inj (hstep.symm.trans hu)]
      exact h') hrun
  obtain ⟨cl₁, x, hhandle, horphaned⟩ := orphaned_of_lost hfresh (hkeeps.of_append.last hrun)
    hslot hs hop hlost hserved
  have hrun₁ : run (step net resolve) (start files₀) (pre ++ [del]) = some cl₁ :=
    run_concat_eq_some.mpr ⟨cl, hrun, congrArg (Option.map Prod.fst) hhandle⟩
  refine ⟨cl₁, hrun₁, ?_⟩
  have hrest : EachStep (step net resolve) (fun cl req => cl.KeepsCacheFresh net resolve req ∧
      ¬ Restores del.msg.path.str req.msg) cl₁ post := by
    refine EachStep.and_forall ?_ hpost
    intro before req after t heq ht
    refine hkeeps (pre ++ [del] ++ before) req after t (by simp [heq]) ?_
    rw [run_append, hrun₁, Option.bind_some, ht]
  obtain ⟨cl', -, -, hreqs, hfails, -⟩ := hrest.defined
    (I := fun before cl => run (step net resolve) cl₁ before = some cl ∧
      (outputs (step net resolve) (answered net resolve) cl₁ before).map Prod.fst = before ∧
      (∀ e ∈ outputs (step net resolve) (answered net resolve) cl₁ before,
        Fails del.msg.path.str e.1 e.2) ∧ Orphaned net resolve cl del.msg.path.str)
    ⟨rfl, rfl, by simp [outputs], horphaned⟩ <| by
      rintro before cl req ⟨hbefore, hreqs, hfails, h⟩ ⟨hkeeps, hrestores⟩
      obtain ⟨cl', x, hhandle, h', hfail⟩ := h.step hresolve hkeeps hrestores
      have hstep : Cluster.step net resolve cl req = some cl' :=
        congrArg (Option.map Prod.fst) hhandle
      have hout : outputs (step net resolve) (answered net resolve) cl₁ (before ++ [req]) =
          outputs (step net resolve) (answered net resolve) cl₁ before ++ [(req, x)] := by
        rw [outputs_append hbefore, outputs_singleton hstep, answered, hhandle]
        rfl
      refine ⟨cl', hstep, run_concat_eq_some.mpr ⟨cl, hbefore, hstep⟩, ?_, ?_, h'⟩
      · rw [hout, List.map_append, hreqs]
        rfl
      · rw [hout]
        intro e he
        rcases List.mem_append.mp he with he | he
        · exact hfails e he
        · obtain rfl := List.mem_singleton.mp he
          exact hfail
  exact ⟨hreqs, hfails⟩

end
open ClientRequest

/-- The DELETE_FILE of `/a`, whose reply is lost. -/
def deleteLost : ClientRequest where
  msg := { Message.zero with operation := .deleteFile, path := .ofBytes _ [47, 97] }
  sendable := by decide +kernel
  malloc := true
  tempPath _ := 0
  link := .lost
  os := .ok
  copyLink := .works
  copyOs := .ok

def createA : ClientRequest :=
  .ofMessage { Message.zero with operation := .createFile, path := .ofBytes _ [47, 97] }
    (by decide +kernel)

theorem orphan_until_restored_createA :
    ∃ cl, Machine.run (step portNetwork hostEach) (start notesAtA) [registerTwo, deleteLost] =
        some cl ∧
      (outputs (step portNetwork hostEach) (answered portNetwork hostEach) cl
        [createA, readA]).map Prod.fst = [createA, readA] ∧
      ∀ e ∈ outputs (step portNetwork hostEach) (answered portNetwork hostEach) cl
        [createA, readA], Fails deleteLost.msg.path.str e.1 e.2 := by
  have hresolve : Function.Injective2 hostEach := fun _ _ _ _ heq => Prod.mk.inj heq
  have hany : (Machine.run (step portNetwork hostEach) (start notesAtA) [registerTwo]).any fun cl =>
      (cl.nm.search deleteLost.msg.path.str = some 0 ∧
        cl.nm.address 0 = ([49], 2, 2)) ∧
      ¬ (cl.surroundings portNetwork hostEach deleteLost).exchange.Succeeded ∧
      (serveAt hostEach cl.files 2 deleteLost.os deleteLost.msg).1.Succeeded ∧
      ((step portNetwork hostEach cl deleteLost).bind (step portNetwork hostEach · createA)).all
        fun cl => cl.nm.pathLruCache.SlotLive readA.msg.path.str := by
    decide +kernel
  obtain ⟨cl, hrun, hcl⟩ := (Option.any_eq_true _ _).mp hany
  obtain ⟨⟨hslot, haddress⟩, hfailed, hserved, hlive⟩ := of_decide_eq_true hcl
  have hs : Listens portNetwork (cl.nm.registeredSs 0) 2 := by
    change ((cl.nm.registeredSs 0).ip, (cl.nm.registeredSs 0).nmPort,
      (cl.nm.registeredSs 0).clientPort) = _ at haddress
    simp only [Prod.mk.injEq] at haddress
    obtain ⟨hip, hnm, hclient⟩ := haddress
    refine ⟨by rw [hip]; decide, ?_, ?_⟩
    · rw [hnm]
      rfl
    · rw [hclient]
      rfl
  have hcreate : ¬ Restores deleteLost.msg.path.str createA.msg := by decide +kernel
  have hread : ¬ Restores deleteLost.msg.path.str readA.msg := by decide +kernel
  have hpost : ∀ req ∈ [createA, readA], ¬ Restores deleteLost.msg.path.str req.msg := by
    simp [hcreate, hread]
  refine orphan_until_restored portNetwork hostEach notesAtA [registerTwo] [createA, readA]
    deleteLost hresolve ?_ hrun hslot hs rfl rfl hserved hpost
  refine .cons (fun _ p n hp => by cases hp) fun cl₁ h₁ => ?_
  obtain rfl : cl₁ = cl := by
    rw [run_cons, h₁] at hrun
    exact Option.some.inj hrun
  refine .cons (fun _ hsucceeded => absurd hsucceeded hfailed) fun cl₂ h₂ => ?_
  refine .cons trivial fun cl₃ h₃ => .cons ?_ fun _ _ => eachStep_nil _ _
  rw [h₂, Option.bind_some, h₃] at hlive
  have hlive : cl₃.nm.pathLruCache.SlotLive readA.msg.path.str := of_decide_eq_true hlive
  exact hlive

end Cluster
end NetworkFileSystem
