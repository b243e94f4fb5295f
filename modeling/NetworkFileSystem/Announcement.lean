import NetworkFileSystem.RegistrySlots
import NetworkFileSystem.ServerPrograms

/-!
# Where a storage server is reached

A storage server registers before it listens. The names and ports that it announces pass through
its registration, the registry and the messages of the naming server, and lead to the sockets that
it then binds.
-/

namespace NetworkFileSystem

open Interaction Interleaving.World Machine

namespace Sockets.Server

structure Announced where
  /-- The answer of `getsockname`. -/
  hostAddr : Option InAddr
  sent : List Message
  /-- The ports at which a socket is bound, in the order in which they were bound. -/
  bound : List InPort

/-- A storage server registers before it binds its ports. -/
def announces : Protocol (Call.Response ServerAccess.Response) Announced where
  allowed t
    | .send _ _ => t.bound = []
    | _ => True
  responds _ _ _ := True
  after t
    | .getsockname _, (addr : Option InAddr) => { t with hostAddr := addr }
    | .send _ msg, _ => { t with sent := t.sent ++ [msg] }
    | .bind _ port, (bound : Bool) => if bound then { t with bound := t.bound ++ [port] } else t
    | _, _ => t

/-- The address that a storage server registers. -/
def hostName : Option InAddr → CString
  | none => localhost
  | some addr => inetNtop addr

/-- A process that connects to this name and port comes to the `k`-th socket that was bound. -/
def Announced.ReachedAt (t : Announced) (k : ℕ) (ip : CString) (port : Int32) : Prop :=
  inetPton ip = some (t.hostAddr.getD ⟨[127, 0, 0, 1], rfl⟩) ∧ t.bound[k]? = some (htons port)

/-- What the registry has of a storage server leads the naming server to its first socket, and the
clients and the other storage servers to its second one. -/
structure Announced.Reached (t : Announced) (info : StorageServerInfo) : Prop where
  naming : t.ReachedAt 0 info.ip info.nmPort
  client : t.ReachedAt 1 (Message.located info).ssIp.str (Message.located info).ssClientPort
  source : ∀ req, t.ReachedAt 1 (Message.copyRequest req info).destSsIp.str
    (Message.copyRequest req info).destSsClientPort

section Announced

variable {t : Announced}

theorem announced_getLocalIp :
    Meets announces getLocalIp (fun ip t => ip = hostName t.hostAddr ∧ t.sent = [] ∧ t.bound = [])
      ⟨none, [], []⟩ := by
  refine ⟨trivial, fun fd _ => ?_⟩
  cases fd with
  | none => exact ⟨rfl, rfl, rfl⟩
  | some fd =>
      refine ⟨trivial, fun connected _ => ?_⟩
      cases connected with
      | false => exact ⟨trivial, fun _ _ => ⟨rfl, rfl, rfl⟩⟩
      | true =>
          refine ⟨trivial, fun addr _ => ?_⟩
          cases addr with
          | none => exact ⟨trivial, fun _ _ => ⟨rfl, rfl, rfl⟩⟩
          | some addr => exact ⟨trivial, fun _ _ => ⟨rfl, rfl, rfl⟩⟩

theorem announced_exchange {ip : CString} {port : Int32} {msg : Message} (hsent : t.sent = [])
    (hbound : t.bound = []) :
    Meets announces (exchange (A := ServerAccess.Response) (pure (ip, port)) (pure msg))
      (fun e u => e.Succeeded → u = { t with sent := [msg] }) t := by
  have hfailed : ∀ e : Exchange, ¬ e.Succeeded → ∀ u : Announced,
      e.Succeeded → u = { t with sent := [msg] } := fun _ hne _ he => absurd he hne
  refine ⟨trivial, fun fd _ => ?_⟩
  cases fd with
  | none => exact hfailed .socketFailed (by decide) _
  | some fd =>
      have hclose : ∀ e : Exchange, ¬ e.Succeeded → ∀ u,
          Meets announces (close fd >>= fun _ => pure e)
            (fun e u => e.Succeeded → u = { t with sent := [msg] }) u :=
        fun e he u => ⟨trivial, fun _ _ => hfailed e he _⟩
      have hconnect : Meets announces (connectToServer fd ip port) (fun _ u => t = u) t := by
        unfold connectToServer
        split
        · exact rfl
        · exact ⟨trivial, fun _ _ => rfl⟩
      change Meets announces (connectToServer fd ip port >>= _) _ t
      refine meets_bind.mpr (hconnect.mono ?_)
      rintro connected _ rfl
      cases connected with
      | false => exact hclose .connectFailed (by decide) _
      | true =>
          refine meets_perform_bind.mpr ⟨hbound, fun sent _ => ?_⟩
          cases sent with
          | false => exact hclose .sendFailed (by decide) _
          | true =>
              refine meets_perform_bind.mpr ⟨trivial, fun response _ => ?_⟩
              cases response with
              | none => exact hclose .receiveFailed (by decide) _
              | some response =>
                  refine ⟨trivial, fun _ _ _ => ?_⟩
                  exact congrArg (fun l => { t with sent := l ++ [msg] }) hsent

theorem announced_openListening (port : Int32) :
    Meets announces (openListening port)
      (fun fd u => fd ≠ none → u = { t with bound := t.bound ++ [htons port] }) t := by
  refine ⟨trivial, fun fd _ => ?_⟩
  cases fd with
  | none => exact fun h => absurd rfl h
  | some fd =>
      refine ⟨trivial, fun bound _ => ?_⟩
      cases bound with
      | false => exact ⟨trivial, fun _ _ h => absurd rfl h⟩
      | true =>
          refine ⟨trivial, fun listening _ => ?_⟩
          cases listening with
          | false => exact ⟨trivial, fun _ _ h => absurd rfl h⟩
          | true => exact fun _ => rfl

/-- The loop changes nothing of this. -/
theorem announced_acceptOn (fd : Fd) : Meets announces (acceptOn fd) (fun _ u => u = t) t := by
  refine ⟨trivial, fun block _ => ?_⟩
  cases block with
  | none => exact rfl
  | some block =>
      refine ⟨trivial, fun conn _ => ?_⟩
      cases conn with
      | none => exact ⟨trivial, fun _ _ => rfl⟩
      | some conn =>
          refine ⟨trivial, fun code _ => ?_⟩
          change Meets announces (if Int32.toInt code < 0 then _ else _) _ _
          split_ifs
          · exact ⟨trivial, fun _ _ => ⟨trivial, fun _ _ => rfl⟩⟩
          · exact ⟨trivial, fun _ _ => rfl⟩

theorem announced_serveReady (nmSock clientSock : Fd) :
    Meets announces (serveReady nmSock clientSock) (fun _ u => u = t) t := by
  have hdrop : Meets announces (acceptOn clientSock >>= fun _ => pure ()) (fun _ u => u = t) t :=
    meets_bind.mpr ((announced_acceptOn clientSock).mono fun _ _ h => h)
  refine meets_perform_bind.mpr ⟨trivial, fun ready _ => ?_⟩
  obtain ⟨nmReady, clientReady⟩ : Bool × Bool := ready
  cases nmReady with
  | true =>
      refine meets_bind.mpr ((announced_acceptOn nmSock).mono ?_)
      rintro started _ rfl
      cases started with
      | false => exact rfl
      | true =>
          cases clientReady with
          | false => exact rfl
          | true => exact hdrop
  | false =>
      cases clientReady with
      | false => exact rfl
      | true => exact hdrop

theorem announced_listenAndServe (nmPort clientPort : Int32) (rounds : ℕ) :
    Meets announces (listenAndServe nmPort clientPort rounds)
      (fun status u => status = none →
        u = { t with bound := t.bound ++ [htons nmPort] ++ [htons clientPort] }) t := by
  refine meets_bind.mpr ((announced_openListening nmPort).mono fun nmSock u hu => ?_)
  cases nmSock with
  | none => exact ⟨trivial, fun _ _ => nofun⟩
  | some nmSock =>
      obtain rfl := hu nofun
      refine meets_bind.mpr ((announced_openListening clientPort).mono fun clientSock u hu => ?_)
      cases clientSock with
      | none => exact ⟨trivial, fun _ _ => nofun⟩
      | some clientSock =>
          obtain rfl := hu nofun
          refine meets_bind.mpr ((meets_iterate (I := fun u => u = _) (fun u hu => ?_) rounds
            rfl).mono fun _ u hu _ => hu)
          subst hu
          exact announced_serveReady nmSock clientSock

/-- A storage server that runs has registered with its address and the ports that it then bound. -/
theorem announced_storageMain {progName nmIp nmPort clientPort ssNmPort path : CString}
    {paths : List CString} {rounds : ℕ} :
    Meets announces
      (storageMain (progName :: nmIp :: nmPort :: clientPort :: ssNmPort :: path :: paths) rounds)
      (fun status u => status = none →
        u.sent = [registerMsg (hostName u.hostAddr) (atoi ssNmPort) (atoi clientPort)
          ((path :: paths).take maxAccessiblePaths)] ∧
        u.bound = [htons (atoi ssNmPort), htons (atoi clientPort)])
      ⟨none, [], []⟩ := by
  refine meets_bind.mpr (announced_getLocalIp.mono ?_)
  rintro _ u ⟨rfl, hsent, hbound⟩
  refine meets_perform_bind.mpr ⟨trivial, fun _ _ => ?_⟩
  refine meets_bind.mpr ((announced_exchange hsent hbound).mono fun registration v hv => ?_)
  split_ifs with hregistered
  · obtain rfl := hv hregistered
    refine (announced_listenAndServe _ _ rounds).mono fun status v hv hstatus => ?_
    obtain rfl := hv hstatus
    refine ⟨rfl, ?_⟩
    change u.bound ++ _ ++ _ = _
    rw [hbound]
    rfl
  · exact ⟨trivial, fun _ _ => nofun⟩

theorem hostName_fits (addr : Option InAddr) :
    0 ∉ hostName addr ∧ (hostName addr).length < inetAddrStrLen := by
  cases addr with
  | none => exact ⟨by decide, by decide⟩
  | some addr => exact inetNtop_fits addr

theorem inetPton_hostName (addr : Option InAddr) :
    inetPton (hostName addr) = some (addr.getD ⟨[127, 0, 0, 1], rfl⟩) := by
  cases addr with
  | none => decide
  | some addr => exact inetPton_inetNtop addr

theorem reached_of_address {port clientPort : Int32} {paths : List CString}
    (hbound : t.bound = [htons port, htons clientPort]) {info : StorageServerInfo}
    (haddress : info.address =
      (registerMsg (hostName t.hostAddr) port clientPort paths).address) :
    t.Reached info := by
  obtain ⟨hzero, hlength⟩ := hostName_fits t.hostAddr
  have hstr : (CharArray.ofBytes inetAddrStrLen (hostName t.hostAddr)).str =
      hostName t.hostAddr := CharArray.str_ofBytes hzero hlength
  obtain ⟨hip, hnm, hclient⟩ : info.ip = hostName t.hostAddr ∧ info.nmPort = port ∧
      info.clientPort = clientPort := by
    simpa only [StorageServerInfo.address, Message.address, registerMsg, hstr,
      Prod.mk.injEq] using haddress
  have hreached : t.ReachedAt 1 (CharArray.ofBytes inetAddrStrLen info.ip).str info.clientPort := by
    rw [hip, hstr, hclient]
    exact ⟨inetPton_hostName _, by rw [hbound]; rfl⟩
  refine ⟨⟨?_, ?_⟩, hreached, fun _ => hreached⟩
  · rw [hip, inetPton_hostName]
  · rw [hbound, hnm]
    rfl

variable {progName nmIp nmPort clientPort ssNmPort path : CString} {paths : List CString}
  {rounds : ℕ} {tr : List (Sigma (Call.Response ServerAccess.Response))}

/-- A storage server that runs has sent one message. In every run of the system, once the naming
server has accepted this message as a registration, what it has in the registry leads to the sockets
that the storage server has bound. -/
theorem storageServer_reachable
    (htr : Trace
      (storageMain (progName :: nmIp :: nmPort :: clientPort :: ssNmPort :: path :: paths) rounds)
      tr (pure none)) :
    ∃ msg, (announces.final ⟨none, [], []⟩ tr).sent = [msg] ∧
      ∀ {net : Network} {disks : Server → Disk} {as : List (ℕ × Action)} {w : World} {slot : Slot},
        run (step net) (start ⟨.init fun _ => none, none, disks⟩) as = some w →
        (slot, msg) ∈ registrations net ⟨.init fun _ => none, none, disks⟩ as →
        (announces.final ⟨none, [], []⟩ tr).Reached (w.shared.nm.registeredSs slot) := by
  obtain ⟨-, hfinal⟩ := announced_storageMain.of_trace htr
    (Protocol.responds_of_forall (fun _ _ _ => trivial) _ tr)
  obtain ⟨hsent, hbound⟩ := hfinal rfl
  refine ⟨_, hsent, fun hrun hmem => ?_⟩
  exact reached_of_address hbound ((assigned_of_run hrun).address _ _ hmem)

/-- `storage_server 10.0.0.9 80 90 91 /a`, which has served two connections. -/
def serving : List (Sigma (Call.Response ServerAccess.Response)) × Option ExitStatus :=
  (storageMain [[115], text "10.0.0.9", text "80", text "90", text "91", text "/a"] 1).play
    accepting 0

def servingMsg : Message := registerMsg (text "10.0.0.5") 91 90 [text "/a"]

theorem storageServer_reachable_serving :
    ∃ w, run (step portNetwork) (start ⟨.init fun _ => none, none, fun _ _ => none⟩)
        [(0, .submit servingMsg), (0, .nm), (0, .nm)] = some w ∧
      (announces.final ⟨none, [], []⟩ serving.1).Reached (w.shared.nm.registeredSs 0) := by
  have hstatus : serving.2 = none := by rfl
  have hsent : (announces.final ⟨none, [], []⟩ serving.1).sent = [servingMsg] := by rfl
  have hregistered : registrations portNetwork ⟨.init fun _ => none, none, fun _ _ => none⟩
      [(0, .submit servingMsg), (0, .nm), (0, .nm)] = [(0, servingMsg)] := by rfl
  have hany : (run (step portNetwork) (start ⟨.init fun _ => none, none, fun _ _ => none⟩)
      [(0, .submit servingMsg), (0, .nm), (0, .nm)]).isSome := by decide +kernel
  obtain ⟨w, hrun⟩ := Option.isSome_iff_exists.mp hany
  obtain ⟨msg, hmsg, hreached⟩ := storageServer_reachable
    (hstatus ▸ trace_play accepting 0 (storageMain [[115], text "10.0.0.9", text "80", text "90",
      text "91", text "/a"] 1))
  obtain rfl : servingMsg = msg := List.singleton_inj.mp (hsent.symm.trans hmsg)
  exact ⟨w, hrun, hreached hrun (hregistered ▸ List.mem_singleton_self _)⟩

end Announced

end Sockets.Server
end NetworkFileSystem
