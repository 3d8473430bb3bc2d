import Bootd.L1Wire.Rmp
import Bootd.L2State.Files
import Bootd.L2State.Hosts
import Bootd.L2State.Listeners

/-!
# The bootparam procedures (`bootparam.c:25-128`)

The RPC library decodes the arguments, calls one of the two procedures, and
encodes the record it gets back; a NULL pointer means no reply. Both only read
the tables. They look for the listener with `xp_port`, which is not a descriptor.

* `whoami_ok`, `getfile_ok`: what a reply says of the tables.
-/
namespace Bootd

open Bootd.Core

/-- `SERVICE_BOOTPARM`. mirrors src/service.h:45-51 -/
def serviceBootparm : Nat := 32

/-- `bp_whoami_res`; the address as the four bytes of `bp_address_u`. -/
structure WhoamiRes where
  clientName : Option CStr
  domainName : CStr
  routerAddress : List UInt8
  deriving DecidableEq

/-- `bp_getfile_res` -/
structure GetfileRes where
  serverName : Option CStr
  serverPath : Option CStr
  serverAddress : List UInt8
  deriving DecidableEq

/-- The record of a host that may use bootparam.
mirrors src/bootparam.c:44-54, src/bootparam.c:92-102 -/
def bootparamHost (w : World) : Option HostId → Option Host
  | none => none
  | some h =>
    match w.hosts[h]? with
    | none => none
    | some host => if host.service &&& serviceBootparm = 0 then none else some host

/-- `pip` is the address in the request, `port` is `rqstp->rq_xprt->xp_port`.
mirrors src/bootparam.c:25-76 -/
def bootparamprocWhoami (w : World) (pip : Ip) (port : Nat) : Except Fault (Option WhoamiRes) := do
  match bootparamHost w (← utilIp2host w pip) with
  | none => .ok none
  | some host =>
    match listenerSearchByFd w.listeners port with
    | none => .ok none
    | some l => .ok (some ⟨host.name, [], ipBytes l.ip⟩)

/-- mirrors src/bootparam.c:78-128 -/
def bootparamprocGetfile (w : World) (clientName fileId : CStr) (port : Nat) :
    Except Fault (Option GetfileRes) := do
  match bootparamHost w (← utilName2host w clientName) with
  | none => .ok none
  | some host =>
    match utilName2file host.files serviceBootparm (some fileId) 0 with
    | none => .ok none
    | some f =>
      match listenerSearchByFd w.listeners port with
      | none => .ok none
      | some l => .ok (some ⟨f.server, f.path, ipBytes l.ip⟩)

section
variable {w : World} {o : Option HostId} {host : Host} {pip : Ip} {clientName fileId : CStr} {port : Nat}

theorem bootparamHost_iff : bootparamHost w o = some host ↔
    ∃ h, o = some h ∧ w.hosts[h]? = some host ∧ host.service &&& serviceBootparm ≠ 0 := by
  cases o with
  | none => simp [bootparamHost]
  | some h =>
    simp only [bootparamHost, Option.some.injEq, exists_eq_left']
    cases w.hosts[h]? with
    | none => simp
    | some host' =>
      simp only [Option.some.injEq, Option.ite_none_left_eq_some]
      constructor
      · rintro ⟨hsvc, rfl⟩
        exact ⟨rfl, hsvc⟩
      · rintro ⟨rfl, hsvc⟩
        exact ⟨hsvc, rfl⟩

/-- A reply to WHOAMI is for the host with that address, which may use bootparam. -/
theorem whoami_ok {res : WhoamiRes} (hr : bootparamprocWhoami w pip port = .ok (some res)) :
    ∃ h host l, utilIp2host w pip = .ok (some h) ∧ w.hosts[h]? = some host ∧
      host.service &&& serviceBootparm ≠ 0 ∧ listenerSearchByFd w.listeners port = some l ∧
      res = ⟨host.name, [], ipBytes l.ip⟩ := by
  unfold bootparamprocWhoami at hr
  cases ho : utilIp2host w pip with
  | error e => simp [ho, bind, Except.bind] at hr
  | ok o =>
    simp only [ho, bind, Except.bind] at hr
    cases hh : bootparamHost w o with
    | none => simp [hh] at hr
    | some host =>
      obtain ⟨h, rfl, hhost, hsvc⟩ := bootparamHost_iff.mp hh
      simp only [hh] at hr
      cases hl : listenerSearchByFd w.listeners port with
      | none => simp [hl] at hr
      | some l =>
        simp only [hl] at hr
        cases hr
        exact ⟨h, host, l, rfl, hhost, hsvc, rfl, rfl⟩

/-- A reply to GETFILE is for a file that may be used through bootparam. -/
theorem getfile_ok {res : GetfileRes} (hr : bootparamprocGetfile w clientName fileId port = .ok (some res)) :
    ∃ h host f l, utilName2host w clientName = .ok (some h) ∧ w.hosts[h]? = some host ∧
      host.service &&& serviceBootparm ≠ 0 ∧
      utilName2file host.files serviceBootparm (some fileId) 0 = some f ∧
      listenerSearchByFd w.listeners port = some l ∧ res = ⟨f.server, f.path, ipBytes l.ip⟩ := by
  unfold bootparamprocGetfile at hr
  cases ho : utilName2host w clientName with
  | error e => simp [ho, bind, Except.bind] at hr
  | ok o =>
    simp only [ho, bind, Except.bind] at hr
    cases hh : bootparamHost w o with
    | none => simp [hh] at hr
    | some host =>
      obtain ⟨h, rfl, hhost, hsvc⟩ := bootparamHost_iff.mp hh
      simp only [hh] at hr
      cases hf : utilName2file host.files serviceBootparm (some fileId) 0 with
      | none => simp [hf] at hr
      | some f =>
        simp only [hf] at hr
        cases hl : listenerSearchByFd w.listeners port with
        | none => simp [hl] at hr
        | some l =>
          simp only [hl] at hr
          cases hr
          exact ⟨h, host, f, l, rfl, hhost, hsvc, hf, rfl, rfl⟩

end
end Bootd
