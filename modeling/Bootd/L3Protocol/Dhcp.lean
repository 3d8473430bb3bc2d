import Mathlib.Data.List.TakeWhile
import Bootd.L2State.Hosts
import Bootd.L2State.World

/-!
# The DHCP handler (`dhcp.c:7-69`)

The handler checks a request and looks for its host, and then only writes to the
log: it sends nothing and changes nothing, whatever comes in.
-/
namespace Bootd

open Bootd.Core

/-! ## Packets (`dhcp.h`) -/

/-- The C string at `o`, as far as its first `n` bytes go. -/
def Pkt.cstrAt (p : Pkt) (o n : Nat) : CStr := (p.bytes o n).takeWhile (· ≠ 0)

def Pkt.dhcpHops (p : Pkt) : UInt8 := p.mem 3

/-- `req->chaddr`, read as an Ethernet address. -/
def Pkt.dhcpChaddr (p : Pkt) : Ether := p.ether 28

/-- `sizeof(req->sname)` and `sizeof(req->file)`. -/
def dhcpSnameSize : Nat := 64

def dhcpFileSize : Nat := 128

/-- `req->sname` and `req->file`, with one byte more than they have room for. -/
def Pkt.dhcpSname (p : Pkt) : CStr := p.cstrAt 44 (dhcpSnameSize + 1)

def Pkt.dhcpFile (p : Pkt) : CStr := p.cstrAt 108 (dhcpFileSize + 1)

/-! ## The handler -/

/-- The request is for another server; a NULL name is followed.
mirrors src/dhcp.c:33 -/
def dhcpOtherServer (l : Listener) (sname : CStr) : Except Fault Bool :=
  if sname = [] then .ok false
  else
    match l.name with
    | none => .error .segv
    | some name => .ok (sname ≠ name)

/-- mirrors src/dhcp.c:7-69 -/
def dhcpHandler (l : Listener) (p : Pkt) : M Unit :=
  if 16 < p.dhcpHops then pure ()
  -- `strlen` compared with the size, not with the last index
  else if dhcpSnameSize < p.dhcpSname.length ∨ dhcpFileSize < p.dhcpFile.length then pure ()
  else do
    if ← Exec.liftE (dhcpOtherServer l p.dhcpSname) then pure ()
    else
      match ← Exec.liftE (utilEther2host (← get) p.dhcpChaddr) with
      | none => pure ()
      | some h => do
        -- the service of the host is only looked at for the log
        let _ ← loadHost h
        pure ()

/-- A DHCP request leaves the daemon as it was. -/
theorem dhcpHandler_ok {l : Listener} {p : Pkt} {w w' : World} {u : Unit}
    (hr : dhcpHandler l p w = .ok u w') : w' = w := by
  unfold dhcpHandler at hr
  split at hr
  · exact (Exec.pure_ok.mp hr).2.symm
  · split at hr
    · exact (Exec.pure_ok.mp hr).2.symm
    · simp only [Exec.bind_ok, Exec.liftE_ok_iff] at hr
      obtain ⟨other, _, ⟨-, rfl⟩, hr⟩ := hr
      split at hr
      · exact (Exec.pure_ok.mp hr).2.symm
      · simp only [Exec.bind_ok, Exec.liftE_ok_iff, Exec.get_ok] at hr
        obtain ⟨_, _, ⟨rfl, rfl⟩, o, _, ⟨-, rfl⟩, hr⟩ := hr
        cases o with
        | none => exact (Exec.pure_ok.mp hr).2.symm
        | some h =>
          simp only [Exec.bind_ok, loadHost_ok, Exec.pure_ok] at hr
          obtain ⟨_, _, ⟨-, rfl⟩, -, rfl⟩ := hr
          rfl

end Bootd
